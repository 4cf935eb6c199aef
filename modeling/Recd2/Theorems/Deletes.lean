import Recd2.Arrays
import Recd2.Theorems.Samples

/-! What `record` deletes. Apart from the arrays, a call goes as the recorder alone does; it goes through exactly when all
    its blocks are from `new` and none of their arrays was deleted before or is there twice. -/

namespace Recd2

/-! ### The blocks of the server -/

namespace Server
variable {clears : Bool} {blocks ls : QList} {n top : Nat}

theorem mem_newBlocks {b : Block} (hb : b ∈ newBlocks top ls) : b.samples ≠ none ∧ b.data ∈ ls := by
  obtain ⟨p, hp, rfl⟩ := List.mem_map.mp hb
  exact ⟨Option.some_ne_none _, List.fst_mem_of_mem_zipIdx hp⟩

/-- Each block of the loop has an array and is one of those that a round builds. -/
theorem mem_errLoopBlocks {errLs : List Block} (hpre : ∀ b ∈ errLs, b.samples ≠ none ∧ b.data ∈ blocks) :
    ∀ b ∈ (errLoopBlocks clears blocks n top errLs).flatten, b.samples ≠ none ∧ b.data ∈ blocks := by
  induction n generalizing top errLs with
  | zero => exact fun b hb => by cases hb
  | succ n ih =>
    have hround : ∀ b ∈ errLs ++ newBlocks top blocks, b.samples ≠ none ∧ b.data ∈ blocks := fun b hb =>
      (List.mem_append.mp hb).elim (hpre b) mem_newBlocks
    have hleft : ∀ b ∈ putBlocks clears (errLs ++ newBlocks top blocks),
        b.samples ≠ none ∧ b.data ∈ blocks := fun b hb => by
      rw [putBlocks] at hb
      split at hb
      · cases hb
      · exact hround b hb
    intro b hb
    rw [errLoopBlocks, List.flatten_cons] at hb
    exact (List.mem_append.mp hb).elim (hround b) (ih hleft b)

end Server

namespace Recorder
variable {env : Env} {dead dead' : List Nat} {sd : List Block} {b : Block}

/-! ### The arrays of a list -/

/-- The arrays of the blocks, deleted one after the other. -/
def deleteAll (dead : List Nat) (sd : List Block) : Option (List Nat) := Run.exec deleteSamples dead sd

/-- Each block has an array of its own, which was not deleted before. -/
structure Deletable (dead : List Nat) (sd : List Block) : Prop where
  own : ∀ b ∈ sd, b.samples ≠ none
  alive : ∀ a ∈ sd.filterMap Block.samples, a ∉ dead
  once : (sd.filterMap Block.samples).Nodup

theorem deletable_nil (dead : List Nat) : Deletable dead [] :=
  ⟨fun _ hb => (by cases hb), fun _ ha => (by cases ha), List.nodup_nil⟩

theorem deletable_cons_iff :
    Deletable dead (b :: sd) ↔ ∃ a, b.samples = some a ∧ a ∉ dead ∧ Deletable (a :: dead) sd := by
  cases hb : b.samples with
  | none =>
    refine iff_of_false (fun h => h.own b List.mem_cons_self hb) fun h => ?_
    obtain ⟨a, ha, -⟩ := h
    cases ha
  | some a =>
    have harrays : (b :: sd).filterMap Block.samples = a :: sd.filterMap Block.samples := List.filterMap_cons_some hb
    constructor
    · rintro ⟨hown, halive, honce⟩
      rw [harrays] at halive honce
      obtain ⟨hfirst, honce⟩ := List.nodup_cons.mp honce
      refine ⟨a, rfl, halive a List.mem_cons_self, fun c hc => hown c (List.mem_cons_of_mem b hc), fun x hx hdead => ?_,
        honce⟩
      rcases List.mem_cons.mp hdead with rfl | hdead
      · exact hfirst hx
      · exact halive x (List.mem_cons_of_mem a hx) hdead
    · rintro ⟨a', ha', hdead, hown, halive, honce⟩
      obtain rfl := Option.some.inj ha'
      have hfirst : a ∉ sd.filterMap Block.samples := fun ha => halive a ha List.mem_cons_self
      refine ⟨fun c hc => ?_, fun x hx => ?_, ?_⟩
      · rcases List.mem_cons.mp hc with rfl | hc
        · rw [hb]
          exact Option.some_ne_none a
        · exact hown c hc
      · rw [harrays] at hx
        rcases List.mem_cons.mp hx with rfl | hx
        · exact hdead
        · exact fun hxd => halive x hx (List.mem_cons_of_mem a hxd)
      · rw [harrays]
        exact List.nodup_cons.mpr ⟨hfirst, honce⟩

theorem deleteSamples_eq_some_iff :
    deleteSamples dead b = some dead' ↔ ∃ a, b.samples = some a ∧ a ∉ dead ∧ dead' = a :: dead := by
  rw [deleteSamples]
  cases b.samples with
  | none => simp
  | some a =>
    by_cases ha : a ∈ dead
    · simp [ha]
    · simp [ha, eq_comm]

/-- The arrays go through exactly when they can be deleted, and then they all are. -/
theorem deleteAll_eq_some_iff :
    deleteAll dead sd = some dead' ↔
      Deletable dead sd ∧ dead' = (sd.filterMap Block.samples).reverse ++ dead := by
  induction sd generalizing dead with
  | nil =>
    rw [and_iff_right (deletable_nil dead), eq_comm (a := dead')]
    exact Option.some_inj
  | cons b sd ih =>
    rw [deleteAll, Run.exec_cons, Option.bind_eq_some_iff, deletable_cons_iff]
    constructor
    · rintro ⟨dead₁, hfirst, hrest⟩
      obtain ⟨a, ha, hdead, rfl⟩ := deleteSamples_eq_some_iff.mp hfirst
      obtain ⟨hdel, rfl⟩ := ih.mp hrest
      refine ⟨⟨a, ha, hdead, hdel⟩, ?_⟩
      rw [List.filterMap_cons_some ha, List.reverse_cons, List.append_assoc]
      rfl
    · rintro ⟨⟨a, ha, hdead, hdel⟩, rfl⟩
      refine ⟨_, deleteSamples_eq_some_iff.mpr ⟨a, ha, hdead, rfl⟩, ih.mpr ⟨hdel, ?_⟩⟩
      rw [List.filterMap_cons_some ha, List.reverse_cons, List.append_assoc]
      rfl

theorem deleteAll_of_deletable (h : Deletable dead sd) :
    deleteAll dead sd = some ((sd.filterMap Block.samples).reverse ++ dead) :=
  deleteAll_eq_some_iff.mpr ⟨h, rfl⟩

/-! ### One call of `record` -/

/-- The arrays do not matter to the recorder, and the recorder does not matter to the arrays. -/
theorem recordBlocksFrom_eq (env : Env) (i : Nat) (sd : List Block) (r : Recorder) (dead : List Nat) :
    recordBlocksFrom env i sd (r, dead) =
      (recordFrom env i (sd.map Block.data) r).bind fun r' => (deleteAll dead sd).map fun dead' => (r', dead') := by
  induction sd generalizing i r dead with
  | nil => rfl
  | cons b sd ih =>
    rw [recordBlocksFrom, List.map_cons, recordFrom, Option.bind_assoc]
    refine Option.bind_congr fun r₁ _ => ?_
    rw [deleteAll, Run.exec_cons]
    cases hfirst : deleteSamples dead b with
    | none =>
      rw [Option.bind_none, Option.bind_none]
      cases recordFrom env (i + 1) (sd.map Block.data) r₁ <;> rfl
    | some dead₁ => exact ih (i + 1) r₁ dead₁

theorem recordBlocks_eq (env : Env) (r : Recorder) (dead : List Nat) (sd : List Block) :
    recordBlocks env (r, dead) sd =
      (record env (sd.map Block.data) r).bind fun r' => (deleteAll dead sd).map fun dead' => (r', dead') := by
  rw [recordBlocks, record, List.length_map]
  cases sd with
  | nil => rfl
  | cons b sd =>
    have hlen : ¬(b :: sd).length ≤ 0 := Nat.not_le.mpr (Nat.succ_pos sd.length)
    rw [if_neg hlen, if_neg hlen]
    exact recordBlocksFrom_eq env 0 (b :: sd) _ dead

/-- The calls for some lists. -/
theorem exec_recordBlocks (env : Env) (r : Recorder) (dead : List Nat) (lss : List (List Block)) :
    Run.exec (recordBlocks env) (r, dead) lss =
      (Run.exec (step env) r ((lss.map (·.map Block.data)).map .record)).bind fun r' =>
        (deleteAll dead lss.flatten).map fun dead' => (r', dead') := by
  induction lss generalizing r dead with
  | nil => rfl
  | cons sd lss ih =>
    rw [Run.exec_cons, recordBlocks_eq, List.map_cons, List.map_cons, Run.exec_cons, Option.bind_assoc, Option.bind_assoc,
      List.flatten_cons]
    refine Option.bind_congr fun r₁ _ => ?_
    have hsplit : deleteAll dead (sd ++ lss.flatten) = (deleteAll dead sd).bind fun dead => deleteAll dead lss.flatten :=
      Run.exec_append dead sd lss.flatten
    rw [hsplit]
    cases deleteAll dead sd with
    | none => cases Run.exec (step env) r₁ ((lss.map (·.map Block.data)).map .record) <;> rfl
    | some dead₁ => exact ih r₁ dead₁

end Recorder
end Recd2
