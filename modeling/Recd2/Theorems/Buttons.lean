import Mathlib.Data.List.GetD
import Recd2.DtmfDetector

/-! Which verdicts are reported as buttons, and where they are stored. -/

namespace Recd2
open Checked

/-- The verdicts with two blanks in front of them, by their numbers. -/
def verdictAt (verdicts : List Char) (k : Nat) : Char := (' ' :: ' ' :: verdicts).getD k ' '

/-- A verdict is reported when it is a button, the one before it is a button, and the one before that is blank. -/
def reported (verdicts : List Char) : List Char :=
  (List.range verdicts.length).filterMap fun k =>
    if verdictAt verdicts (k + 2) ≠ ' ' ∧ verdictAt verdicts (k + 1) ≠ ' ' ∧ verdictAt verdicts k = ' ' then
      some (verdictAt verdicts (k + 2))
    else none

section Reported
variable {verdicts : List Char} {k : Nat}

theorem verdictAt_append (h : k < verdicts.length + 2) (more : List Char) :
    verdictAt (verdicts ++ more) k = verdictAt verdicts k := by
  rw [verdictAt, verdictAt, ← List.cons_append, ← List.cons_append]
  exact List.getD_append _ _ _ _ h

theorem verdictAt_length (verdicts : List Char) (v : Char) : verdictAt (verdicts ++ [v]) (verdicts.length + 2) = v := by
  have hlen : (' ' :: ' ' :: verdicts).length = verdicts.length + 2 := rfl
  rw [verdictAt, ← List.cons_append, ← List.cons_append, ← hlen, List.getD_append_right _ _ _ _ (Nat.le_refl _),
    Nat.sub_self]
  rfl

/-- One more verdict is reported or not, and changes nothing about those before. -/
theorem reported_append (verdicts : List Char) (v : Char) :
    reported (verdicts ++ [v]) = reported verdicts ++
      if v ≠ ' ' ∧ verdictAt verdicts (verdicts.length + 1) ≠ ' ' ∧ verdictAt verdicts verdicts.length = ' ' then [v]
      else [] := by
  have hbefore : ∀ k ∈ List.range verdicts.length,
      (if verdictAt (verdicts ++ [v]) (k + 2) ≠ ' ' ∧ verdictAt (verdicts ++ [v]) (k + 1) ≠ ' ' ∧
          verdictAt (verdicts ++ [v]) k = ' ' then some (verdictAt (verdicts ++ [v]) (k + 2)) else none) =
        if verdictAt verdicts (k + 2) ≠ ' ' ∧ verdictAt verdicts (k + 1) ≠ ' ' ∧ verdictAt verdicts k = ' ' then
          some (verdictAt verdicts (k + 2)) else none := fun k hk => by
    have hlt := List.mem_range.mp hk
    rw [verdictAt_append (by omega), verdictAt_append (by omega), verdictAt_append (by omega)]
  rw [reported, List.length_append, List.length_singleton, List.range_succ, List.filterMap_append,
    List.filterMap_congr hbefore, List.filterMap_cons, List.filterMap_nil, verdictAt_length,
    verdictAt_append (by omega), verdictAt_append (by omega)]
  congr 1
  split_ifs <;> rfl

end Reported

/-! ### The array of the buttons -/

/-- Where the null character is behind so many buttons. -/
def terminator : Nat → Nat
  | 0 => 0
  | m + 1 => m % 64 + 1

/-- The buttons are stored one after the other, from the front again after 64 of them. The array keeps the last 63 of them
    at least, and a null character behind the last one. -/
structure Storing (cells : Cells Char) (index : Int) (appended : List (Int × Char)) (buttons : List Char) : Prop where
  length : cells.length = DialButtons.NUMBER_OF_BUTTONS
  index : index = (buttons.length % 64 : Nat)
  appended : appended = buttons.zipIdx.map fun (button, k) => (((k % 64 : Nat) : Int), button)
  stored : ∀ k button, buttons[k]? = some button → buttons.length ≤ k + 63 → cells[k % 64]? = some (some button)
  terminated : cells[terminator buttons.length]? = some (some '\x00')

section Storing
variable {cells : Cells Char} {index : Int} {appended : List (Int × Char)} {buttons : List Char}

theorem Storing.map_appended (h : Storing cells index appended buttons) : appended.map Prod.snd = buttons := by
  rw [h.appended, List.map_map]
  exact List.zipIdx_map_fst 0 buttons

theorem Storing.index_appended (h : Storing cells index appended buttons) : index = (appended.length % 64 : Nat) := by
  rw [h.index, ← h.map_appended, List.length_map]

theorem Storing.add (h : Storing cells index appended buttons) (button : Char) :
    Storing ((cells.set (buttons.length % 64) (some button)).set (buttons.length % 64 + 1) (some '\x00'))
      ((buttons.length + 1) % 64 : Nat) (appended ++ [(((buttons.length % 64 : Nat) : Int), button)])
      (buttons ++ [button]) where
  length := by
    rw [List.length_set, List.length_set]
    exact h.length
  index := by rw [List.length_append, List.length_singleton]
  appended := by
    rw [List.zipIdx_append, List.map_append, ← h.appended, Nat.zero_add]
    rfl
  stored k x hk hlast := by
    have hlen : cells.length = 65 := h.length
    obtain ⟨hlt, -⟩ := List.getElem?_eq_some_iff.mp hk
    rw [List.length_append, List.length_singleton] at hlt hlast
    -- The null character goes to the place of the 64th button from the end.
    rw [List.getElem?_set_ne (by omega)]
    rcases Nat.lt_or_ge k buttons.length with hbefore | hge
    · rw [List.getElem?_append_left hbefore] at hk
      rw [List.getElem?_set_ne (by omega)]
      exact h.stored k x hk (by omega)
    · obtain rfl : k = buttons.length := by omega
      rw [List.getElem?_append_right (Nat.le_refl _), Nat.sub_self] at hk
      rw [List.getElem?_set_self (by omega)]
      exact congrArg some hk
  terminated := by
    have hlen : cells.length = 65 := h.length
    rw [List.length_append, List.length_singleton, terminator, List.getElem?_set_self (by rw [List.length_set]; omega)]

end Storing

namespace DialButtons
variable {E : Fault → Prop} {b : DialButtons} {buttons : List Char}

theorem append_yields (h : Storing b.dialButtons b.indexForDialButtons b.appended buttons) (button : Char) :
    Yields E (fun b' => ∃ cells index appended, Storing cells index appended (buttons ++ [button]) ∧
      b' = { b with dialButtons := cells, indexForDialButtons := index, appended := appended }) (b.append button) := by
  have hlen : b.dialButtons.length = 65 := h.length
  rw [append, h.index]
  refine (store_yields (by omega) button).bind fun cells hcells => ?_
  subst hcells
  refine (store_yields (i := buttons.length % 64 + 1) (by rw [List.length_set]; omega) '\x00').bind fun cells hcells => ?_
  subst hcells
  have hnext : (if (64 : Int) ≤ (buttons.length % 64 : Nat) + 1 then 0 else ((buttons.length % 64 : Nat) : Int) + 1) =
      ((buttons.length + 1) % 64 : Nat) := by
    split_ifs <;> omega
  refine ⟨_, _, _, h.add button, ?_⟩
  rw [← hnext]

/-! ### The state behind a verdict -/

/-- The state is the one that the verdicts so far give. -/
structure Valid (b : DialButtons) : Prop where
  storing : Storing b.dialButtons b.indexForDialButtons b.appended (reported (b.detected.map Prod.snd))
  prevDialButton : b.prevDialButton = verdictAt (b.detected.map Prod.snd) (b.detected.length + 1)
  permissionFlag : b.permissionFlag = true ↔
    b.prevDialButton ≠ ' ' ∧ verdictAt (b.detected.map Prod.snd) b.detected.length = ' '

theorem valid_new : Valid .new where
  storing := ⟨rfl, rfl, rfl, fun _ _ h => (nomatch h), rfl⟩
  prevDialButton := rfl
  permissionFlag := by simp [new]

section Verdict
variable (h : b.Valid) (block : List Int16) (v : Char)

/-- What the next verdict finds of the last two. -/
theorem prevDialButton_accept (b : DialButtons) :
    v = verdictAt ((b.detected ++ [(block, v)]).map Prod.snd) ((b.detected ++ [(block, v)]).length + 1) := by
  rw [List.map_append, List.length_append, ← List.length_map (f := Prod.snd)]
  exact (verdictAt_length _ v).symm

include h

theorem Valid.permissionFlag_accept : decide (v ≠ ' ' ∧ b.prevDialButton = ' ') = true ↔
    v ≠ ' ' ∧ verdictAt ((b.detected ++ [(block, v)]).map Prod.snd) (b.detected ++ [(block, v)]).length = ' ' := by
  rw [decide_eq_true_iff, h.prevDialButton, List.map_append, List.length_append,
    verdictAt_append (by rw [List.length_map]; exact Nat.lt_succ_self _)]
  rfl

/-- A verdict is reported when the flag permits it. -/
theorem Valid.reported_accept : reported ((b.detected ++ [(block, v)]).map Prod.snd) =
    reported (b.detected.map Prod.snd) ++ if b.permissionFlag = true ∧ v ≠ ' ' then [v] else [] := by
  have hlen : (b.detected.map Prod.snd).length = b.detected.length := List.length_map _
  have hreport : (v ≠ ' ' ∧ b.prevDialButton ≠ ' ' ∧ verdictAt (b.detected.map Prod.snd) b.detected.length = ' ') =
      (b.permissionFlag = true ∧ v ≠ ' ') := by
    rw [h.permissionFlag]
    exact propext and_comm
  rw [List.map_append, List.map_singleton, reported_append, hlen, ← h.prevDialButton]
  simp only [hreport]

theorem accept_yields :
    Yields E (fun b' => b'.Valid ∧ b'.detected = b.detected ++ [(block, v)]) (b.accept block v) := by
  have hreported := h.reported_accept block v
  rw [accept]
  by_cases hreport : b.permissionFlag = true ∧ v ≠ ' '
  · simp only [if_pos hreport] at hreported ⊢
    refine (@append_yields E { b with detected := b.detected ++ [(block, v)] } _ h.storing v).bind fun b' hb' => ?_
    obtain ⟨cells, index, appended, hstoring, rfl⟩ := hb'
    exact ⟨⟨hreported ▸ hstoring, prevDialButton_accept block v b, h.permissionFlag_accept block v⟩, rfl⟩
  · simp only [if_neg hreport, List.append_nil] at hreported ⊢
    exact ⟨⟨hreported ▸ h.storing, prevDialButton_accept block v b, h.permissionFlag_accept block v⟩, rfl⟩

end Verdict
end DialButtons
end Recd2
