import Recd2.Theorems.Counters
import Mathlib.Data.List.Forall2
import Mathlib.Data.List.Induction

/-! The sequence of lists that a stream of frames with increasing counters makes the server send, in
    multi-file mode and from a reset. Each counter has a place on the time line: a frame fills its place, a
    missing counter is filled from `err_udp`. The frame that shows a gap only synchronises the server, and
    the whole first gap is filled by one list. -/

namespace Recd2

/-- The counter as a number. -/
def FrameData.num (f : FrameData) : Nat := f.counter.toNat

/-- The counters run upwards from 1 and stay below 2^31. -/
structure Increasing (fs : List FrameData) : Prop where
  first : ∀ f ∈ fs.head?, f.num = 1
  sorted : fs.Pairwise fun f g => f.num < g.num
  bounded : ∀ f ∈ fs, f.num < 2 ^ 31

/-- The frame that came with this number. -/
def arrived (fs : List FrameData) (p : Nat) : Option FrameData := fs.find? (·.num == p)

/-- The number of the last frame, 0 without any. -/
def lastNum (fs : List FrameData) : Nat := (fs.map (·.num)).getLastD 0

/-! ### Arrivals -/

section Arrivals
variable {fs : List FrameData} {f : FrameData}

theorem Increasing.of_snoc (h : Increasing (fs ++ [f])) : Increasing fs where
  first g hg := h.first g (by rw [List.head?_append, hg]; rfl)
  sorted := (List.pairwise_append.mp h.sorted).1
  bounded g hg := h.bounded g (List.mem_append_left _ hg)

theorem Increasing.lt_snoc (h : Increasing (fs ++ [f])) : ∀ g ∈ fs, g.num < f.num := fun g hg =>
  (List.pairwise_append.mp h.sorted).2.2 g hg f (List.mem_singleton_self f)

theorem lastNum_snoc (fs : List FrameData) (f : FrameData) : lastNum (fs ++ [f]) = f.num := by
  simp [lastNum]

theorem lastNum_eq (h : fs ≠ []) : lastNum fs = (fs.getLast h).num := by
  rw [lastNum, List.getLastD_eq_getLast?, List.getLast?_map, List.getLast?_eq_some_getLast h]
  rfl

theorem Increasing.lastNum_lt (h : Increasing (fs ++ [f])) : lastNum fs < f.num := by
  by_cases hne : fs = []
  · subst hne
    have := h.first f rfl
    simp only [lastNum, List.map_nil, List.getLastD_nil]
    omega
  · rw [lastNum_eq hne]
    exact h.lt_snoc _ (List.getLast_mem hne)

theorem Increasing.le_lastNum (h : Increasing fs) : ∀ g ∈ fs, g.num ≤ lastNum fs := by
  induction fs using List.reverseRecOn with
  | nil => exact fun g hg => absurd hg List.not_mem_nil
  | append_singleton fs f ih =>
    intro g hg
    rw [lastNum_snoc]
    rcases List.mem_append.mp hg with hg | hg
    · exact Nat.le_of_lt (h.lt_snoc g hg)
    · rw [List.mem_singleton.mp hg]

theorem arrived_snoc_of_ne {p : Nat} (h : p ≠ f.num) : arrived (fs ++ [f]) p = arrived fs p := by
  have hf : (f.num == p) = false := by simpa using Ne.symm h
  simp [arrived, List.find?_append, hf]

theorem Increasing.arrived_snoc_self (h : Increasing (fs ++ [f])) : arrived (fs ++ [f]) f.num = some f := by
  have hnone : fs.find? (·.num == f.num) = none := by
    rw [List.find?_eq_none]
    intro g hg heq
    exact absurd (beq_iff_eq.mp heq) (Nat.ne_of_lt (h.lt_snoc g hg))
  simp [arrived, List.find?_append, hnone]

theorem Increasing.arrived_of_lastNum_lt (h : Increasing fs) {p : Nat} (hp : lastNum fs < p) : arrived fs p = none := by
  rw [arrived, List.find?_eq_none]
  intro g hg heq
  have := h.le_lastNum g hg
  rw [beq_iff_eq.mp heq] at this
  omega

theorem arrived_lastNum (h : fs ≠ []) : (arrived fs (lastNum fs)).isSome := by
  rw [arrived, List.find?_isSome, lastNum_eq h]
  exact ⟨_, List.getLast_mem h, beq_self_eq_true _⟩

end Arrivals

/-! ### The server on the time line -/

theorem toNat_paketCounter_receives (fs : List FrameData) :
    (ConnInfo.reset.receives fs).paketCounter.toNat = lastNum fs := by
  rw [ConnInfo.paketCounter_receives, lastNum, List.getLastD_eq_getLast?, List.getLastD_eq_getLast?,
    List.getLast?_map, List.getLast?_map]
  cases fs.getLast? <;> rfl

/-- Below 2^31, being the next frame is no matter of overflow. -/
theorem Increasing.counter_eq_iff {fs : List FrameData} {f : FrameData} (h : Increasing (fs ++ [f])) :
    f.counter = (ConnInfo.reset.receives fs).paketCounter + 1 ↔ f.num = lastNum fs + 1 := by
  have hlt := h.lastNum_lt
  have hb := h.bounded f (List.mem_append_right _ (List.mem_singleton_self f))
  rw [← UInt32.toNat_inj, UInt32.toNat_add, toNat_paketCounter_receives]
  show f.num = (lastNum fs + 1) % 2 ^ 32 ↔ _
  omega

theorem toInt_toInt32_of_lt {n : UInt32} (h : n.toNat < 2 ^ 31) : n.toInt32.toInt = n.toNat :=
  BitVec.toInt_eq_toNat_of_lt (show 2 * n.toNat < 2 ^ 32 by omega)

/-- The lost frames, as the signed number the handler computes. -/
theorem Increasing.errs_eq {fs : List FrameData} {f : FrameData} (h : Increasing (fs ++ [f])) :
    ((ConnInfo.reset.receives fs).errs f.counter).toInt.toNat = f.num - (lastNum fs + 1) := by
  have hlt := h.lastNum_lt
  have hb : f.counter.toNat < 2 ^ 31 := h.bounded f (List.mem_append_right _ (List.mem_singleton_self f))
  have hnum : f.counter.toNat = f.num := rfl
  have hnat : (f.counter - ((ConnInfo.reset.receives fs).paketCounter + 1)).toNat = f.num - (lastNum fs + 1) := by
    rw [UInt32.toNat_sub, UInt32.toNat_add, toNat_paketCounter_receives, UInt32.toNat_one, hnum]
    omega
  rw [ConnInfo.errs, toInt_toInt32_of_lt (by rw [hnat]; omega), hnat, Int.toNat_natCast]

/-- The one-time flag is set when a counter below the last one is missing. -/
theorem Increasing.onetimeSynch_iff {fs : List FrameData} (h : Increasing fs) :
    (ConnInfo.reset.receives fs).onetimeSynch = true ↔ ∃ q, 1 ≤ q ∧ q < lastNum fs ∧ arrived fs q = none := by
  induction fs using List.reverseRecOn with
  | nil => simp [ConnInfo.reset, lastNum]
  | append_singleton fs f ih =>
    have hlt := h.lastNum_lt
    have hkept : ∀ q, q < f.num → arrived (fs ++ [f]) q = arrived fs q := fun q hq => arrived_snoc_of_ne (by omega)
    rw [ConnInfo.receives_snoc, ConnInfo.onetimeSynch_receive, Bool.or_eq_true, ih h.of_snoc, bne_iff_ne,
      Ne, h.counter_eq_iff, lastNum_snoc]
    constructor
    · rintro (⟨q, h1, hq, hnone⟩ | hgap)
      · exact ⟨q, h1, by omega, by rw [hkept q (by omega), hnone]⟩
      · exact ⟨lastNum fs + 1, by omega, by omega, by
          rw [hkept _ (by omega), h.of_snoc.arrived_of_lastNum_lt (by omega)]⟩
    · rintro ⟨q, h1, hq, hnone⟩
      rw [hkept q hq] at hnone
      by_cases hlast : q < lastNum fs
      · exact Or.inl ⟨q, h1, hlast, hnone⟩
      · -- The last counter has arrived, so a missing one behind it makes `f` show a gap.
        refine Or.inr fun heq => ?_
        have hq' : q = lastNum fs := by omega
        have hne : fs ≠ [] := by
          rintro rfl
          simp only [lastNum, List.map_nil, List.getLastD_nil] at hq'
          omega
        rw [hq'] at hnone
        simpa [hnone] using arrived_lastNum hne

/-! ### Places -/

/-- What a place on the time line sends: the list of its frame, or a filler, which for the first missing counter of
    a gap is the `first` one of a new `err_ls`. -/
inductive Slot where
  | frame (f : FrameData)
  | filler (first : Bool)

/-- The first filler list of a gap is the blocks built from `err_udp`, and so is every one when the chain empties
    the list. A list behind the first one has gone through the chain before: it ends with these blocks, and has no
    others when the chain adds none of its own. -/
structure Server.Filler (next : Server.Next) (s : Server) (first : Bool) (ls : QList) : Prop where
  alone : (first = true ∨ ∀ ls, Server.putData next ls = []) → ls = s.errBlocks
  suffix : s.errBlocks <:+ ls
  blocks : (∀ ls, Server.putData next ls ⊆ ls) → ∀ b ∈ ls, b ∈ s.errBlocks

/-- The list is the one of the place. -/
def Slot.Sent (next : Server.Next) (s : Server) : Slot → QList → Prop
  | .frame f, ls => ls = deinterleave s.channels s.smplPerChan f.nullByte f
  | .filler first, ls => s.Filler next first ls

/-- A place for each counter, with its frame or with a filler. -/
def everySlot (fs : List FrameData) (p : Nat) : Slot :=
  match arrived fs p with
  | some f => .frame f
  | none => .filler (arrived fs (p - 1)).isSome

/-- A gap in the counters that ends below `p`. -/
def gapBefore (fs : List FrameData) (p : Nat) : Bool :=
  (List.range p).any fun r => (arrived fs r).isSome && (List.range r).any fun q => 1 ≤ q && (arrived fs q).isNone

/-- The frame with counter `p` is sent when the one before arrived, or it is the first one. A missing counter
    is filled by one list, except in the first gap, where only its first counter is. -/
def slots (fs : List FrameData) (p : Nat) : List Slot :=
  match arrived fs p with
  | some f => if p = 1 ∨ (arrived fs (p - 1)).isSome then [.frame f] else []
  | none => if (arrived fs (p - 1)).isSome ∨ gapBefore fs p then [.filler (arrived fs (p - 1)).isSome] else []

theorem gapBefore_iff {fs : List FrameData} {p : Nat} :
    gapBefore fs p = true ↔ ∃ r < p, (arrived fs r).isSome ∧ ∃ q < r, 1 ≤ q ∧ arrived fs q = none := by
  simp [gapBefore, Option.isNone_iff_eq_none]

theorem Increasing.slots_snoc {fs : List FrameData} {f : FrameData} (h : Increasing (fs ++ [f])) {p : Nat}
    (hp : p ≤ lastNum fs) : slots (fs ++ [f]) p = slots fs p := by
  have hlt := h.lastNum_lt
  have hkept : ∀ q, q ≤ p → arrived (fs ++ [f]) q = arrived fs q := fun q hq => arrived_snoc_of_ne (by omega)
  have hgap : gapBefore (fs ++ [f]) p = gapBefore fs p := by
    rw [Bool.eq_iff_iff, gapBefore_iff, gapBefore_iff]
    constructor
    · rintro ⟨r, hr, hsome, q, hq, h1, hnone⟩
      exact ⟨r, hr, hkept r (by omega) ▸ hsome, q, hq, h1, hkept q (by omega) ▸ hnone⟩
    · rintro ⟨r, hr, hsome, q, hq, h1, hnone⟩
      exact ⟨r, hr, (hkept r (by omega)).symm ▸ hsome, q, hq, h1, (hkept q (by omega)).symm ▸ hnone⟩
  rw [slots, slots, hkept p (Nat.le_refl p), hkept (p - 1) (Nat.sub_le p 1), hgap]

theorem Increasing.gapBefore_snoc {fs : List FrameData} {f : FrameData} (h : Increasing (fs ++ [f])) {p : Nat}
    (hp : lastNum fs < p) (hpf : p ≤ f.num) :
    gapBefore (fs ++ [f]) p = (ConnInfo.reset.receives fs).onetimeSynch := by
  have hkept : ∀ q, q < f.num → arrived (fs ++ [f]) q = arrived fs q := fun q hq => arrived_snoc_of_ne (by omega)
  rw [Bool.eq_iff_iff, gapBefore_iff, h.of_snoc.onetimeSynch_iff]
  constructor
  · rintro ⟨r, hr, hsome, q, hq, h1, hnone⟩
    rw [hkept r (by omega)] at hsome
    rw [hkept q (by omega)] at hnone
    refine ⟨q, h1, ?_, hnone⟩
    by_contra hle
    rw [h.of_snoc.arrived_of_lastNum_lt (by omega)] at hsome
    cases hsome
  · rintro ⟨q, h1, hq, hnone⟩
    have hne : fs ≠ [] := by
      rintro rfl
      simp [lastNum] at hq
    exact ⟨lastNum fs, hp, by rw [hkept _ (by omega)]; exact arrived_lastNum hne, q, hq, h1,
      by rw [hkept q (by omega), hnone]⟩

theorem arrived_of_gap {fs : List FrameData} {f : FrameData} (h : Increasing (fs ++ [f]))
    (hgap : f.num ≠ lastNum fs + 1) : (arrived (fs ++ [f]) (lastNum fs)).isSome := by
  have hlt := h.lastNum_lt
  have hne : fs ≠ [] := by
    rintro rfl
    exact hgap (h.first f rfl)
  rw [arrived_snoc_of_ne (by omega)]
  exact arrived_lastNum hne

theorem Increasing.slots_new {fs : List FrameData} {f : FrameData} (h : Increasing (fs ++ [f])) :
    (List.range' (lastNum fs + 1) (f.num - lastNum fs)).flatMap (slots (fs ++ [f])) =
      if f.num = lastNum fs + 1 then [.frame f]
      else .filler true :: List.replicate
        (if (ConnInfo.reset.receives fs).onetimeSynch then f.num - (lastNum fs + 2) else 0) (.filler false) := by
  have hlt := h.lastNum_lt
  have hself := h.arrived_snoc_self
  have hmiss : ∀ p, lastNum fs < p → p < f.num → arrived (fs ++ [f]) p = none := fun p hp hpf => by
    rw [arrived_snoc_of_ne (by omega), h.of_snoc.arrived_of_lastNum_lt hp]
  by_cases hnext : f.num = lastNum fs + 1
  · -- The next frame: its place follows the last one, which has arrived.
    have hbefore : f.num = 1 ∨ (arrived (fs ++ [f]) (f.num - 1)).isSome := by
      by_cases hne : fs = []
      · subst hne
        exact Or.inl (h.first f rfl)
      · refine Or.inr ?_
        rw [hnext, Nat.add_sub_cancel, arrived_snoc_of_ne (by omega)]
        exact arrived_lastNum hne
    rw [if_pos hnext, hnext, Nat.add_sub_cancel_left, ← hnext]
    simp only [List.range'_one, List.flatMap_cons, List.flatMap_nil, List.append_nil, slots, hself, hbefore, if_true]
  · -- A gap: the missing places, and no list for the frame itself.
    have hlast := arrived_of_gap h hnext
    have hown : slots (fs ++ [f]) f.num = [] := by
      have hne : ¬(f.num = 1 ∨ (arrived (fs ++ [f]) (f.num - 1)).isSome) := by
        rw [hmiss (f.num - 1) (by omega) (by omega)]
        simp only [Option.isSome_none, Bool.false_eq_true, or_false]
        omega
      simp only [slots, hself, hne, if_false]
    have hfirst : slots (fs ++ [f]) (lastNum fs + 1) = [.filler true] := by
      simp only [slots, hmiss (lastNum fs + 1) (by omega) (by omega), Nat.add_sub_cancel, hlast, true_or, if_true]
    have hrest : ∀ p, lastNum fs + 1 < p → p < f.num → slots (fs ++ [f]) p =
        if (ConnInfo.reset.receives fs).onetimeSynch then [.filler false] else [] := fun p hp hpf => by
      simp only [slots, hmiss p (by omega) hpf, hmiss (p - 1) (by omega) (by omega), h.gapBefore_snoc (by omega) hpf.le,
        Option.isSome_none, Bool.false_eq_true, false_or]
    obtain ⟨n, hn⟩ : ∃ n, f.num - lastNum fs = n + 2 := ⟨f.num - lastNum fs - 2, by omega⟩
    have hend : lastNum fs + 1 + 1 + n = f.num := by omega
    rw [if_neg hnext, hn, List.range'_succ, List.range'_1_concat, List.flatMap_cons, List.flatMap_append, hfirst, hend,
      List.flatMap_singleton, hown, List.append_nil]
    have hmid : (List.range' (lastNum fs + 1 + 1) n).flatMap (slots (fs ++ [f])) =
        List.replicate (if (ConnInfo.reset.receives fs).onetimeSynch then n else 0) (.filler false) := by
      rw [List.flatMap_congr fun p hp => hrest p (by rw [List.mem_range'_1] at hp; omega)
        (by rw [List.mem_range'_1] at hp; omega)]
      cases (ConnInfo.reset.receives fs).onetimeSynch
      · simp
      · simp only [if_true, ← List.map_eq_flatMap, List.map_const', List.length_range']
    have hlen : f.num - (lastNum fs + 2) = n := by omega
    rw [hmid, hlen]
    rfl

/-! ### The lists sent -/

namespace Server
variable {next : Next} (s : Server)

/-- The list built from `err_udp` alone. -/
theorem filler_errBlocks (first : Bool) : s.Filler next first s.errBlocks :=
  ⟨fun _ => rfl, List.suffix_refl _, fun _ _ hb => hb⟩

/-- The rounds behind the first one, with what the chain left of the list before. -/
theorem errLoop_sent (n : Nat) {ls : QList} (hempty : (∀ ls, putData next ls = []) → ls = [])
    (hls : (∀ ls, putData next ls ⊆ ls) → ∀ b ∈ ls, b ∈ s.errBlocks) :
    List.Forall₂ (Slot.Sent next s) (List.replicate n (.filler false)) (errLoop next s.errBlocks n ls) := by
  induction n generalizing ls with
  | zero => exact .nil
  | succ n ih =>
    have hround : (∀ ls, putData next ls ⊆ ls) → ∀ b ∈ ls ++ s.errBlocks, b ∈ s.errBlocks := fun hnext b hb => by
      rcases List.mem_append.mp hb with hb | hb
      · exact hls hnext b hb
      · exact hb
    have hfiller : s.Filler next false (ls ++ s.errBlocks) := by
      refine ⟨fun h => ?_, List.suffix_append ls s.errBlocks, hround⟩
      rw [hempty (h.resolve_left Bool.false_ne_true), List.nil_append]
    exact .cons hfiller (ih (fun hnext => hnext _) fun hnext b hb => hround hnext b (hnext _ hb))

/-- The first round has the blocks built from `err_udp` alone: `err_ls` is empty in front of the loop. -/
theorem errLoop_nil_sent (n : Nat) :
    List.Forall₂ (Slot.Sent next s) (.filler true :: List.replicate n (.filler false))
      (errLoop next s.errBlocks (n + 1) []) :=
  .cons (s.filler_errBlocks true) (s.errLoop_sent n (fun hnext => hnext _) fun hnext _ hb => hnext _ hb)

theorem sends_sent {fs : List FrameData} {f : FrameData} (hs : s.singleFile = false) (h : Increasing (fs ++ [f])) :
    List.Forall₂ (Slot.Sent next s)
      ((List.range' (lastNum fs + 1) (f.num - lastNum fs)).flatMap (slots (fs ++ [f])))
      ((s.disconnected.after fs).sends next f) := by
  have hconn : (s.disconnected.after fs).connInfo = ConnInfo.reset.receives fs := rfl
  have hblocks : (s.disconnected.after fs).errBlocks = s.errBlocks := rfl
  rw [h.slots_new]
  by_cases hnext : f.num = lastNum fs + 1
  · have hframe : (s.disconnected.after fs).frameList f = deinterleave s.channels s.smplPerChan f.nullByte f := by
      simp [frameList, after, disconnected, hs]
    rw [if_pos hnext, sends, hconn, if_neg (not_not_intro (h.counter_eq_iff.mpr hnext)), hframe]
    exact .cons rfl .nil
  · rw [if_neg hnext, sends, hconn, if_pos (mt h.counter_eq_iff.mp hnext), errLists, hconn, hblocks, h.errs_eq]
    cases (ConnInfo.reset.receives fs).onetimeSynch with
    | true =>
      have hlt := h.lastNum_lt
      obtain ⟨n, hn⟩ : ∃ n, f.num - (lastNum fs + 1) = n + 1 := ⟨f.num - (lastNum fs + 2), by omega⟩
      have hrest : f.num - (lastNum fs + 2) = n := by omega
      rw [hn, if_pos rfl, hrest]
      exact s.errLoop_nil_sent n
    | false => exact .cons (s.filler_errBlocks true) .nil

theorem calls_sent {fs : List FrameData} (hs : s.singleFile = false) (h : Increasing fs) :
    List.Forall₂ (Slot.Sent next s) ((List.range' 1 (lastNum fs)).flatMap (slots fs))
      (s.disconnected.calls next fs) := by
  induction fs using List.reverseRecOn with
  | nil => exact .nil
  | append_singleton fs f ih =>
    have hlt := h.lastNum_lt
    have hsplit : List.range' 1 f.num = List.range' 1 (lastNum fs) ++
        List.range' (lastNum fs + 1) (f.num - lastNum fs) := by
      rw [Nat.add_comm (lastNum fs) 1, List.range'_append_1, Nat.add_sub_cancel' hlt.le]
    have hold : (List.range' 1 (lastNum fs)).flatMap (slots (fs ++ [f])) =
        (List.range' 1 (lastNum fs)).flatMap (slots fs) :=
      List.flatMap_congr fun p hp => h.slots_snoc (by rw [List.mem_range'_1] at hp; omega)
    rw [lastNum_snoc, hsplit, List.flatMap_append, hold, calls_snoc]
    exact List.rel_append (ih h.of_snoc) (sends_sent s hs h)

/-- In multi-file mode, and from a reset, the lists sent for frames with increasing counters are those of the
    places 1, 2, ... up to the last counter, one after the other. -/
theorem timeline (next : Next) (s : Server) (hs : s.singleFile = false) (groups : List (List Datagram))
    (hgroups : ∀ g ∈ groups, g ≠ []) (h : Increasing (frames groups.flatten)) :
    List.Forall₂ (Slot.Sent next s)
      ((List.range' 1 (lastNum (frames groups.flatten))).flatMap (slots (frames groups.flatten)))
      (putDataCalls (Run.emits (step next) s.disconnected (groups.map .readyRead))) := by
  rw [putDataCalls_readyRead s.disconnected groups hgroups]
  exact calls_sent s hs h

theorem increasing_silent : Increasing [FrameData.silent 1, FrameData.silent 3] where
  first := by decide
  sorted := by decide
  bounded := by decide

theorem timeline_silent :
    List.Forall₂ (Slot.Sent none Server.new)
      ((List.range' 1 (lastNum (frames [[FrameData.silent 1, FrameData.silent 3].map FrameData.toBytes].flatten))).flatMap
        (slots (frames [[FrameData.silent 1, FrameData.silent 3].map FrameData.toBytes].flatten)))
      (putDataCalls (Run.emits (step none) Server.new.disconnected
        ([[FrameData.silent 1, FrameData.silent 3].map FrameData.toBytes].map .readyRead))) :=
  timeline none Server.new rfl [[FrameData.silent 1, FrameData.silent 3].map FrameData.toBytes]
    (by simp) (by
      rw [List.flatten_singleton, frames_map_toBytes]
      exact increasing_silent)

/-- Frame 3 behind frame 1 is dropped: two lists are sent for three places. -/
theorem timeline_counterexample :
    ¬∀ (next : Next) (s : Server) (groups : List (List Datagram)), s.singleFile = false → (∀ g ∈ groups, g ≠ []) →
      (∀ d ∈ groups.flatten, d.length = sizeofFrameData) → Increasing (frames groups.flatten) →
      List.Forall₂ (Slot.Sent next s)
        ((List.range' 1 (lastNum (frames groups.flatten))).map (everySlot (frames groups.flatten)))
        (putDataCalls (Run.emits (step next) s.disconnected (groups.map .readyRead))) := by
  intro h
  have hsize : ∀ d ∈ [FrameData.silent 1, FrameData.silent 3].map FrameData.toBytes, d.length = sizeofFrameData := by
    simp [FrameData.length_toBytes]
  have hsent := (h none Server.new [[FrameData.silent 1, FrameData.silent 3].map FrameData.toBytes] rfl (by simp)
    (by rwa [List.flatten_singleton]) (by
      rw [List.flatten_singleton, frames_map_toBytes]
      exact increasing_silent)).length_eq
  rw [putDataCalls_readyRead _ _ (by simp), List.flatten_singleton, frames_map_toBytes] at hsent
  revert hsent
  decide

end Server

end Recd2
