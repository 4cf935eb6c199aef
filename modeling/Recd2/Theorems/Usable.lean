import Recd2.Dtmf
import Recd2.Theorems.Detected
import Recd2.Theorems.LongBlocks
import Mathlib.Tactic.Ring

/-! For which sizes the detector can be used: it is constructed, and the calls for any frames return. Where they do not, a
    loop does not end, or there is a division by zero, or a detection traps. -/

namespace Recd2
open Checked Framing
namespace DtmfDetector

/-- There is a detector, and whatever the frames are its calls return within some number of rounds, or have one of the faults
    that are allowed. -/
def Ends (E : Fault → Prop) (frameSize SAMPLES : Int32) : Prop :=
  ∃ d, new frameSize SAMPLES = .ok d ∧
    ∀ frames : List (List Int16), (∀ frame ∈ frames, frame.length = frameSize.toInt.toNat) →
      ∃ n, ∀ fuel, n ≤ fuel → Yields E (fun _ => True) (feed fuel d frames)

/-- All loops end, and nothing divides by zero or leaves an array. What is left is the quotient that does not fit. -/
def EndsOrTraps (frameSize SAMPLES : Int32) : Prop := Ends (· = .overflow) frameSize SAMPLES

/-- All calls return. -/
def Usable (frameSize SAMPLES : Int32) : Prop := Ends (fun _ => False) frameSize SAMPLES

/-- What the sizes must be. The counter of the filter has 16 bits, and is not used where no block is loud enough for the
    filter. A negative frame size lowers `frameCount` in each call, which must not wrap around to a whole block. -/
structure Admissible (frameSize SAMPLES : Int32) : Prop where
  block : 0 < SAMPLES.toInt
  array : 0 ≤ frameSize.toInt + SAMPLES.toInt ∧ frameSize.toInt + SAMPLES.toInt < 2 ^ 31
  counter : 0 < frameSize.toInt → SAMPLES.toInt < 65536 ∨ 2 ^ 31 ≤ 328 * SAMPLES.toInt
  wrap : frameSize.toInt < 0 → ∀ n : Nat, (frameSize.toInt * n).bmod (2 ^ 32) < SAMPLES.toInt

section Sizes
variable {E : Fault → Prop} {frameSize SAMPLES : Int32} {d : DtmfDetector} {fuel : Nat}

/-! ### Sizes that can be used -/

theorem Ends.mono {E' : Fault → Prop} (h : Ends E frameSize SAMPLES) (hE : ∀ e, E e → E' e) : Ends E' frameSize SAMPLES := by
  obtain ⟨d, hd, hall⟩ := h
  refine ⟨d, hd, fun frames hframes => ?_⟩
  obtain ⟨n, hn⟩ := hall frames hframes
  exact ⟨n, fun fuel hfuel => (hn fuel hfuel).weaken hE⟩

/-- Blocks that are too short for the counter to wrap, or too long to be loud. -/
theorem detection_ends {block : List Int16} (hS : 0 < SAMPLES.toInt) (hlen : block.length = SAMPLES.toInt.toNat)
    (hcounter : SAMPLES.toInt < 65536 ∨ 2 ^ 31 ≤ 328 * SAMPLES.toInt) (hfuel : 65536 ≤ fuel)
    (htrap : E .overflow ∨ ¬Traps SAMPLES block) : Yields E (fun _ => True) (DTMF_detection fuel SAMPLES block) := by
  rcases hcounter with hshort | hlong
  · rcases htrap with htrap | hnot
    · exact detection_yields hS hlen (Or.inl ⟨hshort, hfuel⟩) htrap
    · exact detection_yields_of_not_traps hS hfuel hshort hlen hnot
  · rw [DTMF_detection_of_lt hS (quiet_of_le hlong _)]
    trivial

theorem feed_ends (hsizes : Sizes frameSize SAMPLES) (hd : new frameSize SAMPLES = .ok d)
    (hcounter : 0 < frameSize.toInt → SAMPLES.toInt < 65536 ∨ 2 ^ 31 ≤ 328 * SAMPLES.toInt)
    (htrap : 0 < frameSize.toInt → ∀ block : List Int16, block.length = SAMPLES.toInt.toNat →
      E .overflow ∨ ¬Traps SAMPLES block)
    {frames : List (List Int16)} (hframes : ∀ frame ∈ frames, frame.length = frameSize.toInt.toNat)
    (hfuel : max 65536 frames.flatten.length ≤ fuel) : Yields E (fun _ => True) (feed fuel d frames) := by
  obtain ⟨hframe, hS, -⟩ := hsizes
  have hlens : ∀ frame ∈ frames, (frame.length : Int) = frameSize.toInt := fun frame hmem => by
    rw [hframes frame hmem]
    omega
  have hdetect : ∀ block ∈ pieces SAMPLES.toInt.toNat frames.flatten,
      Yields E (fun _ => True) (DTMF_detection fuel SAMPLES block) := by
    intro block hblock
    have hF : 0 < frameSize.toInt := by
      by_contra hzero
      -- Frames without samples have no blocks.
      have hnil : frames.flatten = [] := List.flatten_eq_nil_iff.mpr fun frame hmem =>
        List.eq_nil_of_length_eq_zero (by rw [hframes frame hmem]; omega)
      rw [hnil, pieces_of_lt (by rw [List.length_nil]; omega)] at hblock
      cases hblock
    have hlen := length_of_mem_pieces hblock
    exact detection_ends hS hlen (hcounter hF) (by omega) (htrap hF block hlen)
  exact (feed_yields hframe hS hd hlens (Or.inl (by omega)) hdetect).mono fun _ _ => trivial

/-! ### Blocks on which a detection does not return -/

/-- A block goes to the detector when it is in front of the stream. -/
theorem detection_of_ends (hE : ¬E .endless) (hF : 0 < frameSize.toInt) (hS : 0 < SAMPLES.toInt) (h : Ends E frameSize SAMPLES)
    {block : List Int16} (hlen : block.length = SAMPLES.toInt.toNat) :
    ∃ n, ∀ fuel, n ≤ fuel → Yields E (fun _ => True) (DTMF_detection fuel SAMPLES block) := by
  obtain ⟨d, hd, hall⟩ := h
  -- Zeros behind the block fill the last frame.
  let stream := block ++ List.replicate (SAMPLES.toInt.toNat * (frameSize.toInt.toNat - 1)) 0
  have hstream : stream.length = SAMPLES.toInt.toNat * frameSize.toInt.toNat := by
    have hmul : SAMPLES.toInt.toNat * frameSize.toInt.toNat =
        SAMPLES.toInt.toNat + SAMPLES.toInt.toNat * (frameSize.toInt.toNat - 1) := by
      rw [Nat.add_comm, ← Nat.mul_succ, Nat.succ_eq_add_one, Nat.sub_add_cancel (by omega)]
    rw [List.length_append, List.length_replicate, hlen, hmul]
  have hflatten : (pieces frameSize.toInt.toNat stream).flatten = stream :=
    flatten_pieces (by omega) (hstream ▸ Nat.dvd_mul_left _ _)
  obtain ⟨n, hn⟩ := hall (pieces frameSize.toInt.toNat stream) fun frame hframe => length_of_mem_pieces hframe
  refine ⟨n, fun fuel hfuel => ?_⟩
  have hfeed := hn fuel hfuel
  have hlens : ∀ frame ∈ pieces frameSize.toInt.toNat stream, (frame.length : Int) = frameSize.toInt := fun frame hframe => by
    rw [length_of_mem_pieces hframe]
    omega
  cases hdetect : DTMF_detection fuel SAMPLES block with
  | ok v => trivial
  | error e =>
    have hdetectAll : detectAll fuel SAMPLES .new stream = .error e := by
      rw [detectAll_cons hS hlen, detectStep, hdetect]
      rfl
    rcases feed_cases (Int.le_of_lt hF) hS hd hlens fuel with hfollows | ⟨-, hfault⟩
    · rw [hflatten, hdetectAll] at hfollows
      rw [hfollows.error] at hfeed
      exact hfeed
    · rw [hfault] at hfeed
      exact absurd hfeed hE

/-- A block of constant samples at the threshold makes the counter wrap around. -/
theorem counter_of_ends (hE : ¬E .endless) (hF : 0 < frameSize.toInt) (hS : 0 < SAMPLES.toInt) (h : Ends E frameSize SAMPLES) :
    SAMPLES.toInt < 65536 ∨ 2 ^ 31 ≤ 328 * SAMPLES.toInt := by
  by_contra hlong
  have hlen : (List.replicate SAMPLES.toInt.toNat (328 : Int16)).length = SAMPLES.toInt.toNat := List.length_replicate
  have hunsigned : SAMPLES.toUInt32.toNat = SAMPLES.toInt.toNat := toNat_toUInt32 (by omega)
  obtain ⟨n, hn⟩ := detection_of_ends hE hF hS h hlen
  have hdetect := hn n (Nat.le_refl n)
  rw [DTMF_detection_endless hS (hlen.trans hunsigned.symm) (by omega) (loud_replicate hS (by omega))] at hdetect
  exact hE hdetect

theorem not_traps_of_usable (hF : 0 < frameSize.toInt) (hS : 0 < SAMPLES.toInt) (h : Usable frameSize SAMPLES)
    {block : List Int16} (hlen : block.length = SAMPLES.toInt.toNat) : ¬Traps SAMPLES block := by
  intro htraps
  rcases counter_of_ends id hF hS h with hshort | hlong
  · obtain ⟨n, hn⟩ := detection_of_ends id hF hS h hlen
    have hdetect := hn (max n 65536) (Nat.le_max_left _ _)
    rw [detection_of_traps hS (Nat.le_max_right _ _) hshort hlen htraps] at hdetect
    exact hdetect
  · exact not_traps_of_long hlong htraps

/-! ### Calls that fail at once -/

theorem copyFrame_yields_ne (frame : List Int16) : Yields (· ≠ .overflow) (fun _ => True) (d.copyFrame frame) := by
  rw [copyFrame]
  refine forLoop_yields (P := fun _ _ => True) trivial fun ii cells _ _ => ?_
  rw [sampleAt]
  cases frame[ii]? with
  | none => exact (by decide : Fault.bounds ≠ .overflow)
  | some x =>
    show Yields _ _ (cells.store _ _)
    rw [Cells.store]
    split_ifs
    · trivial
    · exact (by decide : Fault.bounds ≠ .overflow)

/-- A call does not return when it has a block, and the first one is at fault. -/
theorem dtmfDetecting_fails {frame : List Int16} (hle : d.SAMPLES ≤ d.frameCount + d.frameSize)
    (hfirst : ∀ cells, d.copyFrame frame = .ok cells → Yields (· ≠ .overflow) (fun _ => False)
      (detectBlock fuel ({ d with pArraySamples := cells, frameCount := d.frameCount + d.frameSize }, 0))) :
    Yields (· ≠ .overflow) (fun _ => False) (dtmfDetecting fuel d frame) := by
  have hyields := copyFrame_yields_ne (d := d) frame
  rw [dtmfDetecting]
  cases hcopy : d.copyFrame frame with
  | error fault =>
    rw [hcopy] at hyields
    exact hyields
  | ok cells =>
    show Yields _ _ (ite _ _ _)
    rw [if_pos hle]
    refine (whileLoop_fails (by decide : Fault.endless ≠ .overflow) ?_ (hfirst cells hcopy)).bind fun _ => False.elim
    exact decide_eq_true hle

/-- A block without samples divides by zero. -/
theorem detectBlock_zero (hzero : d.SAMPLES = 0) : detectBlock fuel (d, 0) = .error .zero := by
  rw [detectBlock, loadBlock, hzero]
  rfl

theorem ne_zero_of_ends (h : EndsOrTraps frameSize SAMPLES) : SAMPLES ≠ 0 := by
  obtain ⟨d, hd, hall⟩ := h
  obtain ⟨hsum, -, rfl⟩ := new_eq_ok_iff.mp hd
  rintro rfl
  have hframes : ∀ frame ∈ [List.replicate frameSize.toInt.toNat (0 : Int16)], frame.length = frameSize.toInt.toNat :=
    fun frame hmem => by rw [List.mem_singleton.mp hmem, List.length_replicate]
  obtain ⟨n, hn⟩ := hall _ hframes
  have hfails : Yields (· ≠ .overflow) (fun _ => False)
      (feed n ⟨frameSize, 0, .replicate (frameSize + 0).toInt.toNat none, 0, .new⟩ [.replicate frameSize.toInt.toNat 0]) :=
    (dtmfDetecting_fails ?_ fun cells _ => ?_).bind fun _ => False.elim
  · exact hfails.not_yields (fun e he => he) (hn n (Nat.le_refl n))
  · rw [Int32.add_zero] at hsum
    show (0 : Int32) ≤ 0 + frameSize
    rw [Int32.zero_add, Int32.le_iff_toInt_le]
    exact hsum
  · rw [detectBlock_zero rfl]
    exact (by decide : Fault.zero ≠ .overflow)

/-! ### Negative frame sizes -/

/-- Behind `n` calls for frames of a negative size. -/
structure Drifting (frameSize SAMPLES : Int32) (n : Nat) (d : DtmfDetector) : Prop where
  frameCount : d.frameCount.toInt = (frameSize.toInt * n).bmod (2 ^ 32)
  cells : d.pArraySamples = .replicate (frameSize + SAMPLES).toInt.toNat none
  frameSize : d.frameSize = frameSize
  SAMPLES : d.SAMPLES = SAMPLES

section Negative
variable {n : Nat} {frame : List Int16}

theorem Drifting.toInt_frameCount (h : Drifting frameSize SAMPLES n d) :
    (d.frameCount + d.frameSize).toInt = (frameSize.toInt * (n + 1 : Nat)).bmod (2 ^ 32) := by
  rw [Int32.toInt_add, h.frameCount, h.frameSize, Int.bmod_add_bmod]
  congr 1
  push_cast
  ring

variable (hneg : frameSize.toInt < 0)
include hneg

theorem Drifting.copyFrame (h : Drifting frameSize SAMPLES n d) : d.copyFrame frame = .ok d.pArraySamples := by
  rw [DtmfDetector.copyFrame, h.frameSize, Int.toNat_of_nonpos (by omega)]
  rfl

/-- A call changes the count only, when that leaves less than a block. -/
theorem Drifting.next (h : Drifting frameSize SAMPLES n d)
    (hlt : (frameSize.toInt * (n + 1 : Nat)).bmod (2 ^ 32) < SAMPLES.toInt) :
    ∃ e, dtmfDetecting fuel d frame = .ok e ∧ Drifting frameSize SAMPLES (n + 1) e := by
  have hcond : ¬d.SAMPLES ≤ d.frameCount + d.frameSize := by
    rw [Int32.le_iff_toInt_le, h.toInt_frameCount, h.SAMPLES]
    omega
  refine ⟨{ d with frameCount := d.frameCount + d.frameSize }, ?_, h.toInt_frameCount, h.cells, h.frameSize, h.SAMPLES⟩
  rw [dtmfDetecting, h.copyFrame hneg]
  exact if_neg hcond

/-- A call that wraps around to a block reads a cell that was never written. -/
theorem Drifting.fails (h : Drifting frameSize SAMPLES n d) (hS : 0 < SAMPLES.toInt)
    (hge : SAMPLES.toInt ≤ (frameSize.toInt * (n + 1 : Nat)).bmod (2 ^ 32)) :
    Yields (· ≠ .overflow) (fun _ => False) (dtmfDetecting fuel d frame) := by
  refine dtmfDetecting_fails ?_ fun cells hcells => ?_
  · rw [Int32.le_iff_toInt_le, h.toInt_frameCount, h.SAMPLES]
    exact hge
  · obtain rfl := Except.ok.inj ((h.copyFrame hneg).symm.trans hcells)
    obtain ⟨k, hk⟩ : ∃ k, SAMPLES.toUInt32.toNat = k + 1 := Nat.exists_eq_succ_of_ne_zero (by
      rw [toNat_toUInt32 (by omega)]
      omega)
    have hload : Yields (· ≠ .overflow) (fun _ => False) (d.pArraySamples.load (0 + 0 : Nat)) := by
      rw [h.cells]
      cases (frameSize + SAMPLES).toInt.toNat with
      | zero => exact (by decide : Fault.bounds ≠ .overflow)
      | succ n => exact (by decide : Fault.unset ≠ .overflow)
    have hblock : Yields (· ≠ .overflow) (fun _ => False) (d.loadBlock 0) := by
      rw [loadBlock, h.SAMPLES, hk, List.range_succ_eq_map, List.mapM_cons]
      exact hload.bind fun _ => False.elim
    exact hblock.bind fun _ => False.elim

/-- Along as many calls no count is as large as a block. -/
theorem Drifting.feed {k : Nat} (hS : 0 < SAMPLES.toInt) (h : Drifting frameSize SAMPLES n d)
    (hfeed : Yields (· = .overflow) (fun _ => True) (DtmfDetector.feed fuel d (.replicate k []))) :
    ∀ m ≤ k, 0 < m → (frameSize.toInt * (n + m : Nat)).bmod (2 ^ 32) < SAMPLES.toInt := by
  induction k generalizing n d with
  | zero =>
    intro m hm hpos
    omega
  | succ k ih =>
    have hfirst : (frameSize.toInt * (n + 1 : Nat)).bmod (2 ^ 32) < SAMPLES.toInt := by
      by_contra hge
      have hfails : Yields (· ≠ .overflow) (fun _ => False) (DtmfDetector.feed fuel d ([] :: .replicate k [])) :=
        (h.fails hneg hS (Int.not_lt.mp hge)).bind fun _ => False.elim
      exact hfails.not_yields (fun e he => he) hfeed
    obtain ⟨d', hd', h'⟩ := @Drifting.next _ _ d fuel n [] hneg h hfirst
    have hrest : Yields (· = .overflow) (fun _ => True) (DtmfDetector.feed fuel d' (.replicate k [])) := by
      rw [List.replicate_succ, DtmfDetector.feed, List.foldlM_cons, hd'] at hfeed
      exact hfeed
    intro m hm hpos
    rcases Nat.lt_or_eq_of_le (Nat.succ_le_of_lt hpos) with hlt | heq
    · have hlater := ih h' hrest (m - 1) (by omega) (by omega)
      rwa [Nat.add_assoc, Nat.add_sub_cancel' (by omega)] at hlater
    · rwa [← heq]

/-- When no count is ever as large as a block, the calls do nothing. -/
theorem Drifting.feed_ok {frames : List (List Int16)} (h : Drifting frameSize SAMPLES n d)
    (hwrap : ∀ m : Nat, (frameSize.toInt * m).bmod (2 ^ 32) < SAMPLES.toInt) :
    ∃ e, DtmfDetector.feed fuel d frames = .ok e := by
  induction frames generalizing n d with
  | nil => exact ⟨d, rfl⟩
  | cons frame frames ih =>
    obtain ⟨d', hd', h'⟩ := @Drifting.next _ _ d fuel n frame hneg h (hwrap (n + 1))
    obtain ⟨e, he⟩ := ih h'
    refine ⟨e, ?_⟩
    rw [DtmfDetector.feed, List.foldlM_cons, hd']
    exact he

end Negative

theorem drifting_new (hd : new frameSize SAMPLES = .ok d) : Drifting frameSize SAMPLES 0 d := by
  obtain ⟨-, -, rfl⟩ := new_eq_ok_iff.mp hd
  exact ⟨by rw [Nat.cast_zero, Int.mul_zero]; rfl, rfl, rfl, rfl⟩

/-! ### All sizes -/

theorem admissible_of_ends (h : EndsOrTraps frameSize SAMPLES) : Admissible frameSize SAMPLES := by
  have hlowF := frameSize.le_toInt
  have hltS := SAMPLES.toInt_lt
  have hltF := frameSize.toInt_lt
  have hne : SAMPLES.toInt ≠ 0 := fun h0 => ne_zero_of_ends h (Int32.toInt_inj.mp h0)
  obtain ⟨d, hd, hall⟩ := h
  obtain ⟨hsum, hge, -⟩ := new_eq_ok_iff.mp hd
  have hS : 0 < SAMPLES.toInt := by omega
  refine ⟨hS, ?_, fun hF => counter_of_ends (by decide) hF hS ⟨d, hd, hall⟩, fun hF m => ?_⟩
  · rw [Int32.toInt_add, Int.bmod_def] at hsum
    split_ifs at hsum <;> omega
  · have hframes : ∀ frame ∈ List.replicate m ([] : List Int16), frame.length = frameSize.toInt.toNat :=
      fun frame hmem => by
        rw [(List.mem_replicate.mp hmem).2, Int.toNat_of_nonpos (by omega)]
        rfl
    obtain ⟨n, hn⟩ := hall _ hframes
    have hdrift := (drifting_new hd).feed hF hS (hn n (Nat.le_refl n)) m (Nat.le_refl m)
    rw [Nat.zero_add] at hdrift
    rcases Nat.eq_zero_or_pos m with rfl | hpos
    · rw [Nat.cast_zero, Int.mul_zero]
      exact hS
    · exact hdrift hpos

theorem Admissible.ends (h : Admissible frameSize SAMPLES)
    (htrap : 0 < frameSize.toInt → ∀ block : List Int16, block.length = SAMPLES.toInt.toNat →
      E .overflow ∨ ¬Traps SAMPLES block) : Ends E frameSize SAMPLES := by
  obtain ⟨hS, harray, hcounter, hwrap⟩ := h
  have hadd : (frameSize + SAMPLES).toInt = frameSize.toInt + SAMPLES.toInt := by
    have hlow := frameSize.le_toInt
    rw [Int32.toInt_add, Int.bmod_eq_of_le (by omega) (by omega)]
  have hd := new_eq_ok_iff.mpr ⟨by rw [hadd]; exact harray.1, Int.le_of_lt hS, rfl⟩
  refine ⟨_, hd, fun frames hframes => ?_⟩
  rcases lt_or_ge frameSize.toInt 0 with hneg | hnonneg
  · refine ⟨0, fun fuel _ => ?_⟩
    obtain ⟨e, he⟩ := @Drifting.feed_ok _ _ _ fuel 0 hneg frames (drifting_new hd) (hwrap hneg)
    rw [he]
    trivial
  · exact ⟨max 65536 frames.flatten.length, fun fuel hfuel =>
      feed_ends ⟨hnonneg, hS, harray.2⟩ hd hcounter htrap hframes hfuel⟩

/-- All loops end exactly for the admissible sizes. -/
theorem endsOrTraps_iff : EndsOrTraps frameSize SAMPLES ↔ Admissible frameSize SAMPLES :=
  ⟨admissible_of_ends, fun h => h.ends fun _ _ _ => Or.inl rfl⟩

/-- All calls return when no block traps either. -/
theorem usable_iff : Usable frameSize SAMPLES ↔ Admissible frameSize SAMPLES ∧
    (0 < frameSize.toInt → ∀ block : List Int16, block.length = SAMPLES.toInt.toNat → ¬Traps SAMPLES block) := by
  constructor
  · intro h
    have hadmissible := admissible_of_ends (h.mono fun _ => False.elim)
    exact ⟨hadmissible, fun hF block hlen => not_traps_of_usable hF hadmissible.block h hlen⟩
  · rintro ⟨hadmissible, htraps⟩
    exact hadmissible.ends fun hF block hlen => Or.inr (htraps hF block hlen)

end Sizes
end DtmfDetector

/-! ### The settings of the plugin -/

namespace Dtmf
open DtmfDetector

-- The defaults.
example : Usable 160 102 :=
  usable_iff.mpr ⟨⟨by decide, by decide, fun _ => Or.inl (by decide), fun h => absurd h (by decide)⟩,
    fun _ block hlen => not_traps_of_le (by rw [hlen]; decide) _⟩

end Dtmf
end Recd2
