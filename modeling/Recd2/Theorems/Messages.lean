import Recd2.Theorems.Detected

/-! What a detector has found in the samples that it got so far, from one call to the next. -/

namespace Recd2
open Checked Framing
namespace DtmfDetector

/-- The verdict on a block, where there is one. -/
def verdictOf (fuel : Nat) (SAMPLES : Int32) (block : List Int16) : Char :=
  match DTMF_detection fuel SAMPLES block with
  | .ok v => v
  | .error _ => ' '

/-- The buttons in a stream of samples. -/
def message (fuel : Nat) (SAMPLES : Int32) (xs : List Int16) : List Char :=
  reported ((pieces SAMPLES.toInt.toNat xs).map (verdictOf fuel SAMPLES))

section Verdicts
variable {fuel : Nat} {SAMPLES : Int32} {blocks : List (List Int16)} {v : Char}

theorem verdictOf_eq {block : List Int16} (h : DTMF_detection fuel SAMPLES block = .ok v) :
    verdictOf fuel SAMPLES block = v := by
  rw [verdictOf, h]

theorem map_verdictOf (h : ∀ block ∈ blocks, DTMF_detection fuel SAMPLES block = .ok v) :
    blocks.map (verdictOf fuel SAMPLES) = List.replicate blocks.length v :=
  List.eq_replicate_iff.mpr ⟨List.length_map _, List.forall_mem_map.mpr fun block hblock => verdictOf_eq (h block hblock)⟩

theorem Detected.map_verdictOf {b : DialButtons} (h : Detected fuel SAMPLES blocks b) :
    b.detected.map Prod.snd = blocks.map (verdictOf fuel SAMPLES) := by
  rw [← h.blocks, List.map_map]
  exact List.map_congr_left fun p hp => (verdictOf_eq (h.verdicts p hp)).symm

end Verdicts

/-- The detector behind the samples of a stream: it has the buttons in them, and holds what is behind the last block. -/
structure Found (fuel : Nat) (frameSize SAMPLES : Int32) (xs : List Int16) (d : DtmfDetector) : Prop where
  holding : Holding frameSize SAMPLES [] (rest SAMPLES.toInt.toNat xs) d
  detected : Detected fuel SAMPLES (pieces SAMPLES.toInt.toNat xs) d.buttons

section Found
variable {E : Fault → Prop} {fuel : Nat} {frameSize SAMPLES : Int32} {xs frame : List Int16} {d : DtmfDetector}

theorem Found.storing (h : Found fuel frameSize SAMPLES xs d) :
    Storing d.buttons.dialButtons d.buttons.indexForDialButtons d.buttons.appended (message fuel SAMPLES xs) := by
  have hstoring := h.detected.valid.storing
  rwa [h.detected.map_verdictOf] at hstoring

variable (hsizes : Sizes frameSize SAMPLES)
include hsizes

theorem found_new (hd : new frameSize SAMPLES = .ok d) : Found fuel frameSize SAMPLES [] d := by
  obtain ⟨hholding, hbuttons⟩ := holding_new hsizes hd
  have hS := hsizes.block
  have hnone : ([] : List Int16).length < SAMPLES.toInt.toNat := by
    rw [List.length_nil]
    omega
  refine ⟨?_, ?_⟩
  · rwa [rest_of_lt hnone]
  · rw [pieces_of_lt hnone, hbuttons]
    exact detected_new fuel SAMPLES

/-- A call has no other faults than the detections of its blocks when it may make a round for each sample of its frame. -/
theorem Found.dtmfDetecting (h : Found fuel frameSize SAMPLES xs d) (hframe : frame.length = frameSize.toInt.toNat)
    (hfuel : frameSize.toInt.toNat ≤ fuel)
    (hdetect : ∀ block ∈ pieces SAMPLES.toInt.toNat (rest SAMPLES.toInt.toNat xs ++ frame),
      Yields E (fun _ => True) (DTMF_detection fuel SAMPLES block)) :
    Yields E (Found fuel frameSize SAMPLES (xs ++ frame)) (d.dtmfDetecting fuel frame) := by
  have hS := hsizes.block
  have hpos : 0 < SAMPLES.toInt.toNat := by omega
  have hleft := length_rest_lt hpos xs
  have hrounds : (rest SAMPLES.toInt.toNat xs ++ frame).length / SAMPLES.toInt.toNat ≤ fuel := by
    have hle := Nat.le_mul_of_pos_left frame.length hpos
    have hlt : (rest SAMPLES.toInt.toNat xs ++ frame).length / SAMPLES.toInt.toNat < frame.length + 1 := by
      refine Nat.div_lt_of_lt_mul ?_
      rw [List.length_append, Nat.mul_succ]
      omega
    omega
  have hloop : Yields E (fun t => Detected fuel SAMPLES (pieces SAMPLES.toInt.toNat (xs ++ frame)) t.1 ∧
      t.2 = rest SAMPLES.toInt.toNat (xs ++ frame))
      (blockLoop fuel fuel SAMPLES (d.buttons, rest SAMPLES.toInt.toNat xs ++ frame)) := by
    rw [(blockLoop_eq hS _ _).resolve_right fun hlt => absurd hlt.1 (Nat.not_lt.mpr hrounds), pieces_append_rest hpos,
      rest_append_rest hpos]
    exact (foldlM_detectStep_yields h.detected _ hdetect).bind fun b hb => ⟨hb, rfl⟩
  refine ((dtmfDetecting_follows hsizes h.holding hleft hframe).yields hloop).mono ?_
  rintro d' ⟨⟨b, left⟩, ⟨hholding, -, hbuttons⟩, hdetected, hrest⟩
  obtain rfl : left = _ := hrest
  exact ⟨hholding, hbuttons ▸ hdetected⟩

/-- A call returns exactly when no block of the stream so far traps. -/
theorem Found.dtmfDetecting_cases (h : Found fuel frameSize SAMPLES xs d) (hframe : frame.length = frameSize.toInt.toNat)
    (hcount : SAMPLES.toInt < 65536) (hfuel : 65536 ≤ fuel ∧ frameSize.toInt.toNat ≤ fuel) :
    (∀ block ∈ pieces SAMPLES.toInt.toNat (xs ++ frame), ¬Traps SAMPLES block) ∧
        Yields (fun _ => False) (Found fuel frameSize SAMPLES (xs ++ frame)) (d.dtmfDetecting fuel frame) ∨
      (¬∀ block ∈ pieces SAMPLES.toInt.toNat (xs ++ frame), ¬Traps SAMPLES block) ∧ Fails (d.dtmfDetecting fuel frame) := by
  have hS := hsizes.block
  by_cases hall : ∀ block ∈ pieces SAMPLES.toInt.toNat (xs ++ frame), ¬Traps SAMPLES block
  · refine Or.inl ⟨hall, h.dtmfDetecting hsizes hframe hfuel.2 fun block hblock => ?_⟩
    refine detection_yields_of_not_traps hS hfuel.1 hcount (length_of_mem_pieces hblock) (hall block ?_)
    rw [pieces_append_rest (by omega)]
    exact List.mem_append_right _ hblock
  · refine Or.inr ⟨hall, ?_⟩
    have hany := h.dtmfDetecting (E := fun _ => True) hsizes hframe hfuel.2 fun block _ => by
      cases DTMF_detection fuel SAMPLES block <;> trivial
    cases hcall : d.dtmfDetecting fuel frame with
    | error e => exact ⟨e, rfl⟩
    | ok d' =>
      -- The verdicts that were found are there for all blocks.
      refine absurd (fun block hblock => ?_) hall
      have hdetected := (hany.ok hcall).detected
      rw [← hdetected.blocks] at hblock
      obtain ⟨p, hp, rfl⟩ := List.mem_map.mp hblock
      have hlen : p.1.length = SAMPLES.toInt.toNat := by
        rw [hdetected.blocks] at hblock
        exact length_of_mem_pieces hblock
      exact (detection_returns_iff hS hfuel.1 hcount hlen).mp ⟨p.2, hdetected.verdicts p hp⟩

end Found
end DtmfDetector
end Recd2
