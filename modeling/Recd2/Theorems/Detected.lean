import Recd2.Theorems.Blocks
import Recd2.Theorems.Traps

/-! What a new detector detects of a stream, and what it reports. -/

namespace Recd2
open Checked Framing
namespace DtmfDetector

/-! ### The constructor -/

/-- There is a detector when no array has a negative size. -/
theorem new_eq_ok_iff {frameSize SAMPLES : Int32} {d : DtmfDetector} :
    new frameSize SAMPLES = .ok d ↔ 0 ≤ (frameSize + SAMPLES).toInt ∧ 0 ≤ SAMPLES.toInt ∧
      d = ⟨frameSize, SAMPLES, .replicate (frameSize + SAMPLES).toInt.toNat none, 0, .new⟩ := by
  rw [new, Cells.alloc, Cells.alloc]
  by_cases hsum : (frameSize + SAMPLES).toInt < 0
  · rw [if_pos hsum]
    exact ⟨fun h => (nomatch h), fun h => absurd h.1 (by omega)⟩
  · rw [if_neg hsum]
    by_cases hS : SAMPLES.toInt < 0
    · rw [if_pos hS]
      exact ⟨fun h => (nomatch h), fun h => absurd h.2.1 (by omega)⟩
    · rw [if_neg hS]
      exact ⟨fun h => ⟨by omega, by omega, (Except.ok.inj h).symm⟩, fun h => congrArg Except.ok h.2.2.symm⟩

section New
variable {frameSize SAMPLES : Int32} {d : DtmfDetector}

theorem sizes_of_new (hf : 0 ≤ frameSize.toInt) (hS : 0 < SAMPLES.toInt) (hd : new frameSize SAMPLES = .ok d) :
    Sizes frameSize SAMPLES := by
  obtain ⟨hsum, -, -⟩ := new_eq_ok_iff.mp hd
  refine ⟨hf, hS, ?_⟩
  have hltF := frameSize.toInt_lt
  have hltS := SAMPLES.toInt_lt
  by_contra hge
  rw [Int32.toInt_add, Int.bmod_def] at hsum
  split_ifs at hsum <;> omega

theorem holding_new (hsizes : Sizes frameSize SAMPLES) (hd : new frameSize SAMPLES = .ok d) :
    Holding frameSize SAMPLES [] [] d ∧ d.buttons = .new := by
  obtain ⟨hf, hS, hsum⟩ := hsizes
  obtain ⟨-, -, rfl⟩ := new_eq_ok_iff.mp hd
  refine ⟨⟨?_, Cells.Begins.nil _, rfl, rfl, rfl⟩, rfl⟩
  rw [List.length_replicate, Int32.toInt_add, Int.bmod_eq_of_le (by omega) (by omega)]
  omega

end New

/-! ### The blocks and their verdicts -/

/-- These blocks were detected, with these verdicts, and the buttons are those that the verdicts give. -/
structure Detected (fuel : Nat) (SAMPLES : Int32) (blocks : List (List Int16)) (b : DialButtons) : Prop where
  valid : b.Valid
  blocks : b.detected.map Prod.fst = blocks
  verdicts : ∀ p ∈ b.detected, DTMF_detection fuel SAMPLES p.1 = .ok p.2

theorem detected_new (fuel : Nat) (SAMPLES : Int32) : Detected fuel SAMPLES [] .new :=
  ⟨DialButtons.valid_new, rfl, fun _ h => absurd h List.not_mem_nil⟩

section Blocks
variable {E : Fault → Prop} {fuel : Nat} {SAMPLES : Int32} {blocks : List (List Int16)} {b : DialButtons}

theorem detection_yields {block : List Int16} (hS : 0 < SAMPLES.toInt) (hlen : block.length = SAMPLES.toInt.toNat)
    (hfuel : SAMPLES.toInt < 65536 ∧ 65536 ≤ fuel ∨ E .endless) (htrap : E .overflow) :
    Yields E (fun _ => True) (DTMF_detection fuel SAMPLES block) := by
  have hcount := toNat_toUInt32 (Int.le_of_lt hS)
  exact DTMF_detection_yields hS (hlen.trans hcount.symm) (hfuel.imp_left fun h => by omega) htrap

theorem detectStep_yields (h : Detected fuel SAMPLES blocks b) {block : List Int16}
    (hdetect : Yields E (fun _ => True) (DTMF_detection fuel SAMPLES block)) :
    Yields E (Detected fuel SAMPLES (blocks ++ [block])) (detectStep fuel SAMPLES b block) := by
  rw [detectStep]
  cases hverdict : DTMF_detection fuel SAMPLES block with
  | error e =>
    rw [hverdict] at hdetect
    exact hdetect
  | ok v =>
    refine (DialButtons.accept_yields h.valid block v).mono fun b' hb' => ⟨hb'.1, ?_, ?_⟩
    · rw [hb'.2, List.map_append, h.blocks]
      rfl
    · rw [hb'.2]
      intro p hp
      rcases List.mem_append.mp hp with hp | hp
      · exact h.verdicts p hp
      · rw [List.mem_singleton.mp hp]
        exact hverdict

theorem foldlM_detectStep_yields (h : Detected fuel SAMPLES blocks b) (more : List (List Int16))
    (hdetect : ∀ block ∈ more, Yields E (fun _ => True) (DTMF_detection fuel SAMPLES block)) :
    Yields E (Detected fuel SAMPLES (blocks ++ more)) (more.foldlM (detectStep fuel SAMPLES) b) := by
  induction more generalizing blocks b with
  | nil =>
    rw [List.append_nil]
    exact h
  | cons block more ih =>
    obtain ⟨hblock, hmore⟩ := List.forall_mem_cons.mp hdetect
    rw [List.foldlM_cons]
    refine (detectStep_yields h hblock).bind fun b' hb' => ?_
    have hnext := ih hb' hmore
    rwa [List.append_assoc] at hnext

theorem detectAll_yields (xs : List Int16) (hdetect : ∀ block ∈ pieces SAMPLES.toInt.toNat xs,
    Yields E (fun _ => True) (DTMF_detection fuel SAMPLES block)) :
    Yields E (fun t => Detected fuel SAMPLES (pieces SAMPLES.toInt.toNat xs) t.1 ∧ t.2 = rest SAMPLES.toInt.toNat xs)
      (detectAll fuel SAMPLES .new xs) :=
  (foldlM_detectStep_yields (detected_new fuel SAMPLES) _ hdetect).bind fun _ hb => ⟨hb, rfl⟩

end Blocks

/-! ### The detector -/

/-- What a detector has found, and the samples that it has not used up. -/
def held (d : DtmfDetector) : DialButtons × Cells Int16 := (d.buttons, d.pArraySamples.take d.frameCount.toInt.toNat)

theorem Holding.held {frameSize SAMPLES : Int32} {left : List Int16} {d : DtmfDetector}
    (h : Holding frameSize SAMPLES [] left d) : d.held = (d.buttons, left.map some) := by
  have htake := List.prefix_iff_eq_take.mp h.begins
  rw [List.nil_append, List.length_map] at htake
  rw [DtmfDetector.held, h.frameCount, Int.toNat_natCast, htake]

section Feed
variable {frameSize SAMPLES : Int32} {d : DtmfDetector} {frames : List (List Int16)}

/-- The calls for frames of a stream find what is in the stream, or a call has more blocks than the rounds that it may
    make. -/
theorem feed_cases (hf : 0 ≤ frameSize.toInt) (hS : 0 < SAMPLES.toInt) (hd : new frameSize SAMPLES = .ok d)
    (hframes : ∀ frame ∈ frames, (frame.length : Int) = frameSize.toInt) (fuel : Nat) :
    Follows (fun e t => e.held = (t.1, t.2.map some)) (feed fuel d frames) (detectAll fuel SAMPLES .new frames.flatten) ∨
      fuel < frames.flatten.length ∧ feed fuel d frames = .error .endless := by
  have hsizes := sizes_of_new hf hS hd
  obtain ⟨hholding, hbuttons⟩ := holding_new hsizes hd
  have hnone : ([] : List Int16).length < SAMPLES.toInt.toNat := by
    rw [List.length_nil]
    omega
  have hfollows : Follows _ (feed fuel d frames) (feedList fuel SAMPLES (d.buttons, []) frames) :=
    feed_follows hsizes hholding hnone fun frame hmem => by
      have hlen := hframes frame hmem
      omega
  rw [hbuttons] at hfollows
  rcases @feedList_eq fuel SAMPLES [] hS .new frames hnone with heq | ⟨hlt, heq⟩
  · rw [heq, List.nil_append] at hfollows
    exact Or.inl (hfollows.mono fun e t ⟨h, _, hb⟩ => by rw [h.held, hb])
  · rw [heq] at hfollows
    exact Or.inr ⟨hlt, hfollows.error⟩

/-- A run that has enough rounds has no other faults than the detections of its blocks. -/
theorem feed_yields {E : Fault → Prop} {fuel : Nat} (hf : 0 ≤ frameSize.toInt) (hS : 0 < SAMPLES.toInt)
    (hd : new frameSize SAMPLES = .ok d) (hframes : ∀ frame ∈ frames, (frame.length : Int) = frameSize.toInt)
    (hfuel : frames.flatten.length ≤ fuel ∨ E .endless)
    (hdetect : ∀ block ∈ pieces SAMPLES.toInt.toNat frames.flatten,
      Yields E (fun _ => True) (DTMF_detection fuel SAMPLES block)) :
    Yields E (fun e => Detected fuel SAMPLES (pieces SAMPLES.toInt.toNat frames.flatten) e.buttons ∧
      e.held.2 = (rest SAMPLES.toInt.toNat frames.flatten).map some) (feed fuel d frames) := by
  rcases feed_cases hf hS hd hframes fuel with hfollows | ⟨hlt, heq⟩
  · refine (hfollows.yields (detectAll_yields _ hdetect)).mono ?_
    rintro e ⟨⟨b, left⟩, hheld, hdetected, hrest⟩
    have hbuttons : e.buttons = b := congrArg Prod.fst hheld
    refine ⟨hbuttons ▸ hdetected, ?_⟩
    rw [hheld, ← hrest]
  · rw [heq]
    exact hfuel.resolve_left (by omega)

/-- What goes wrong in a run is that a loop does not end, or that a detection traps. -/
theorem feed_endless_or (hf : 0 ≤ frameSize.toInt) (hS : 0 < SAMPLES.toInt) (hd : new frameSize SAMPLES = .ok d)
    (hframes : ∀ frame ∈ frames, (frame.length : Int) = frameSize.toInt) (fuel : Nat) :
    Yields (fun fault => fault = .endless ∨ fault = .overflow) (fun e => Detected fuel SAMPLES (pieces SAMPLES.toInt.toNat frames.flatten) e.buttons ∧
      e.held.2 = (rest SAMPLES.toInt.toNat frames.flatten).map some) (feed fuel d frames) :=
  feed_yields hf hS hd hframes (Or.inr (Or.inl rfl)) fun _ hblock =>
    detection_yields hS (length_of_mem_pieces hblock) (Or.inr (Or.inl rfl)) (Or.inr rfl)

/-- With enough rounds the calls return exactly when the detections of the blocks do. -/
theorem feed_returns_iff {fuel : Nat} (hf : 0 ≤ frameSize.toInt) (hS : 0 < SAMPLES.toInt) (hd : new frameSize SAMPLES = .ok d)
    (hframes : ∀ frame ∈ frames, (frame.length : Int) = frameSize.toInt) (hfuel : frames.flatten.length ≤ fuel) :
    (∃ e, feed fuel d frames = .ok e) ↔
      ∀ block ∈ pieces SAMPLES.toInt.toNat frames.flatten, ∃ v, DTMF_detection fuel SAMPLES block = .ok v := by
  constructor
  · rintro ⟨e, he⟩ block hblock
    obtain ⟨hdetected, -⟩ := (feed_endless_or hf hS hd hframes fuel).ok he
    rw [← hdetected.blocks] at hblock
    obtain ⟨p, hp, rfl⟩ := List.mem_map.mp hblock
    exact ⟨p.2, hdetected.verdicts p hp⟩
  · intro hreturns
    obtain ⟨e, he, -⟩ := (feed_yields (E := fun _ => False) hf hS hd hframes (Or.inl hfuel) fun block hblock => by
      obtain ⟨v, hv⟩ := hreturns block hblock
      rw [hv]
      trivial).exists_ok
    exact ⟨e, he⟩

/-- Where the counter of the filter does not wrap, they return exactly when no block traps. -/
theorem feed_returns_iff_not_traps {fuel : Nat} (hf : 0 ≤ frameSize.toInt) (hS : 0 < SAMPLES.toInt)
    (hd : new frameSize SAMPLES = .ok d) (hframes : ∀ frame ∈ frames, (frame.length : Int) = frameSize.toInt)
    (hcount : SAMPLES.toInt < 65536) (hfuel : 65536 ≤ fuel ∧ frames.flatten.length ≤ fuel) :
    (∃ e, feed fuel d frames = .ok e) ↔ ∀ block ∈ pieces SAMPLES.toInt.toNat frames.flatten, ¬Traps SAMPLES block := by
  rw [feed_returns_iff hf hS hd hframes hfuel.2]
  exact forall₂_congr fun block hblock => detection_returns_iff hS hfuel.1 hcount (length_of_mem_pieces hblock)

end Feed
end DtmfDetector
end Recd2
