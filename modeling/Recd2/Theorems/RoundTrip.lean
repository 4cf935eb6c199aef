import Recd2.Theorems.Messages
import Recd2.Theorems.Reports
import Recd2.Theorems.ToneWindows

/-! What the generator plays is what the detector hears: the buttons that are transmitted are the buttons that are reported,
    whatever the sizes of the frames are and however the blocks lie over the tones. -/

namespace Recd2
open Checked Framing DtmfGenerator
namespace DtmfDetector

theorem ne_of_tones {button : Char} {p : Nat × Nat} (h : DtmfGenerator.tones button = some p) : button ≠ ' ' := by
  rintro rfl
  cases h

/-! ### The verdicts on a signal -/

section Signal
variable {fuel : Nat} (hfuel : 65536 ≤ fuel)

theorem absSum_zeros (n : Nat) : absSum (List.replicate n 0) = 0 := by
  induction n with
  | zero => rfl
  | succ n ih => exact ih

/-- A block of zeros is silent. -/
theorem map_verdictOf_zeros (fuel q : Nat) : (pieces 102 (List.replicate q 0)).map (verdictOf fuel 102) =
    List.replicate (q / 102) ' ' := by
  have hsilent : absSum (List.replicate 102 0) / 102 < powerThreshold := by
    rw [absSum_zeros]
    decide
  rw [map_verdictOf (v := ' '), length_pieces, List.length_replicate]
  intro block hblock
  obtain ⟨off, hoff, rfl⟩ := exists_of_mem_pieces hblock
  rw [List.length_replicate] at hoff
  have hzeros : Bytes.slice off 102 (List.replicate q (0 : Int16)) = List.replicate 102 0 := by
    rw [Bytes.slice, List.drop_replicate, List.take_replicate, Nat.min_eq_left (by omega)]
  rw [hzeros]
  exact DTMF_detection_of_lt (by decide) hsilent

include hfuel

/-- The blocks in a part of a tone have its button. -/
theorem map_verdictOf_tone {button : Char} {low high : Nat} (htones : DtmfGenerator.tones button = some (low, high)) {k L : Nat}
    (hL : L ≤ 2048) : (pieces 102 (((List.range L).map (tone button)).drop k)).map (verdictOf fuel 102) =
      List.replicate ((L - k) / 102) button := by
  rw [map_verdictOf (v := button), length_pieces, List.length_drop, List.length_map, List.length_range]
  intro block hblock
  obtain ⟨off, hoff, rfl⟩ := exists_of_mem_pieces hblock
  rw [List.length_drop, List.length_map, List.length_range] at hoff
  have hwindow : Bytes.slice off 102 (((List.range L).map (tone button)).drop k) =
      (List.range 102).map fun j => tone button (k + off + j) := by
    refine List.ext_getElem ?_ fun i _ _ => ?_
    · rw [Bytes.slice, List.length_take, List.length_drop, List.length_drop, List.length_map, List.length_range,
        List.length_map, List.length_range]
      omega
    · rw [List.getElem_of_eq (show Bytes.slice _ _ _ = (((List.map _ _).drop k).drop off).take 102 from rfl),
        List.getElem_take, List.getElem_drop, List.getElem_drop, List.getElem_map, List.getElem_range, List.getElem_map,
        List.getElem_range, Nat.add_assoc]
  rw [hwindow]
  exact DTMF_detection_tone hfuel htones (by omega)

/-- The buttons of a signal are reported, behind any zeros that are left and in front of any zeros. -/
theorem reported_signal {L Q : Nat} (hL : 305 ≤ L ∧ L ≤ 2048) (hQ : 203 ≤ Q) {buttons : List Char}
    (hbuttons : ∀ button ∈ buttons, ∃ p, DtmfGenerator.tones button = some p) {z : Nat} (hz : z < 102) (more : Nat) :
    reportsBehind ' ' ' ' ((pieces 102 (List.replicate z 0 ++ (signal L Q buttons ++ List.replicate more 0))).map
      (verdictOf fuel 102)) = buttons := by
  induction buttons generalizing z with
  | nil =>
    have hzeros : List.replicate z (0 : Int16) ++ (signal L Q [] ++ List.replicate more 0) = List.replicate (z + more) 0 :=
      (List.replicate_add z more 0).symm
    rw [hzeros, map_verdictOf_zeros, reportsBehind_replicate]
  | cons button buttons ih =>
    obtain ⟨⟨⟨low, high⟩, htones⟩, hbuttons⟩ := List.forall_mem_cons.mp hbuttons
    let tones := (List.range L).map (tone button)
    let behind := signal L Q buttons ++ List.replicate more 0
    have hsignal : signal L Q (button :: buttons) ++ List.replicate more 0 = tones ++ (List.replicate Q 0 ++ behind) := by
      rw [signal, List.flatMap_cons, List.append_assoc, List.append_assoc]
      rfl
    have hlen : tones.length = L := by rw [List.length_map, List.length_range]
    -- The first block of the tone may begin in the pause in front of it, and the last one may end in the pause behind it.
    obtain ⟨k, hk, front, hfront, hpieces⟩ := @exists_pieces_append _ 102 (List.replicate z (0 : Int16)) tones
      (by rwa [List.length_replicate]) (by rw [hlen]; omega)
    obtain ⟨k', hk', mixed, hmixed, hpieces'⟩ := @exists_pieces_append _ 102 (rest 102 (tones.drop k)) (List.replicate Q 0)
      (length_rest_lt (by decide) _) (by rw [List.length_replicate]; omega)
    have hleft : rest 102 (List.replicate (Q - k') (0 : Int16)) = List.replicate ((Q - k') % 102) 0 := by
      rw [rest, List.drop_replicate, List.length_replicate, Nat.mod_eq_sub_div_mul]
    rw [hsignal, hpieces, pieces_append_rest (by decide), hpieces', List.drop_replicate, pieces_append_rest (by decide), hleft,
      List.map_append, List.map_append, List.map_append, List.map_append, map_verdictOf_tone hfuel htones hL.2,
      map_verdictOf_zeros, reportsBehind_button (ne_of_tones htones) (by omega) (by rwa [List.length_map])
        (by rwa [List.length_map]) (by omega), ih hbuttons (Nat.mod_lt _ (by decide))]

end Signal

/-! ### From buttons to buttons -/

theorem terminator_eq {m : Nat} (hm : m ≤ 64) : terminator m = m := by
  cases m with
  | zero => rfl
  | succ m => rw [terminator, Nat.mod_eq_of_lt hm]

/-- Fewer than 64 buttons are stored as a string. -/
theorem take_of_storing {cells : Cells Char} {index : Int} {appended : List (Int × Char)} {buttons : List Char}
    (h : Storing cells index appended buttons) (hlen : buttons.length < 64) :
    cells.take (buttons.length + 1) = (buttons ++ ['\x00']).map some := by
  have hcells : cells.length = 65 := h.length
  refine List.ext_getElem? fun i => ?_
  rcases Nat.lt_trichotomy i buttons.length with hlt | rfl | hgt
  · have hget : buttons[i]? = some buttons[i] := List.getElem?_eq_getElem hlt
    have hstored := h.stored i buttons[i] hget (by omega)
    rw [Nat.mod_eq_of_lt (by omega)] at hstored
    rw [List.getElem?_take_of_lt (by omega), hstored, List.getElem?_map, List.getElem?_append_left hlt, hget]
    rfl
  · have hterminated := h.terminated
    rw [terminator_eq (by omega)] at hterminated
    rw [List.getElem?_take_of_lt (by omega), hterminated, List.getElem?_map, List.getElem?_append_right (Nat.le_refl _),
      Nat.sub_self]
    rfl
  · rw [List.getElem?_eq_none (by rw [List.length_take]; omega),
      List.getElem?_eq_none (by rw [List.length_map, List.length_append, List.length_singleton]; omega)]

section Detect
variable {fuel : Nat} {d : DtmfDetector} {frameSize : Int32} (hf : 0 < frameSize.toInt) (hd : new frameSize 102 = .ok d)
  (hfuel : 65536 ≤ fuel) {frames : List (List Int16)} (hframes : ∀ frame ∈ frames, (frame.length : Int) = frameSize.toInt)
  (hlen : frames.flatten.length ≤ fuel)
include hf hd hfuel hframes hlen

/-- A new detector reports the buttons of a signal, each once, in order. -/
theorem buttons_of_signal {L Q more : Nat} (hL : 305 ≤ L ∧ L ≤ 2048) (hQ : 203 ≤ Q) {buttons : List Char}
    (hbuttons : ∀ button ∈ buttons, ∃ p, DtmfGenerator.tones button = some p)
    (hsignal : frames.flatten = signal L Q buttons ++ List.replicate more 0) :
    ∃ d', feed fuel d frames = .ok d' ∧
      Storing d'.buttons.dialButtons d'.buttons.indexForDialButtons d'.buttons.appended buttons := by
  have hS : 0 < (102 : Int32).toInt := by decide
  obtain ⟨d', hfeed, hdetected, -⟩ := (feed_yields (E := fun _ => False) (Int.le_of_lt hf) hS hd hframes (Or.inl hlen)
    fun block hblock => detection_yields_of_not_traps hS hfuel (by decide) (length_of_mem_pieces hblock)
      (not_traps_of_le (by rw [length_of_mem_pieces hblock]; decide) 102)).exists_ok
  have hverdicts : d'.buttons.detected.map Prod.snd = (pieces 102 frames.flatten).map (verdictOf fuel 102) :=
    hdetected.map_verdictOf
  have hreported := reported_signal hfuel hL hQ hbuttons (z := 0) (by decide) more
  have hstoring := hdetected.valid.storing
  rw [hverdicts, reported_eq, hsignal] at hstoring
  rw [List.replicate_zero, List.nil_append] at hreported
  rw [hreported] at hstoring
  exact ⟨d', hfeed, hstoring⟩

end Detect
end DtmfDetector

/-- A message of dial buttons goes through: what a new generator plays for it makes a new detector store it, as a string. The
    tones and the pauses have to be long enough that two blocks lie in each tone, and one in each pause, wherever the first
    one begins. -/
theorem roundTrip {fuel : Nat} {memory g : DtmfGenerator} {d : DtmfDetector}
    {FrameSize frameSize DurationPush DurationPause : Int32} (hF : 0 < FrameSize.toInt) (hf : 0 < frameSize.toInt)
    (hfuel : 65536 ≤ fuel) (hpush : 0 ≤ DurationPush.toInt ∧ DurationPush.toInt < 2 ^ 28)
    (hpause : 0 ≤ DurationPause.toInt ∧ DurationPause.toInt < 2 ^ 28)
    (hL : 305 ≤ framesOf FrameSize DurationPush * FrameSize.toInt.toNat ∧
      framesOf FrameSize DurationPush * FrameSize.toInt.toNat ≤ 2048)
    (hQ : 203 ≤ framesOf FrameSize DurationPause * FrameSize.toInt.toNat)
    (hg : DtmfGenerator.new memory FrameSize DurationPush DurationPause = .ok g) (hd : DtmfDetector.new frameSize 102 = .ok d)
    {message : List Char} (hmessage : message ≠ [] ∧ message.length ≤ 20)
    (hbuttons : ∀ button ∈ message, ∃ p, DtmfGenerator.tones button = some p)
    {ys : List (Cells Int16)} {y : Cells Int16} (hys : ∀ z ∈ ys ++ [y], z.length = FrameSize.toInt.toNat)
    (hcalls : ys.length = message.length * (framesOf FrameSize DurationPush + framesOf FrameSize DurationPause)) :
    ∃ (g' : DtmfGenerator) (outs : List (Cells Int16)),
      calls fuel g (.transmitNewDialButtonsArray message message.length.toUInt32 :: ys.map .dtmfGenerating ++
          [.dtmfGenerating y] ++ [.getReadyFlag]) =
        .ok (g', .returned 1 :: outs.map .out ++ [.out y] ++ [.returned 1]) ∧
      ∀ (frames : List (List Int16)) (more : Nat), (∀ frame ∈ frames, (frame.length : Int) = frameSize.toInt) →
        frames.flatten.map some = outs.flatten ++ List.replicate more (some 0) → frames.flatten.length ≤ fuel →
        ∃ d', DtmfDetector.feed fuel d frames = .ok d' ∧ d'.buttons.appended.map Prod.snd = message ∧
          d'.buttons.indexForDialButtons = message.length ∧
          d'.buttons.dialButtons.take (message.length + 1) = (message ++ ['\x00']).map some := by
  obtain ⟨hne, hlen⟩ := hmessage
  have hpos := List.length_pos_iff.mpr hne
  have hlength : message.length.toUInt32.toNat = message.length := Nat.mod_eq_of_lt (by omega)
  have hmin : min 20 message.length.toUInt32.toNat = message.length := by
    rw [hlength]
    exact Nat.min_eq_right hlen
  have hzero : message.length.toUInt32 ≠ 0 := fun h => by
    have hzero : message.length.toUInt32.toNat = 0 := congrArg UInt32.toNat h
    omega
  have hsmall : FrameSize.toInt < 65536 := by
    have hframes : 0 < framesOf FrameSize DurationPush := Nat.succ_pos _
    have hle := Nat.le_mul_of_pos_left FrameSize.toInt.toNat hframes
    omega
  obtain ⟨g', hr⟩ := calls_of_transmission ⟨hF, hsmall⟩ hpush hpause hg hfuel hzero hmin.le hys
    (by rw [hmin]; exact hcalls)
  rw [hmin, List.take_length] at hr
  refine ⟨g', _, hr, fun frames more hframes hstream hrounds => ?_⟩
  have hsignal : frames.flatten = signal (framesOf FrameSize DurationPush * FrameSize.toInt.toNat)
      (framesOf FrameSize DurationPause * FrameSize.toInt.toNat) message ++ List.replicate more 0 := by
    refine List.map_injective_iff.mpr (Option.some_injective _) ?_
    rw [hstream, ← samples_schedule, List.map_append, List.map_replicate, List.map_flatMap, List.flatMap_def]
  obtain ⟨d', hfeed, hstoring⟩ := DtmfDetector.buttons_of_signal hf hd hfuel hframes hrounds hL hQ hbuttons hsignal
  refine ⟨d', hfeed, hstoring.map_appended, ?_, DtmfDetector.take_of_storing hstoring (by omega)⟩
  rw [hstoring.index, Nat.mod_eq_of_lt (by omega)]

/-- Frames of 160 samples, three for a tone and two for a pause. -/
theorem roundTrip_five : ∃ g d, DtmfGenerator.new ⟨0, 0, 0, 0, 0, [], 0, 0, 0, 0, 0, ⟨0, 0, 0, 0⟩⟩ 160 40 20 = .ok g ∧
    DtmfDetector.new 160 102 = .ok d ∧ ∃ (g' : DtmfGenerator) (outs : List (Cells Int16)),
      calls 65536 g (.transmitNewDialButtonsArray ['5'] 1 ::
          (List.replicate 5 (List.replicate 160 none)).map .dtmfGenerating ++
          [.dtmfGenerating (List.replicate 160 none)] ++ [.getReadyFlag]) =
        .ok (g', .returned 1 :: outs.map .out ++ [.out (List.replicate 160 none)] ++ [.returned 1]) ∧
      ∀ (frames : List (List Int16)) (more : Nat), (∀ frame ∈ frames, (frame.length : Int) = (160 : Int32).toInt) →
        frames.flatten.map some = outs.flatten ++ List.replicate more (some 0) → frames.flatten.length ≤ 65536 →
        ∃ d', DtmfDetector.feed 65536 d frames = .ok d' ∧ d'.buttons.appended.map Prod.snd = ['5'] ∧
          d'.buttons.indexForDialButtons = 1 ∧ d'.buttons.dialButtons.take 2 = [some '5', some '\x00'] := by
  obtain ⟨g, hg⟩ := exists_new ⟨0, 0, 0, 0, 0, [], 0, 0, 0, 0, 0, ⟨0, 0, 0, 0⟩⟩ 160 40 20 (by decide)
  have hcells : ∀ z ∈ List.replicate 5 (List.replicate 160 (none : Option Int16)) ++ [List.replicate 160 none], z.length = 160 := by
    rw [List.forall_mem_append, List.forall_mem_singleton]
    exact ⟨fun z hz => by rw [List.eq_of_mem_replicate hz, List.length_replicate], List.length_replicate⟩
  have hmessage : ['5'] ≠ [] ∧ ['5'].length ≤ 20 := by decide
  refine ⟨g, _, hg, rfl, ?_⟩
  exact roundTrip (by decide) (by decide) (Nat.le_refl _) (by decide) (by decide) (by decide) (by decide) hg rfl hmessage
    (List.forall_mem_singleton.mpr ⟨(1, 5), rfl⟩) hcells (by decide)

end Recd2
