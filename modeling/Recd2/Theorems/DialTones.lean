import Recd2.Theorems.DtmfPlugin
import Recd2.Theorems.RoundTrip

/-! The DTMF plugin on dial tones, in blocks that hold a tone with a pause behind it and make a frame each. It finds the buttons
    of the blocks that it uses, and fails when there are more than 16 of them. -/

namespace Recd2
open Checked Framing DtmfDetector DtmfGenerator

/-- A block with the tone of a button and a pause. -/
def SampleData.dialTone (L Q : Nat) (t : UInt8 × Char) : SampleData where
  signal := t.1
  samples := (List.range L).map (tone t.2) ++ List.replicate Q 0
  size := UInt32.ofNat (L + Q)

namespace DtmfPlugin

section Tones
variable {L Q : Nat}

theorem frameOf_dialTone (hsize : L + Q < 2 ^ 32) (t : UInt8 × Char) :
    (SampleData.dialTone L Q t).frameOf (L + Q) = signal L Q [t.2] := by
  have hlen : (SampleData.dialTone L Q t).samples.length = L + Q := by
    rw [SampleData.dialTone, List.length_append, List.length_map, List.length_range, List.length_replicate]
  have hsizes : (SampleData.dialTone L Q t).size.toNat = L + Q := Nat.mod_eq_of_lt hsize
  rw [signal, List.flatMap_singleton]
  show _ = (SampleData.dialTone L Q t).samples
  refine List.ext_getElem ((SampleData.length_frameOf _ _).trans hlen.symm) fun i hi hi' => ?_
  rw [SampleData.length_frameOf] at hi
  simp only [SampleData.frameOf, List.getElem_map, List.getElem_range]
  rw [SampleData.repeated, hsizes, Nat.mod_eq_of_lt hi, SampleData.sample, List.getD_eq_getElem _ _ hi']

variable {fuel : Nat} {s_frameSize : Int32} (hL : 305 ≤ L ∧ L ≤ 2048) (hQ : 203 ≤ Q) (hsize : s_frameSize.toInt = (L + Q : Nat))
include hsize

theorem stream_dialTone (heard : List (UInt8 × Char)) :
    stream s_frameSize (heard.map (SampleData.dialTone L Q)) = signal L Q (heard.map Prod.snd) := by
  have hlt := s_frameSize.toInt_lt
  have hframe : s_frameSize.toInt.toNat = L + Q := by rw [hsize, Int.toNat_natCast]
  rw [stream, hframe, List.flatMap_map, signal, List.flatMap_map]
  refine congrArg (List.flatMap · heard) (funext fun t => ?_)
  rw [frameOf_dialTone (by omega), signal, List.flatMap_singleton]

include hL hQ

/-- The detector finds the buttons of the blocks. -/
theorem message_dialTone (hfuel : 65536 ≤ fuel) {heard : List (UInt8 × Char)}
    (hbuttons : ∀ t ∈ heard, ∃ p, DtmfGenerator.tones t.2 = some p) :
    message fuel 102 (stream s_frameSize (heard.map (SampleData.dialTone L Q))) = heard.map Prod.snd := by
  have hreported := reported_signal hfuel hL hQ (List.forall_mem_map.mpr hbuttons) (z := 0) (by decide) 0
  rw [List.replicate_zero, List.nil_append, List.append_nil] at hreported
  rw [message, stream_dialTone hsize, reported_eq]
  exact hreported

theorem clean_dialTone_iff (hfuel : 65536 ≤ fuel) {heard : List (UInt8 × Char)}
    (hbuttons : ∀ t ∈ heard, ∃ p, DtmfGenerator.tones t.2 = some p) :
    Clean fuel s_frameSize 102 (heard.map (SampleData.dialTone L Q)) ↔ heard.length ≤ 16 := by
  have hlt := s_frameSize.toInt_lt
  have hshown : ∀ k, (shown fuel s_frameSize 102 ((heard.map (SampleData.dialTone L Q)).take k)).length =
      min k heard.length % 64 := fun k => by
    rw [shown, ← List.map_take, message_dialTone hL hQ hsize hfuel fun t ht => hbuttons t (List.mem_of_mem_take ht), rest,
      List.length_drop, ← Nat.mod_eq_sub_div_mul, List.length_map, List.length_take]
  constructor
  · intro h
    by_contra hmore
    have htable := h.table 17 (by rw [List.length_map]; omega)
    rw [hshown, Nat.min_eq_left (by omega)] at htable
    omega
  · intro hle
    refine ⟨List.forall_mem_map.mpr fun t _ => ?_, fun piece hpiece => ?_, fun k hk => ?_⟩
    · have hsizes : (SampleData.dialTone L Q t).size.toNat = L + Q := Nat.mod_eq_of_lt (by omega)
      rw [hsizes, hsize, Int.toNat_natCast]
    · exact not_traps_of_le (by rw [length_of_mem_pieces hpiece]; decide) 102
    · rw [hshown]
      omega

/-- A plugin that gets tones of dial buttons finds the buttons of those that it uses, which are some of them in their order,
    and prints behind each the ones so far that are in the table at their place. It fails with the 17th. -/
theorem tones_stand_iff (hfuel : 65536 ≤ fuel ∧ s_frameSize.toInt.toNat ≤ fuel) {p : DtmfPlugin}
    (hp : init s_frameSize 102 = .ok p) {tones : List (UInt8 × Char)}
    (hbuttons : ∀ t ∈ tones, ∃ q, DtmfGenerator.tones t.2 = some q) {acts : List Dtmf.Act}
    (hacts : accepted acts = tones.map (SampleData.dialTone L Q)) :
    ∃ heard : List (UInt8 × Char), heard.Sublist tones ∧
      used s_frameSize acts = heard.map (SampleData.dialTone L Q) ∧
      ((∀ e, (after fuel s_frameSize p acts).dtmf.runAt ≠ .faulted e) ↔ heard.length ≤ 16) ∧
      (heard.length ≤ 16 →
        (after fuel s_frameSize p acts).m_dtmfDetector.buttons.appended.map Prod.snd = heard.map Prod.snd ∧
        (rounds fuel s_frameSize p acts).map DtmfRound.lines =
          (List.range heard.length).map fun k => agreeing ((heard.map Prod.snd).take (k + 1))) := by
  have hpos : 0 < s_frameSize.toInt := by omega
  obtain ⟨done, -, hclean, hrounds, hfound, hstate⟩ := beside_or_faulted (by decide) hpos hfuel hp acts
  have hsub := Sampler.emits_sublist (show 0 < s_frameSize.toInt.toNat by omega) (acts.map putAct)
  rw [puts_map_putAct, hacts] at hsub
  obtain ⟨heard, hheard, hused⟩ := List.sublist_map_iff.mp hsub
  have hheard' : ∀ t ∈ heard, ∃ q, DtmfGenerator.tones t.2 = some q := fun t ht => hbuttons t (hheard.subset ht)
  have hcleanIff := clean_dialTone_iff hL hQ hsize hfuel.1 hheard'
  rw [← show used s_frameSize acts = heard.map _ from hused] at hcleanIff
  refine ⟨heard, hheard, hused, ?_⟩
  rcases hstate with ⟨rfl, hbeside⟩ | ⟨hdirty, e, he⟩
  · refine ⟨iff_of_true (fun e he => hbeside.runAt.ne_faulted he) (hcleanIff.mp hclean), fun hle => ?_⟩
    have hmessage := fun k => message_dialTone hL hQ hsize hfuel.1 (fun t ht => hheard' t (List.mem_of_mem_take ht) :
      ∀ t ∈ heard.take k, ∃ q, DtmfGenerator.tones t.2 = some q)
    have hstoring := hfound.storing
    rw [show used s_frameSize acts = heard.map _ from hused] at hstoring hrounds
    rw [message_dialTone hL hQ hsize hfuel.1 hheard'] at hstoring
    refine ⟨hstoring.map_appended, ?_⟩
    rw [hrounds, roundsOf, List.map_map]
    refine List.ext_getElem ?_ fun k hk hk' => ?_
    · rw [List.length_map, List.length_zipIdx, List.length_map, List.length_map, List.length_range]
    · rw [List.length_map, List.length_range] at hk'
      rw [List.getElem_map, List.getElem_map, List.getElem_zipIdx, List.getElem_range]
      show agreeing (shown _ _ _ _) = _
      rw [shown, Nat.zero_add, ← List.map_take, hmessage, rest_of_lt, List.map_take]
      rw [List.length_map, List.length_take]
      omega
  · have hmore := mt hcleanIff.mpr hdirty
    exact ⟨iff_of_false (fun h => h e he) hmore, fun hle => absurd hle hmore⟩

omit hL hQ hsize in
/-- As many blocks as a frame has samples, each with a tone of 305 samples and a pause of 203: one of them makes a frame, and
    its button is printed. -/
theorem tones_stand_iff_one : ∃ p, init 508 102 = .ok p ∧
    let acts := [.putData (List.replicate 508 (SampleData.dialTone 305 203 (1, '1'))), .run, .run, .run]
    (∀ e, (after 65536 508 p acts).dtmf.runAt ≠ .faulted e) ∧
      (after 65536 508 p acts).m_dtmfDetector.buttons.appended.map Prod.snd = ['1'] ∧
      (rounds 65536 508 p acts).map DtmfRound.lines = [[⟨0, '1'⟩]] := by
  have hbuttons : ∀ t ∈ List.replicate 508 ((1 : UInt8), '1'), ∃ q, DtmfGenerator.tones t.2 = some q := fun t ht => by
    rw [List.eq_of_mem_replicate ht]
    exact ⟨(0, 4), rfl⟩
  let acts : List Dtmf.Act := [.putData (List.replicate 508 (SampleData.dialTone 305 203 (1, '1'))), .run, .run, .run]
  have hacts : accepted acts = (List.replicate 508 ((1 : UInt8), '1')).map (SampleData.dialTone 305 203) := by
    rw [List.map_replicate]
    exact List.append_nil _
  obtain ⟨p, hp⟩ : ∃ p, init 508 102 = .ok p := ⟨_, rfl⟩
  obtain ⟨heard, hheard, hused, hstands, hfound⟩ := tones_stand_iff (L := 305) (Q := 203) (by decide) (by decide)
    (show (508 : Int32).toInt = (305 + 203 : Nat) by decide) (show 65536 ≤ 65536 ∧ (508 : Int32).toInt.toNat ≤ 65536 by decide)
    hp hbuttons hacts
  have hone : heard.length = 1 := by
    have hlen := congrArg List.length hused
    rw [List.length_map] at hlen
    rw [← hlen]
    decide +kernel
  obtain ⟨t, rfl⟩ := List.length_eq_one_iff.mp hone
  obtain rfl : t = (1, '1') := List.eq_of_mem_replicate (hheard.subset (List.mem_singleton_self t))
  have hle : [((1 : UInt8), '1')].length ≤ 16 := by decide
  obtain ⟨happended, hlines⟩ := hfound hle
  have hagreeing : agreeing ['1'] = [⟨0, '1'⟩] := by decide
  refine ⟨p, hp, hstands.mpr hle, happended, hlines.trans ?_⟩
  show [agreeing ['1']] = _
  rw [hagreeing]

end Tones
end DtmfPlugin
end Recd2
