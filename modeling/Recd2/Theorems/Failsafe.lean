import Recd2.Lib.Run
import Recd2.Theorems.Records

/-! The failsafe of the wave header. `setupWavFiles` takes it for an attribute that does not parse; an attribute that is
    absent leaves the zero of the variable. -/

namespace Recd2
open Recorder

/-- The text of the last attribute of a name. An element has at most one. -/
def lastValue (l : PairList) (name : String) : Option String := (l.reverse.find? (·.type1 == name)).map (·.type2)

/-! ### One field -/

/-- A field of the parameters, with the attribute it is read from. -/
structure WaveField (α : Type) where
  name : String
  get : WavParams → α
  parse : String → Option α
  failsafe : α

namespace WaveField

/-- `samplesPerSec`, with the failsafe 8000. -/
def samplesPerSec : WaveField Int32 := ⟨"samplesPerFrame", (·.samplesPerSec), QString.toInt, 8000⟩

/-- `bitsPerSec`, with the failsafe 16. -/
def bitsPerSec : WaveField Int32 := ⟨"bitsPerSec", (·.bitsPerSec), QString.toInt, 16⟩

/-- `fmtLen`, with the failsafe 16. -/
def fmtLen : WaveField Int32 := ⟨"fmtLength", (·.fmtLen), QString.toInt, 16⟩

/-- `audioFmt`, with the failsafe 1. -/
def audioFmt : WaveField Int16 := ⟨"audioFormat", (·.audioFmt), QString.toShort, 1⟩

/-- `channCnt`, with the failsafe 1. -/
def channCnt : WaveField Int16 := ⟨"channels", (·.channCnt), QString.toShort, 1⟩

section Field
variable {α : Type} (f : WaveField α) (l : PairList)

/-- The parsed value when the attribute is there and parses, and the failsafe otherwise. -/
def wanted : α := ((lastValue l f.name).bind f.parse).getD f.failsafe

/-- What the loop over the attributes does to the field. -/
def Sets : Prop := ∀ p it,
  f.get (setupAttrib p it) = if it.type1 = f.name then (f.parse it.type2).getD f.failsafe else f.get p

theorem get_foldl_setupAttrib (hf : f.Sets) (p : WavParams) :
    f.get (l.foldl setupAttrib p) =
      ((lastValue l f.name).map fun text => (f.parse text).getD f.failsafe).getD (f.get p) := by
  have hsets : ∀ q it, f.get (setupAttrib q it) =
      if it.type1 == f.name then (f.parse it.type2).getD f.failsafe else f.get q := fun q it => by
    rw [hf]
    simp only [beq_iff_eq]
  have hlast := Run.foldl_last hsets p l
  rw [hlast, lastValue, Option.map_map]
  rfl

/-- The field is as wanted exactly when its attribute is there. -/
theorem get_eq_wanted_iff (hf : f.Sets) {p : WavParams} (hp : f.get p ≠ f.failsafe) :
    f.get (l.foldl setupAttrib p) = f.wanted l ↔ (lastValue l f.name).isSome := by
  rw [get_foldl_setupAttrib f l hf, wanted]
  cases lastValue l f.name with
  | none => simpa using hp
  | some text => simp

end Field

/-- Each attribute sets its own field, and no other one. -/
theorem sets : samplesPerSec.Sets ∧ bitsPerSec.Sets ∧ fmtLen.Sets ∧ audioFmt.Sets ∧ channCnt.Sets := by
  refine ⟨?_, ?_, ?_, ?_, ?_⟩ <;>
    · intro p it
      simp only [samplesPerSec, bitsPerSec, fmtLen, audioFmt, channCnt, setupAttrib]
      split_ifs <;> simp_all

end WaveField

/-! ### All fields -/

/-- The parameters with the failsafe for what is absent or does not parse. -/
def wantedParams (l : PairList) : WavParams where
  samplesPerSec := WaveField.samplesPerSec.wanted l
  bitsPerSec := WaveField.bitsPerSec.wanted l
  riffLen := 0
  fmtLen := WaveField.fmtLen.wanted l
  audioFmt := WaveField.audioFmt.wanted l
  channCnt := WaveField.channCnt.wanted l

example : wantedParams [] = .default := rfl

/-- The header holds the numbers of the parameters. -/
structure WavHdr.Holds (h : WavHdr) (p : WavParams) : Prop where
  sampleRate : h.sampleRate.toInt = p.samplesPerSec.toInt
  bitsPerSample : h.bitsPerSample.toInt = p.bitsPerSec.toInt
  fmtLen : h.fmtLen.toInt = p.fmtLen.toInt
  audioFormat : h.audioFormat.toInt = p.audioFmt.toInt
  numChannels : h.numChannels.toInt = p.channCnt.toInt

/-- The parameters are kept as wanted, and the header of each slot too. -/
structure Recorder.AsWanted (l : PairList) (r : Recorder) : Prop where
  wavParams : r.wavParams = wantedParams l
  headers : ∀ i < r.maxChans, ∀ w, r.wav? i = some w → w.header.Holds (wantedParams l)

/-- The attributes that `setupWavFiles` looks for. -/
def waveNames : List String := ["samplesPerFrame", "bitsPerSec", "fmtLength", "audioFormat", "channels"]

/-- The header has room for the bits. -/
def ShortBits (p : WavParams) : Prop := -2 ^ 15 ≤ p.bitsPerSec.toInt ∧ p.bitsPerSec.toInt < 2 ^ 15

theorem riffLen_foldl_setupAttrib (l : PairList) (p : WavParams) : (l.foldl setupAttrib p).riffLen = p.riffLen := by
  have hkept : ∀ q it, (setupAttrib q it).riffLen = q.riffLen := fun q it => by
    rw [setupAttrib]
    split_ifs <;> rfl
  induction l generalizing p with
  | nil => rfl
  | cons it l ih => rw [List.foldl_cons, ih, hkept]

theorem foldl_setupAttrib_eq_wanted_iff (l : PairList) :
    l.foldl setupAttrib ⟨0, 0, 0, 0, 0, 0⟩ = wantedParams l ↔ ∀ name ∈ waveNames, (lastValue l name).isSome := by
  have heq : ∀ p q : WavParams, p = q ↔ p.samplesPerSec = q.samplesPerSec ∧ p.bitsPerSec = q.bitsPerSec ∧
      p.riffLen = q.riffLen ∧ p.fmtLen = q.fmtLen ∧ p.audioFmt = q.audioFmt ∧ p.channCnt = q.channCnt := fun p q => by
    rw [WavParams.mk.injEq]
  have hzero {α : Type} (f : WaveField α) (hf : f.Sets) (hp : f.get ⟨0, 0, 0, 0, 0, 0⟩ ≠ f.failsafe) :=
    f.get_eq_wanted_iff l hf hp
  obtain ⟨hrate, hbits, hfmt, haudio, hchannels⟩ := WaveField.sets
  have hrate := hzero .samplesPerSec hrate (by decide)
  have hbits := hzero .bitsPerSec hbits (by decide)
  have hfmt := hzero .fmtLen hfmt (by decide)
  have haudio := hzero .audioFmt haudio (by decide)
  have hchannels := hzero .channCnt hchannels (by decide)
  refine (heq _ _).trans ((and_congr hrate (and_congr hbits (and_congr (iff_true_intro (riffLen_foldl_setupAttrib l _))
    (and_congr hfmt (and_congr haudio hchannels))))).trans ?_)
  simp [waveNames, WaveField.samplesPerSec, WaveField.bitsPerSec, WaveField.fmtLen, WaveField.audioFmt, WaveField.channCnt]

section Slots
variable {r : Recorder} (p : WavParams)

theorem wav?_setupSlot (i j : Nat) :
    (setupSlot p r i).wav? j = if j = i then (r.wav? j).map (·.setupWave p) else r.wav? j := by
  by_cases hj : j = i
  · subst hj
    rw [setupSlot, if_pos rfl]
    by_cases h128 : j < 128
    · exact wav?_setWav_self h128
    · have hnone : ∀ s : Recorder, s.wav? j = none := fun s => by
        rw [wav?, Vector.getElem?_eq_none (Nat.le_of_not_lt h128)]
        rfl
      rw [hnone, hnone]
      rfl
  · rw [if_neg hj]
    exact wav?_setWav_of_ne hj

theorem wav?_foldl_setupSlot (n i : Nat) :
    ((List.range n).foldl (setupSlot p) r).wav? i = if i < n then (r.wav? i).map (·.setupWave p) else r.wav? i := by
  induction n with
  | zero => rfl
  | succ n ih =>
    rw [List.range_succ, List.foldl_append, List.foldl_cons, List.foldl_nil, wav?_setupSlot, ih]
    rcases lt_trichotomy i n with hlt | rfl | hgt
    · rw [if_neg hlt.ne, if_pos hlt, if_pos (Nat.lt_succ_of_lt hlt)]
    · rw [if_pos rfl, if_neg (lt_irrefl i), if_pos (Nat.lt_succ_self i)]
    · rw [if_neg hgt.ne', if_neg hgt.not_gt, if_neg (by omega)]

theorem maxChans_foldl_setupSlot (n : Nat) : ((List.range n).foldl (setupSlot p) r).maxChans = r.maxChans :=
  Run.foldl_range (P := fun _ (s : Recorder) => s.maxChans = r.maxChans) rfl fun _ _ _ hs => hs

/-- The header of a set up `Wav` differs from the parameters only in what its bits are cut to. -/
theorem holds_setupWave_iff (w : Wav) : (w.setupWave p).header.Holds p ↔ ShortBits p := by
  have hcut : (w.setupWave p).header.bitsPerSample.toInt = p.bitsPerSec.toInt ↔ ShortBits p := by
    rw [ShortBits, Wav.setupWave, Int32.toInt_toInt16, Int.bmod_def]
    omega
  exact ⟨fun h => hcut.mp h.bitsPerSample, fun h => ⟨rfl, hcut.mpr h, rfl, rfl, rfl⟩⟩

end Slots

/-- For any attributes of the Wave tag, in any order and with any texts, and any slots: the parameters and the headers
    are as wanted when each of the five attributes is there and the header has room for the bits, and only then. -/
theorem setupWavFiles_asWanted_iff (cfg : RecorderConfig) (r : Recorder) :
    (setupWavFiles cfg r).AsWanted (cfg.getTagPairs "Wave") ↔
      (∀ name ∈ waveNames, (lastValue (cfg.getTagPairs "Wave") name).isSome) ∧
        ((∃ i < r.maxChans, (r.wav? i).isSome) → ShortBits (wantedParams (cfg.getTagPairs "Wave"))) := by
  have hslot : ∀ p : WavParams, ∀ i < r.maxChans, ((List.range r.maxChans).foldl (setupSlot p) r).wav? i =
      (r.wav? i).map (·.setupWave p) := fun p i hi => by rw [wav?_foldl_setupSlot, if_pos hi]
  have hchans : (setupWavFiles cfg r).maxChans = r.maxChans := maxChans_foldl_setupSlot _ _
  rw [← foldl_setupAttrib_eq_wanted_iff]
  constructor
  · intro h
    have hparams : (cfg.getTagPairs "Wave").foldl setupAttrib ⟨0, 0, 0, 0, 0, 0⟩ = wantedParams _ := h.wavParams
    refine ⟨hparams, ?_⟩
    rintro ⟨i, hi, hw⟩
    obtain ⟨w, hw⟩ := Option.isSome_iff_exists.mp hw
    have hset := hslot (wantedParams (cfg.getTagPairs "Wave")) i hi
    rw [hw, ← hparams] at hset
    have hholds := h.headers i (by rwa [hchans]) _ hset
    rw [hparams] at hholds
    exact (holds_setupWave_iff _ w).mp hholds
  · rintro ⟨hparams, hshort⟩
    refine ⟨hparams, fun i hi w hw => ?_⟩
    rw [hchans] at hi
    have hset := hslot ((cfg.getTagPairs "Wave").foldl setupAttrib ⟨0, 0, 0, 0, 0, 0⟩) i hi
    obtain ⟨w', hw', rfl⟩ := Option.map_eq_some_iff.mp (hset.symm.trans hw)
    rw [hparams]
    exact (holds_setupWave_iff _ w').mpr (hshort ⟨i, hi, Option.isSome_iff_exists.mpr ⟨w', hw'⟩⟩)

/-- With no attributes, as for the file that holds `<Config />` alone, the parameters stay zero. -/
theorem setupWavFiles_counterexample :
    ∃ (cfg : RecorderConfig) (r : Recorder), ¬(setupWavFiles cfg r).AsWanted (cfg.getTagPairs "Wave") := by
  refine ⟨.new, init calm .new new, fun h => ?_⟩
  have hrate : (0 : Int32) = 8000 := congrArg WavParams.samplesPerSec h.wavParams
  exact absurd hrate (by decide)

end Recd2
