import Recd2.Theorems.Overflow

/-! The values that the detector decides on are exact up to a block length of 44, and from 45 on there is a loud block
    whose values are not. -/

namespace Recd2
open Checked Width
namespace DtmfDetector

/-- The values that `DTMF_detection` gets from the calls of the filter. -/
def tones (fuel : Nat) (SAMPLES : Int32) (block : List Int16) : Except Fault (List Int32) := do
  let Dial ← normalDial fuel block
  magnitudes fuel (block.map fun x => (x.toInt32 <<< Dial).toInt16) SAMPLES.toUInt32

theorem DTMF_detection_eq (fuel : Nat) (SAMPLES : Int32) (block : List Int16) : DTMF_detection fuel SAMPLES block =
    (do let Sum ← divide (absSum block) SAMPLES
        if Sum < powerThreshold then return ' ' else tones fuel SAMPLES block >>= verdict) := by
  simp only [DTMF_detection, tones, bind_assoc]

/-- The detector computes with the exact values. -/
structure Exact (fuel : Nat) (SAMPLES : Int32) (block : List Int16) : Prop where
  sum : (absSum block).toInt = Unbounded.absSum (block.map Int16.toInt)
  values : (tones fuel SAMPLES block).map (List.map Int32.toInt) = .ok (Unbounded.T (block.map Int16.toInt))
  noOverflow : Unbounded.NoOverflow (block.map Int16.toInt)

section Exact
variable {fuel : Nat} {SAMPLES : Int32} {block : List Int16} (hfuel : 65536 ≤ fuel) (hpos : 0 < SAMPLES.toInt)
  (hlt : SAMPLES.toInt < 65536) (hlen : block.length = SAMPLES.toInt.toNat)
include hfuel hpos hlt hlen

/-- The values come from the resonators over samples that are normalised exactly. -/
theorem tones_eq : ∃ arraySamples : List Int16,
    arraySamples.map Int16.toInt = Unbounded.internalArray (block.map Int16.toInt) ∧
      tones fuel SAMPLES block = .ok (CONSTANTS.map fun Koeff =>
        magnitude Koeff (resonated Koeff arraySamples).1 (resonated Koeff arraySamples).2) := by
  have hrounds : 30 ≤ fuel := by omega
  obtain ⟨Dial, hnormal, hDial⟩ := (toInt_normalDial hrounds block).exists_ok
  have hcount : SAMPLES.toUInt32.toNat = SAMPLES.toInt.toNat :=
    Int32.toNat_toUInt32_of_le (Int32.le_iff_toInt_le.mpr hpos.le)
  refine ⟨_, toInt_internalArray hDial, ?_⟩
  rw [tones, hnormal]
  exact magnitudes_eq (by rw [List.length_map, hlen, hcount]) (by omega) hfuel

theorem exact_of_noOverflow (h : Unbounded.NoOverflow (block.map Int16.toInt)) : Exact fuel SAMPLES block := by
  obtain ⟨arraySamples, hnormalised, htones⟩ := tones_eq hfuel hpos hlt hlen
  refine ⟨toInt_absSum (by omega), ?_, h⟩
  rw [htones]
  refine congrArg Except.ok ?_
  rw [Unbounded.T, List.map_map]
  refine List.map_congr_left fun Koeff hKoeff => ?_
  have hmin := Unbounded.min_lt_of_mem Koeff hKoeff
  have hfilter := h.filters Koeff hKoeff
  have hmagnitude := h.magnitudes Koeff hKoeff
  rw [← hnormalised] at hfilter hmagnitude ⊢
  rw [← toInt_resonated hmin hfilter] at hmagnitude ⊢
  rw [Function.comp_apply]
  exact toInt_magnitude hmin hmagnitude

end Exact

/-! ### Longer blocks -/

/-- Some number of pieces behind which a machine is where it was. -/
theorem foldl_flatten_replicate {S X : Type} {f : S → X → S} {s : S} {piece : List X} (h : piece.foldl f s = s) (n : Nat) :
    (List.replicate n piece).flatten.foldl f s = s := by
  induction n with
  | zero => rfl
  | succ n ih => rw [List.replicate_succ, List.flatten_cons, List.foldl_append, h, ih]

/-- Zeros and rounds that leave the resonator of 32706 at rest, and 45 times the largest sample. -/
def loudBlock (n : Nat) : List Int16 :=
  (List.replicate ((n - 45) % 3) [0]).flatten ++ (List.replicate ((n - 45) / 3) [16000, -31939, 16000]).flatten ++
    List.replicate 45 32767

section Loud
variable {n : Nat}

theorem length_loudBlock (hn : 45 ≤ n) : (loudBlock n).length = n := by
  simp [loudBlock]
  omega

theorem foldl_loudBlock {S : Type} {f : S → Int16 → S} {s : S} (hzero : f s 0 = s)
    (hround : ([16000, -31939, 16000] : List Int16).foldl f s = s) (n : Nat) :
    (loudBlock n).foldl f s = (List.replicate 45 (32767 : Int16)).foldl f s := by
  rw [loudBlock, List.foldl_append, List.foldl_append, foldl_flatten_replicate (show [0].foldl f s = s from hzero),
    foldl_flatten_replicate hround]

theorem resonated_loudBlock (n : Nat) : resonated 32706 (loudBlock n) = resonated 32706 (List.replicate 45 32767) :=
  foldl_loudBlock (by decide) (by decide) n

theorem states_loudBlock (n : Nat) : Unbounded.states 32706 ((loudBlock n).map Int16.toInt) =
    Unbounded.states 32706 ((List.replicate 45 (32767 : Int16)).map Int16.toInt) := by
  rw [Unbounded.states, List.foldl_map, foldl_loudBlock (by decide) (by decide), Unbounded.states, List.foldl_map]

/-- The largest sample leaves no room for a shift. -/
theorem internalArray_loudBlock (n : Nat) :
    Unbounded.internalArray ((loudBlock n).map Int16.toInt) = (loudBlock n).map Int16.toInt := by
  have hmem : (32767 : Int) ∈ (loudBlock n).map Int16.toInt :=
    List.mem_map.mpr ⟨32767, List.mem_append_right _ (List.mem_replicate.mpr ⟨by decide, rfl⟩), rfl⟩
  obtain ⟨hnonneg, -, hsample⟩ := normalDial_spec (loudBlock n)
  have hDial : Unbounded.normalDial ((loudBlock n).map Int16.toInt) = 0 :=
    le_antisymm (hsample 32767 hmem (by decide)) hnonneg
  rw [Unbounded.internalArray, hDial]
  simp

/-- The value of 32706 behind 45 times the largest sample, in the code and exactly. -/
theorem magnitude_ne : (magnitude 32706 (resonated 32706 (List.replicate 45 32767)).1
    (resonated 32706 (List.replicate 45 32767)).2).toInt ≠
      Unbounded.magnitude 32706 (Unbounded.states 32706 ((List.replicate 45 (32767 : Int16)).map Int16.toInt)) := by
  decide +kernel

theorem absSum_loudBlock (hn : 45 ≤ n) : 328 * (n : Int) ≤ Unbounded.absSum ((loudBlock n).map Int16.toInt) := by
  have hquot : n = 45 + 3 * ((n - 45) / 3) + (n - 45) % 3 := by omega
  have hrest := Nat.mod_lt (n - 45) (show 0 < 3 by decide)
  have hsum : Unbounded.absSum ((loudBlock n).map Int16.toInt) = ((n - 45) / 3 : Nat) * 63939 + 45 * 32767 := by
    rw [Unbounded.absSum_eq_sum, loudBlock]
    simp [List.map_flatten, List.sum_flatten]
  rw [hsum]
  omega

theorem loud_loudBlock {SAMPLES : Int32} (hle : 45 ≤ SAMPLES.toInt) (hlt : SAMPLES.toInt < 65536) :
    ¬absSum (loudBlock SAMPLES.toInt.toNat) / SAMPLES < powerThreshold := by
  have hne : SAMPLES ≠ -1 := by
    rintro rfl
    exact absurd hle (by decide)
  have hsum := absSum_loudBlock (n := SAMPLES.toInt.toNat) (by omega)
  have hlen := length_loudBlock (n := SAMPLES.toInt.toNat) (by omega)
  rw [Int.toNat_of_nonneg (by omega)] at hsum
  rw [Int32.lt_iff_toInt_lt, Int32.toInt_div_of_ne_right _ _ hne, toInt_absSum (by omega),
    Int.tdiv_eq_ediv_of_nonneg (by omega)]
  exact Int.not_lt.mpr (Int.le_ediv_of_mul_le (by omega) hsum)

theorem not_exact_loudBlock {fuel : Nat} (hfuel : 65536 ≤ fuel) {SAMPLES : Int32} (hle : 45 ≤ SAMPLES.toInt)
    (hlt : SAMPLES.toInt < 65536) : ¬Exact fuel SAMPLES (loudBlock SAMPLES.toInt.toNat) := by
  rintro ⟨-, hvalues, -⟩
  obtain ⟨arraySamples, hnormalised, htones⟩ :=
    tones_eq hfuel (by omega) hlt (length_loudBlock (n := SAMPLES.toInt.toNat) (by omega))
  rw [internalArray_loudBlock] at hnormalised
  obtain rfl : arraySamples = loudBlock SAMPLES.toInt.toNat :=
    List.map_injective_iff.mpr (fun _ _ h => Int16.toInt_inj.mp h) hnormalised
  rw [htones] at hvalues
  have hvalues := Except.ok.inj hvalues
  rw [Unbounded.T, List.map_map, internalArray_loudBlock] at hvalues
  have hvalue := List.map_inj_left.mp hvalues 32706 (by decide)
  have hKoeff : Int16.toInt 32706 = 32706 := by decide
  rw [Function.comp_apply, hKoeff, states_loudBlock, resonated_loudBlock] at hvalue
  exact magnitude_ne hvalue

end Loud

/-! ### All blocks -/

section Length
variable {fuel : Nat} {SAMPLES : Int32}

/-- The detector computes with the exact values on all loud blocks of a length exactly when the length is 44 at most. -/
theorem exact_iff (hfuel : 65536 ≤ fuel) (hpos : 0 < SAMPLES.toInt) (hlt : SAMPLES.toInt < 65536) :
    (∀ block : List Int16, block.length = SAMPLES.toInt.toNat → ¬absSum block / SAMPLES < powerThreshold →
      Exact fuel SAMPLES block) ↔ SAMPLES.toInt ≤ 44 := by
  constructor
  · intro h
    by_contra hle
    have hle : 45 ≤ SAMPLES.toInt := by omega
    exact not_exact_loudBlock hfuel hle hlt (h _ (length_loudBlock (by omega)) (loud_loudBlock hle hlt))
  · intro hle block hlen _
    exact exact_of_noOverflow hfuel hpos hlt hlen (noOverflow_of_le (by omega))

theorem exact_iff_45 : (∀ block : List Int16, block.length = (45 : Int32).toInt.toNat →
    ¬absSum block / 45 < powerThreshold → Exact 65536 45 block) ↔ (45 : Int32).toInt ≤ 44 :=
  exact_iff (by decide) (by decide) (by decide)

/-- 45 times the largest sample. -/
theorem exact_counterexample : ¬∀ (fuel : Nat) (SAMPLES : Int32) (block : List Int16), 65536 ≤ fuel → 0 < SAMPLES.toInt →
    SAMPLES.toInt < 65536 → block.length = SAMPLES.toInt.toNat → ¬absSum block / SAMPLES < powerThreshold →
      Exact fuel SAMPLES block := by
  intro h
  have hexact : Exact 65536 45 (loudBlock (45 : Int32).toInt.toNat) := h 65536 45 _ (by decide) (by decide) (by decide)
    (length_loudBlock (by decide)) (loud_loudBlock (by decide) (by decide))
  exact not_exact_loudBlock (by decide) (by decide) (by decide) hexact

/-- The decision is one on the exact values. -/
theorem DTMF_detection_exact {block : List Int16} (hfuel : 65536 ≤ fuel) (hpos : 0 < SAMPLES.toInt) (hle : SAMPLES.toInt ≤ 44)
    (hlen : block.length = SAMPLES.toInt.toNat) (hloud : ¬absSum block / SAMPLES < powerThreshold) :
    ∃ T : List Int32, T.map Int32.toInt = Unbounded.T (block.map Int16.toInt) ∧
      DTMF_detection fuel SAMPLES block = verdict T := by
  have hvalues := (exact_of_noOverflow hfuel hpos (by omega) hlen (noOverflow_of_le (by omega))).values
  rw [DTMF_detection_eq, divide_of_pos _ hpos]
  cases htones : tones fuel SAMPLES block with
  | error e =>
    rw [htones] at hvalues
    cases hvalues
  | ok T =>
    rw [htones] at hvalues
    refine ⟨T, Except.ok.inj hvalues, (if_neg hloud).trans ?_⟩
    rfl

end Length
end DtmfDetector
end Recd2
