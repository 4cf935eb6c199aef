import Mathlib.Data.List.GetD
import Recd2.Theorems.ExactValues

/-! On which blocks the detector traps: those that are loud, and whose magnitudes make the comparison with the average divide
    the least number by -1. There is none of up to 267 samples. -/

namespace Recd2
open Checked Width
namespace DtmfDetector

/-! ### The blocks -/

/-- The samples that the filter gets. -/
def normalised (block : List Int16) : List Int16 := (Unbounded.internalArray (block.map Int16.toInt)).map Int16.ofInt

/-- The magnitudes that the filter gives for a block. -/
def tonesOf (block : List Int16) : List Int32 :=
  CONSTANTS.map fun Koeff =>
    magnitude Koeff (resonated Koeff (normalised block)).1 (resonated Koeff (normalised block)).2

theorem length_tonesOf (block : List Int16) : (tonesOf block).length = 18 := by
  rw [tonesOf, List.length_map]
  rfl

/-- The block is loud, and one of its two tones is the least number where the average is -1. -/
def Traps (SAMPLES : Int32) (block : List Int16) : Prop :=
  ¬absSum block / SAMPLES < powerThreshold ∧
    Trapping (tonesOf block) (maxTone (tonesOf block) 0) (maxTone (tonesOf block) 4)

instance (SAMPLES : Int32) (block : List Int16) : Decidable (Traps SAMPLES block) := inferInstanceAs (Decidable (_ ∧ _))

section Detection
variable {E : Fault → Prop} {fuel : Nat} {SAMPLES : Int32} {block : List Int16} (hpos : 0 < SAMPLES.toInt)

/-- A block that is too long for any sum to be loud enough. -/
theorem not_traps_of_long (h : 2 ^ 31 ≤ 328 * SAMPLES.toInt) : ¬Traps SAMPLES block :=
  fun htraps => htraps.1 (quiet_of_le h _)

variable (hfuel : 65536 ≤ fuel) (hlt : SAMPLES.toInt < 65536) (hlen : block.length = SAMPLES.toInt.toNat)
include hpos hfuel hlt hlen

theorem tones_eq_tonesOf : tones fuel SAMPLES block = .ok (tonesOf block) := by
  obtain ⟨arraySamples, hnormalised, htones⟩ := tones_eq hfuel hpos hlt hlen
  have heq : normalised block = arraySamples := by
    rw [normalised, ← hnormalised, List.map_map]
    exact (List.map_congr_left fun x _ => Int16.ofInt_toInt x).trans (List.map_id _)
  rw [htones, tonesOf, heq]

/-- The detection of a loud block is the verdict on its magnitudes. -/
theorem detection_of_loud (hloud : ¬absSum block / SAMPLES < powerThreshold) :
    DTMF_detection fuel SAMPLES block = verdict (tonesOf block) := by
  rw [DTMF_detection_eq, divide_of_pos _ hpos]
  refine (if_neg hloud).trans ?_
  rw [tones_eq_tonesOf hpos hfuel hlt hlen]
  exact pure_bind _ _

theorem detection_of_traps (h : Traps SAMPLES block) : DTMF_detection fuel SAMPLES block = .error .overflow := by
  rw [detection_of_loud hpos hfuel hlt hlen h.1]
  exact verdict_of_trapping h.2

theorem detection_yields_of_not_traps (h : ¬Traps SAMPLES block) :
    Yields E (fun _ => True) (DTMF_detection fuel SAMPLES block) := by
  by_cases hloud : absSum block / SAMPLES < powerThreshold
  · rw [DTMF_detection_of_lt hpos hloud]
    trivial
  · rw [detection_of_loud hpos hfuel hlt hlen hloud]
    have hnot : ¬Trapping (tonesOf block) (maxTone (tonesOf block) 0) (maxTone (tonesOf block) 4) :=
      fun htrapping => h ⟨hloud, htrapping⟩
    have hlength := length_tonesOf block
    -- The magnitudes are not computed here.
    generalize tonesOf block = T at hnot hlength ⊢
    exact verdict_yields hlength hnot

theorem detection_returns_iff : (∃ v, DTMF_detection fuel SAMPLES block = .ok v) ↔ ¬Traps SAMPLES block := by
  refine ⟨fun ⟨v, hv⟩ htraps => ?_, fun h => ?_⟩
  · rw [detection_of_traps hpos hfuel hlt hlen htraps] at hv
    cases hv
  · obtain ⟨v, hv, -⟩ := (detection_yields_of_not_traps hpos hfuel hlt hlen h).exists_ok
    exact ⟨v, hv⟩

end Detection

/-! ### Short blocks -/

/-- The index is one of the four. -/
theorem maxTone_mem (T : List Int32) (first : Nat) : first ≤ maxTone T first ∧ maxTone T first < first + 4 := by
  rw [maxTone]
  refine List.foldlRecOn (motive := fun s : Nat × Int32 => first ≤ s.1 ∧ s.1 < first + 4) _ _
    ⟨Nat.le_refl _, Nat.lt_add_of_pos_right (by decide)⟩ ?_
  rintro ⟨best, Temp⟩ hbest i hi
  have hi : i < 4 := List.mem_range.mp hi
  dsimp only
  split_ifs
  · exact ⟨Nat.le_add_right _ _, Nat.add_lt_add_left hi _⟩
  · exact hbest

/-- The coefficients of the dial tones, of which the two tones are chosen. -/
theorem gain_le_of_dialTone : ∀ Koeff ∈ CONSTANTS.take 8, Resonator.gain (Koeff.toInt / 2 ^ 14 : ℚ) 267 ≤ 508 := by
  intro Koeff hKoeff
  have hroots : ∀ Koeff ∈ CONSTANTS.take 8, (4 : ℚ) ≤ (4 - (Koeff.toInt / 2 ^ 14 : ℚ) ^ 2) * (19 / 10) ^ 2 :=
    List.forall_iff_forall_mem.mp (by decide +kernel)
  calc Resonator.gain (Koeff.toInt / 2 ^ 14 : ℚ) 267
      ≤ (267 : Nat) * (19 / 10) := Resonator.gain_le_mul _ (Resonator.abs_response_le _ (by norm_num) (hroots Koeff hKoeff)) _
    _ ≤ 508 := by norm_num

section Short
variable {block : List Int16} (hlen : block.length ≤ 267)
include hlen

/-- The magnitudes of the dial tones have their exact values. -/
theorem magnitude_ne_minValue {Koeff : Int16} (hKoeff : Koeff ∈ CONSTANTS.take 8) :
    magnitude Koeff (resonated Koeff (normalised block)).1 (resonated Koeff (normalised block)).2 ≠ Int32.minValue := by
  have hconstant : Koeff ∈ CONSTANTS := List.mem_of_mem_take hKoeff
  have hmin := Unbounded.min_lt_of_mem Koeff hconstant
  have hgain := gain_le_of_dialTone Koeff hKoeff
  have hfits : ∀ x ∈ (normalised block).map Int16.toInt, FitsInt16 x := fun x hx => fitsInt16_of_mem hx
  have hlength : ((normalised block).map Int16.toInt).length ≤ 267 := by
    rwa [List.length_map, normalised, List.length_map, Unbounded.internalArray, List.length_map, List.length_map]
  have hbounds := Unbounded.abs_states_le_of_gain hgain hfits hlength
  have hstates := toInt_resonated hmin (Unbounded.filterFits hconstant fun ys hys => (hbounds ys hys).trans (by decide))
  obtain ⟨hmagnitude, hlt⟩ := Unbounded.magnitudeFits hconstant hbounds
  rw [← hstates] at hmagnitude hlt
  rw [← toInt_magnitude hmin hmagnitude] at hlt
  intro hminValue
  rw [hminValue] at hlt
  exact absurd hlt (by decide)

theorem getD_tonesOf_ne {i : Nat} (hi : i < 8) : (tonesOf block).getD i 0 ≠ Int32.minValue := by
  have hconstants : i < CONSTANTS.length := Nat.lt_of_lt_of_le hi (by decide)
  rw [tonesOf, List.getD_eq_getElem _ _ (by rwa [List.length_map]), List.getElem_map]
  exact magnitude_ne_minValue hlen (List.mem_take_iff_getElem.mpr ⟨i, by rw [Nat.min_eq_left] <;> [exact hi; decide], rfl⟩)

theorem not_traps_of_le (SAMPLES : Int32) : ¬Traps SAMPLES block := by
  obtain ⟨-, hrow⟩ := maxTone_mem (tonesOf block) 0
  obtain ⟨-, hcolumn⟩ := maxTone_mem (tonesOf block) 4
  rintro ⟨-, ⟨hmin, -⟩ | ⟨hmin, -⟩⟩
  · exact getD_tonesOf_ne hlen (by omega) hmin
  · exact getD_tonesOf_ne hlen (by omega) hmin

end Short
end DtmfDetector
end Recd2
