import Mathlib.Algebra.Order.Ring.Rat
import Recd2.Lib.Resonator
import Recd2.Theorems.Normalised

/-! Up to which block length the detector computes with the exact values. The states of a filter are those of a resonator
    whose inputs are the samples and the rounding errors, so that they grow with its gain. -/

namespace Recd2
open Checked Width

/-! ### The states as those of a resonator -/

namespace Unbounded

/-- A product is rounded to the nearest number. -/
theorem abs_MPY48SR_sub_le (a b : Int) : |(MPY48SR a b : ℚ) - a * b / 2 ^ 15| ≤ 1 / 2 := by
  have hle : MPY48SR a b * 2 ^ 15 ≤ a * b + 2 ^ 14 := by
    rw [MPY48SR]
    omega
  have hlt : a * b + 2 ^ 14 < MPY48SR a b * 2 ^ 15 + 2 ^ 15 := by
    rw [MPY48SR]
    omega
  have hle : (MPY48SR a b : ℚ) * 2 ^ 15 ≤ a * b + 2 ^ 14 := by exact_mod_cast hle
  have hlt : (a * b + 2 ^ 14 : ℚ) < MPY48SR a b * 2 ^ 15 + 2 ^ 15 := by exact_mod_cast hlt
  exact abs_le.mpr ⟨by linarith, by linarith⟩

/-- A state as the library has it. -/
def rational (v : Int × Int) : ℚ × ℚ := (v.1, v.2)

theorem abs_states_le {Koeff : Int} {xs : List Int} (hfits : ∀ x ∈ xs, FitsInt16 x) :
    |((states Koeff xs).1 : ℚ)| ≤ (2 ^ 15 + 1 / 2) * Resonator.gain (Koeff / 2 ^ 14 : ℚ) xs.length := by
  show |(rational (xs.foldl (next Koeff) (0, 0))).1| ≤ _
  refine Resonator.abs_foldl_le ?_ rfl
  intro v x hx
  obtain ⟨hle, hlt⟩ := hfits x hx
  have hround := abs_MPY48SR_sub_le Koeff (2 * v.1)
  have hx : |(x : ℚ)| ≤ 2 ^ 15 := by exact_mod_cast abs_le.mpr ⟨hle, hlt.le⟩
  refine ⟨(MPY48SR Koeff (2 * v.1) - Koeff * (2 * v.1 : Int) / 2 ^ 15) + x, ?_, ?_⟩
  · calc |(MPY48SR Koeff (2 * v.1) - Koeff * (2 * v.1 : Int) / 2 ^ 15 : ℚ) + x|
        ≤ |(MPY48SR Koeff (2 * v.1) - Koeff * (2 * v.1 : Int) / 2 ^ 15 : ℚ)| + |(x : ℚ)| := abs_add_le _ _
      _ ≤ 2 ^ 15 + 1 / 2 := by linarith
  · refine Prod.ext ?_ rfl
    show ((MPY48SR Koeff (2 * v.1) - v.2 + x : Int) : ℚ) = _
    simp only [Resonator.next, rational]
    push_cast
    ring

/-! ### The bounds -/

theorem gain_le : ∀ Koeff ∈ DtmfDetector.CONSTANTS, Resonator.gain (Koeff.toInt / 2 ^ 14 : ℚ) 44 ≤ 508 :=
  List.forall_iff_forall_mem.mp (by decide +kernel)

theorem min_lt_of_mem : ∀ Koeff ∈ DtmfDetector.CONSTANTS, -2 ^ 15 < Koeff.toInt :=
  List.forall_iff_forall_mem.mp (by decide)

section Bounds
variable {Koeff : Int16} {xs : List Int} {n : Nat}

/-- The second state is the first one of a step before. -/
theorem abs_states_snd_le {b : Int} (h : ∀ ys, ys <+: xs → |(states Koeff.toInt ys).1| ≤ b) :
    |(states Koeff.toInt xs).2| ≤ b := by
  cases xs using List.reverseRecOn with
  | nil => exact h [] List.prefix_rfl
  | append_singleton xs x =>
    rw [states, List.foldl_append]
    exact h xs (List.prefix_append xs [x])

/-- The states within as many samples as the gain allows. -/
theorem abs_states_le_of_gain (hgain : Resonator.gain (Koeff.toInt / 2 ^ 14 : ℚ) n ≤ 508) (hfits : ∀ x ∈ xs, FitsInt16 x)
    (hlen : xs.length ≤ n) (ys : List Int) (hys : ys <+: xs) : |(states Koeff.toInt ys).1| ≤ 16646398 := by
  have hgain : Resonator.gain (Koeff.toInt / 2 ^ 14 : ℚ) ys.length ≤ 508 :=
    (Resonator.gain_mono _ (hys.length_le.trans hlen)).trans hgain
  have hstates : |((states Koeff.toInt ys).1 : ℚ)| ≤ 16646398 := by
    calc |((states Koeff.toInt ys).1 : ℚ)| ≤ (2 ^ 15 + 1 / 2) * Resonator.gain (Koeff.toInt / 2 ^ 14 : ℚ) ys.length :=
          abs_states_le fun y hy => hfits y (hys.subset hy)
      _ ≤ (2 ^ 15 + 1 / 2) * 508 := mul_le_mul_of_nonneg_left hgain (by norm_num)
      _ = 16646398 := by norm_num
  exact_mod_cast hstates

variable (hKoeff : Koeff ∈ DtmfDetector.CONSTANTS)
include hKoeff

theorem abs_MPY48SR_le (b : Int) : |MPY48SR Koeff.toInt b| ≤ |b| + 1 := by
  have hmin := min_lt_of_mem Koeff hKoeff
  have hlt := Koeff.toInt_lt
  have hproduct : |Koeff.toInt * b| ≤ 32767 * |b| := abs_mul_le (abs_le.mpr ⟨by omega, by omega⟩) le_rfl
  obtain ⟨hle, hge⟩ := abs_le.mp hproduct
  rw [MPY48SR]
  exact abs_le.mpr ⟨by omega, by omega⟩

/-- Where the states stay small, nothing in the filter overflows. -/
theorem filterFits (hbounds : ∀ ys, ys <+: xs → |(states Koeff.toInt ys).1| ≤ 2 ^ 28) : FilterFits Koeff.toInt xs := by
  refine ⟨fun ys hys => ?_, fun ys hys => ?_, fun ys hys => ?_⟩
  · exact fitsInt32_of_abs_lt ((hbounds ys hys).trans_lt (by decide))
  · obtain ⟨hle, hge⟩ := abs_le.mp (hbounds ys hys)
    exact ⟨by omega, by omega⟩
  · have hproduct := abs_le.mp (abs_MPY48SR_le hKoeff (2 * (states Koeff.toInt ys).1))
    obtain ⟨hle, hge⟩ := abs_le.mp (hbounds ys hys)
    obtain ⟨hle', hge'⟩ := abs_le.mp (abs_states_snd_le fun zs hzs => hbounds zs (hzs.trans hys))
    have habs : |2 * (states Koeff.toInt ys).1| ≤ 2 ^ 29 := abs_le.mpr ⟨by omega, by omega⟩
    exact ⟨by omega, by omega⟩

/-- A magnitude that fits is not the least number either. -/
theorem magnitudeFits (hbounds : ∀ ys, ys <+: xs → |(states Koeff.toInt ys).1| ≤ 16646398) :
    MagnitudeFits Koeff.toInt (states Koeff.toInt xs) ∧ |magnitude Koeff.toInt (states Koeff.toInt xs)| < 2 ^ 31 := by
  have hv1 := hbounds xs List.prefix_rfl
  have hv2 := abs_states_snd_le hbounds
  generalize states Koeff.toInt xs = v at hv1 hv2 ⊢
  obtain ⟨hle1, hge1⟩ := abs_le.mp hv1
  obtain ⟨hle2, hge2⟩ := abs_le.mp hv2
  have hVk1 : |v.1 / 2 ^ 10| ≤ 16257 := abs_le.mpr ⟨by omega, by omega⟩
  have hVk2 : |v.2 / 2 ^ 10| ≤ 16257 := abs_le.mpr ⟨by omega, by omega⟩
  have hdoubled : |2 * (v.1 / 2 ^ 10)| ≤ 32514 := by
    obtain ⟨hle, hge⟩ := abs_le.mp hVk1
    exact abs_le.mpr ⟨by omega, by omega⟩
  have hTemp : |MPY48SR Koeff.toInt (2 * (v.1 / 2 ^ 10))| ≤ 32515 := (abs_MPY48SR_le hKoeff _).trans (by omega)
  have hsquare1 := abs_le.mp (abs_mul_le hVk1 hVk1)
  have hsquare2 := abs_le.mp (abs_mul_le hVk2 hVk2)
  have hproduct := abs_le.mp (abs_mul_le hTemp hVk2)
  have hmagnitude : |magnitude Koeff.toInt v| < 2 ^ 31 := by
    rw [magnitude]
    exact abs_lt.mpr ⟨by omega, by omega⟩
  exact ⟨⟨fitsInt16_of_abs_lt (hVk1.trans_lt (by decide)), fitsInt16_of_abs_lt (hVk2.trans_lt (by decide)),
    fitsInt16_of_abs_lt (hTemp.trans_lt (by decide)), ⟨by omega, by omega⟩, fitsInt32_of_abs_lt hmagnitude⟩, hmagnitude⟩

end Bounds
end Unbounded

/-- In a block of at most 44 samples nothing overflows. -/
theorem noOverflow_of_le {block : List Int16} (hlen : block.length ≤ 44) :
    Unbounded.NoOverflow (block.map Int16.toInt) := by
  have hlength : (Unbounded.internalArray (block.map Int16.toInt)).length ≤ 44 := by
    rwa [Unbounded.internalArray, List.length_map, List.length_map]
  have hbounds : ∀ Koeff ∈ DtmfDetector.CONSTANTS, ∀ ys, ys <+: Unbounded.internalArray (block.map Int16.toInt) →
      |(Unbounded.states Koeff.toInt ys).1| ≤ 16646398 := fun Koeff hKoeff =>
    Unbounded.abs_states_le_of_gain (Unbounded.gain_le Koeff hKoeff) internalArray_fits hlength
  exact ⟨absSum_fits (by omega), internalArray_fits,
    fun Koeff hKoeff => Unbounded.filterFits hKoeff fun ys hys => (hbounds Koeff hKoeff ys hys).trans (by decide),
    fun Koeff hKoeff => (Unbounded.magnitudeFits hKoeff (hbounds Koeff hKoeff)).1⟩

end Recd2
