import Mathlib.Analysis.SpecialFunctions.Trigonometric.Inverse
import Mathlib.Tactic.IntervalCases
import Recd2.Lib.Oscillator
import Recd2.Theorems.Overflow
import Recd2.Theorems.Playback

/-! The tones of the DTMF generator are the sums of two cosines. The oscillators round in each step; the errors stay below what
    an energy of the oscillators allows, and for 2048 samples nothing overflows. -/

namespace Recd2
open Checked Width Oscillator

/-! ### The oscillators in unbounded integers -/

namespace Unbounded

/-- The last two values of an oscillator, behind `n` samples. -/
def wave (Coeff : Int) (n : Nat) : Int × Int := (fun v => next Coeff v 0)^[n] (Coeff, 31000)

theorem wave_succ (Coeff : Int) (n : Nat) : wave Coeff (n + 1) = next Coeff (wave Coeff n) 0 :=
  Function.iterate_succ_apply' _ _ _

theorem wave_succ_snd (Coeff : Int) (n : Nat) : (wave Coeff (n + 1)).2 = (wave Coeff n).1 := by
  rw [wave_succ]
  rfl

/-- A state as a pair of reals. -/
noncomputable def real (v : Int × Int) : ℝ × ℝ := (v.1, v.2)

/-- The cosine of the angle by which an oscillator turns with each sample. -/
noncomputable def cosine (Coeff : Int) : ℝ := Coeff / 32768

/-- The angle of the oscillation in one step. -/
noncomputable def angle (Coeff : Int) : ℝ := Real.arccos (cosine Coeff)

/-- A step is one of the exact oscillator, with an error. -/
theorem exists_error (Coeff : Int) (v : Int × Int) : ∃ w : ℝ, |w| ≤ 1 / 2 ∧
    real (next Coeff v 0) = Resonator.next (2 * cosine Coeff) (real v) w := by
  have hround : ((|(MPY48SR Coeff (2 * v.1) : ℚ) - Coeff * (2 * v.1 : Int) / 2 ^ 15| : ℚ) : ℝ) ≤ ((1 / 2 : ℚ) : ℝ) :=
    Rat.cast_le.mpr (abs_MPY48SR_sub_le Coeff (2 * v.1))
  refine ⟨MPY48SR Coeff (2 * v.1) - Coeff * (2 * v.1 : Int) / (2 ^ 15 : ℝ), by push_cast at hround ⊢; exact hround, ?_⟩
  refine Prod.ext ?_ rfl
  show ((MPY48SR Coeff (2 * v.1) - v.2 + 0 : Int) : ℝ) = _
  simp only [Resonator.next, real, cosine]
  push_cast
  ring

/-- Bounds on the energy from which a tone starts, by itself and for its amplitude, and on the sine of its angle in units
    of 10⁻⁵. -/
structure Bounded (Coeff : Int) (root sine : Nat) : Prop where
  le_amplitude : 31000 * 31000 * (2 ^ 30 - Coeff * Coeff) ≤
    2 ^ 30 * (Coeff * Coeff + 31000 * 31000) - 2 ^ 16 * (31000 * (Coeff * Coeff))
  amplitude_le : 2 ^ 30 * (Coeff * Coeff + 31000 * 31000) - 2 ^ 16 * (31000 * (Coeff * Coeff)) ≤
    31136 * 31136 * (2 ^ 30 - Coeff * Coeff)
  energy_le : 2 ^ 15 * (Coeff * Coeff + 31000 * 31000) - 2 * Coeff * Coeff * 31000 ≤ 2 ^ 15 * (root * root)
  sine_le : (sine * sine * 2 ^ 30 : Int) ≤ 10 ^ 10 * (2 ^ 30 - Coeff * Coeff)
  pos : 0 < sine

section Bounds
variable {Coeff : Int} {root sine : Nat} (h : Bounded Coeff root sine)
include h

theorem Bounded.energy_start_le : energy (cosine Coeff) (real (Coeff, 31000)) ≤ (root : ℝ) * root := by
  have hle : (2 ^ 15 * (Coeff * Coeff + 31000 * 31000) - 2 * Coeff * Coeff * 31000 : ℝ) ≤ 2 ^ 15 * (root * root) := by
    exact_mod_cast h.energy_le
  have heq : Oscillator.energy (cosine Coeff) (real (Coeff, 31000)) =
      (2 ^ 15 * (Coeff * Coeff + 31000 * 31000) - 2 * Coeff * Coeff * 31000) / 2 ^ 15 := by
    simp only [Oscillator.energy, real, cosine]
    push_cast
    ring
  rw [heq, div_le_iff₀ (by norm_num)]
  linarith

theorem Bounded.sq_sine_le : (sine / 10 ^ 5 : ℝ) * (sine / 10 ^ 5) ≤ 1 - cosine Coeff * cosine Coeff := by
  have hle : (sine * sine * 2 ^ 30 : ℝ) ≤ 10 ^ 10 * (2 ^ 30 - Coeff * Coeff) := by exact_mod_cast h.sine_le
  have heq : 1 - cosine Coeff * cosine Coeff - sine / 10 ^ 5 * (sine / 10 ^ 5) =
      (10 ^ 10 * (2 ^ 30 - Coeff * Coeff) - sine * sine * 2 ^ 30) / (10 ^ 10 * 2 ^ 30) := by
    rw [cosine]
    ring
  rw [← sub_nonneg, heq]
  exact div_nonneg (by linarith) (by norm_num)

theorem Bounded.amplitude {A : ℝ} (hA : 0 ≤ A)
    (henergy : A * A * (1 - cosine Coeff * cosine Coeff) = Oscillator.energy (cosine Coeff) (real (Coeff, 31000))) :
    31000 ≤ A ∧ A ≤ 31136 := by
  have hle : (31000 * 31000 * (2 ^ 30 - Coeff * Coeff) : ℝ) ≤
      2 ^ 30 * (Coeff * Coeff + 31000 * 31000) - 2 ^ 16 * (31000 * (Coeff * Coeff)) := by exact_mod_cast h.le_amplitude
  have hge : (2 ^ 30 * (Coeff * Coeff + 31000 * 31000) - 2 ^ 16 * (31000 * (Coeff * Coeff)) : ℝ) ≤
      31136 * 31136 * (2 ^ 30 - Coeff * Coeff) := by exact_mod_cast h.amplitude_le
  have hA' : A * A * (2 ^ 30 - Coeff * Coeff) =
      2 ^ 30 * (Coeff * Coeff + 31000 * 31000) - 2 ^ 16 * (31000 * (Coeff * Coeff)) := by
    simp only [Oscillator.energy, real, cosine] at henergy
    push_cast at henergy
    linear_combination 2 ^ 30 * henergy
  have hpos : (0 : ℝ) < 2 ^ 30 - Coeff * Coeff := by
    have hsine : (sine * sine * 2 ^ 30 : ℝ) ≤ 10 ^ 10 * (2 ^ 30 - Coeff * Coeff) := by exact_mod_cast h.sine_le
    have hlt : (0 : ℝ) < sine * sine * 2 ^ 30 := by
      have hsine : (0 : ℝ) < sine := by exact_mod_cast h.pos
      positivity
    linarith
  rw [← hA'] at hle hge
  exact ⟨(mul_self_le_mul_self_iff (by norm_num) hA).mpr (le_of_mul_le_mul_right hle hpos),
    (mul_self_le_mul_self_iff hA (by norm_num)).mpr (le_of_mul_le_mul_right hge hpos)⟩

theorem Bounded.mul_self_le_one : cosine Coeff * cosine Coeff ≤ 1 := by
  have hsine := h.sq_sine_le
  have hsq : 0 ≤ (sine / 10 ^ 5 : ℝ) * (sine / 10 ^ 5) := mul_self_nonneg _
  linarith

/-- The values behind 2048 samples at most. -/
theorem Bounded.abs_wave_le {B : Nat} (hB : (root + 1024) * 10 ^ 5 ≤ B * sine) {n : Nat} (hn : n ≤ 2048) :
    |(wave Coeff n).1| ≤ B := by
  have hpos : (0 : ℝ) < sine := by exact_mod_cast h.pos
  have hbound := mul_abs_iterate_le real h.mul_self_le_one (exists_error Coeff) (div_nonneg hpos.le (by norm_num))
    h.sq_sine_le (Nat.cast_nonneg root) (Coeff, 31000) h.energy_start_le n
  have hB : ((root : ℝ) + 1024) * 10 ^ 5 ≤ B * sine := by exact_mod_cast hB
  have hn : (n : ℝ) ≤ 2048 := by exact_mod_cast hn
  have hwave : (sine : ℝ) * |((wave Coeff n).1 : ℝ)| ≤ sine * B := by
    calc (sine : ℝ) * |((wave Coeff n).1 : ℝ)| = sine / 10 ^ 5 * |((wave Coeff n).1 : ℝ)| * 10 ^ 5 := by ring
      _ ≤ (root + n * (1 / 2)) * 10 ^ 5 := mul_le_mul_of_nonneg_right hbound (by norm_num)
      _ ≤ sine * B := by linarith
  have hwave : |((wave Coeff n).1 : ℝ)| ≤ B := le_of_mul_le_mul_left hwave hpos
  exact_mod_cast hwave

/-- The values are those of a cosine, with an error that grows with the number of samples. -/
theorem Bounded.exists_cos : ∃ A φ : ℝ, 0 ≤ A ∧
    A * A * (1 - cosine Coeff * cosine Coeff) = Oscillator.energy (cosine Coeff) (real (Coeff, 31000)) ∧
    ∀ n : Nat, sine / 10 ^ 5 * |((wave Coeff n).1 : ℝ) - A * Real.cos (φ + n * angle Coeff)| ≤ n * (1 / 2) := by
  have hpos : (0 : ℝ) < sine := by exact_mod_cast h.pos
  have hsq := abs_le_of_sq_le_sq (a := cosine Coeff) (b := 1) (by rw [sq, sq, mul_one]; exact h.mul_self_le_one)
    zero_le_one
  have hcos : Real.cos (angle Coeff) = cosine Coeff := Real.cos_arccos (abs_le.mp hsq).1 (abs_le.mp hsq).2
  have hsin : Real.sin (angle Coeff) ≠ 0 := by
    intro hzero
    have hone := Real.sin_sq_add_cos_sq (angle Coeff)
    rw [hzero, hcos] at hone
    have hlt : 0 < (sine / 10 ^ 5 : ℝ) * (sine / 10 ^ 5) := mul_self_pos.mpr (div_pos hpos (by norm_num)).ne'
    have hle := h.sq_sine_le
    linarith
  obtain ⟨A, φ, hstart, hA, henergy⟩ := Oscillator.exists_cos hsin (real (Coeff, 31000))
  rw [hcos] at henergy
  refine ⟨A, φ, hA, henergy, fun n => ?_⟩
  have hfree := free_cos A φ (angle Coeff) n
  have hbound := mul_abs_sub_free_le real h.mul_self_le_one (exists_error Coeff)
    (div_nonneg hpos.le (by norm_num)) h.sq_sine_le (Coeff, 31000) n
  rw [hstart, ← hcos, hfree] at hbound
  exact hbound

end Bounds
end Unbounded

/-! ### The oscillators of the generator -/

open Unbounded

/-- The oscillators without overflow. -/
theorem toInt_oscillate {Coeff : Int16} (hmin : -2 ^ 15 < Coeff.toInt) {a b : Int32} {v : Int × Int} (hv : (a.toInt, b.toInt) = v)
    (hdouble : FitsInt32 (2 * v.1)) (hnext : FitsInt32 (next Coeff.toInt v 0).1) :
    (MPY48SR Coeff (a <<< 1) - b).toInt = (next Coeff.toInt v 0).1 := by
  subst hv
  have hproduct : (MPY48SR Coeff (a <<< 1)).toInt = Unbounded.MPY48SR Coeff.toInt (2 * a.toInt) := by
    rw [toInt_MPY48SR hmin, toInt_shiftLeft_one hdouble]
  have hdiff : (next Coeff.toInt (a.toInt, b.toInt) 0).1 = Unbounded.MPY48SR Coeff.toInt (2 * a.toInt) - b.toInt :=
    Int.add_zero _
  rw [hdiff] at hnext ⊢
  rw [toInt_sub] <;> rw [hproduct]
  exact hnext

namespace DtmfGenerator

/-- The values that the oscillator of a coefficient reaches within 2048 samples. -/
structure Oscillates (Coeff : Int16) (root sine B : Nat) : Prop extends Bounded Coeff.toInt root sine where
  bound : (root + 1024) * 10 ^ 5 ≤ B * sine
  min_lt : -2 ^ 15 < Coeff.toInt

theorem oscillates_low : ∀ low < 4, ∃ root sine, 52046 ≤ sine ∧ Oscillates (tempCoeff.getD low 0) root sine 33104 := by
  intro low hlow
  interval_cases low
  · exact ⟨16205, 52046, by decide, ⟨by decide, by decide, by decide, by decide, by decide⟩, by decide, by decide⟩
  · exact ⟨17686, 56857, by decide, ⟨by decide, by decide, by decide, by decide, by decide⟩, by decide, by decide⟩
  · exact ⟨19281, 62034, by decide, ⟨by decide, by decide, by decide, by decide, by decide⟩, by decide, by decide⟩
  · exact ⟨20924, 67362, by decide, ⟨by decide, by decide, by decide, by decide, by decide⟩, by decide, by decide⟩

theorem oscillates_high : ∀ high, 4 ≤ high → high < 8 →
    ∃ root sine, 81314 ≤ sine ∧ Oscillates (tempCoeff.getD high 0) root sine 32286 := by
  intro high hle hlt
  interval_cases high
  · exact ⟨25229, 81314, by decide, ⟨by decide, by decide, by decide, by decide, by decide⟩, by decide, by decide⟩
  · exact ⟨26894, 86706, by decide, ⟨by decide, by decide, by decide, by decide, by decide⟩, by decide, by decide⟩
  · exact ⟨28430, 91681, by decide, ⟨by decide, by decide, by decide, by decide, by decide⟩, by decide, by decide⟩
  · exact ⟨29726, 95874, by decide, ⟨by decide, by decide, by decide, by decide, by decide⟩, by decide, by decide⟩

theorem places_of_tones {button : Char} {low high : Nat} (h : tones button = some (low, high)) :
    low < 4 ∧ 4 ≤ high ∧ high < 8 := by
  unfold tones at h
  split at h <;> first | (obtain ⟨rfl, rfl⟩ := Prod.mk.inj (Option.some.inj h); decide) | cases h

theorem coefficients_of_tones {button : Char} {low high : Nat} (h : tones button = some (low, high)) :
    coefficients button = (tempCoeff.getD low 0, tempCoeff.getD high 0) ∧
      start button = ⟨(tempCoeff.getD low 0).toInt32, (tempCoeff.getD high 0).toInt32, 31000, 31000⟩ := by
  rw [coefficients, start, h]
  exact ⟨rfl, rfl⟩

theorem next_eq (Coeff0 Coeff1 : Int16) (v : Oscillators) : v.next Coeff0 Coeff1 =
    ⟨MPY48SR Coeff0 (v.Temp1_0 <<< 1) - v.Temp2_0, MPY48SR Coeff1 (v.Temp1_1 <<< 1) - v.Temp2_1, v.Temp1_0, v.Temp1_1⟩ := rfl

theorem states_succ (button : Char) (n : Nat) : states button (n + 1) =
    (states button n).next (coefficients button).1 (coefficients button).2 :=
  Function.iterate_succ_apply' _ _ _

theorem fits_of_abs_le {n : Int} {B : Nat} (h : |n| ≤ B) (hB : B ≤ 33104) : FitsInt32 (2 * n) ∧ FitsInt32 n := by
  obtain ⟨hle, hge⟩ := abs_le.mp h
  exact ⟨⟨by omega, by omega⟩, ⟨by omega, by omega⟩⟩

theorem abs_le_of_mul_le {s t x m : ℝ} (ht : t ≤ s) (hpos : 0 < t) (h : s / 10 ^ 5 * |x| ≤ m * (1 / 2)) :
    |x| ≤ 50000 / t * m := by
  have hle : t * |x| ≤ s * |x| := mul_le_mul_of_nonneg_right ht (abs_nonneg x)
  rw [div_mul_eq_mul_div, le_div_iff₀ hpos]
  linarith

section Tone
variable {button : Char} {low high : Nat} (h : tones button = some (low, high))
include h

/-- The states are those of the oscillators in unbounded integers. -/
theorem toInt_states {n : Nat} (hn : n ≤ 2048) :
    ((states button n).Temp1_0.toInt, (states button n).Temp2_0.toInt) = wave (tempCoeff.getD low 0).toInt n ∧
      ((states button n).Temp1_1.toInt, (states button n).Temp2_1.toInt) = wave (tempCoeff.getD high 0).toInt n := by
  obtain ⟨hlow, hhigh, hhigh'⟩ := places_of_tones h
  obtain ⟨hcoeff, hstart⟩ := coefficients_of_tones h
  obtain ⟨root₀, sine₀, -, hosc₀⟩ := oscillates_low low hlow
  obtain ⟨root₁, sine₁, -, hosc₁⟩ := oscillates_high high hhigh hhigh'
  induction n with
  | zero =>
    have hsnd : (31000 : Int32).toInt = 31000 := by decide
    rw [states, Function.iterate_zero, id_eq, hstart, Int16.toInt_toInt32, Int16.toInt_toInt32, hsnd]
    exact ⟨rfl, rfl⟩
  | succ n ih =>
    have hle : n ≤ 2048 := by omega
    obtain ⟨ih₀, ih₁⟩ := ih hle
    have hnext : states button (n + 1) = (states button n).next (tempCoeff.getD low 0) (tempCoeff.getD high 0) := by
      rw [states_succ, hcoeff]
    have hfits₀ := fits_of_abs_le (hosc₀.abs_wave_le hosc₀.bound hle) (by decide)
    have hfits₁ := fits_of_abs_le (hosc₁.abs_wave_le hosc₁.bound hle) (by decide)
    have hfits₀' := fits_of_abs_le (hosc₀.abs_wave_le hosc₀.bound hn) (by decide)
    have hfits₁' := fits_of_abs_le (hosc₁.abs_wave_le hosc₁.bound hn) (by decide)
    rw [wave_succ] at hfits₀' hfits₁'
    rw [hnext, next_eq]
    have hfst₀ := toInt_oscillate hosc₀.min_lt ih₀ hfits₀.1 hfits₀'.2
    have hfst₁ := toInt_oscillate hosc₁.min_lt ih₁ hfits₁.1 hfits₁'.2
    have hsnd₀ := congrArg Prod.fst ih₀
    have hsnd₁ := congrArg Prod.fst ih₁
    rw [← wave_succ] at hfst₀ hfst₁
    rw [← wave_succ_snd] at hsnd₀ hsnd₁
    dsimp only at hsnd₀ hsnd₁
    rw [hfst₀, hfst₁, hsnd₀, hsnd₁]
    exact ⟨rfl, rfl⟩

theorem mul_coefficients_ne_zero : (tempCoeff.getD low 0).toInt32 * (tempCoeff.getD high 0).toInt32 ≠ 0 := by
  obtain ⟨hlow, hhigh, hhigh'⟩ := places_of_tones h
  interval_cases low <;> interval_cases high <;> decide

/-- A sample is the rounded mean of the two oscillators: nothing overflows. -/
theorem toInt_tone {n : Nat} (hn : n < 2048) : (tone button n).toInt =
    ((wave (tempCoeff.getD low 0).toInt (n + 1)).1 + (wave (tempCoeff.getD high 0).toInt (n + 1)).1) / 2 := by
  obtain ⟨hlow, hhigh, hhigh'⟩ := places_of_tones h
  obtain ⟨hcoeff, hstart⟩ := coefficients_of_tones h
  obtain ⟨root₀, sine₀, -, hosc₀⟩ := oscillates_low low hlow
  obtain ⟨root₁, sine₁, -, hosc₁⟩ := oscillates_high high hhigh hhigh'
  have hle : n + 1 ≤ 2048 := hn
  obtain ⟨hstates₀, hstates₁⟩ := toInt_states h hle
  have hstate₀ := congrArg Prod.fst hstates₀
  have hstate₁ := congrArg Prod.fst hstates₁
  dsimp only at hstate₀ hstate₁
  obtain ⟨hle₀, hge₀⟩ := abs_le.mp (hosc₀.abs_wave_le hosc₀.bound hle)
  obtain ⟨hle₁, hge₁⟩ := abs_le.mp (hosc₁.abs_wave_le hosc₁.bound hle)
  have hsum : ((states button (n + 1)).Temp1_0 + (states button (n + 1)).Temp1_1).toInt =
      (wave (tempCoeff.getD low 0).toInt (n + 1)).1 + (wave (tempCoeff.getD high 0).toInt (n + 1)).1 := by
    rw [toInt_add] <;> rw [hstate₀, hstate₁]
    exact ⟨by omega, by omega⟩
  have hhalf : (((states button (n + 1)).Temp1_0 + (states button (n + 1)).Temp1_1) >>> 1).toInt =
      ((wave (tempCoeff.getD low 0).toInt (n + 1)).1 + (wave (tempCoeff.getD high 0).toInt (n + 1)).1) / 2 := by
    rw [toInt_shiftRight (by decide) (by decide), hsum]
    rfl
  rw [tone, hcoeff, Oscillators.output]
  dsimp only
  rw [if_pos (mul_coefficients_ne_zero h), toInt_toInt16, hhalf]
  rw [hhalf]
  exact ⟨by omega, by omega⟩

/-- What is played for a button is the mean of two cosines, at the angles of its two coefficients. Their amplitudes are within
    half a percent of 31000, and the roundings move a sample by less than one step for each sample so far. -/
theorem tone_near_cosines : ∃ A₁ φ₁ A₂ φ₂ : ℝ, (31000 ≤ A₁ ∧ A₁ ≤ 31136) ∧ (31000 ≤ A₂ ∧ A₂ ≤ 31136) ∧ ∀ n < 2048,
    |((tone button n).toInt : ℝ) - (A₁ * Real.cos (φ₁ + (n + 1) * angle (tempCoeff.getD low 0).toInt) +
      A₂ * Real.cos (φ₂ + (n + 1) * angle (tempCoeff.getD high 0).toInt)) / 2| ≤ 4 / 5 * (n + 1) + 1 / 2 := by
  obtain ⟨hlow, hhigh, hhigh'⟩ := places_of_tones h
  obtain ⟨root₀, sine₀, hsine₀, hosc₀⟩ := oscillates_low low hlow
  obtain ⟨root₁, sine₁, hsine₁, hosc₁⟩ := oscillates_high high hhigh hhigh'
  obtain ⟨A₁, φ₁, hA₁, henergy₁, hcos₁⟩ := hosc₀.exists_cos
  obtain ⟨A₂, φ₂, hA₂, henergy₂, hcos₂⟩ := hosc₁.exists_cos
  refine ⟨A₁, φ₁, A₂, φ₂, hosc₀.amplitude hA₁ henergy₁, hosc₁.amplitude hA₂ henergy₂, fun n hn => ?_⟩
  have hsine₀ : (52046 : ℝ) ≤ sine₀ := by exact_mod_cast hsine₀
  have hsine₁ : (81314 : ℝ) ≤ sine₁ := by exact_mod_cast hsine₁
  have hone := abs_le_of_mul_le hsine₀ (by norm_num) (hcos₁ (n + 1))
  have htwo := abs_le_of_mul_le hsine₁ (by norm_num) (hcos₂ (n + 1))
  have hhalf : 2 * (tone button n).toInt ≤ (wave (tempCoeff.getD low 0).toInt (n + 1)).1 +
      (wave (tempCoeff.getD high 0).toInt (n + 1)).1 ∧ (wave (tempCoeff.getD low 0).toInt (n + 1)).1 +
      (wave (tempCoeff.getD high 0).toInt (n + 1)).1 ≤ 2 * (tone button n).toInt + 1 := by
    rw [toInt_tone h hn]
    exact ⟨by omega, by omega⟩
  have hle : (2 * (tone button n).toInt : ℝ) ≤ (wave (tempCoeff.getD low 0).toInt (n + 1)).1 +
      (wave (tempCoeff.getD high 0).toInt (n + 1)).1 := by exact_mod_cast hhalf.1
  have hge : ((wave (tempCoeff.getD low 0).toInt (n + 1)).1 + (wave (tempCoeff.getD high 0).toInt (n + 1)).1 : ℝ) ≤
      2 * (tone button n).toInt + 1 := by exact_mod_cast hhalf.2
  have hn : (0 : ℝ) ≤ n := Nat.cast_nonneg n
  push_cast at hone htwo
  obtain ⟨hone, hone'⟩ := abs_le.mp hone
  obtain ⟨htwo, htwo'⟩ := abs_le.mp htwo
  exact abs_le.mpr ⟨by linarith, by linarith⟩

end Tone

theorem tone_near_cosines_five : ∃ A₁ φ₁ A₂ φ₂ : ℝ, (31000 ≤ A₁ ∧ A₁ ≤ 31136) ∧ (31000 ≤ A₂ ∧ A₂ ≤ 31136) ∧ ∀ n < 2048,
    |((tone '5' n).toInt : ℝ) - (A₁ * Real.cos (φ₁ + (n + 1) * angle (tempCoeff.getD 1 0).toInt) +
      A₂ * Real.cos (φ₂ + (n + 1) * angle (tempCoeff.getD 5 0).toInt)) / 2| ≤ 4 / 5 * (n + 1) + 1 / 2 :=
  @tone_near_cosines '5' 1 5 rfl

end DtmfGenerator
end Recd2
