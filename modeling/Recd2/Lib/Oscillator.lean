import Mathlib.Analysis.SpecialFunctions.Complex.Arg
import Mathlib.Tactic.Linarith
import Recd2.Lib.Resonator

/-! The resonator without input, `v (n + 1) = 2 * c * v n - v (n - 1)`, and what small errors make of it. It keeps an energy,
    which an error changes by no more than its size allows; so the errors add up, and the values do not run away. -/

namespace Recd2.Oscillator
open Resonator

/-! ### The energy -/

section Energy
variable {R : Type} [CommRing R] (c : R)

def energy (v : R × R) : R := v.1 * v.1 + v.2 * v.2 - 2 * c * v.1 * v.2

theorem energy_next (v : R × R) (w : R) :
    energy c (next (2 * c) v w) = energy c v + 2 * w * (c * v.1 - v.2) + w * w := by
  simp only [energy, next]
  ring

theorem energy_eq (v : R × R) : energy c v = (c * v.1 - v.2) * (c * v.1 - v.2) + (1 - c * c) * (v.1 * v.1) := by
  rw [energy]
  ring

variable {c} [LinearOrder R] [IsStrictOrderedRing R] {v : R × R} {M : R}

theorem abs_slope_le (hc : c * c ≤ 1) (hM : 0 ≤ M) (h : energy c v ≤ M * M) : |c * v.1 - v.2| ≤ M := by
  rw [energy_eq] at h
  have hrest : 0 ≤ (1 - c * c) * (v.1 * v.1) := mul_nonneg (sub_nonneg.mpr hc) (mul_self_nonneg _)
  refine abs_le_of_sq_le_sq ?_ hM
  rw [sq, sq]
  linarith

/-- The value is bounded by the energy. -/
theorem mul_abs_fst_le {s : R} (hs : 0 ≤ s) (hsc : s * s ≤ 1 - c * c) (hM : 0 ≤ M) (h : energy c v ≤ M * M) :
    s * |v.1| ≤ M := by
  rw [energy_eq] at h
  have hslope : 0 ≤ (c * v.1 - v.2) * (c * v.1 - v.2) := mul_self_nonneg _
  have hle : s * s * (v.1 * v.1) ≤ (1 - c * c) * (v.1 * v.1) := mul_le_mul_of_nonneg_right hsc (mul_self_nonneg _)
  have hsq : (s * v.1) * (s * v.1) = s * s * (v.1 * v.1) := by ring
  rw [← abs_of_nonneg hs, ← abs_mul]
  refine abs_le_of_sq_le_sq ?_ hM
  rw [sq, sq, hsq]
  linarith

/-- An error adds at most its size to the root of the energy. -/
theorem energy_next_le (hc : c * c ≤ 1) (hM : 0 ≤ M) (h : energy c v ≤ M * M) {w ε : R} (hw : |w| ≤ ε) :
    energy c (next (2 * c) v w) ≤ (M + ε) * (M + ε) := by
  have hslope : |c * v.1 - v.2| ≤ M := abs_slope_le hc hM h
  have hcross : w * (c * v.1 - v.2) ≤ ε * M := by
    calc w * (c * v.1 - v.2) ≤ |w * (c * v.1 - v.2)| := le_abs_self _
      _ = |w| * |c * v.1 - v.2| := abs_mul _ _
      _ ≤ ε * M := mul_le_mul hw hslope (abs_nonneg _) ((abs_nonneg w).trans hw)
  have hsq : w * w ≤ ε * ε := by
    rw [← abs_mul_abs_self w]
    exact mul_self_le_mul_self (abs_nonneg w) hw
  rw [energy_next]
  linarith

end Energy

/-! ### Machines that oscillate with errors -/

section Simulates
variable {R S : Type} [CommRing R] {c : R} {f : S → S} {view : S → R × R}

/-- The oscillator without errors, `n` steps behind a start. -/
def free (c : R) (v : R × R) (n : Nat) : R × R := (fun v => next (2 * c) v 0)^[n] v

theorem free_succ (v : R × R) (n : Nat) : free c v (n + 1) = next (2 * c) (free c v n) 0 := Function.iterate_succ_apply' _ _ _

theorem next_sub (v v' : R × R) (w : R) : next (2 * c) v w - next (2 * c) v' 0 = next (2 * c) (v - v') w := by
  refine Prod.ext ?_ rfl
  show 2 * c * v.1 - v.2 + w - (2 * c * v'.1 - v'.2 + 0) = 2 * c * (v.1 - v'.1) - (v.2 - v'.2) + w
  ring

variable [LinearOrder R] [IsStrictOrderedRing R] {M ε : R} (hc : c * c ≤ 1)
  (hstep : ∀ s, ∃ w, |w| ≤ ε ∧ view (f s) = next (2 * c) (view s) w)
include hc hstep

theorem energy_iterate_le (hM : 0 ≤ M) (s : S) (h : energy c (view s) ≤ M * M) (n : Nat) :
    energy c (view (f^[n] s)) ≤ (M + n * ε) * (M + n * ε) := by
  have hε : 0 ≤ ε := by
    obtain ⟨w, hw, -⟩ := hstep s
    exact (abs_nonneg w).trans hw
  induction n with
  | zero =>
    rw [Nat.cast_zero, zero_mul, add_zero]
    exact h
  | succ n ih =>
    obtain ⟨w, hw, hnext⟩ := hstep (f^[n] s)
    have hbound := energy_next_le hc (add_nonneg hM (mul_nonneg n.cast_nonneg hε)) ih hw
    rw [Function.iterate_succ_apply', hnext, Nat.cast_succ]
    have hsum : M + (n + 1 : R) * ε = M + n * ε + ε := by ring
    rwa [hsum]

/-- The distance from the oscillator without errors is one of the oscillators with errors, from zero on. -/
theorem energy_sub_free_le (s : S) (n : Nat) :
    energy c (view (f^[n] s) - free c (view s) n) ≤ (n * ε) * (n * ε) := by
  have hε : 0 ≤ ε := by
    obtain ⟨w, hw, -⟩ := hstep s
    exact (abs_nonneg w).trans hw
  induction n with
  | zero =>
    show energy c (view s - view s) ≤ _
    rw [sub_self, energy, Nat.cast_zero, zero_mul]
    simp
  | succ n ih =>
    obtain ⟨w, hw, hnext⟩ := hstep (f^[n] s)
    have hbound := energy_next_le hc (mul_nonneg n.cast_nonneg hε) ih hw
    rw [Function.iterate_succ_apply', hnext, free_succ, next_sub, Nat.cast_succ]
    have hsum : (n + 1 : R) * ε = n * ε + ε := by ring
    rwa [hsum]

variable (view) {s₀ : R} (hs : 0 ≤ s₀) (hsc : s₀ * s₀ ≤ 1 - c * c)
include hs hsc

theorem mul_abs_iterate_le (hM : 0 ≤ M) (s : S) (h : energy c (view s) ≤ M * M) (n : Nat) :
    s₀ * |(view (f^[n] s)).1| ≤ M + n * ε := by
  obtain ⟨w, hw, -⟩ := hstep s
  exact mul_abs_fst_le hs hsc (add_nonneg hM (mul_nonneg n.cast_nonneg ((abs_nonneg w).trans hw)))
    (energy_iterate_le hc hstep hM s h n)

theorem mul_abs_sub_free_le (s : S) (n : Nat) : s₀ * |(view (f^[n] s)).1 - (free c (view s) n).1| ≤ n * ε := by
  obtain ⟨w, hw, -⟩ := hstep s
  exact mul_abs_fst_le (v := view (f^[n] s) - free c (view s) n) hs hsc
    (mul_nonneg n.cast_nonneg ((abs_nonneg w).trans hw)) (energy_sub_free_le hc hstep s n)

end Simulates

/-! ### Cosines -/

section Cosine
open Real

/-- From two values of a cosine on, the values are those of the cosine. -/
theorem free_cos (A φ ω : ℝ) (n : Nat) : free (cos ω) (A * cos φ, A * cos (φ - ω)) n =
    (A * cos (φ + n * ω), A * cos (φ + n * ω - ω)) := by
  induction n with
  | zero =>
    rw [Nat.cast_zero, zero_mul, add_zero]
    rfl
  | succ n ih =>
    rw [free_succ, ih]
    have hadd : φ + (n + 1 : ℕ) * ω = φ + n * ω + ω := by
      push_cast
      ring
    refine Prod.ext ?_ ?_
    · show 2 * cos ω * (A * cos (φ + n * ω)) - A * cos (φ + n * ω - ω) + 0 = A * cos (φ + (n + 1 : ℕ) * ω)
      rw [hadd, cos_sub, cos_add (φ + n * ω) ω]
      ring
    · show A * cos (φ + n * ω) = A * cos (φ + (n + 1 : ℕ) * ω - ω)
      rw [hadd, add_sub_cancel_right]

/-- Every start is two values of a cosine, whose amplitude has the energy of the start. -/
theorem exists_cos {ω : ℝ} (hω : sin ω ≠ 0) (v : ℝ × ℝ) : ∃ A φ, v = (A * cos φ, A * cos (φ - ω)) ∧ 0 ≤ A ∧
    A * A * (1 - cos ω * cos ω) = energy (cos ω) v := by
  let z : ℂ := ⟨v.1, (v.2 - v.1 * cos ω) / sin ω⟩
  have hcos : ‖z‖ * cos z.arg = v.1 := Complex.norm_mul_cos_arg z
  have hsin : ‖z‖ * sin z.arg = (v.2 - v.1 * cos ω) / sin ω := Complex.norm_mul_sin_arg z
  have hmul : ‖z‖ * sin z.arg * sin ω = v.2 - v.1 * cos ω := by rw [hsin, div_mul_cancel₀ _ hω]
  have hsnd : ‖z‖ * cos (z.arg - ω) = v.2 := by
    rw [cos_sub]
    linear_combination cos ω * hcos + hmul
  refine ⟨‖z‖, z.arg, Prod.ext hcos.symm hsnd.symm, norm_nonneg z, ?_⟩
  have hω' : sin ω * sin ω = 1 - cos ω * cos ω := by linear_combination sin_sq_add_cos_sq ω
  have hz : cos z.arg * cos z.arg = 1 - sin z.arg * sin z.arg := by linear_combination sin_sq_add_cos_sq z.arg
  rw [energy, ← hsnd, ← hcos, cos_sub]
  linear_combination (-(‖z‖ ^ 2 * sin z.arg ^ 2)) * hω' - ‖z‖ ^ 2 * (1 - cos ω ^ 2) * hz

end Cosine
end Recd2.Oscillator
