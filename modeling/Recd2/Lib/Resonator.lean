import Mathlib.Algebra.Order.Ring.Abs
import Mathlib.Tactic.Ring

/-! The resonator `v (n + 1) = c * v n - v (n - 1) + w n` over an ordered ring. Its value is the sum of the responses to its
    inputs, so that a bound on the inputs, times the gain, is a bound on the value. -/

namespace Recd2.Resonator
variable {R : Type} [CommRing R] (c : R)

/-- The last two values, behind one more input. -/
def next (v : R × R) (w : R) : R × R := (c * v.1 - v.2 + w, v.1)

/-- The last two values, `n` steps behind the input 1. -/
def response : Nat → R × R
  | 0 => (1, 0)
  | n + 1 => next c (response n) 0

/-- The responses to the inputs. -/
def output : List R → R
  | [] => 0
  | w :: ws => (response c ws.length).1 * w + output ws

theorem foldl_next (ws : List R) (v : R × R) : (ws.foldl (next c) v).1 =
    (response c ws.length).1 * v.1 - (response c ws.length).2 * v.2 + output c ws := by
  induction ws generalizing v with
  | nil =>
    show v.1 = 1 * v.1 - 0 * v.2 + 0
    ring
  | cons w ws ih =>
    rw [List.foldl_cons, ih, List.length_cons, response, output]
    simp only [next]
    ring

/-- What a resonator without an input keeps. -/
theorem energy_response (n : Nat) :
    (response c n).1 ^ 2 - c * (response c n).1 * (response c n).2 + (response c n).2 ^ 2 = 1 := by
  induction n with
  | zero =>
    show (1 : R) ^ 2 - c * 1 * 0 + 0 ^ 2 = 1
    ring
  | succ n ih =>
    rw [← ih, response, next]
    ring

variable [LinearOrder R]

/-- The sum of the sizes of the first responses. -/
def gain : Nat → R
  | 0 => 0
  | n + 1 => |(response c n).1| + gain n

variable [IsStrictOrderedRing R]

theorem gain_mono : Monotone (gain c) := by
  refine monotone_nat_of_le_succ fun n => ?_
  rw [gain]
  exact le_add_of_nonneg_left (abs_nonneg _)

theorem abs_output_le {B : R} {ws : List R} (h : ∀ w ∈ ws, |w| ≤ B) : |output c ws| ≤ B * gain c ws.length := by
  induction ws with
  | nil =>
    show |0| ≤ B * 0
    rw [abs_zero, mul_zero]
  | cons w ws ih =>
    have hw : |w| ≤ B := h w List.mem_cons_self
    have hws := ih fun w' hw' => h w' (List.mem_cons_of_mem _ hw')
    rw [output, List.length_cons, gain]
    calc |(response c ws.length).1 * w + output c ws| ≤ |(response c ws.length).1 * w| + |output c ws| := abs_add_le _ _
      _ = |(response c ws.length).1| * |w| + |output c ws| := by rw [abs_mul]
      _ ≤ |(response c ws.length).1| * B + B * gain c ws.length :=
        add_le_add (mul_le_mul_of_nonneg_left hw (abs_nonneg _)) hws
      _ = B * (|(response c ws.length).1| + gain c ws.length) := by ring

/-- The responses of a resonator stay within a bound when its roots are on the unit circle. -/
theorem abs_response_le {B : R} (hB : 0 ≤ B) (h : 4 ≤ (4 - c ^ 2) * B ^ 2) (n : Nat) : |(response c n).1| ≤ B := by
  have henergy := energy_response c n
  have hc : 0 < 4 - c ^ 2 := pos_of_mul_pos_left (lt_of_lt_of_le four_pos h) (sq_nonneg B)
  have hsquare : 0 ≤ (c * (response c n).1 - 2 * (response c n).2) ^ 2 := sq_nonneg _
  have hle : (4 - c ^ 2) * (response c n).1 ^ 2 ≤ (4 - c ^ 2) * B ^ 2 := by
    calc (4 - c ^ 2) * (response c n).1 ^ 2
        ≤ (4 - c ^ 2) * (response c n).1 ^ 2 + (c * (response c n).1 - 2 * (response c n).2) ^ 2 :=
          le_add_of_nonneg_right hsquare
      _ = 4 * ((response c n).1 ^ 2 - c * (response c n).1 * (response c n).2 + (response c n).2 ^ 2) := by ring
      _ = 4 := by rw [henergy, mul_one]
      _ ≤ (4 - c ^ 2) * B ^ 2 := h
  exact abs_le_of_sq_le_sq (le_of_mul_le_mul_left hle hc) hB

theorem gain_le_mul {B : R} (h : ∀ n, |(response c n).1| ≤ B) (n : Nat) : gain c n ≤ n * B := by
  induction n with
  | zero =>
    rw [gain, Nat.cast_zero, zero_mul]
  | succ n ih =>
    rw [gain, Nat.cast_succ, add_mul, one_mul, add_comm]
    exact add_le_add ih (h n)

/-! ### Other machines -/

section Simulates
variable {c} {S X : Type} {f : S → X → S} {view : S → R × R} {B : R} {xs : List X}

omit [IsStrictOrderedRing R] in
/-- A machine whose steps are steps of the resonator, each with some input. -/
theorem exists_foldl_next (hstep : ∀ s, ∀ x ∈ xs, ∃ w, |w| ≤ B ∧ view (f s x) = next c (view s) w) (s : S) :
    ∃ ws : List R, ws.length = xs.length ∧ (∀ w ∈ ws, |w| ≤ B) ∧ view (xs.foldl f s) = ws.foldl (next c) (view s) := by
  induction xs generalizing s with
  | nil => exact ⟨[], rfl, nofun, rfl⟩
  | cons x xs ih =>
    obtain ⟨w, hw, hnext⟩ := hstep s x List.mem_cons_self
    obtain ⟨ws, hlen, hws, hfold⟩ := ih (fun s x' hx' => hstep s x' (List.mem_cons_of_mem _ hx')) (f s x)
    refine ⟨w :: ws, congrArg (· + 1) hlen, List.forall_mem_cons.mpr ⟨hw, hws⟩, ?_⟩
    rw [List.foldl_cons, hfold, hnext]
    rfl

/-- From zeros on, the value stays within the bound on the inputs times the gain. -/
theorem abs_foldl_le (hstep : ∀ s, ∀ x ∈ xs, ∃ w, |w| ≤ B ∧ view (f s x) = next c (view s) w) {s : S} (hs : view s = (0, 0)) :
    |(view (xs.foldl f s)).1| ≤ B * gain c xs.length := by
  obtain ⟨ws, hlen, hws, hfold⟩ := exists_foldl_next hstep s
  rw [hfold, hs, foldl_next, mul_zero, mul_zero, sub_zero, zero_add, ← hlen]
  exact abs_output_le c hws

end Simulates
end Recd2.Resonator
