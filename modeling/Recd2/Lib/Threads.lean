import Mathlib.Algebra.BigOperators.Group.Finset.Basic
import Mathlib.Algebra.Order.BigOperators.Group.Finset
import Mathlib.Data.Fintype.BigOperators

/-! Threads with a position each. What they amount to together changes by what one of them does. -/

namespace Recd2.Threads
open Finset
variable {T P : Type} [Fintype T]

/-- The sum over all threads. -/
def total (weight : P → Nat) (pos : T → P) : Nat := ∑ t, weight (pos t)

/-- The number of threads at positions with the property. -/
def number (p : P → Prop) [DecidablePred p] (pos : T → P) : Nat := total (fun q => if p q then 1 else 0) pos

section Totals
variable {weight : P → Nat} {p : P → Prop} [DecidablePred p] {pos : T → P}

theorem number_eq_zero_iff : number p pos = 0 ↔ ∀ t, ¬p (pos t) := by
  simp [number, total]

theorem number_pos_iff : 0 < number p pos ↔ ∃ t, p (pos t) := by
  rw [Nat.pos_iff_ne_zero, Ne, number_eq_zero_iff]
  push Not
  rfl

/-- A thread moves. -/
theorem total_update [DecidableEq T] (weight : P → Nat) (pos : T → P) (t : T) (q : P) :
    total weight (Function.update pos t q) + weight (pos t) = total weight pos + weight q := by
  have hothers : ∑ u ∈ univ.erase t, weight (Function.update pos t q u) = ∑ u ∈ univ.erase t, weight (pos u) :=
    sum_congr rfl fun u hu => by rw [Function.update_of_ne (ne_of_mem_erase hu)]
  rw [total, total, ← add_sum_erase univ _ (mem_univ t), ← add_sum_erase univ (fun u => weight (pos u)) (mem_univ t),
    hothers, Function.update_self]
  omega

theorem number_update [DecidableEq T] (p : P → Prop) [DecidablePred p] (pos : T → P) (t : T) (q : P) :
    number p (Function.update pos t q) + (if p (pos t) then 1 else 0) = number p pos + if p q then 1 else 0 :=
  total_update _ pos t q

end Totals
end Recd2.Threads
