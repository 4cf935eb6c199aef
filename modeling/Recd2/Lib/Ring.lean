import Mathlib.Data.Nat.ModEq
import Mathlib.Data.Vector.Basic

/-! Cells that are written round and round: the value with number `k` goes to cell `k` modulo the number of
    cells, and stays there until the next round. -/

namespace Recd2.Ring
variable {α : Type} {n : Nat}

/-- The index behind `i`, with a comparison in place of a division. -/
def next (n i : Nat) : Nat := if i = n - 1 then 0 else i + 1

theorem next_mod (k : Nat) (hn : 0 < n) : next n (k % n) = (k + 1) % n := by
  have hk : k % n < n := Nat.mod_lt k hn
  have hmod : (k + 1) % n = (k % n + 1) % n := (Nat.mod_add_mod k n 1).symm
  rw [next, hmod]
  split
  · rename_i hlast
    rw [hlast, Nat.sub_add_cancel hn, Nat.mod_self]
  · exact (Nat.mod_eq_of_lt (by omega)).symm

/-- Each of the last `n` values is in its cell. -/
def Keeps (cells : Vector α n) (xs : List α) : Prop :=
  ∀ k, (h : k < xs.length) → xs.length ≤ k + n → cells[k % n]? = some xs[k]

theorem keeps_nil (cells : Vector α n) : Keeps cells [] := fun _ h => absurd h (Nat.not_lt_zero _)

theorem Keeps.push {cells : Vector α n} {xs : List α} (h : Keeps cells xs) (hn : 0 < n) (x : α) :
    Keeps (cells.setIfInBounds (xs.length % n) x) (xs ++ [x]) := by
  intro k hk hlast
  rw [List.length_append, List.length_singleton] at hk hlast
  by_cases hnew : k = xs.length
  · subst hnew
    rw [Vector.getElem?_setIfInBounds_self_of_lt (Nat.mod_lt _ hn)]
    simp
  · -- The cell of an older value is another one: its number is less than a round behind.
    have hcell : xs.length % n ≠ k % n := fun heq => by
      have hdvd : n ∣ xs.length - k := (Nat.modEq_iff_dvd' (by omega)).mp heq.symm
      have := Nat.le_of_dvd (by omega) hdvd
      omega
    rw [Vector.getElem?_setIfInBounds_ne hcell, h k (by omega) (by omega), List.getElem_append_left (by omega)]

end Recd2.Ring
