import Mathlib.Data.List.Basic

/-! Decimal numbers in texts. A number at the end of a text, behind a dash that follows something else than a dash, can
    be read back: the sign is not taken for the dash. -/

namespace Recd2.Decimal

theorem toNat_of_isDigit {c : Char} (h : c.isDigit = true) : 48 ≤ c.toNat ∧ c.toNat ≤ 57 := by
  simp only [Char.isDigit, Bool.and_eq_true, decide_eq_true_eq, ge_iff_le, UInt32.le_iff_toNat_le] at h
  exact h

theorem isDigit_of_mem_toDigits {n : Nat} {c : Char} (h : c ∈ Nat.toDigits 10 n) : c.isDigit = true :=
  Nat.isDigit_of_mem_toDigits (by decide) (by decide) h

theorem toDigits_injective {m n : Nat} (h : Nat.toDigits 10 m = Nat.toDigits 10 n) : m = n := by
  rw [← @Nat.ofDigitChars_ten_toDigits m, h, Nat.ofDigitChars_ten_toDigits]

def sign (z : Int) : List Char := if z < 0 then ['-'] else []

theorem toList_toString (z : Int) : (toString z).toList = sign z ++ Nat.toDigits 10 z.natAbs := by
  rw [Int.toString_eq_repr, Int.repr_eq_if, sign]
  by_cases hz : z < 0
  · have habs : (-z).toNat = z.natAbs := by omega
    rw [if_neg (by omega), if_pos hz, String.toList_append, habs, Nat.toList_repr]
    rfl
  · have habs : z.toNat = z.natAbs := by omega
    rw [if_pos (by omega), if_neg hz, habs, Nat.toList_repr]
    rfl

/-- The text from its end: the digits, the sign, and the dash with what is in front of it. -/
theorem reverse_dash (xs : List Char) (c : Char) (z : Int) :
    (xs ++ [c] ++ '-' :: (toString z).toList).reverse =
      (Nat.toDigits 10 z.natAbs).reverse ++ (sign z ++ '-' :: c :: xs.reverse) := by
  rw [toList_toString]
  by_cases hz : z < 0
  · simp [sign, hz]
  · simp [sign, hz]

theorem takeWhile_dash (ds rest : List Char) (z : Int) (hds : ∀ c ∈ ds, c.isDigit = true) :
    (ds ++ (sign z ++ '-' :: rest)).takeWhile Char.isDigit = ds ∧
      (ds ++ (sign z ++ '-' :: rest)).dropWhile Char.isDigit = sign z ++ '-' :: rest := by
  rw [List.takeWhile_append_of_pos hds, List.dropWhile_append_of_pos hds]
  by_cases hz : z < 0
  · simp [sign, hz, Char.isDigit]
  · simp [sign, hz, Char.isDigit]

theorem int_eq_of_append {xs ys : List Char} {c d : Char} {a b : Int} (hc : c ≠ '-') (hd : d ≠ '-')
    (h : xs ++ [c] ++ '-' :: (toString a).toList = ys ++ [d] ++ '-' :: (toString b).toList) : a = b := by
  have hrev := congrArg List.reverse h
  rw [reverse_dash, reverse_dash] at hrev
  have hdigits : ∀ n : Nat, ∀ c ∈ (Nat.toDigits 10 n).reverse, c.isDigit = true := fun n c hc =>
    isDigit_of_mem_toDigits (List.mem_reverse.mp hc)
  obtain ⟨htake, hdrop⟩ := takeWhile_dash _ (c :: xs.reverse) a (hdigits a.natAbs)
  obtain ⟨htake', hdrop'⟩ := takeWhile_dash _ (d :: ys.reverse) b (hdigits b.natAbs)
  rw [hrev, htake'] at htake
  rw [hrev, hdrop'] at hdrop
  have habs : b.natAbs = a.natAbs := toDigits_injective (List.reverse_injective htake)
  by_cases ha : a < 0
  · by_cases hb : b < 0
    · omega
    · simp only [sign, ha, hb, if_true, if_false, List.nil_append, List.singleton_append, List.cons.injEq] at hdrop
      exact absurd hdrop.2.1 hd
  · by_cases hb : b < 0
    · simp only [sign, ha, hb, if_true, if_false, List.nil_append, List.singleton_append, List.cons.injEq] at hdrop
      exact absurd hdrop.2.1.symm hc
    · omega

end Recd2.Decimal
