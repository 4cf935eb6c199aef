import Mathlib.Algebra.Order.Ring.Abs
import Mathlib.Algebra.Order.Ring.Int

/-! Signed integers of a fixed width. An operation whose exact result fits into the width has that result. -/

namespace Recd2.Width

def FitsInt16 (n : Int) : Prop := -2 ^ 15 ≤ n ∧ n < 2 ^ 15

def FitsInt32 (n : Int) : Prop := -2 ^ 31 ≤ n ∧ n < 2 ^ 31

instance (n : Int) : Decidable (FitsInt16 n) := inferInstanceAs (Decidable (_ ∧ _))

instance (n : Int) : Decidable (FitsInt32 n) := inferInstanceAs (Decidable (_ ∧ _))

theorem fitsInt16_toInt (x : Int16) : FitsInt16 x.toInt := ⟨x.le_toInt, x.toInt_lt⟩

theorem fitsInt32_toInt (x : Int32) : FitsInt32 x.toInt := ⟨x.le_toInt, x.toInt_lt⟩

section Fits
variable {n : Int}

theorem FitsInt16.fitsInt32 (h : FitsInt16 n) : FitsInt32 n := by
  obtain ⟨hle, hlt⟩ := h
  exact ⟨by omega, by omega⟩

theorem fitsInt16_of_abs_lt (h : |n| < 2 ^ 15) : FitsInt16 n := by
  obtain ⟨hlt, hlt'⟩ := abs_lt.mp h
  exact ⟨hlt.le, hlt'⟩

theorem fitsInt32_of_abs_lt (h : |n| < 2 ^ 31) : FitsInt32 n := by
  obtain ⟨hlt, hlt'⟩ := abs_lt.mp h
  exact ⟨hlt.le, hlt'⟩

end Fits

/-! ### Arithmetic -/

section Arithmetic
variable {a b : Int32}

theorem toInt_add (h : FitsInt32 (a.toInt + b.toInt)) : (a + b).toInt = a.toInt + b.toInt := by
  rw [Int32.toInt_add]
  exact Int.bmod_eq_of_le h.1 h.2

theorem toInt_sub (h : FitsInt32 (a.toInt - b.toInt)) : (a - b).toInt = a.toInt - b.toInt := by
  rw [Int32.toInt_sub]
  exact Int.bmod_eq_of_le h.1 h.2

theorem toInt_add_one (hlt : a.toInt + 1 < 2 ^ 31) : (a + 1).toInt = a.toInt + 1 := by
  have hle := a.le_toInt
  exact toInt_add ⟨by show _ ≤ a.toInt + 1; omega, hlt⟩

theorem toInt_sub_one (hpos : 0 < a.toInt) : (a - 1).toInt = a.toInt - 1 := by
  have hlt := a.toInt_lt
  exact toInt_sub ⟨by show _ ≤ a.toInt - 1; omega, by show a.toInt - 1 < _; omega⟩

/-- The complement always fits. -/
theorem toInt_not (a : Int32) : (~~~a).toInt = -a.toInt - 1 := by
  obtain ⟨hle, hlt⟩ := fitsInt32_toInt a
  rw [Int32.toInt_not]
  exact Int.bmod_eq_of_le (by omega) (by omega)

theorem toInt_mul (h : FitsInt32 (a.toInt * b.toInt)) : (a * b).toInt = a.toInt * b.toInt := by
  rw [Int32.toInt_mul]
  exact Int.bmod_eq_of_le h.1 h.2

theorem abs_mul_le {a b A B : Int} (ha : |a| ≤ A) (hb : |b| ≤ B) : |a * b| ≤ A * B := by
  rw [abs_mul]
  exact mul_le_mul ha hb (abs_nonneg b) ((abs_nonneg a).trans ha)

/-- The product of two numbers of half the width fits. -/
theorem toInt_mul_toInt32 (x y : Int16) : (x.toInt32 * y.toInt32).toInt = x.toInt * y.toInt := by
  have hle (z : Int16) : |z.toInt| ≤ 2 ^ 15 := abs_le.mpr ⟨z.le_toInt, z.toInt_lt.le⟩
  have hproduct : |x.toInt * y.toInt| < 2 ^ 31 := (abs_mul_le (hle x) (hle y)).trans_lt (by decide)
  rw [toInt_mul] <;> rw [Int16.toInt_toInt32, Int16.toInt_toInt32]
  exact fitsInt32_of_abs_lt hproduct

theorem toInt_toInt16 (h : FitsInt16 a.toInt) : a.toInt16.toInt = a.toInt := by
  rw [Int32.toInt_toInt16]
  exact Int.bmod_eq_of_le h.1 h.2

/-- The low half, as a number without sign. -/
theorem toInt_toUInt16 (a : Int32) : a.toUInt32.toUInt16.toUInt32.toInt32.toInt = a.toInt % 2 ^ 16 := by
  have htoInt : a.toInt = Int.bmod a.toBitVec.toNat (2 ^ 32) := by
    rw [← Int32.toInt_toBitVec, BitVec.toInt_eq_toNat_bmod]
  have hlow : a.toUInt32.toUInt16.toUInt32.toNat = a.toBitVec.toNat % 2 ^ 16 := rfl
  have hsigned : a.toUInt32.toUInt16.toUInt32.toInt32.toInt = a.toUInt32.toUInt16.toUInt32.toNat := by
    show BitVec.toInt a.toUInt32.toUInt16.toUInt32.toBitVec = _
    rw [BitVec.toInt_eq_toNat_of_lt]
    · rfl
    · show 2 * a.toUInt32.toUInt16.toUInt32.toNat < 2 ^ 32
      omega
  have hbmod := Int.bmod_def a.toBitVec.toNat (2 ^ 32)
  rw [hsigned, hlow, htoInt, hbmod]
  split_ifs <;> omega

end Arithmetic

/-! ### Shifts -/

section Shift
variable {x n : Int32} (hle : 0 ≤ n.toInt) (hlt : n.toInt < 32)
include hle hlt

/-- What is shifted by. -/
theorem toNat_smod : (n.toBitVec.smod 32).toNat = n.toInt.toNat := by
  have hsmod : (n.toBitVec.smod 32).toInt = n.toInt := by
    rw [BitVec.toInt_smod]
    show n.toInt.fmod 32 = _
    rw [Int.fmod_eq_emod_of_nonneg _ (by decide), Int.emod_eq_of_lt hle hlt]
  rw [← hsmod]
  rw [BitVec.toInt_eq_toNat_cond] at hsmod ⊢
  split_ifs at hsmod ⊢ <;> omega

theorem toInt_shiftRight : (x >>> n).toInt = x.toInt / 2 ^ n.toInt.toNat := by
  rw [← Int32.toInt_toBitVec, Int32.toBitVec_shiftRight, BitVec.toInt_sshiftRight', toNat_smod hle hlt,
    Int.shiftRight_eq_div_pow, Int32.toInt_toBitVec]
  norm_cast

theorem toInt_shiftLeft (h : FitsInt32 (x.toInt * 2 ^ n.toInt.toNat)) : (x <<< n).toInt = x.toInt * 2 ^ n.toInt.toNat := by
  have htoInt : x.toInt = Int.bmod x.toBitVec.toNat (2 ^ 32) := by
    rw [← Int32.toInt_toBitVec, BitVec.toInt_eq_toNat_bmod]
  rw [← Int32.toInt_toBitVec, Int32.toBitVec_shiftLeft, BitVec.shiftLeft_eq', toNat_smod hle hlt, BitVec.toInt_shiftLeft]
  calc Int.bmod ((x.toBitVec.toNat : Int) <<< n.toInt.toNat) (2 ^ 32)
      = Int.bmod ((x.toBitVec.toNat : Int) * 2 ^ n.toInt.toNat) (2 ^ 32) := by rw [Int.shiftLeft_eq]
    _ = Int.bmod (x.toInt * 2 ^ n.toInt.toNat) (2 ^ 32) := by rw [htoInt, Int.bmod_mul_bmod]
    _ = x.toInt * 2 ^ n.toInt.toNat := Int.bmod_eq_of_le h.1 h.2

end Shift

theorem toInt_shiftLeft_one {x : Int32} (h : FitsInt32 (2 * x.toInt)) : (x <<< 1).toInt = 2 * x.toInt := by
  have hmul : x.toInt * 2 ^ (1 : Int32).toInt.toNat = 2 * x.toInt := Int.mul_comm _ _
  rw [toInt_shiftLeft (by decide) (by decide)] <;> rw [hmul]
  exact h

end Recd2.Width
