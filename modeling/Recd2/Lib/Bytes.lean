import Mathlib.Data.List.Basic
import Mathlib.Tactic.Ring

/-! Byte strings as lists: little-endian numbers, the slice at an offset, and overwriting at an offset. -/

namespace Recd2.Bytes

/-! ### Little-endian numbers -/

/-- The `w` bytes of `n`, the least significant one first. -/
def toLE : Nat → Nat → List UInt8
  | 0, _ => []
  | w + 1, n => UInt8.ofNat n :: toLE w (n / 256)

/-- The number whose bytes, the least significant one first, are given. -/
def ofLE : List UInt8 → Nat
  | [] => 0
  | b :: bs => b.toNat + 256 * ofLE bs

@[simp] theorem length_toLE (w n : Nat) : (toLE w n).length = w := by
  induction w generalizing n with
  | zero => rfl
  | succ w ih => exact congrArg (· + 1) (ih _)

theorem ofLE_toLE (w n : Nat) : ofLE (toLE w n) = n % 256 ^ w := by
  induction w generalizing n with
  | zero => exact (Nat.mod_one n).symm
  | succ w ih =>
    have hb : (UInt8.ofNat n).toNat = n % 256 := UInt8.toNat_ofNat'
    rw [toLE, ofLE, ih, hb, Nat.pow_succ', Nat.mod_mul]

theorem ofLE_toLE_of_lt {w n : Nat} (h : n < 256 ^ w) : ofLE (toLE w n) = n := by
  rw [ofLE_toLE, Nat.mod_eq_of_lt h]

/-! ### Slices -/

/-- The `n` bytes from offset `off` on. -/
def slice {α : Type} (off n : Nat) (bs : List α) : List α := (bs.drop off).take n

section Slice
variable {α β : Type}

theorem slice_append_left (off n : Nat) (as bs : List α) (h : off + n ≤ as.length) :
    slice off n (as ++ bs) = slice off n as := by
  unfold slice
  rw [List.drop_append_of_le_length (by omega), List.take_append_of_le_length (by rw [List.length_drop]; omega)]

theorem slice_append_right (off n : Nat) (as bs : List α) :
    slice (as.length + off) n (as ++ bs) = slice off n bs := by
  unfold slice
  rw [List.drop_append, List.drop_eq_nil_of_le (by omega), List.nil_append]
  congr 2
  omega

theorem slice_length (as : List α) : slice 0 as.length as = as := by simp [slice]

/-- In a row of blocks of one width, the `k`-th block is the slice at `w * k`. -/
theorem slice_flatMap {w : Nat} {f : β → List α} (hf : ∀ x, (f x).length = w) :
    ∀ (xs : List β) (k : Nat) (h : k < xs.length), slice (w * k) w (xs.flatMap f) = f xs[k]
  | x :: xs, 0, _ => by
    rw [List.flatMap_cons, Nat.mul_zero, slice_append_left 0 w _ _ (by rw [hf]; omega), ← hf x, slice_length]
    rfl
  | x :: xs, k + 1, h => by
    have hoff : w * (k + 1) = (f x).length + w * k := by rw [hf]; ring
    rw [List.flatMap_cons, hoff, slice_append_right,
      slice_flatMap hf xs k (by simpa using h)]
    rfl

theorem getElem?_append_mid (as mid bs : List α) {k : Nat} (h : k < mid.length) :
    (as ++ mid ++ bs)[as.length + k]? = mid[k]? := by
  rw [List.append_assoc, List.getElem?_append_right (Nat.le_add_right _ _), Nat.add_sub_cancel_left,
    List.getElem?_append_left h]

theorem length_flatMap_const {w : Nat} {f : β → List α} (hf : ∀ x, (f x).length = w) (xs : List β) :
    (xs.flatMap f).length = w * xs.length := by
  induction xs with
  | nil => simp
  | cons x xs ih => rw [List.flatMap_cons, List.length_append, hf, ih, List.length_cons]; ring

end Slice

/-! ### Overwriting -/

/-- `bs` with the bytes from offset `off` on overwritten by `new`. -/
def patch (bs : List UInt8) (off : Nat) (new : List UInt8) : List UInt8 :=
  bs.take off ++ new ++ bs.drop (off + new.length)

section Patch
variable {bs new : List UInt8} {off : Nat}

theorem length_patch (h : off + new.length ≤ bs.length) : (patch bs off new).length = bs.length := by
  simp only [patch, List.length_append, List.length_take, List.length_drop]
  omega

theorem slice_patch_self (h : off ≤ bs.length) : slice off new.length (patch bs off new) = new := by
  have hoff : off = (bs.take off).length + 0 := by rw [List.length_take]; omega
  unfold patch
  rw [List.append_assoc]
  conv_lhs => rw [hoff]
  rw [show (bs.take ((bs.take off).length + 0)) = bs.take off by rw [← hoff]]
  rw [slice_append_right, slice_append_left 0 _ _ _ (by omega), slice_length]

theorem patch_append {old : List UInt8} (h : new.length = old.length) (as rest : List UInt8) :
    patch (as ++ (old ++ rest)) as.length new = as ++ (new ++ rest) := by
  rw [patch, List.take_left, h, List.drop_append, List.drop_eq_nil_of_le (Nat.le_add_right _ _), List.nil_append,
    Nat.add_sub_cancel_left, List.drop_left, List.append_assoc]

theorem drop_patch {n : Nat} (h : off + new.length ≤ n) (hoff : off ≤ bs.length) :
    (patch bs off new).drop n = bs.drop n := by
  have htake : (bs.take off).length = off := by rw [List.length_take]; omega
  unfold patch
  rw [List.drop_append, List.drop_eq_nil_of_le (by rw [List.length_append]; omega), List.nil_append,
    List.drop_drop, List.length_append, htake]
  congr 1
  omega

theorem slice_patch_behind {o n : Nat} (h : off + new.length ≤ o) (hoff : off ≤ bs.length) :
    slice o n (patch bs off new) = slice o n bs := by rw [slice, drop_patch h hoff, slice]

theorem slice_patch_before {o n : Nat} (h : o + n ≤ off) (hoff : off ≤ bs.length) :
    slice o n (patch bs off new) = slice o n bs := by
  have htake : (bs.take off).length = off := by rw [List.length_take]; omega
  rw [patch, List.append_assoc, slice_append_left o n _ _ (by omega), ← slice_append_left o n _ (bs.drop off) (by omega),
    List.take_append_drop]

end Patch
end Recd2.Bytes
