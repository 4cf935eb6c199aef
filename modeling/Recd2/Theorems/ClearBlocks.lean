import Recd2.Theorems.ExactValues
import Recd2.Theorems.Verdicts

/-! Blocks on which the detector decides for a button: they are loud, the resonators do not run away, and the magnitudes of
    two dial tones stand out. -/

namespace Recd2
open Checked Width

/-! ### Loud blocks -/

namespace DtmfDetector
section Loud
variable {block : List Int16}

/-- A block with a sample of fifteen bits is not shifted. -/
theorem normalDial_eq_zero {x : Int} (hmem : x ∈ block.map Int16.toInt) (hx : 2 ^ 14 ≤ x) :
    Unbounded.normalDial (block.map Int16.toInt) = 0 := by
  obtain ⟨hnonneg, -, hsample⟩ := normalDial_spec block
  have hle := hsample x hmem (by omega)
  have hlt := Unbounded.mul_two_pow_normLoop (L := x) (by have := (fitsInt16_of_mem hmem).2; omega) 30
  have hrounds : Unbounded.normLoop 30 x ≤ 16 := by
    by_contra hmore
    have hpow : (2 : Int) ^ 17 ≤ 2 ^ Unbounded.normLoop 30 x := pow_le_pow_right₀ (by decide) (by omega)
    have hmul : (2 : Int) ^ 14 * 2 ^ 17 ≤ x * 2 ^ Unbounded.normLoop 30 x :=
      Int.mul_le_mul hx hpow (by decide) (by omega)
    omega
  rw [Unbounded.norm_l_pos (by omega)] at hle
  omega

theorem internalArray_of_loud {x : Int} (hmem : x ∈ block.map Int16.toInt) (hx : 2 ^ 14 ≤ x) :
    Unbounded.internalArray (block.map Int16.toInt) = block.map Int16.toInt := by
  rw [Unbounded.internalArray, normalDial_eq_zero hmem hx]
  exact (List.map_congr_left fun y _ => Int.mul_one y).trans (List.map_id _)

theorem countP_mul_le_sum_abs (m : Int) (xs : List Int) :
    xs.countP (m ≤ ·) * m ≤ (xs.map fun x => |x|).sum := by
  induction xs with
  | nil => simp
  | cons x xs ih =>
    have habs := abs_nonneg x
    have hle := le_abs_self x
    rw [List.countP_cons, List.map_cons, List.sum_cons]
    push_cast
    rw [Int.add_mul]
    split_ifs with hx
    · have hx : m ≤ x := of_decide_eq_true hx
      omega
    · omega

end Loud

/-- A block of 102 samples, with some loud ones and small states, in which the magnitudes are clear. -/
structure ClearBlock (block : List Int16) (Row Column : Nat) : Prop where
  length : block.length = 102
  loud : 3 ≤ (block.map Int16.toInt).countP (2 ^ 14 ≤ ·)
  states : ∀ Koeff ∈ CONSTANTS, ∀ ys, ys <+: block.map Int16.toInt → |(Unbounded.states Koeff.toInt ys).1| ≤ 2 ^ 23
  clear : Clear (CONSTANTS.map fun Koeff => Unbounded.magnitude Koeff.toInt
    (Unbounded.states Koeff.toInt (block.map Int16.toInt))) Row Column

section Block
variable {block : List Int16} {Row Column : Nat} (h : ClearBlock block Row Column)
include h

theorem ClearBlock.internalArray_eq :
    Unbounded.internalArray (block.map Int16.toInt) = block.map Int16.toInt := by
  obtain ⟨x, hmem, hx⟩ := List.countP_pos_iff.mp (Nat.lt_of_lt_of_le (by decide : 0 < 3) h.loud)
  exact internalArray_of_loud hmem (of_decide_eq_true hx)

theorem ClearBlock.noOverflow : Unbounded.NoOverflow (block.map Int16.toInt) where
  absSum := absSum_fits (by rw [h.length]; decide)
  normalised := internalArray_fits
  filters Koeff hKoeff := by
    rw [h.internalArray_eq]
    exact Unbounded.filterFits hKoeff fun ys hys => (h.states Koeff hKoeff ys hys).trans (by decide)
  magnitudes Koeff hKoeff := by
    rw [h.internalArray_eq]
    exact (Unbounded.magnitudeFits hKoeff fun ys hys => (h.states Koeff hKoeff ys hys).trans (by decide)).1

theorem ClearBlock.detected {fuel : Nat} (hfuel : 65536 ≤ fuel) (hrow : Row < 4) (hcolumn : 4 ≤ Column ∧ Column < 8) :
    DTMF_detection fuel 102 block = .ok (pushButton Row Column) := by
  have hexact := exact_of_noOverflow hfuel (by decide : 0 < (102 : Int32).toInt) (by decide) h.length h.noOverflow
  have hsum : 3 * 2 ^ 14 ≤ (absSum block).toInt := by
    rw [hexact.sum, Unbounded.absSum_eq_sum]
    have hloud := h.loud
    have hcount := countP_mul_le_sum_abs (2 ^ 14) (block.map Int16.toInt)
    omega
  have hnot : ¬absSum block / 102 < powerThreshold :=
    not_div_lt (by decide) (by decide) (Int.le_trans (by decide) hsum)
  have hvalues := hexact.values
  rw [DTMF_detection_eq, divide_of_pos _ (by decide)]
  show (if absSum block / 102 < powerThreshold then _ else _) = _
  rw [if_neg hnot]
  cases htones : tones fuel 102 block with
  | error e =>
    rw [htones] at hvalues
    cases hvalues
  | ok T =>
    rw [htones, Unbounded.T, h.internalArray_eq] at hvalues
    have hT : T.map Int32.toInt = _ := Except.ok.inj hvalues
    exact verdict_of_clear (hT ▸ h.clear) hrow hcolumn

end Block
end DtmfDetector
end Recd2
