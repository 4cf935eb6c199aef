import Mathlib.Algebra.BigOperators.Ring.Finset
import Mathlib.Algebra.Order.BigOperators.Group.Finset
import Mathlib.Data.List.GetD
import Recd2.Lib.Run
import Recd2.Theorems.Detection

/-! Magnitudes on which the detector decides for a button: two of the dial tones stand out, by what the comparisons of
    `DTMF_detection` ask for. -/

namespace Recd2
open Checked Width
namespace DtmfDetector

/-- The average of the dial tones without the two largest, from the magnitudes as integers. -/
def restOf (T : List Int) (Row Column : Nat) : Int :=
  ((List.range 10).foldl (fun Sum i => Sum + T.getD i 0) 0 - T.getD Row 0 - T.getD Column 0) / 8

/-- The magnitudes are those of a tone of the row and one of the column. -/
structure Clear (T : List Int) (Row Column : Nat) : Prop where
  length : T.length = 18
  bounds : ∀ t ∈ T, 0 ≤ t ∧ t < 2 ^ 27
  row : ∀ i < 4, i ≠ Row → T.getD i 0 < T.getD Row 0
  column : ∀ i < 4, 4 + i ≠ Column → T.getD (4 + i) 0 < T.getD Column 0
  nonneg : 0 ≤ restOf T Row Column
  average : 6 * max 1 (restOf T Row Column) ≤ T.getD Row 0 ∧ 6 * max 1 (restOf T Row Column) ≤ T.getD Column 0
  balanced : T.getD Column 0 / 4 ≤ T.getD Row 0 ∧ T.getD Row 0 / 2 - T.getD Row 0 / 8 ≤ T.getD Column 0
  others : ∀ i < 8, 16 * max 1 (T.getD (10 + i) 0) ≤ T.getD Row 0 ∧ 16 * max 1 (T.getD (10 + i) 0) ≤ T.getD Column 0
  dialTones : ∀ i < 10, i ≠ Row → i ≠ Column → 6 * max 1 (T.getD i 0) ≤ T.getD Row 0 ∧
    (if Column ≠ 4 then 6 else 2) * max 1 (T.getD i 0) ≤ T.getD Column 0

instance (T : List Int) (Row Column : Nat) : Decidable (Clear T Row Column) :=
  decidable_of_iff
    (T.length = 18 ∧ (∀ t ∈ T, 0 ≤ t ∧ t < 2 ^ 27) ∧ (∀ i < 4, i ≠ Row → T.getD i 0 < T.getD Row 0) ∧
      (∀ i < 4, 4 + i ≠ Column → T.getD (4 + i) 0 < T.getD Column 0) ∧ 0 ≤ restOf T Row Column ∧
      (6 * max 1 (restOf T Row Column) ≤ T.getD Row 0 ∧ 6 * max 1 (restOf T Row Column) ≤ T.getD Column 0) ∧
      (T.getD Column 0 / 4 ≤ T.getD Row 0 ∧ T.getD Row 0 / 2 - T.getD Row 0 / 8 ≤ T.getD Column 0) ∧
      (∀ i < 8, 16 * max 1 (T.getD (10 + i) 0) ≤ T.getD Row 0 ∧ 16 * max 1 (T.getD (10 + i) 0) ≤ T.getD Column 0) ∧
      ∀ i < 10, i ≠ Row → i ≠ Column → 6 * max 1 (T.getD i 0) ≤ T.getD Row 0 ∧
        (if Column ≠ 4 then 6 else 2) * max 1 (T.getD i 0) ≤ T.getD Column 0)
    ⟨fun h => ⟨h.1, h.2.1, h.2.2.1, h.2.2.2.1, h.2.2.2.2.1, h.2.2.2.2.2.1, h.2.2.2.2.2.2.1, h.2.2.2.2.2.2.2.1,
      h.2.2.2.2.2.2.2.2⟩,
      fun h => ⟨h.length, h.bounds, h.row, h.column, h.nonneg, h.average, h.balanced, h.others, h.dialTones⟩⟩

/-- Two tones that stand out by enough, with one factor for the dial tones and one for the others. -/
structure StandOut (T : List Int) (Row Column : Nat) : Prop where
  length : T.length = 18
  bounds : ∀ i < 18, 0 ≤ T.getD i 0 ∧ T.getD i 0 < 2 ^ 27
  least : 16 ≤ T.getD Row 0 ∧ 16 ≤ T.getD Column 0
  balanced : T.getD Column 0 ≤ 4 * T.getD Row 0 ∧ 3 * T.getD Row 0 + 7 ≤ 8 * T.getD Column 0
  rest : ∀ i < 18, i ≠ Row → i ≠ Column → (if i < 10 then 6 else 16) * T.getD i 0 ≤ T.getD Row 0 ∧
    (if i < 10 then 6 else 16) * T.getD i 0 ≤ T.getD Column 0

section StandOut
variable {T : List Int} {Row Column : Nat} (h : StandOut T Row Column) (hrow : Row < 4) (hcolumn : 4 ≤ Column ∧ Column < 8)
include h

theorem StandOut.dialTone {i : Nat} (hi : i < 10) (hne : i ≠ Row) (hne' : i ≠ Column) :
    6 * T.getD i 0 ≤ T.getD Row 0 ∧ 6 * T.getD i 0 ≤ T.getD Column 0 := by
  have hrest := h.rest i (by omega) hne hne'
  rwa [if_pos hi] at hrest

theorem StandOut.other {i : Nat} (hi : i < 8) (hrow : Row < 10) (hcolumn : Column < 10) :
    16 * T.getD (10 + i) 0 ≤ T.getD Row 0 ∧ 16 * T.getD (10 + i) 0 ≤ T.getD Column 0 := by
  have hrest := h.rest (10 + i) (by omega) (by omega) (by omega)
  rwa [if_neg (by omega)] at hrest

include hrow hcolumn

/-- Eight times the average is the sum of eight magnitudes, each small enough. -/
theorem StandOut.restOf_le : 0 ≤ restOf T Row Column ∧ 6 * restOf T Row Column ≤ T.getD Row 0 ∧
    6 * restOf T Row Column ≤ T.getD Column 0 := by
  have hmem : Row ∈ Finset.range 10 := Finset.mem_range.mpr (by omega)
  have hmem' : Column ∈ (Finset.range 10).erase Row := Finset.mem_erase.mpr ⟨by omega, Finset.mem_range.mpr (by omega)⟩
  let others := ((Finset.range 10).erase Row).erase Column
  have hcard : others.card = 8 := by rw [Finset.card_erase_of_mem hmem', Finset.card_erase_of_mem hmem, Finset.card_range]
  have hsum : ∑ i ∈ others, T.getD i 0 =
      (List.range 10).foldl (fun Sum i => Sum + T.getD i 0) 0 - T.getD Row 0 - T.getD Column 0 := by
    rw [Finset.sum_erase_eq_sub hmem', Finset.sum_erase_eq_sub hmem]
    simp [Finset.sum_range_succ, List.range_succ]
  have hothers : ∀ i ∈ others, i < 10 ∧ i ≠ Row ∧ i ≠ Column := fun i hi => by
    obtain ⟨hne', hi⟩ := Finset.mem_erase.mp hi
    obtain ⟨hne, hi⟩ := Finset.mem_erase.mp hi
    exact ⟨Finset.mem_range.mp hi, hne, hne'⟩
  have hnonneg : 0 ≤ ∑ i ∈ others, T.getD i 0 :=
    Finset.sum_nonneg fun i hi => (h.bounds i (by have := (hothers i hi).1; omega)).1
  have hrow : ∑ i ∈ others, 6 * T.getD i 0 ≤ others.card • T.getD Row 0 :=
    Finset.sum_le_card_nsmul _ _ _ fun i hi => (h.dialTone (hothers i hi).1 (hothers i hi).2.1 (hothers i hi).2.2).1
  have hcolumn : ∑ i ∈ others, 6 * T.getD i 0 ≤ others.card • T.getD Column 0 :=
    Finset.sum_le_card_nsmul _ _ _ fun i hi => (h.dialTone (hothers i hi).1 (hothers i hi).2.1 (hothers i hi).2.2).2
  rw [← Finset.mul_sum, hcard, nsmul_eq_mul] at hrow hcolumn
  push_cast at hrow hcolumn
  rw [restOf, ← hsum]
  omega

theorem StandOut.clear : Clear T Row Column := by
  obtain ⟨hleast, hleast'⟩ := h.least
  obtain ⟨hbalanced, hbalanced'⟩ := h.balanced
  obtain ⟨hnonneg, haverage⟩ := h.restOf_le hrow hcolumn
  refine ⟨h.length, fun t ht => ?_, fun i hi hne => ?_, fun i hi hne => ?_, hnonneg, by omega, by omega, fun i hi => ?_,
    fun i hi hne hne' => ?_⟩
  · obtain ⟨i, hi, rfl⟩ := List.getElem_of_mem ht
    rw [← List.getD_eq_getElem T 0 hi]
    exact h.bounds i (hi.trans_eq h.length)
  · have hdial := h.dialTone (by omega) hne (by omega)
    omega
  · have hdial := h.dialTone (by omega) (by omega) hne
    omega
  · have hother := h.other hi (by omega) (by omega)
    omega
  · have hdial := h.dialTone hi hne hne'
    have hbounds := h.bounds i (by omega)
    split_ifs <;> omega

end StandOut

/-! ### The comparisons -/

/-- A quotient is not below a number that the divisor fits into as many times. -/
theorem not_div_lt {a b c : Int32} (hb : 0 < b.toInt) (hc : 0 ≤ c.toInt) (h : c.toInt * b.toInt ≤ a.toInt) :
    ¬a / b < c := by
  have ha : 0 ≤ a.toInt := (Int.mul_nonneg hc hb.le).trans h
  have hne : a ≠ Int32.minValue := by
    rintro rfl
    exact absurd ha (by decide)
  rw [Int32.lt_iff_toInt_lt, Int32.toInt_div_of_ne_left _ _ hne, Int.tdiv_eq_ediv_of_nonneg ha, Int.not_lt]
  exact (Int.le_ediv_iff_mul_le hb).mpr h

/-- Two tones against one other number. -/
theorem ratios_eq_true {row column t c c' : Int32} (ht : 0 < t.toInt) (hc : 0 ≤ c.toInt) (hc' : 0 ≤ c'.toInt)
    (hrow : c.toInt * t.toInt ≤ row.toInt) (hcolumn : c'.toInt * t.toInt ≤ column.toInt) :
    (do let row ← divide row t
        let column ← divide column t
        return !(row < c) && !(column < c') : Except Fault Bool) = .ok true := by
  rw [divide_of_pos _ ht, divide_of_pos _ ht]
  show Except.ok (!decide _ && !decide _) = _
  rw [decide_eq_false (not_div_lt ht hc hrow), decide_eq_false (not_div_lt ht hc' hcolumn)]
  rfl

theorem allM_eq_true {β : Type} {xs : List β} {f : β → Except Fault Bool} (hf : ∀ x ∈ xs, f x = .ok true) :
    xs.allM f = .ok true := by
  induction xs with
  | nil => rfl
  | cons x xs ih =>
    rw [List.allM, hf x List.mem_cons_self]
    exact ih fun y hy => hf y (List.mem_cons_of_mem x hy)

/-- The largest of four tones, when it is above zero and above the others. -/
theorem maxTone_eq {T : List Int32} {first k : Nat} (hk : k < 4) (hpos : 0 < (T.getD (first + k) 0).toInt)
    (hmax : ∀ i < 4, i ≠ k → (T.getD (first + i) 0).toInt < (T.getD (first + k) 0).toInt) :
    maxTone T first = first + k := by
  rw [maxTone]
  refine congrArg Prod.fst (?_ : _ = (first + k, T.getD (first + k) 0))
  refine (Run.foldl_range (P := fun i (s : Nat × Int32) => (k < i → s = (first + k, T.getD (first + k) 0)) ∧
    (i ≤ k → s.2.toInt < (T.getD (first + k) 0).toInt)) ?_ ?_).1 hk
  · exact ⟨fun h => absurd h (Nat.not_lt_zero k), fun _ => hpos⟩
  -- In front of its round all are smaller, and behind its round it stays the best.
  rintro i ⟨best, Temp⟩ hi ⟨hbehind, hfront⟩
  rcases Nat.lt_trichotomy i k with hlt | rfl | hgt
  · have hTemp := hfront hlt.le
    refine ⟨fun h => absurd h (by omega), fun _ => ?_⟩
    dsimp only
    split_ifs
    · exact hmax i hi (by omega)
    · exact hTemp
  · have hTemp := hfront (Nat.le_refl i)
    exact ⟨fun _ => if_pos (Int32.lt_iff_toInt_lt.mpr hTemp), fun h => absurd h (by omega)⟩
  · obtain ⟨rfl, rfl⟩ := Prod.mk.inj (hbehind hgt)
    have hsmaller := hmax i hi (by omega)
    refine ⟨fun _ => if_neg fun h => ?_, fun h => absurd h (by omega)⟩
    have := Int32.lt_iff_toInt_lt.mp h
    omega

theorem getD_toInt (T : List Int32) (i : Nat) : (T.map Int32.toInt).getD i 0 = (T.getD i 0).toInt :=
  @List.getD_map _ _ T 0 i Int32.toInt

section Verdict
variable {T : List Int32} {Row Column : Nat} (h : Clear (T.map Int32.toInt) Row Column)
include h

theorem Clear.value_bounds (i : Nat) : 0 ≤ (T.getD i 0).toInt ∧ (T.getD i 0).toInt < 2 ^ 27 := by
  rw [← getD_toInt]
  by_cases hi : i < (T.map Int32.toInt).length
  · rw [List.getD_eq_getElem _ _ hi]
    exact h.bounds _ (List.getElem_mem hi)
  · rw [List.getD_eq_default _ _ (Nat.not_lt.mp hi)]
    decide

/-- The sum of some of the magnitudes does not overflow. -/
theorem Clear.toInt_sum {n : Nat} (hn : n ≤ 10) :
    ((List.range n).foldl (fun Sum i => Sum + T.getD i 0) 0).toInt =
      (List.range n).foldl (fun Sum i => Sum + (T.map Int32.toInt).getD i 0) 0 ∧
    0 ≤ ((List.range n).foldl (fun Sum i => Sum + T.getD i 0) 0).toInt ∧
    ((List.range n).foldl (fun Sum i => Sum + T.getD i 0) 0).toInt ≤ n * 2 ^ 27 := by
  induction n with
  | zero => exact ⟨rfl, Int.le_refl 0, Int.le_refl 0⟩
  | succ n ih =>
    obtain ⟨hsum, hnonneg, hle⟩ := ih (by omega)
    obtain ⟨hvalue, hvalue'⟩ := h.value_bounds n
    rw [List.range_succ, List.foldl_append, List.foldl_append, List.foldl_cons, List.foldl_cons, List.foldl_nil,
      List.foldl_nil, ← hsum, getD_toInt, toInt_add ⟨by omega, by omega⟩]
    exact ⟨rfl, by omega, by push_cast; omega⟩

theorem Clear.toInt_average : (DtmfDetector.average T Row Column).toInt = max 1 (restOf (T.map Int32.toInt) Row Column) := by
  obtain ⟨hsum, hnonneg, hle⟩ := h.toInt_sum (Nat.le_refl 10)
  obtain ⟨hrow, hrow'⟩ := h.value_bounds Row
  obtain ⟨hcolumn, hcolumn'⟩ := h.value_bounds Column
  have hrest := h.nonneg
  have hvalue : (((List.range 10).foldl (fun Sum i => Sum + T.getD i 0) 0 - T.getD Row 0 - T.getD Column 0) >>> 3).toInt =
      restOf (T.map Int32.toInt) Row Column := by
    rw [toInt_shiftRight (by decide) (by decide), toInt_sub, toInt_sub, hsum, ← getD_toInt, ← getD_toInt]
    · rfl
    · exact ⟨by omega, by omega⟩
    · rw [toInt_sub ⟨by omega, by omega⟩]
      exact ⟨by omega, by omega⟩
  rw [DtmfDetector.average]
  split_ifs with hzero
  · rw [hzero] at hvalue
    rw [← hvalue]
    rfl
  · have hne : restOf (T.map Int32.toInt) Row Column ≠ 0 := by
      rw [← hvalue]
      exact fun h => hzero (Int32.toInt_inj.mp h)
    rw [hvalue]
    omega

theorem Clear.aboveAverage_eq : aboveAverage T Row Column = .ok true := by
  have haverage := h.toInt_average
  obtain ⟨hrow, hcolumn⟩ := h.average
  rw [getD_toInt, ← haverage] at hrow hcolumn
  exact ratios_eq_true (by omega) (by decide) (by decide) hrow hcolumn

theorem Clear.balanced_eq : DtmfDetector.balanced T Row Column = true := by
  obtain ⟨hrow, hrow'⟩ := h.value_bounds Row
  obtain ⟨hcolumn, hcolumn'⟩ := h.value_bounds Column
  obtain ⟨hlow, hhigh⟩ := h.balanced
  rw [getD_toInt, getD_toInt] at hlow hhigh
  have hquarter : (T.getD Column 0 >>> 2).toInt = (T.getD Column 0).toInt / 4 := by
    rw [toInt_shiftRight (by decide) (by decide)]
    rfl
  have hhalf : (T.getD Row 0 >>> 1).toInt = (T.getD Row 0).toInt / 2 := by
    rw [toInt_shiftRight (by decide) (by decide)]
    rfl
  have height : (T.getD Row 0 >>> 3).toInt = (T.getD Row 0).toInt / 8 := by
    rw [toInt_shiftRight (by decide) (by decide)]
    rfl
  have hdiff : ((T.getD Row 0 >>> 1) - (T.getD Row 0 >>> 3)).toInt =
      (T.getD Row 0).toInt / 2 - (T.getD Row 0).toInt / 8 := by
    rw [toInt_sub] <;> rw [hhalf, height]
    exact ⟨by omega, by omega⟩
  have hnot : ¬T.getD Row 0 < T.getD Column 0 >>> 2 := by
    rw [Int32.lt_iff_toInt_lt, hquarter]
    omega
  have hnot' : ¬T.getD Column 0 < (T.getD Row 0 >>> 1) - (T.getD Row 0 >>> 3) := by
    rw [Int32.lt_iff_toInt_lt, hdiff]
    omega
  rw [DtmfDetector.balanced, decide_eq_false hnot, decide_eq_false hnot']
  rfl

/-! ### The comparisons without zeros -/

/-- A magnitude behind the replacement of the zeros. -/
theorem Clear.toInt_patched {i : Nat} (hi : i < 18) :
    ((T.map fun t => if t = 0 then 1 else t).getD i 0).toInt = max 1 ((T.map Int32.toInt).getD i 0) := by
  have hlen : T.length = 18 := (List.length_map _).symm.trans h.length
  have hlt : i < T.length := by omega
  have hvalue := (h.value_bounds i).1
  rw [getD_toInt]
  rw [List.getD_eq_getElem _ _ hlt] at hvalue ⊢
  rw [List.getD_eq_getElem _ _ (by rwa [List.length_map]), List.getElem_map]
  split_ifs with hzero
  · rw [hzero]
    rfl
  · have hne : T[i].toInt ≠ 0 := fun h => hzero (Int32.toInt_inj.mp h)
    omega

theorem Clear.aboveAll_eq (hrow : Row < 4) (hcolumn : Column < 8) :
    aboveAll (T.map fun t => if t = 0 then 1 else t) Row Column = .ok true := by
  have haverage := h.average
  have hR := h.toInt_patched (show Row < 18 by omega)
  have hC := h.toInt_patched (show Column < 18 by omega)
  rw [max_eq_right (by omega)] at hR hC
  have hothers : ((List.range 8).map (10 + ·)).allM (aboveOther (T.map fun t => if t = 0 then 1 else t) Row Column) =
      .ok true := by
    refine allM_eq_true (List.forall_mem_map.mpr fun i hi => ?_)
    have hi : i < 8 := List.mem_range.mp hi
    have hvalue := h.toInt_patched (show 10 + i < 18 by omega)
    obtain ⟨hrow, hcolumn⟩ := h.others i hi
    rw [← hvalue] at hrow hcolumn
    exact ratios_eq_true (by omega) (by decide) (by decide) (hR ▸ hrow) (hC ▸ hcolumn)
  have hdial : (List.range 10).allM (aboveDialTone (T.map fun t => if t = 0 then 1 else t) Row Column) = .ok true := by
    refine allM_eq_true fun i hi => ?_
    have hi : i < 10 := List.mem_range.mp hi
    rw [aboveDialTone]
    by_cases hdiff : (T.map fun t => if t = 0 then 1 else t).getD i 0 ≠ (T.map fun t => if t = 0 then 1 else t).getD Column 0 ∧
        (T.map fun t => if t = 0 then 1 else t).getD i 0 ≠ (T.map fun t => if t = 0 then 1 else t).getD Row 0
    · have hvalue := h.toInt_patched (show i < 18 by omega)
      obtain ⟨hrow, hcolumn⟩ := h.dialTones i hi (fun h => hdiff.2 (by rw [h])) (fun h => hdiff.1 (by rw [h]))
      rw [← hvalue] at hrow hcolumn
      rw [if_pos hdiff]
      refine ratios_eq_true (by omega) (by decide) ?_ (hR ▸ hrow) ?_
      · split_ifs <;> decide
      · rw [hC]
        split_ifs at hcolumn ⊢ <;> exact hcolumn
    · rw [if_neg hdiff]
  rw [DtmfDetector.aboveAll, hothers]
  exact hdial

/-- On clear magnitudes the verdict is the button of the row and the column. -/
theorem verdict_of_clear (hrow : Row < 4) (hcolumn : 4 ≤ Column ∧ Column < 8) :
    verdict T = .ok (pushButton Row Column) := by
  have haverage := h.average
  rw [getD_toInt, getD_toInt] at haverage
  have hmaxRow : maxTone T 0 = Row := by
    refine (maxTone_eq hrow ?_ fun i hi hne => ?_).trans (Nat.zero_add Row)
    · rw [Nat.zero_add]
      omega
    · have hlt := h.row i hi hne
      rwa [getD_toInt, getD_toInt, ← Nat.zero_add i, ← Nat.zero_add Row] at hlt
  obtain ⟨k, rfl⟩ : ∃ k, Column = 4 + k := ⟨Column - 4, by omega⟩
  have hmaxColumn : maxTone T 4 = 4 + k := by
    refine maxTone_eq (by omega) (by omega) fun i hi hne => ?_
    have hlt := h.column i hi (by omega)
    rwa [getD_toInt, getD_toInt] at hlt
  rw [verdict, hmaxRow, hmaxColumn, h.aboveAverage_eq]
  show (if (true && balanced T Row (4 + k)) = true then _ else _) = _
  rw [h.balanced_eq, Bool.and_self, if_pos rfl, h.aboveAll_eq hrow hcolumn.2]
  rfl

end Verdict
end DtmfDetector
end Recd2
