import Recd2.DtmfDetector
import Recd2.Lib.Width
import Mathlib.Tactic.Ring

/-! Which faults a detection can have. With a block length above zero there is no division by zero and no access outside
    an array; what may go wrong is that the 16-bit counter of the filter never reaches the block length, and that the
    comparison with the average divides the least number by -1. -/

namespace Recd2
open Checked Width

/-! ### The normalising shift -/

section Norm
variable {E : Fault → Prop} {fuel : Nat} (hfuel : 31 ≤ fuel ∨ E .endless)
include hfuel

/-- The number doubles in each round, so that thirty rounds are enough. -/
theorem normLoop_yields {L : Int32} (hL : 0 < L.toInt) : Yields E (fun _ => True) (normLoop fuel L) := by
  have hround : ∀ s : Int16 × Int32, 0 < s.2.toInt → decide (s.2 < 0x40000000) = true →
      Yields E (fun t : Int16 × Int32 => 0 < t.2.toInt ∧ 31 - t.2.toInt.toNat.log2 < 31 - s.2.toInt.toNat.log2)
        (.ok (s.1 + 1, s.2 <<< 1)) := by
    rintro ⟨v, L⟩ hpos hcond
    have hpos : 0 < L.toInt := hpos
    have hlt : L.toInt < 2 ^ 30 := Int32.lt_iff_toInt_lt.mp (of_decide_eq_true hcond)
    have hdouble : (L <<< 1).toInt = 2 * L.toInt := toInt_shiftLeft_one ⟨by omega, by omega⟩
    have hne : L.toInt.toNat ≠ 0 := by omega
    have hlog : L.toInt.toNat.log2 < 30 := (Nat.log2_lt hne).mpr (by omega)
    have htwice : (2 * L.toInt).toNat = 2 * L.toInt.toNat := by omega
    show 0 < (L <<< 1).toInt ∧ 31 - (L <<< 1).toInt.toNat.log2 < 31 - L.toInt.toNat.log2
    rw [hdouble, htwice, Nat.log2_two_mul hne]
    omega
  rw [normLoop]
  rcases hfuel with hfuel | hfuel
  · refine (@whileLoop_ends _ E _ _ fuel _ (fun s => 0 < s.2.toInt) (fun s => 31 - s.2.toInt.toNat.log2) ?_ hround
      (by omega) hL).mono fun _ _ => trivial
    rintro ⟨v, L⟩ hpos hcond
    have hpos : 0 < L.toInt := hpos
    have hlt : L.toInt < 2 ^ 30 := Int32.lt_iff_toInt_lt.mp (of_decide_eq_true hcond)
    have hlog : L.toInt.toNat.log2 < 30 := (Nat.log2_lt (by omega)).mpr (by omega)
    show 0 < 31 - L.toInt.toNat.log2
    omega
  · exact (@whileLoop_keeps _ E _ _ fuel _ (fun s => 0 < s.2.toInt) hfuel
      (fun s hs hcond => (hround s hs hcond).mono fun _ ht => ht.1) hL).mono fun _ _ => trivial

theorem norm_l_yields (L : Int32) : Yields E (fun _ => True) (norm_l fuel L) := by
  rw [norm_l]
  split_ifs with hzero hminus hneg
  · trivial
  · trivial
  · -- The complement of a negative number other than -1 is above zero.
    have hne : L.toInt ≠ -1 := fun h => hminus (Int32.toInt_inj.mp h)
    have hlt : L.toInt < 0 := Int32.lt_iff_toInt_lt.mp hneg
    refine (normLoop_yields hfuel ?_).bind fun _ _ => trivial
    rw [toInt_not]
    omega
  · have hne : L.toInt ≠ 0 := fun h => hzero (Int32.toInt_inj.mp h)
    have hle : ¬L.toInt < 0 := fun h => hneg (Int32.lt_iff_toInt_lt.mpr h)
    exact (normLoop_yields hfuel (by omega)).bind fun _ _ => trivial

theorem normalDial_yields (block : List Int16) : Yields E (fun _ => True) (DtmfDetector.normalDial fuel block) := by
  rw [DtmfDetector.normalDial]
  refine (Yields.foldlM (Q := fun _ => True) (fun Dial x _ _ => ?_) trivial).bind fun _ _ => trivial
  split_ifs
  · exact (norm_l_yields hfuel _).bind fun _ _ => trivial
  · trivial

end Norm

/-! ### The filter -/

theorem sampleAt_of_lt {xs : List Int16} {i : Nat} (h : i < xs.length) : sampleAt xs i = .ok xs[i] := by
  rw [sampleAt, List.getElem?_eq_getElem h]

section Filter
variable {E : Fault → Prop} {fuel : Nat} {arraySamples : List Int16} {COUNT : UInt32} (Koeff0 Koeff1 : Int16)

/-- A round takes the next sample. -/
theorem goertzelLoop_round (hlen : arraySamples.length = COUNT.toNat) {ii : UInt16} (hcond : decide (ii.toUInt32 < COUNT) = true)
    (v : Resonators) : ∃ hlt : ii.toNat < arraySamples.length,
      (do let sample ← sampleAt arraySamples ii.toNat; return (ii + 1, v.next Koeff0 Koeff1 sample)) =
        (.ok (ii + 1, v.next Koeff0 Koeff1 arraySamples[ii.toNat]) : Except Fault (UInt16 × Resonators)) := by
  have hlt : ii.toNat < arraySamples.length := hlen ▸ UInt32.lt_iff_toNat_lt.mp (of_decide_eq_true hcond)
  exact ⟨hlt, by rw [sampleAt_of_lt hlt]; rfl⟩

/-- A counter that reaches the length has run over all samples. -/
theorem goertzelLoop_ends (hlen : arraySamples.length = COUNT.toNat) (hcount : COUNT.toNat < 65536) (hfuel : 65536 ≤ fuel) :
    Yields E (fun t => t.2 = arraySamples.foldl (fun v sample => v.next Koeff0 Koeff1 sample) ⟨0, 0, 0, 0⟩)
      (goertzelLoop fuel Koeff0 Koeff1 arraySamples COUNT) := by
  rw [goertzelLoop]
  refine (@whileLoop_ends _ E _ _ fuel _ (fun s => s.1.toNat ≤ arraySamples.length ∧ s.2 = (arraySamples.take s.1.toNat).foldl
    (fun v sample => v.next Koeff0 Koeff1 sample) ⟨0, 0, 0, 0⟩) (fun s => COUNT.toNat - s.1.toNat) ?_ ?_ ?_ ⟨Nat.zero_le _, rfl⟩).mono ?_
  · rintro ⟨ii, v⟩ - hcond
    obtain ⟨hlt, -⟩ := goertzelLoop_round Koeff0 Koeff1 hlen hcond v
    exact Nat.sub_pos_of_lt (hlen ▸ hlt)
  · rintro ⟨ii, v⟩ ⟨-, hv⟩ hcond
    obtain ⟨hlt, hround⟩ := goertzelLoop_round Koeff0 Koeff1 hlen hcond v
    have hnext : (ii + 1).toNat = ii.toNat + 1 := by
      rw [UInt16.toNat_add]
      show (ii.toNat + 1) % 2 ^ 16 = _
      omega
    dsimp only
    rw [hround]
    refine ⟨⟨?_, ?_⟩, ?_⟩
    · show (ii + 1).toNat ≤ _
      omega
    · show v.next Koeff0 Koeff1 arraySamples[ii.toNat] = _
      rw [hnext, List.take_add_one, List.getElem?_eq_getElem hlt, List.foldl_append, ← hv]
      rfl
    · show COUNT.toNat - (ii + 1).toNat < COUNT.toNat - ii.toNat
      omega
  · show COUNT.toNat - 0 ≤ fuel
    omega
  · rintro ⟨ii, v⟩ ⟨⟨-, hv⟩, hcond⟩
    have hle : COUNT.toNat ≤ ii.toNat := Nat.not_lt.mp fun h => of_decide_eq_false hcond (UInt32.lt_iff_toNat_lt.mpr h)
    rwa [List.take_of_length_le (hlen ▸ hle)] at hv

theorem goertzelLoop_yields (hlen : arraySamples.length = COUNT.toNat)
    (hfuel : COUNT.toNat < 65536 ∧ 65536 ≤ fuel ∨ E .endless) :
    Yields E (fun _ => True) (goertzelLoop fuel Koeff0 Koeff1 arraySamples COUNT) := by
  rcases hfuel with ⟨hcount, hfuel⟩ | hfuel
  · exact (goertzelLoop_ends Koeff0 Koeff1 hlen hcount hfuel).mono fun _ _ => trivial
  · refine (@whileLoop_keeps _ E _ _ fuel _ (fun _ => True) hfuel ?_ trivial).mono fun _ _ => trivial
    rintro ⟨ii, v⟩ - hcond
    obtain ⟨_, hround⟩ := goertzelLoop_round Koeff0 Koeff1 hlen hcond v
    dsimp only
    rw [hround]
    trivial

/-- The counter wraps before it reaches a length of more than 16 bits. -/
theorem goertzelLoop_endless (hlen : arraySamples.length = COUNT.toNat) (hcount : 65536 ≤ COUNT.toNat) (fuel : Nat) :
    goertzelLoop fuel Koeff0 Koeff1 arraySamples COUNT = .error .endless := by
  refine whileLoop_endless (I := fun _ => True) ?_ trivial
  rintro ⟨ii, v⟩ -
  have hlt : ii.toNat < COUNT.toNat := Nat.lt_of_lt_of_le ii.toNat_lt hcount
  refine ⟨decide_eq_true (UInt32.lt_iff_toNat_lt.mpr hlt), ?_⟩
  show Yields _ _ (sampleAt arraySamples ii.toNat >>= _)
  rw [sampleAt_of_lt (hlen ▸ hlt)]
  trivial

theorem goertzel_filter_yields (hlen : arraySamples.length = COUNT.toNat)
    (hfuel : COUNT.toNat < 65536 ∧ 65536 ≤ fuel ∨ E .endless) :
    Yields E (fun ms => ms.length = 2) (goertzel_filter fuel Koeff0 Koeff1 arraySamples COUNT) := by
  rw [goertzel_filter]
  exact (goertzelLoop_yields Koeff0 Koeff1 hlen hfuel).bind fun _ _ => rfl

end Filter

/-! ### The decision -/

namespace DtmfDetector

theorem magnitudes_yields {E : Fault → Prop} {fuel : Nat} {internalArray : List Int16} {COUNT : UInt32}
    (hlen : internalArray.length = COUNT.toNat) (hfuel : COUNT.toNat < 65536 ∧ 65536 ≤ fuel ∨ E .endless) :
    Yields E (fun T => T.length = 18) (magnitudes fuel internalArray COUNT) := by
  rw [magnitudes]
  refine (Yields.mapM fun i _ => goertzel_filter_yields _ _ hlen hfuel).bind fun T hT => ?_
  show T.flatten.length = 18
  rw [List.length_flatten, List.map_congr_left hT.2, List.map_const', List.sum_replicate_nat, hT.1]
  rfl

theorem average_ne_zero (T : List Int32) (Row Column : Nat) : average T Row Column ≠ 0 := by
  rw [average]
  split_ifs with h
  · decide
  · exact h

/-- One of the two tones is the least number, and the average is -1. -/
def Trapping (T : List Int32) (Row Column : Nat) : Prop :=
  Overflows (T.getD Row 0) (average T Row Column) ∨ Overflows (T.getD Column 0) (average T Row Column)

instance (T : List Int32) (Row Column : Nat) : Decidable (Trapping T Row Column) := inferInstanceAs (Decidable (_ ∨ _))

section Decision
variable {E : Fault → Prop} {T : List Int32} {Row Column : Nat}

theorem aboveAverage_yields (h : ¬Trapping T Row Column) : Yields E (fun _ => True) (aboveAverage T Row Column) := by
  have hne := average_ne_zero T Row Column
  rw [aboveAverage, divide_of_ne hne fun hrow => h (Or.inl hrow), divide_of_ne hne fun hcolumn => h (Or.inr hcolumn)]
  trivial

theorem aboveAverage_of_trapping (h : Trapping T Row Column) : aboveAverage T Row Column = .error .overflow := by
  have hne := average_ne_zero T Row Column
  rw [aboveAverage]
  by_cases hrow : Overflows (T.getD Row 0) (average T Row Column)
  · rw [divide_of_overflows hrow]
    rfl
  · rw [divide_of_ne hne hrow, divide_of_overflows (h.resolve_left hrow)]
    rfl

/-- Two tones of which one is the least number are too far from each other. -/
theorem ne_minValue_of_balanced (h : balanced T Row Column = true) :
    T.getD Row 0 ≠ Int32.minValue ∧ T.getD Column 0 ≠ Int32.minValue := by
  rw [balanced, Bool.and_eq_true, Bool.not_eq_true', Bool.not_eq_true', decide_eq_false_iff_not, decide_eq_false_iff_not,
    Int32.lt_iff_toInt_lt, Int32.lt_iff_toInt_lt] at h
  obtain ⟨hrow, hcolumn⟩ := h
  obtain ⟨hleR, hltR⟩ := fitsInt32_toInt (T.getD Row 0)
  obtain ⟨hleC, hltC⟩ := fitsInt32_toInt (T.getD Column 0)
  have hquarter : (T.getD Column 0 >>> 2).toInt = (T.getD Column 0).toInt / 2 ^ 2 :=
    toInt_shiftRight (by decide) (by decide)
  have hhalf : (T.getD Row 0 >>> 1).toInt = (T.getD Row 0).toInt / 2 ^ 1 := toInt_shiftRight (by decide) (by decide)
  have height : (T.getD Row 0 >>> 3).toInt = (T.getD Row 0).toInt / 2 ^ 3 := toInt_shiftRight (by decide) (by decide)
  have hdiff : ((T.getD Row 0 >>> 1) - (T.getD Row 0 >>> 3)).toInt =
      (T.getD Row 0).toInt / 2 ^ 1 - (T.getD Row 0).toInt / 2 ^ 3 := by
    rw [toInt_sub] <;> rw [hhalf, height]
    exact ⟨by omega, by omega⟩
  rw [hquarter] at hrow
  rw [hdiff] at hcolumn
  have hmin : Int32.minValue.toInt = -2 ^ 31 := rfl
  constructor
  · intro hR
    rw [hR, hmin] at hrow
    omega
  · intro hC
    rw [hC, hmin] at hcolumn
    omega

section Comparisons
variable (hT : ∀ ii < 18, T.getD ii 0 ≠ 0) (hR : T.getD Row 0 ≠ Int32.minValue) (hC : T.getD Column 0 ≠ Int32.minValue)
include hT hR hC

/-- The two quotients that a comparison takes. -/
theorem ratios_yields {ii : Nat} (hii : ii < 18) (c c' : Int32) : Yields E (fun _ => True)
    (do let row ← divide (T.getD Row 0) (T.getD ii 0)
        let column ← divide (T.getD Column 0) (T.getD ii 0)
        return !(row < c) && !(column < c') : Except Fault Bool) := by
  rw [divide_of_ne (hT ii hii) fun h => hR h.1, divide_of_ne (hT ii hii) fun h => hC h.1]
  trivial

theorem aboveDialTone_yields {ii : Nat} (hii : ii < 18) : Yields E (fun _ => True) (aboveDialTone T Row Column ii) := by
  rw [aboveDialTone]
  by_cases h : T.getD ii 0 ≠ T.getD Column 0 ∧ T.getD ii 0 ≠ T.getD Row 0
  · rw [if_pos h]
    exact ratios_yields hT hR hC hii _ _
  · rw [if_neg h]
    trivial

theorem aboveAll_yields : Yields E (fun _ => True) (aboveAll T Row Column) := by
  rw [aboveAll]
  refine (Yields.allM fun ii hii => ?_).bind fun others _ => ?_
  · obtain ⟨k, hk, rfl⟩ := List.mem_map.mp hii
    rw [List.mem_range] at hk
    exact ratios_yields hT hR hC (by omega) _ _
  · cases others with
    | false => trivial
    | true =>
      refine Yields.allM fun ii hii => ?_
      rw [List.mem_range] at hii
      exact aboveDialTone_yields hT hR hC (by omega)

end Comparisons
end Decision

/-! ### The zeros -/

section Patched
variable {T : List Int32} {ii : Nat}

/-- All magnitudes are made other than zero before they divide. -/
theorem patched_ne_zero (h : ii < T.length) : (T.map fun t => if t = 0 then 1 else t).getD ii 0 ≠ 0 := by
  rw [List.getD_eq_getElem?_getD, List.getElem?_map, List.getElem?_eq_getElem h, Option.map_some, Option.getD_some]
  split_ifs with hzero
  · decide
  · exact hzero

theorem patched_ne_minValue (h : T.getD ii 0 ≠ Int32.minValue) :
    (T.map fun t => if t = 0 then 1 else t).getD ii 0 ≠ Int32.minValue := by
  rw [List.getD_eq_getElem?_getD] at h ⊢
  rw [List.getElem?_map]
  cases hcell : T[ii]? with
  | none => decide
  | some t =>
    rw [hcell, Option.getD_some] at h
    rw [Option.map_some, Option.getD_some]
    split_ifs
    · decide
    · exact h

end Patched

section Verdict
variable {E : Fault → Prop} {T : List Int32}

/-- Behind the comparison with the average there is always a verdict. -/
theorem verdict_yields (hT : T.length = 18) (h : ¬Trapping T (maxTone T 0) (maxTone T 4)) :
    Yields E (fun _ => True) (verdict T) := by
  rw [verdict]
  refine (aboveAverage_yields h).bind fun average _ => ?_
  split_ifs with hboth
  · obtain ⟨hR, hC⟩ := ne_minValue_of_balanced (Bool.and_eq_true _ _ ▸ hboth).2
    exact (aboveAll_yields (fun ii hii => patched_ne_zero (by rwa [hT])) (patched_ne_minValue hR)
      (patched_ne_minValue hC)).bind fun _ _ => trivial
  · trivial

theorem verdict_of_trapping (h : Trapping T (maxTone T 0) (maxTone T 4)) : verdict T = .error .overflow := by
  rw [verdict, aboveAverage_of_trapping h]
  rfl

end Verdict

/-! ### A whole detection -/

section Whole
variable {E : Fault → Prop} {fuel : Nat} {SAMPLES : Int32} {block : List Int16}

variable (hpos : 0 < SAMPLES.toInt)
include hpos

theorem DTMF_detection_yields (hlen : block.length = SAMPLES.toUInt32.toNat)
    (hfuel : SAMPLES.toUInt32.toNat < 65536 ∧ 65536 ≤ fuel ∨ E .endless) (htrap : E .overflow) :
    Yields E (fun _ => True) (DTMF_detection fuel SAMPLES block) := by
  rw [DTMF_detection, divide_of_pos _ hpos]
  show Yields E _ (ite _ _ _)
  split_ifs
  · trivial
  · refine (normalDial_yields (hfuel.imp_left fun h => by omega) block).bind fun Dial _ => ?_
    refine (magnitudes_yields ?_ hfuel).bind fun T hT => ?_
    · rw [List.length_map, hlen]
    · by_cases h : Trapping T (maxTone T 0) (maxTone T 4)
      · rw [verdict_of_trapping h]
        exact htrap
      · exact verdict_yields hT h

/-- A quiet block is no button. -/
theorem DTMF_detection_of_lt (hquiet : absSum block / SAMPLES < powerThreshold) :
    DTMF_detection fuel SAMPLES block = .ok ' ' := by
  rw [DTMF_detection, divide_of_pos _ hpos]
  exact if_pos hquiet

omit hpos in

theorem magnitudes_endless {internalArray : List Int16} {COUNT : UInt32} (hlen : internalArray.length = COUNT.toNat)
    (hcount : 65536 ≤ COUNT.toNat) : magnitudes fuel internalArray COUNT = .error .endless := by
  have hrange : List.range 9 = 0 :: (List.range 8).map (· + 1) := rfl
  rw [magnitudes, hrange, List.mapM_cons, goertzel_filter, goertzelLoop_endless _ _ hlen hcount]
  rfl

/-- On a block that is loud enough the filter runs, and does not end when the block is too long for its counter. -/
theorem DTMF_detection_endless (hlen : block.length = SAMPLES.toUInt32.toNat) (hcount : 65536 ≤ SAMPLES.toUInt32.toNat)
    (hloud : ¬absSum block / SAMPLES < powerThreshold) : DTMF_detection fuel SAMPLES block = .error .endless := by
  rw [DTMF_detection, divide_of_pos _ hpos]
  refine (if_neg hloud).trans ?_
  have hnorm : Yields (· = .endless) (fun _ => True) (normalDial fuel block) :=
    normalDial_yields (E := (· = .endless)) (Or.inr rfl) block
  cases hdial : normalDial fuel block with
  | ok Dial =>
    show magnitudes fuel _ _ >>= _ = _
    rw [magnitudes_endless (by rw [List.length_map, hlen]) hcount]
    rfl
  | error e =>
    rw [hdial] at hnorm
    exact congrArg Except.error hnorm

end Whole

/-! ### Sums of absolute values -/

theorem absSum_replicate {n : Nat} (h : 328 * n < 2 ^ 31) : (absSum (List.replicate n 328)).toInt = 328 * n := by
  induction n with
  | zero => rfl
  | succ n ih =>
    have hstep : absSum (List.replicate (n + 1) 328) = absSum (List.replicate n 328) + 328 := by
      rw [absSum, List.replicate_succ', List.foldl_append]
      rfl
    rw [hstep, Int32.toInt_add, ih (by omega)]
    show (328 * (n : Int) + 328).bmod (2 ^ 32) = _
    rw [Int.bmod_eq_of_le (by omega) (by omega)]
    push_cast
    ring

/-- From some block length on no sum of 32 bits is large enough. -/
theorem quiet_of_le {SAMPLES : Int32} (h : 2 ^ 31 ≤ 328 * SAMPLES.toInt) (Sum : Int32) : Sum / SAMPLES < powerThreshold := by
  have hlt := Sum.toInt_lt
  rw [Int32.lt_iff_toInt_lt, Int32.toInt_div_of_ne_right _ _ (by rintro rfl; exact absurd h (by decide))]
  show Sum.toInt.tdiv SAMPLES.toInt < 328
  calc Sum.toInt.tdiv SAMPLES.toInt ≤ (2 ^ 31 - 1 : Int).tdiv SAMPLES.toInt := Int.tdiv_le_tdiv (by omega) (by omega)
    _ = (2 ^ 31 - 1) / SAMPLES.toInt := Int.tdiv_eq_ediv_of_nonneg (by decide)
    _ < 328 := Int.ediv_lt_of_lt_mul (by omega) (by omega)

/-- A constant block at the threshold. -/
theorem loud_replicate {SAMPLES : Int32} (hpos : 0 < SAMPLES.toInt) (h : 328 * SAMPLES.toInt < 2 ^ 31) :
    ¬absSum (List.replicate SAMPLES.toInt.toNat 328) / SAMPLES < powerThreshold := by
  have hne : SAMPLES ≠ -1 := by
    rintro rfl
    exact absurd hpos (by decide)
  have hcast : ((SAMPLES.toInt.toNat : Nat) : Int) = SAMPLES.toInt := Int.toNat_of_nonneg (by omega)
  rw [Int32.lt_iff_toInt_lt, Int32.toInt_div_of_ne_right _ _ hne, absSum_replicate (by omega), hcast,
    Int.mul_tdiv_cancel _ (by omega)]
  decide

end DtmfDetector
end Recd2
