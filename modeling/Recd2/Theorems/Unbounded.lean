import Recd2.DtmfDetector
import Recd2.Lib.Width
import Recd2.Theorems.Detection

/-! The formulas of the detector in unbounded integers, and where they have the results of the code. -/

namespace Recd2
open Checked Width

/-! ### The formulas -/

namespace Unbounded

/-- The product of a Q15 number, rounded to the nearest. -/
def MPY48SR (a b : Int) : Int := (a * b + 2 ^ 14) / 2 ^ 15

/-- The new `Vk1` and `Vk2` of one resonator. -/
def next (Koeff : Int) (v : Int × Int) (sample : Int) : Int × Int := (MPY48SR Koeff (2 * v.1) - v.2 + sample, v.1)

/-- The last `Vk1` and `Vk2` of one resonator over the samples. -/
def states (Koeff : Int) (arraySamples : List Int) : Int × Int := arraySamples.foldl (next Koeff) (0, 0)

/-- The magnitude that `goertzel_filter` takes from the last states. -/
def magnitude (Koeff : Int) (v : Int × Int) : Int :=
  let Vk1 := v.1 / 2 ^ 10
  let Vk2 := v.2 / 2 ^ 10
  let Temp := MPY48SR Koeff (2 * Vk1)
  let Temp := Temp * Vk2
  Vk1 * Vk1 + Vk2 * Vk2 - Temp

/-- The rounds that the loop of `norm_l` makes, out of those that it may make. -/
def normLoop : Nat → Int → Nat
  | 0, _ => 0
  | rounds + 1, L_var1 => if L_var1 < 0x40000000 then normLoop rounds (2 * L_var1) + 1 else 0

/-- For a number above zero thirty rounds are enough. -/
def norm_l (L_var1 : Int) : Int :=
  if L_var1 = 0 then 0 else if L_var1 = -1 then 31 else normLoop 30 (if L_var1 < 0 then -L_var1 - 1 else L_var1)

/-- `Sum`, the sum of the absolute samples. -/
def absSum (block : List Int) : Int := block.foldl (fun Sum x => if 0 ≤ x then Sum + x else Sum - x) 0

/-- The loop body of the normalisation. -/
def lowerDial (Dial x : Int) : Int := if x ≠ 0 then (if norm_l x < Dial then norm_l x else Dial) else Dial

/-- The shift that `DtmfDetection` normalises a block with. -/
def normalDial (block : List Int) : Int := block.foldl lowerDial 32 - 16

/-- The normalised block. -/
def internalArray (block : List Int) : List Int := block.map fun x => x * 2 ^ (normalDial block).toNat

/-- The eighteen values. -/
def T (block : List Int) : List Int :=
  DtmfDetector.CONSTANTS.map fun Koeff => magnitude Koeff.toInt (states Koeff.toInt (internalArray block))

/-! ### What has to fit -/

/-- A resonator over the samples. -/
structure FilterFits (Koeff : Int) (arraySamples : List Int) : Prop where
  states : ∀ xs, xs <+: arraySamples → FitsInt32 (states Koeff xs).1
  doubled : ∀ xs, xs <+: arraySamples → FitsInt32 (2 * (Unbounded.states Koeff xs).1)
  difference : ∀ xs, xs <+: arraySamples →
    FitsInt32 (MPY48SR Koeff (2 * (Unbounded.states Koeff xs).1) - (Unbounded.states Koeff xs).2)

/-- The magnitude from the last states. -/
structure MagnitudeFits (Koeff : Int) (v : Int × Int) : Prop where
  Vk1 : FitsInt16 (v.1 / 2 ^ 10)
  Vk2 : FitsInt16 (v.2 / 2 ^ 10)
  Temp : FitsInt16 (MPY48SR Koeff (2 * (v.1 / 2 ^ 10)))
  sum : FitsInt32 ((v.1 / 2 ^ 10) * (v.1 / 2 ^ 10) + (v.2 / 2 ^ 10) * (v.2 / 2 ^ 10))
  magnitude : FitsInt32 (magnitude Koeff v)

/-- Nothing overflows in a detection. -/
structure NoOverflow (block : List Int) : Prop where
  absSum : ∀ xs, xs <+: block → FitsInt32 (absSum xs)
  normalised : ∀ x ∈ internalArray block, FitsInt16 x
  filters : ∀ Koeff ∈ DtmfDetector.CONSTANTS, FilterFits Koeff.toInt (internalArray block)
  magnitudes : ∀ Koeff ∈ DtmfDetector.CONSTANTS,
    MagnitudeFits Koeff.toInt (Unbounded.states Koeff.toInt (internalArray block))

end Unbounded

/-! ### The filter -/

/-- Only for the least coefficient does the product of the upper half overflow when it is doubled. -/
theorem toInt_MPY48SR {o16 : Int16} (hmin : -2 ^ 15 < o16.toInt) (o32 : Int32) :
    (MPY48SR o16 o32).toInt = Unbounded.MPY48SR o16.toInt o32.toInt := by
  have hlt := o16.toInt_lt
  obtain ⟨hle32, hlt32⟩ := fitsInt32_toInt o32
  have ho16 : |o16.toInt| ≤ 32767 := abs_le.mpr ⟨by omega, by omega⟩
  have hlow : |o32.toInt % 2 ^ 16| ≤ 65535 := abs_le.mpr ⟨by omega, by omega⟩
  have hhigh : |o32.toInt / 2 ^ 16| ≤ 32768 := abs_le.mpr ⟨by omega, by omega⟩
  obtain ⟨hlowle, hlowge⟩ := abs_le.mp (abs_mul_le hlow ho16)
  obtain ⟨hhighle, hhighge⟩ := abs_le.mp (abs_mul_le hhigh ho16)
  have hlow : (o32.toUInt32.toUInt16.toUInt32.toInt32 * o16.toInt32).toInt = o32.toInt % 2 ^ 16 * o16.toInt := by
    rw [toInt_mul] <;> rw [toInt_toUInt16, Int16.toInt_toInt32]
    exact ⟨by omega, by omega⟩
  have hTemp0 : ((o32.toUInt32.toUInt16.toUInt32.toInt32 * o16.toInt32 + 0x4000) >>> 15).toInt =
      (o32.toInt % 2 ^ 16 * o16.toInt + 2 ^ 14) / 2 ^ 15 := by
    rw [toInt_shiftRight (by decide) (by decide), toInt_add, hlow]
    · rfl
    · rw [hlow]
      show FitsInt32 (_ + 16384)
      exact ⟨by omega, by omega⟩
  have hTemp1 : ((o32 >>> 16).toInt16.toInt32 * o16.toInt32).toInt = o32.toInt / 2 ^ 16 * o16.toInt := by
    have hshift : (o32 >>> 16).toInt = o32.toInt / 2 ^ 16 := toInt_shiftRight (by decide) (by decide)
    have hnarrow : (o32 >>> 16).toInt16.toInt = o32.toInt / 2 ^ 16 := by
      rw [toInt_toInt16] <;> rw [hshift]
      exact ⟨by omega, by omega⟩
    rw [toInt_mul_toInt32, hnarrow]
  have hdoubled : (((o32 >>> 16).toInt16.toInt32 * o16.toInt32) <<< 1).toInt = o32.toInt / 2 ^ 16 * o16.toInt * 2 := by
    rw [toInt_shiftLeft (by decide) (by decide)] <;> rw [hTemp1]
    · rfl
    · show FitsInt32 (_ * 2)
      exact ⟨by omega, by omega⟩
  have hproduct : o16.toInt * o32.toInt = 2 ^ 16 * (o32.toInt / 2 ^ 16 * o16.toInt) + o32.toInt % 2 ^ 16 * o16.toInt := by
    conv_lhs => rw [← Int.mul_ediv_add_emod o32.toInt (2 ^ 16)]
    ring
  show (((o32 >>> 16).toInt16.toInt32 * o16.toInt32) <<< 1 +
    ((o32.toUInt32.toUInt16.toUInt32.toInt32 * o16.toInt32 + 0x4000) >>> 15)).toInt = _
  rw [Unbounded.MPY48SR, hproduct, toInt_add] <;> rw [hdoubled, hTemp0]
  · omega
  · exact ⟨by omega, by omega⟩

/-- One of the resonators that `goertzel_filter` runs. -/
def resonate (Koeff : Int16) (v : Int32 × Int32) (sample : Int16) : Int32 × Int32 :=
  (MPY48SR Koeff (v.1 <<< 1) - v.2 + sample.toInt32, v.1)

/-- The last states of one resonator in 32 bits. -/
def resonated (Koeff : Int16) (arraySamples : List Int16) : Int32 × Int32 := arraySamples.foldl (resonate Koeff) (0, 0)

/-- The two resonators run beside each other. -/
theorem foldl_next (Koeff0 Koeff1 : Int16) (arraySamples : List Int16) (v : Resonators) :
    arraySamples.foldl (fun v sample => v.next Koeff0 Koeff1 sample) v =
      ⟨(arraySamples.foldl (resonate Koeff0) (v.Vk1_0, v.Vk2_0)).1,
        (arraySamples.foldl (resonate Koeff0) (v.Vk1_0, v.Vk2_0)).2,
        (arraySamples.foldl (resonate Koeff1) (v.Vk1_1, v.Vk2_1)).1,
        (arraySamples.foldl (resonate Koeff1) (v.Vk1_1, v.Vk2_1)).2⟩ := by
  induction arraySamples generalizing v with
  | nil => rfl
  | cons x xs ih => exact ih (v.next Koeff0 Koeff1 x)

section Filter
variable {fuel : Nat} {arraySamples : List Int16} {COUNT : UInt32} (hlen : arraySamples.length = COUNT.toNat)
  (hcount : COUNT.toNat < 65536) (hfuel : 65536 ≤ fuel)
include hlen hcount hfuel

theorem goertzel_filter_eq (Koeff0 Koeff1 : Int16) : goertzel_filter fuel Koeff0 Koeff1 arraySamples COUNT =
    .ok ([Koeff0, Koeff1].map fun Koeff =>
      magnitude Koeff (resonated Koeff arraySamples).1 (resonated Koeff arraySamples).2) := by
  obtain ⟨⟨ii, v⟩, hloop, hv⟩ := (goertzelLoop_ends (E := fun _ => False) Koeff0 Koeff1 hlen hcount hfuel).exists_ok
  have hv : v = _ := hv
  rw [goertzel_filter, hloop, hv, foldl_next]
  rfl

theorem magnitudes_eq : DtmfDetector.magnitudes fuel arraySamples COUNT = .ok (DtmfDetector.CONSTANTS.map fun Koeff =>
    magnitude Koeff (resonated Koeff arraySamples).1 (resonated Koeff arraySamples).2) := by
  have hfilters : (fun i => goertzel_filter fuel (DtmfDetector.CONSTANTS.getD (2 * i) 0)
      (DtmfDetector.CONSTANTS.getD (2 * i + 1) 0) arraySamples COUNT) = fun i => pure _ :=
    funext fun i => goertzel_filter_eq hlen hcount hfuel _ _
  rw [DtmfDetector.magnitudes, hfilters, List.mapM_pure]
  rfl

end Filter

/-! ### Without overflow -/

/-- What fits along the samples fits along fewer. -/
theorem Unbounded.FilterFits.of_prefix {Koeff : Int} {xs ys : List Int} (h : FilterFits Koeff ys) (hpre : xs <+: ys) :
    FilterFits Koeff xs where
  states zs hzs := h.states zs (hzs.trans hpre)
  doubled zs hzs := h.doubled zs (hzs.trans hpre)
  difference zs hzs := h.difference zs (hzs.trans hpre)

theorem toInt_resonated {Koeff : Int16} (hmin : -2 ^ 15 < Koeff.toInt) {arraySamples : List Int16}
    (h : Unbounded.FilterFits Koeff.toInt (arraySamples.map Int16.toInt)) :
    ((resonated Koeff arraySamples).1.toInt, (resonated Koeff arraySamples).2.toInt) =
      Unbounded.states Koeff.toInt (arraySamples.map Int16.toInt) := by
  induction arraySamples using List.reverseRecOn with
  | nil => rfl
  | append_singleton xs x ih =>
    rw [List.map_append, List.map_singleton] at h ⊢
    have hpre : xs.map Int16.toInt <+: xs.map Int16.toInt ++ [x.toInt] := List.prefix_append _ _
    have hstates : Unbounded.states Koeff.toInt (xs.map Int16.toInt ++ [x.toInt]) =
        Unbounded.next Koeff.toInt (Unbounded.states Koeff.toInt (xs.map Int16.toInt)) x.toInt := by
      rw [Unbounded.states, List.foldl_append]
      rfl
    have hresonated : resonated Koeff (xs ++ [x]) = resonate Koeff (resonated Koeff xs) x := by
      rw [resonated, List.foldl_append]
      rfl
    have hdoubled := h.doubled _ hpre
    have hdifference := h.difference _ hpre
    have hfits := h.states _ List.prefix_rfl
    rw [hstates, Unbounded.next] at hfits
    rw [hstates, hresonated]
    rw [← ih (h.of_prefix hpre)] at hdoubled hdifference hfits ⊢
    have hproduct : (MPY48SR Koeff ((resonated Koeff xs).1 <<< 1)).toInt =
        Unbounded.MPY48SR Koeff.toInt (2 * (resonated Koeff xs).1.toInt) := by
      rw [toInt_MPY48SR hmin, toInt_shiftLeft_one hdoubled]
    have hdiff : (MPY48SR Koeff ((resonated Koeff xs).1 <<< 1) - (resonated Koeff xs).2).toInt =
        Unbounded.MPY48SR Koeff.toInt (2 * (resonated Koeff xs).1.toInt) - (resonated Koeff xs).2.toInt := by
      rw [toInt_sub] <;> rw [hproduct]
      exact hdifference
    refine Prod.ext ?_ rfl
    show (_ + x.toInt32).toInt = _
    rw [toInt_add] <;> rw [hdiff, Int16.toInt_toInt32]
    · rfl
    · exact hfits

theorem toInt_magnitude {Koeff : Int16} (hmin : -2 ^ 15 < Koeff.toInt) {Vk1 Vk2 : Int32}
    (h : Unbounded.MagnitudeFits Koeff.toInt (Vk1.toInt, Vk2.toInt)) :
    (magnitude Koeff Vk1 Vk2).toInt = Unbounded.magnitude Koeff.toInt (Vk1.toInt, Vk2.toInt) := by
  obtain ⟨hVk1, hVk2, hTemp, hsum, hmagnitude⟩ := h
  rw [Unbounded.magnitude] at hmagnitude ⊢
  have hshift1 : (Vk1 >>> 10).toInt = Vk1.toInt / 2 ^ 10 := toInt_shiftRight (by decide) (by decide)
  have hshift2 : (Vk2 >>> 10).toInt = Vk2.toInt / 2 ^ 10 := toInt_shiftRight (by decide) (by decide)
  have hnarrow1 : (Vk1 >>> 10).toInt16.toInt = Vk1.toInt / 2 ^ 10 := by rw [toInt_toInt16, hshift1]; rwa [hshift1]
  have hnarrow2 : (Vk2 >>> 10).toInt16.toInt = Vk2.toInt / 2 ^ 10 := by rw [toInt_toInt16, hshift2]; rwa [hshift2]
  have hdoubled : FitsInt32 (2 * (Vk1 >>> 10).toInt) := by
    obtain ⟨hle, hlt⟩ := hVk1
    rw [hshift1]
    exact ⟨by omega, by omega⟩
  have hproduct : (MPY48SR Koeff ((Vk1 >>> 10) <<< 1)).toInt = Unbounded.MPY48SR Koeff.toInt (2 * (Vk1.toInt / 2 ^ 10)) := by
    rw [toInt_MPY48SR hmin, toInt_shiftLeft_one hdoubled, hshift1]
  have hnarrow : (MPY48SR Koeff ((Vk1 >>> 10) <<< 1)).toInt16.toInt =
      Unbounded.MPY48SR Koeff.toInt (2 * (Vk1.toInt / 2 ^ 10)) := by
    rw [toInt_toInt16, hproduct]
    rwa [hproduct]
  have hsquares : ((Vk1 >>> 10).toInt16.toInt32 * (Vk1 >>> 10).toInt16.toInt32 +
      (Vk2 >>> 10).toInt16.toInt32 * (Vk2 >>> 10).toInt16.toInt32).toInt =
      Vk1.toInt / 2 ^ 10 * (Vk1.toInt / 2 ^ 10) + Vk2.toInt / 2 ^ 10 * (Vk2.toInt / 2 ^ 10) := by
    rw [toInt_add] <;> rw [toInt_mul_toInt32, toInt_mul_toInt32, hnarrow1, hnarrow2]
    exact hsum
  rw [magnitude]
  dsimp only
  rw [toInt_sub] <;> rw [hsquares, toInt_mul_toInt32, hnarrow, hnarrow2]
  exact hmagnitude

end Recd2
