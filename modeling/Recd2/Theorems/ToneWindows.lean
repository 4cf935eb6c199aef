import Recd2.Theorems.ClearBlocks
import Recd2.Theorems.Lanes

/-! The detector knows the tones of the generator. Wherever a block of 102 samples lies in the first 2048 of a tone, its verdict
    is the button of the tone. A lane for each of the blocks lets the kernel compute with all of them at once. -/

namespace Recd2
open Width Lanes
namespace Unbounded

/-! ### The check of many blocks -/

/-- The magnitudes for the coefficients go to `k`. -/
def valuesThen (ones : Nat) (Xs : List Nat) : List Int → (List Nat → Bool) → Bool
  | [], k => k []
  | Koeff :: Koeffs, k =>
    evaluate (factor Koeff) fun factor => evaluate (addend factor * ones) fun addends =>
    runThen ones factor addends Xs (moved * ones) (moved * ones) fun A B =>
    evaluate (magnitudeLanes ones factor A B) fun V => valuesThen ones Xs Koeffs fun Vs => k (V :: Vs)

/-- `a` times one of the values and `b` are at most `c` times another one and `d`. -/
def leLanes (ones : Nat) (Vs : List Nat) (a i b c j d : Nat) : Bool :=
  below ones 32 (a * Vs.getD i 0 + b * ones) (c * Vs.getD j 0 + d * ones)

/-- The comparisons of `StandOut` on magnitudes that are moved up by `2 ^ 25`. -/
def standOutLanes (ones Row Column : Nat) (Vs : List Nat) : Bool :=
  leLanes ones Vs 0 0 (2 ^ 25 + 16) 1 Row 0 && leLanes ones Vs 0 0 (2 ^ 25 + 16) 1 Column 0 &&
  leLanes ones Vs 1 Column (3 * 2 ^ 25) 4 Row 0 && leLanes ones Vs 3 Row (5 * 2 ^ 25 + 7) 8 Column 0 &&
  (List.range 18).all fun i => leLanes ones Vs 0 0 (2 ^ 25) 1 i 0 && (Nat.beq i Row || Nat.beq i Column ||
    (leLanes ones Vs (if i < 10 then 6 else 16) i 0 1 Row ((if i < 10 then 5 else 15) * 2 ^ 25) &&
      leLanes ones Vs (if i < 10 then 6 else 16) i 0 1 Column ((if i < 10 then 5 else 15) * 2 ^ 25)))

/-- Three samples are of fifteen bits. -/
def loudLanes (ones : Nat) (Xs : List Nat) : Bool :=
  below ones 32 (3 * ones) ((Xs.map fun X => quotients ones 16 (X + 2 ^ 14 * ones)).sum)

/-- Every block is clear for this row and column. -/
def clearLanes (ones Row Column : Nat) (Xs : List Nat) : Bool :=
  loudLanes ones Xs && valuesThen ones Xs (DtmfDetector.CONSTANTS.map Int16.toInt) (standOutLanes ones Row Column)

section Check
variable {ι : Type} {is : List ι}

theorem abs_magnitude_le {Koeff : Int} {v : Int × Int} (hKoeff : |Koeff| ≤ 32706) (hv : Small v) :
    |magnitude Koeff v| ≤ 2 ^ 24 := by
  obtain ⟨hP, hp⟩ := cast_up_div hv.fst
  obtain ⟨-, hq⟩ := cast_up_div hv.snd
  obtain ⟨-, -, ht⟩ := MPY48SR_moved hKoeff hP hp
  obtain ⟨hpp, hpp'⟩ := abs_le.mp (abs_mul_le hp hp)
  obtain ⟨hqq, hqq'⟩ := abs_le.mp (abs_mul_le hq hq)
  obtain ⟨htq, htq'⟩ := abs_le.mp (abs_mul_le ht hq)
  rw [magnitude]
  exact abs_le.mpr ⟨by omega, by omega⟩

theorem cast_value {t : Int} (ht : |t| ≤ 2 ^ 24) : (value t : Int) = t + 33554432 ∧ value t < 67108864 := by
  obtain ⟨hle, hge⟩ := abs_le.mp ht
  have hvalue : (value t : Int) = t + 33554432 := Int.toNat_of_nonneg (by omega)
  exact ⟨hvalue, by omega⟩

theorem sum_ite_eq_countP {α : Type} (p : α → Prop) [DecidablePred p] (xs : List α) :
    (xs.map fun x => if p x then 1 else 0).sum = xs.countP (p ·) := by
  induction xs with
  | nil => rfl
  | cons x xs ih =>
    rw [List.map_cons, List.sum_cons, List.countP_cons, ih, Nat.add_comm]
    simp only [decide_eq_true_eq]

section Values
variable {Koeffs : List Int} {xs : List (ι → Int)} {k : List Nat → Bool} (hxs : ∀ x ∈ xs, ∀ i ∈ is, FitsInt16 (x i))
include hxs

theorem valuesThen_pack (hKoeffs : ∀ Koeff ∈ Koeffs, |Koeff| ≤ 32706)
    (h : valuesThen (ones 44 is.length) (xs.map fun x => pack 44 is fun i => sample (x i)) Koeffs k = true) :
    (∀ Koeff ∈ Koeffs, ∀ i ∈ is, ∀ ys, ys <+: xs.map (fun x => x i) → Small (states Koeff ys)) ∧
      k (Koeffs.map fun Koeff => pack 44 is fun i => value (magnitude Koeff (states Koeff (xs.map fun x => x i)))) =
        true := by
  induction Koeffs generalizing k with
  | nil => exact ⟨fun _ hKoeff => absurd hKoeff List.not_mem_nil, h⟩
  | cons Koeff Koeffs ih =>
    obtain ⟨hKoeff, hKoeffs⟩ := List.forall_mem_cons.mp hKoeffs
    have hzero : moved * ones 44 is.length = pack 44 is fun _ => up 0 := mul_ones (by decide) _ _
    have hsmall : ∀ i ∈ is, Small (0, 0) := fun _ _ => ⟨by decide, by decide⟩
    rw [valuesThen, evaluate_eq, evaluate_eq, hzero] at h
    obtain ⟨hstates, h⟩ := runThen_pack (v := fun _ => (0, 0)) hKoeff hsmall hxs h
    rw [evaluate_eq, magnitudeLanes_pack hKoeff fun i hi => hstates i hi _ List.prefix_rfl] at h
    obtain ⟨hrest, h⟩ := ih hKoeffs h
    exact ⟨List.forall_mem_cons.mpr ⟨hstates, hrest⟩, h⟩

theorem loud_of_loudLanes (hlen : xs.length < 2 ^ 32)
    (h : loudLanes (ones 44 is.length) (xs.map fun x => pack 44 is fun i => sample (x i)) = true) :
    ∀ i ∈ is, 3 ≤ (xs.map fun x => x i).countP (2 ^ 14 ≤ ·) := by
  have hquotient : ∀ x ∈ xs, quotients (ones 44 is.length) 16 ((pack 44 is fun i => sample (x i)) + 2 ^ 14 * ones 44 is.length) =
      pack 44 is fun i => if 2 ^ 14 ≤ x i then 1 else 0 := fun x hx => by
    rw [mul_ones (by decide), add_pack, quotients_pack (by decide) (by decide) fun i hi => by
      have hsample := cast_sample (hxs x hx i hi)
      have hlt := (hxs x hx i hi).2
      omega]
    refine pack_congr fun i hi => ?_
    have hsample := cast_sample (hxs x hx i hi)
    have hlt := (hxs x hx i hi).2
    split_ifs <;> omega
  have hbelow : below (ones 44 is.length) 32 (pack 44 is fun _ => 3)
      (pack 44 is fun i => (xs.map fun x => if 2 ^ 14 ≤ x i then 1 else 0).sum) = true := by
    rw [← mul_ones (by decide), ← sum_pack, ← List.map_congr_left hquotient]
    rwa [loudLanes, List.map_map] at h
  intro i hi
  have hcount : ∀ i, (xs.map fun x => if 2 ^ 14 ≤ x i then 1 else 0).sum = (xs.map fun x => x i).countP (2 ^ 14 ≤ ·) :=
    fun i => by
      rw [List.countP_map]
      exact sum_ite_eq_countP (fun x => 2 ^ 14 ≤ x i) xs
  rw [← hcount]
  refine le_of_below (by decide) (by decide) (fun _ _ => by decide) (fun i _ => ?_) hbelow i hi
  rw [hcount]
  exact List.countP_le_length.trans_lt (by rwa [List.length_map])

end Values
section StandOut
variable {Row Column : Nat} {T : ι → List Int} {Vs : List Nat} (hlen : ∀ i ∈ is, (T i).length = 18)
  (hT : ∀ i ∈ is, ∀ j < 18, |(T i).getD j 0| ≤ 2 ^ 24)
  (hVs : ∀ j < 18, Vs.getD j 0 = pack 44 is fun i => value ((T i).getD j 0))
include hT hVs

theorem le_of_leLanes {a b c d j j' : Nat} (ha : a ≤ 16) (hb : b < 2 ^ 30) (hc : c ≤ 16) (hd : d < 2 ^ 30) (hj : j < 18)
    (hj' : j' < 18) (h : leLanes (ones 44 is.length) Vs a j b c j' d = true) :
    ∀ i ∈ is, a * ((T i).getD j 0 + 33554432) + b ≤ c * ((T i).getD j' 0 + 33554432) + d := by
  intro i hi
  have hlt : ∀ {a b j : Nat}, a ≤ 16 → b < 2 ^ 30 → j < 18 → ∀ i ∈ is, a * value ((T i).getD j 0) + b < 2 ^ 32 :=
    fun ha hb hj i hi => by
      have hmul := Nat.mul_le_mul ha (Nat.le_of_lt (cast_value (hT i hi _ hj)).2)
      omega
  rw [leLanes, hVs j hj, hVs j' hj', mul_pack, mul_pack, mul_ones (by decide), mul_ones (by decide), add_pack, add_pack] at h
  have hle := Int.ofNat_le.mpr (le_of_below (by decide) (by decide) (hlt ha hb hj) (hlt hc hd hj') h i hi)
  push_cast at hle
  rwa [(cast_value (hT i hi j hj)).1, (cast_value (hT i hi j' hj')).1] at hle

include hlen

theorem standOut_of_lanes (hrow : Row < 18) (hcolumn : Column < 18)
    (h : standOutLanes (ones 44 is.length) Row Column Vs = true) : ∀ i ∈ is, DtmfDetector.StandOut (T i) Row Column := by
  intro i hi
  simp only [standOutLanes, Bool.and_eq_true, Bool.or_eq_true, List.all_eq_true, List.mem_range] at h
  obtain ⟨⟨⟨⟨hleast, hleast'⟩, hbalanced⟩, hbalanced'⟩, hrest⟩ := h
  have hleast := le_of_leLanes hT hVs (by decide) (by decide) (by decide) (by decide) (by decide) hrow hleast i hi
  have hleast' := le_of_leLanes hT hVs (by decide) (by decide) (by decide) (by decide) (by decide) hcolumn hleast' i hi
  have hbalanced := le_of_leLanes hT hVs (by decide) (by decide) (by decide) (by decide) hcolumn hrow hbalanced i hi
  have hbalanced' := le_of_leLanes hT hVs (by decide) (by decide) (by decide) (by decide) hrow hcolumn hbalanced' i hi
  push_cast at hleast hleast' hbalanced hbalanced'
  refine ⟨hlen i hi, fun j hj => ?_, ⟨by omega, by omega⟩, ⟨by omega, by omega⟩, fun j hj hne hne' => ?_⟩
  · have hnonneg := le_of_leLanes hT hVs (by decide) (by decide) (by decide) (by decide) (by decide) hj (hrest j hj).1 i hi
    obtain ⟨-, hle⟩ := abs_le.mp (hT i hi j hj)
    push_cast at hnonneg
    exact ⟨by omega, by omega⟩
  · have hboth := (hrest j hj).2.resolve_left fun h =>
      h.elim (fun h => hne (Nat.eq_of_beq_eq_true h)) fun h => hne' (Nat.eq_of_beq_eq_true h)
    have hRow := le_of_leLanes hT hVs (by split_ifs <;> decide) (by decide) (by decide) (by split_ifs <;> decide) hj hrow
      hboth.1 i hi
    have hColumn := le_of_leLanes hT hVs (by split_ifs <;> decide) (by decide) (by decide) (by split_ifs <;> decide) hj hcolumn
      hboth.2 i hi
    split_ifs at hRow hColumn ⊢ <;> push_cast at hRow hColumn <;> exact ⟨by omega, by omega⟩

end StandOut

theorem clearBlock_of_clearLanes {Row Column : Nat} {xs : List (ι → Int16)} (hlen : xs.length = 102) (hrow : Row < 4)
    (hcolumn : 4 ≤ Column ∧ Column < 8) (h : clearLanes (ones 44 is.length) Row Column
      (xs.map fun x => pack 44 is fun i => sample (x i).toInt) = true) :
    ∀ i ∈ is, DtmfDetector.ClearBlock (xs.map fun x => x i) Row Column := by
  let ints : List (ι → Int) := xs.map fun x i => (x i).toInt
  have hints : ∀ x ∈ ints, ∀ i ∈ is, FitsInt16 (x i) := List.forall_mem_map.mpr fun x _ i _ => fitsInt16_toInt (x i)
  have hpacks : (xs.map fun x => pack 44 is fun i => sample (x i).toInt) = ints.map fun x => pack 44 is fun i => sample (x i) := by
    rw [List.map_map]
    rfl
  have hblock : ∀ i, (xs.map fun x => x i).map Int16.toInt = ints.map fun x => x i := fun i => by
    rw [List.map_map, List.map_map]
    rfl
  have hKoeffs : ∀ Koeff ∈ DtmfDetector.CONSTANTS.map Int16.toInt, |Koeff| ≤ 32706 := by decide
  rw [clearLanes, Bool.and_eq_true, hpacks] at h
  obtain ⟨hloud, hvalues⟩ := h
  obtain ⟨hstates, hvalues⟩ := valuesThen_pack hints hKoeffs hvalues
  let T (i : ι) : List Int :=
    DtmfDetector.CONSTANTS.map fun Koeff => magnitude Koeff.toInt (states Koeff.toInt (ints.map fun x => x i))
  have hsmall : ∀ i ∈ is, ∀ Koeff ∈ DtmfDetector.CONSTANTS, ∀ ys, ys <+: ints.map (fun x => x i) → Small (states Koeff.toInt ys) :=
    fun i hi Koeff hKoeff => hstates _ (List.mem_map_of_mem hKoeff) i hi
  have hT : ∀ i ∈ is, ∀ j < 18, |(T i).getD j 0| ≤ 2 ^ 24 := fun i hi j hj => by
    have hj : j < DtmfDetector.CONSTANTS.length := hj
    rw [List.getD_eq_getElem _ _ (by rwa [List.length_map]), List.getElem_map]
    have hmem := List.getElem_mem hj
    exact abs_magnitude_le (hKoeffs _ (List.mem_map_of_mem hmem)) (hsmall i hi _ hmem _ List.prefix_rfl)
  intro i hi
  refine ⟨by rw [List.length_map, hlen], ?_, fun Koeff hKoeff ys hys => ?_, ?_⟩
  · rw [hblock]
    exact loud_of_loudLanes hints (by rw [List.length_map, hlen]; decide) hloud i hi
  · rw [hblock] at hys
    exact (hsmall i hi Koeff hKoeff ys hys).fst.trans (by decide)
  · have hVs : ∀ j < 18, ((DtmfDetector.CONSTANTS.map Int16.toInt).map fun Koeff => pack 44 is fun i =>
        value (magnitude Koeff (states Koeff (ints.map fun x => x i)))).getD j 0 =
          pack 44 is fun i => value ((T i).getD j 0) := fun j hj => by
      have hj : j < DtmfDetector.CONSTANTS.length := hj
      rw [List.map_map, List.getD_eq_getElem _ _ (by rwa [List.length_map]), List.getElem_map]
      refine pack_congr fun i _ => ?_
      rw [List.getD_eq_getElem _ _ (by rwa [List.length_map]), List.getElem_map]
    rw [hblock]
    exact (standOut_of_lanes (fun i _ => List.length_map _) hT hVs (by omega) (by omega) hvalues i hi).clear hrow hcolumn

end Check

/-! ### The samples of a tone -/

/-- `2 ^ d` samples in their lanes go to `k`, with the states behind them. -/
def samplesThen (factor₀ addend₀ factor₁ addend₁ : Nat) :
    Nat → Nat → Nat → Nat → Nat → (Nat → Nat → Nat → Nat → Nat → Bool) → Bool
  | 0, A₀, B₀, A₁, B₁, k =>
    evaluate (nextLanes 1 factor₀ addend₀ A₀ B₀ (2 ^ 15)) fun C₀ =>
    evaluate (nextLanes 1 factor₁ addend₁ A₁ B₁ (2 ^ 15)) fun C₁ =>
    evaluate ((C₀ + C₁) / 2 + 2 ^ 15 - moved) fun X => k X C₀ A₀ C₁ A₁
  | d + 1, A₀, B₀, A₁, B₁, k =>
    samplesThen factor₀ addend₀ factor₁ addend₁ d A₀ B₀ A₁ B₁ fun Xs A₀ B₀ A₁ B₁ =>
    samplesThen factor₀ addend₀ factor₁ addend₁ d A₀ B₀ A₁ B₁ fun Ys =>
    evaluate (Xs + 2 ^ (44 * 2 ^ d) * Ys) k

/-- The samples at `j` numbers behind each lane's own go to `k`, in front of `Xs`. -/
def windowsThen (W S : Nat) : Nat → List Nat → (List Nat → Bool) → Bool
  | 0, Xs, k => k Xs
  | j + 1, Xs, k => evaluate (S / 2 ^ (44 * j) % 2 ^ (44 * W)) fun X => windowsThen W S j (X :: Xs) k

/-- The check of a tone, for all the blocks in `2 ^ d` samples. -/
def toneClear (d low high : Nat) : Bool :=
  let Coeff₀ := (DtmfGenerator.tempCoeff.getD low 0).toInt
  let Coeff₁ := (DtmfGenerator.tempCoeff.getD high 0).toInt
  evaluate (factor Coeff₀) fun factor₀ => evaluate (addend factor₀) fun addend₀ =>
  evaluate (factor Coeff₁) fun factor₁ => evaluate (addend factor₁) fun addend₁ =>
  samplesThen factor₀ addend₀ factor₁ addend₁ d (up Coeff₀) (up 31000) (up Coeff₁) (up 31000) fun S _ _ _ _ =>
  windowsThen (2 ^ d - 101) S 102 [] fun Xs =>
  evaluate (ones 44 (2 ^ d - 101)) fun ones => clearLanes ones low high Xs

theorem windowsThen_eq (W S j : Nat) (Xs : List Nat) (k : List Nat → Bool) : windowsThen W S j Xs k =
    k ((List.range j).map (fun j => S / 2 ^ (44 * j) % 2 ^ (44 * W)) ++ Xs) := by
  induction j generalizing Xs with
  | zero => rfl
  | succ j ih => rw [windowsThen, evaluate_eq, ih, List.range_succ, List.map_append, List.append_assoc]; rfl

/-- The window is some of the lanes. -/
theorem window_pack {f : Nat → Nat} {N W j : Nat} (hf : ∀ n < N, f n < 2 ^ 44) (hj : j + W ≤ N) :
    pack 44 (List.range N) f / 2 ^ (44 * j) % 2 ^ (44 * W) = pack 44 (List.range W) fun n => f (n + j) := by
  have hlanes : ((List.range N).drop j).take W = (List.range W).map (· + j) := by
    refine List.ext_getElem ?_ fun i _ _ => ?_
    · rw [List.length_take, List.length_drop, List.length_range, List.length_map, List.length_range]
      omega
    · rw [List.getElem_take, List.getElem_drop, List.getElem_range, List.getElem_map, List.getElem_range, Nat.add_comm]
  rw [slice_pack fun i hi => hf i (List.mem_range.mp hi), hlanes, pack_map]

section Tone
open DtmfGenerator
variable {button : Char} {low high : Nat}

theorem abs_tempCoeff_le : ∀ i < 8, |(tempCoeff.getD i 0).toInt| ≤ 32706 := by decide

theorem small_wave {Coeff : Int16} {root sine B n : Nat} (hosc : Oscillates Coeff root sine B) (hB : B ≤ 2 ^ 21)
    (hn : n ≤ 2048) : Small (wave Coeff.toInt n) := by
  have hle : ∀ {m}, m ≤ 2048 → |(wave Coeff.toInt m).1| ≤ 2 ^ 21 := fun hm =>
    (hosc.abs_wave_le hosc.bound hm).trans (by exact_mod_cast hB)
  refine ⟨hle hn, ?_⟩
  cases n with
  | zero =>
    show |(31000 : Int)| ≤ _
    decide
  | succ n =>
    rw [wave_succ_snd]
    exact hle (by omega)

theorem nextLanes_wave {Coeff : Int} {n : Nat} (hCoeff : |Coeff| ≤ 32706) (hwave : Small (wave Coeff n)) :
    nextLanes 1 (factor Coeff) (addend (factor Coeff)) (up (wave Coeff n).1) (up (wave Coeff n).2) (2 ^ 15) =
      up (wave Coeff (n + 1)).1 := by
  have hnext := @nextLanes_pack Unit [()] Coeff (fun _ => wave Coeff n) hCoeff (fun _ _ => hwave) (fun _ => 0)
    fun _ _ => ⟨by decide, by decide⟩
  rw [wave_succ]
  simpa [pack_singleton, ones, sample] using hnext

theorem sample_mean {a b : Int} (ha : |a| ≤ 33104) (hb : |b| ≤ 33104) :
    (up a + up b) / 2 + 2 ^ 15 - moved = sample ((a + b) / 2) := by
  obtain ⟨hle, hge⟩ := abs_le.mp ha
  obtain ⟨hle', hge'⟩ := abs_le.mp hb
  have hup : up a = (a + 10485760).toNat := rfl
  have hup' : up b = (b + 10485760).toNat := rfl
  have hmoved : moved = 10485760 := rfl
  have hsample : sample ((a + b) / 2) = ((a + b) / 2 + 32768).toNat := rfl
  omega

variable (h : tones button = some (low, high))
include h

theorem samplesThen_eq (d n : Nat) (hn : n + 2 ^ d ≤ 2048) (k : Nat → Nat → Nat → Nat → Nat → Bool) :
    let Coeff₀ := (tempCoeff.getD low 0).toInt
    let Coeff₁ := (tempCoeff.getD high 0).toInt
    samplesThen (factor Coeff₀) (addend (factor Coeff₀)) (factor Coeff₁) (addend (factor Coeff₁)) d
        (up (wave Coeff₀ n).1) (up (wave Coeff₀ n).2) (up (wave Coeff₁ n).1) (up (wave Coeff₁ n).2) k =
      k (pack 44 (List.range' n (2 ^ d)) fun n => sample (tone button n).toInt)
        (up (wave Coeff₀ (n + 2 ^ d)).1) (up (wave Coeff₀ (n + 2 ^ d)).2) (up (wave Coeff₁ (n + 2 ^ d)).1)
        (up (wave Coeff₁ (n + 2 ^ d)).2) := by
  intro Coeff₀ Coeff₁
  obtain ⟨hlow, hhigh, hhigh'⟩ := places_of_tones h
  obtain ⟨root₀, sine₀, -, hosc₀⟩ := oscillates_low low hlow
  obtain ⟨root₁, sine₁, -, hosc₁⟩ := oscillates_high high hhigh hhigh'
  induction d generalizing n k with
  | zero =>
    have hCoeff₀ : |Coeff₀| ≤ 32706 := abs_tempCoeff_le low (by omega)
    have hCoeff₁ : |Coeff₁| ≤ 32706 := abs_tempCoeff_le high hhigh'
    have hone : n + 2 ^ 0 = n + 1 := rfl
    have hwave₀ : |(wave Coeff₀ (n + 1)).1| ≤ 33104 := hosc₀.abs_wave_le hosc₀.bound hn
    have hwave₁ : |(wave Coeff₁ (n + 1)).1| ≤ 33104 := (hosc₁.abs_wave_le hosc₁.bound hn).trans (by decide)
    rw [samplesThen, nextLanes_wave hCoeff₀ (small_wave hosc₀ (by decide) (by omega)), evaluate_eq,
      nextLanes_wave hCoeff₁ (small_wave hosc₁ (by decide) (by omega)), evaluate_eq,
      sample_mean hwave₀ hwave₁, evaluate_eq, ← toInt_tone h (by omega), hone, wave_succ_snd, wave_succ_snd]
    have hlane : List.range' n (2 ^ 0) = [n] := rfl
    rw [hlane, pack_singleton]
  | succ d ih =>
    have hpow : 2 ^ (d + 1) = 2 ^ d + 2 ^ d := by rw [pow_succ, Nat.mul_two]
    have hpos := Nat.two_pow_pos d
    have hlanes : List.range' n (2 ^ (d + 1)) = List.range' n (2 ^ d) ++ List.range' (n + 2 ^ d) (2 ^ d) := by
      rw [hpow, List.range'_append_1]
    rw [samplesThen, ih n (by omega), ih (n + 2 ^ d) (by omega), evaluate_eq, hlanes, pack_append, List.length_range',
      hpow, Nat.add_assoc]

/-- A tone that passes the check has clear blocks only. -/
theorem clearBlock_of_toneClear {d : Nat} (hd : 2 ^ d ≤ 2048) (hclear : toneClear d low high = true) {n : Nat}
    (hn : n + 102 ≤ 2 ^ d) : DtmfDetector.ClearBlock ((List.range 102).map fun j => tone button (n + j)) low high := by
  obtain ⟨hlow, hhigh, hhigh'⟩ := places_of_tones h
  have hsample : ∀ n < 2 ^ d, sample (tone button n).toInt < 2 ^ 44 := fun n _ => by
    have hfits := fitsInt16_toInt (tone button n)
    have hcast := cast_sample hfits
    have hlt := hfits.2
    omega
  have hwindows : (List.range 102).map (fun j => pack 44 (List.range' 0 (2 ^ d)) (fun n => sample (tone button n).toInt) /
      2 ^ (44 * j) % 2 ^ (44 * (2 ^ d - 101))) = ((List.range 102).map fun j n => tone button (n + j)).map fun x =>
        pack 44 (List.range (2 ^ d - 101)) fun n => sample (x n).toInt := by
    rw [List.map_map]
    refine List.map_congr_left fun j hj => ?_
    have hj := List.mem_range.mp hj
    rw [← List.range_eq_range']
    exact window_pack hsample (by omega)
  rw [toneClear, evaluate_eq, evaluate_eq, evaluate_eq, evaluate_eq] at hclear
  have hclear := (samplesThen_eq h d 0 (by rwa [Nat.zero_add]) _).symm.trans hclear
  rw [windowsThen_eq, List.append_nil, hwindows, evaluate_eq] at hclear
  have hones : ones 44 (2 ^ d - 101) = ones 44 (List.range (2 ^ d - 101)).length := by rw [List.length_range]
  rw [hones] at hclear
  have hblock := clearBlock_of_clearLanes (by rw [List.length_map, List.length_range]) hlow ⟨hhigh, hhigh'⟩ hclear n
    (List.mem_range.mpr (by omega))
  rwa [List.map_map] at hblock

end Tone
/-- The kernel checks the tones of the sixteen buttons. -/
theorem toneClear_eleven (low high : Nat) (hlow : low < 4) (hhigh : 4 ≤ high ∧ high < 8) : toneClear 11 low high = true := by
  obtain ⟨hhigh, hhigh'⟩ := hhigh
  interval_cases low <;> interval_cases high <;> decide +kernel

end Unbounded

namespace DtmfDetector
open DtmfGenerator

theorem pushButton_of_tones {button : Char} {low high : Nat} (h : DtmfGenerator.tones button = some (low, high)) :
    pushButton low high = button := by
  unfold DtmfGenerator.tones at h
  split at h <;> first | (obtain ⟨rfl, rfl⟩ := Prod.mk.inj (Option.some.inj h); rfl) | cases h

/-- Wherever a block lies in the first 2048 samples of a tone, the verdict is the button. -/
theorem DTMF_detection_tone {fuel : Nat} {button : Char} {low high n : Nat} (hfuel : 65536 ≤ fuel)
    (h : DtmfGenerator.tones button = some (low, high)) (hn : n + 102 ≤ 2048) :
    DTMF_detection fuel 102 ((List.range 102).map fun j => tone button (n + j)) = .ok button := by
  obtain ⟨hlow, hhigh⟩ := places_of_tones h
  have hclear := Unbounded.clearBlock_of_toneClear h (d := 11) (Nat.le_refl _) (Unbounded.toneClear_eleven low high hlow hhigh) hn
  rw [hclear.detected hfuel hlow hhigh, pushButton_of_tones h]

end DtmfDetector
end Recd2
