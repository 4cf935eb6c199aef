import Recd2.Theorems.ClearBlocks
import Recd2.Theorems.Lanes
import Recd2.Theorems.Traps

/-! Blocks of 2700 samples and more on which the detector traps. Such a block ends with a sum of ten oscillations that leaves
    the first resonator with the least number for its magnitude, and the others of the dial tones with zeros and a -3. Zeros in
    front of them do not move the resonators. -/

namespace Recd2
open Checked Width
namespace Unbounded

/-! ### Resonators in natural numbers -/

/-- What large states are moved up by. -/
def offset : Nat := 2 ^ 28

/-- A large state that is moved up. -/
def raised (n : Int) : Nat := (n + offset).toNat

/-- States that can be moved up. -/
structure Inside (v : Int × Int) : Prop where
  fst : |v.1| < 2 ^ 28
  snd : |v.2| < 2 ^ 28

/-- The next state, where all states are moved up. -/
def nextRaised (Koeff A B X : Nat) : Nat := (2 * Koeff * A + 2 ^ 14) / 2 ^ 15 + X + (32766 - Koeff) * 2 ^ 14 - B

/-- The last states go to `k`, unless a state is too large. -/
def runRaised (Koeff : Nat) : List Nat → Nat → Nat → (Nat → Nat → Bool) → Bool
  | [], A, B, k => k A B
  | X :: Xs, A, B, k => evaluate (nextRaised Koeff A B X) fun C =>
    Nat.blt 0 C && Nat.blt C (2 ^ 29) && runRaised Koeff Xs C A k

section Resonators
variable {Koeff : Nat} {v : Int × Int} {x : Int} {xs : List Int}

theorem cast_raised {n : Int} (h : |n| < 2 ^ 28) : (raised n : Int) = n + 2 ^ 28 := by
  obtain ⟨hlt, -⟩ := abs_lt.mp h
  exact Int.toNat_of_nonneg (show 0 ≤ n + 2 ^ 28 by omega)

theorem raised_sub {n : Int} (h : |n| < 2 ^ 28) : (raised n : Int) - offset = n := by
  rw [cast_raised h]
  exact Int.add_sub_cancel _ _

theorem nextRaised_eq (hKoeff : Koeff ≤ 32766) (hv : Inside v) (hx : FitsInt16 x) :
    nextRaised Koeff (raised v.1) (raised v.2) (sample x) = raised (next Koeff v x).1 := by
  have hA := cast_raised hv.fst
  have hB := cast_raised hv.snd
  have hX := cast_sample hx
  have hproduct : ((Koeff * raised v.1 : Nat) : Int) = Koeff * v.1 + Koeff * 2 ^ 28 := by rw [Nat.cast_mul, hA, Int.mul_add]
  have hnext : (next Koeff v x).1 = (2 * (Koeff * v.1) + 2 ^ 14) / 2 ^ 15 - v.2 + x := by
    show ((Koeff : Int) * (2 * v.1) + 2 ^ 14) / 2 ^ 15 - v.2 + x = _
    rw [Int.mul_left_comm]
  have hraised : raised (next Koeff v x).1 = ((next Koeff v x).1 + 2 ^ 28).toNat := rfl
  rw [hraised, hnext, nextRaised, Nat.mul_assoc]
  generalize (Koeff : Int) * v.1 = product at hproduct ⊢
  generalize Koeff * raised v.1 = product' at hproduct ⊢
  omega

theorem runRaised_spec (hKoeff : Koeff ≤ 32766) (hv : Inside v) (hxs : ∀ x ∈ xs, FitsInt16 x) {k : Nat → Nat → Bool}
    (h : runRaised Koeff (xs.map sample) (raised v.1) (raised v.2) k = true) :
    (∀ ys, ys <+: xs → Inside (ys.foldl (next Koeff) v)) ∧
      k (raised (xs.foldl (next Koeff) v).1) (raised (xs.foldl (next Koeff) v).2) = true := by
  induction xs generalizing v with
  | nil =>
    refine ⟨fun ys hys => ?_, h⟩
    rw [List.prefix_nil.mp hys]
    exact hv
  | cons x xs ih =>
    obtain ⟨hx, hxs⟩ := List.forall_mem_cons.mp hxs
    rw [List.map_cons, runRaised, evaluate_eq, nextRaised_eq hKoeff hv hx, Bool.and_eq_true, Bool.and_eq_true] at h
    obtain ⟨⟨hpos, hlt⟩, h⟩ := h
    have hpos : 0 < raised (next Koeff v x).1 := Nat.blt_eq.mp hpos
    have hlt : raised (next Koeff v x).1 < 2 ^ 29 := Nat.blt_eq.mp hlt
    have hnext : Inside (next Koeff v x) := by
      rw [raised, offset] at hpos hlt
      exact ⟨abs_lt.mpr ⟨by omega, by omega⟩, hv.fst⟩
    obtain ⟨hinside, hk⟩ := ih hnext hxs h
    refine ⟨fun ys hys => ?_, hk⟩
    cases ys with
    | nil => exact hv
    | cons y ys =>
      obtain ⟨rfl, hprefix⟩ := List.cons_prefix_cons.mp hys
      exact hinside ys hprefix

end Resonators

/-! ### The samples -/

/-- An oscillation that is added to the numbers, from two states that are moved up. -/
def addWave (Koeff : Nat) : List Nat → Nat → Nat → List Nat
  | [], _, _ => []
  | Y :: Ys, A, B => (Y + A) :: addWave Koeff Ys (nextRaised Koeff A B (2 ^ 15)) A

/-- The sum of the oscillations, each with its coefficient and the two states that it starts from. -/
def waves (starts : List (Nat × Int × Int)) (Ys : List Nat) : List Nat :=
  starts.foldl (fun Ys start => addWave start.1 Ys (raised start.2.1) (raised start.2.2)) Ys

/-- The sample that a sum of ten oscillations makes, which are in 256ths and moved up. -/
def level (Y : Nat) : Int := Y / 2 ^ 8 - 10 * 2 ^ 20

/-- The numbers with the oscillation go to `k`, each evaluated before the next one. -/
def addWaveThen (Koeff : Nat) : List Nat → Nat → Nat → (List Nat → Bool) → Bool
  | [], _, _, k => k []
  | Y :: Ys, A, B, k => evaluate (Y + A) fun Z => evaluate (nextRaised Koeff A B (2 ^ 15)) fun C =>
    addWaveThen Koeff Ys C A fun Zs => k (Z :: Zs)

/-- The sum of the oscillations goes to `k`. -/
def wavesThen : List (Nat × Int × Int) → List Nat → (List Nat → Bool) → Bool
  | [], Ys, k => k Ys
  | (Koeff, A, B) :: starts, Ys, k => evaluate (raised A) fun A => evaluate (raised B) fun B =>
    addWaveThen Koeff Ys A B fun Ys => wavesThen starts Ys k

/-- The samples go to `k`, unless one does not fit. -/
def levelsThen : List Nat → (List Nat → Bool) → Bool
  | [], k => k []
  | Y :: Ys, k => evaluate (Y / 2 ^ 8 + 2 ^ 15) fun Y =>
    Nat.ble (10 * 2 ^ 20) Y && Nat.blt Y (10 * 2 ^ 20 + 2 ^ 16) && evaluate (Y - 10 * 2 ^ 20) fun X =>
      levelsThen Ys fun Xs => k (X :: Xs)

/-- The sum of the absolute samples goes to `k`. -/
def absThen : List Nat → Nat → (Nat → Bool) → Bool
  | [], Sum, k => k Sum
  | X :: Xs, Sum, k => evaluate (Sum + (X - 2 ^ 15) + (2 ^ 15 - X)) fun Sum => absThen Xs Sum k

section Samples
variable {Ys : List Nat} {k : List Nat → Bool}

theorem length_addWave (Koeff A B : Nat) : (addWave Koeff Ys A B).length = Ys.length := by
  induction Ys generalizing A B with
  | nil => rfl
  | cons Y Ys ih => exact congrArg (· + 1) (ih _ _)

theorem length_waves (starts : List (Nat × Int × Int)) : (waves starts Ys).length = Ys.length := by
  induction starts generalizing Ys with
  | nil => rfl
  | cons start starts ih => exact ih.trans (length_addWave _ _ _)

theorem addWaveThen_eq (Koeff A B : Nat) : addWaveThen Koeff Ys A B k = k (addWave Koeff Ys A B) := by
  induction Ys generalizing A B k with
  | nil => rfl
  | cons Y Ys ih => rw [addWaveThen, evaluate_eq, evaluate_eq, ih, addWave]

theorem wavesThen_eq (starts : List (Nat × Int × Int)) : wavesThen starts Ys k = k (waves starts Ys) := by
  induction starts generalizing Ys with
  | nil => rfl
  | cons start starts ih =>
    rw [wavesThen, evaluate_eq, evaluate_eq, addWaveThen_eq, ih]
    rfl

theorem levelsThen_spec (h : levelsThen Ys k = true) :
    (∀ x ∈ Ys.map level, FitsInt16 x) ∧ k ((Ys.map level).map sample) = true := by
  induction Ys generalizing k with
  | nil => exact ⟨nofun, h⟩
  | cons Y Ys ih =>
    rw [levelsThen, evaluate_eq, Bool.and_eq_true, Bool.and_eq_true] at h
    obtain ⟨⟨hle, hlt⟩, h⟩ := h
    have hle := Nat.le_of_ble_eq_true hle
    have hlt := Nat.blt_eq.mp hlt
    have hlevel : level Y = Y / 2 ^ 8 - 10 * 2 ^ 20 := rfl
    have hsample : sample (level Y) = Y / 2 ^ 8 + 2 ^ 15 - 10 * 2 ^ 20 := by
      rw [sample]
      omega
    rw [evaluate_eq, ← hsample] at h
    obtain ⟨hfits, hk⟩ := ih h
    exact ⟨List.forall_mem_cons.mpr ⟨⟨by omega, by omega⟩, hfits⟩, hk⟩

theorem sum_natAbs (xs : List Int) : ((xs.map Int.natAbs).sum : Int) = (xs.map fun x => |x|).sum := by
  induction xs with
  | nil => rfl
  | cons x xs ih => rw [List.map_cons, List.map_cons, List.sum_cons, List.sum_cons, Nat.cast_add, Int.natCast_natAbs, ih]

theorem absThen_eq {xs : List Int} (hxs : ∀ x ∈ xs, FitsInt16 x) (Sum : Nat) {k : Nat → Bool} :
    absThen (xs.map sample) Sum k = k (Sum + (xs.map Int.natAbs).sum) := by
  induction xs generalizing Sum with
  | nil => rfl
  | cons x xs ih =>
    obtain ⟨hx, hxs⟩ := List.forall_mem_cons.mp hxs
    have hX := cast_sample hx
    have hSum : Sum + (sample x - 2 ^ 15) + (2 ^ 15 - sample x) = Sum + x.natAbs := by omega
    rw [List.map_cons, absThen, evaluate_eq, ih hxs, hSum, List.map_cons, List.sum_cons, Nat.add_assoc]

end Samples

/-! ### The oscillations -/

/-- The ten oscillations, in 256ths. -/
def starts : List (Nat × Int × Int) :=
  [(27860, 3369234, 3139170), (26745, -20721, 15449), (25529, 4049, 8997), (24216, -13765, 3077), (19747, 328, 7488),
    (16384, -1201, 6943), (12773, -2627, 6214), (8967, -3457, 5482), (21319, -9972, 1648), (29769, 4820954, 4928145)]

/-- The sum of the oscillations. -/
def levels : List Int := (waves starts (List.replicate 2700 0)).map level

/-- The magnitudes of the dial tones. -/
def dialTones : List Int32 := [Int32.minValue, 0, 0, 0, 0, 0, 0, 0, 0, -3]

/-- The last states of one resonator make the magnitude. -/
def makes (Koeff : Int16) (T : Int32) (A B : Int) : Bool :=
  decide (Recd2.magnitude Koeff (Int32.ofInt A) (Int32.ofInt B) = T)

/-- The samples are loud and the resonators end with the magnitudes. -/
def levelsCheck : Bool :=
  wavesThen starts (List.replicate 2700 0) fun Ys => levelsThen Ys fun Xs =>
    Xs.any (Nat.ble (2 ^ 15 + 2 ^ 14)) && absThen Xs 0 (Nat.ble (328 * 65535)) &&
      ((DtmfDetector.CONSTANTS.take 10).zip dialTones).all fun p =>
        runRaised p.1.toInt.toNat Xs (raised 0) (raised 0) fun A B => makes p.1 p.2 (A - offset) (B - offset)

theorem levelsCheck_eq : levelsCheck = true := by decide +kernel

theorem bounds_of_dialTone : ∀ Koeff ∈ DtmfDetector.CONSTANTS.take 10, 0 ≤ Koeff.toInt ∧ Koeff.toInt ≤ 32766 :=
  List.forall_iff_forall_mem.mp (by decide)

/-- What the check says. -/
theorem levels_spec : (∀ x ∈ levels, FitsInt16 x) ∧ (∃ x ∈ levels, 2 ^ 14 ≤ x) ∧
    328 * 65535 ≤ (levels.map Int.natAbs).sum ∧
    ∀ p ∈ (DtmfDetector.CONSTANTS.take 10).zip dialTones, (∀ ys, ys <+: levels → Inside (states p.1.toInt ys)) ∧
      Recd2.magnitude p.1 (Int32.ofInt (states p.1.toInt levels).1) (Int32.ofInt (states p.1.toInt levels).2) = p.2 := by
  have hcheck := levelsCheck_eq
  rw [levelsCheck, wavesThen_eq] at hcheck
  obtain ⟨hfits, hcheck⟩ := levelsThen_spec hcheck
  rw [← levels] at hfits hcheck
  rw [Bool.and_eq_true, Bool.and_eq_true, absThen_eq hfits, Nat.zero_add, List.all_eq_true, List.any_eq_true] at hcheck
  obtain ⟨⟨⟨X, hX, hloud⟩, hsum⟩, hruns⟩ := hcheck
  refine ⟨hfits, ?_, Nat.le_of_ble_eq_true hsum, fun p hp => ?_⟩
  · obtain ⟨x, hx, rfl⟩ := List.mem_map.mp hX
    have hle := Nat.le_of_ble_eq_true hloud
    have hcast := cast_sample (hfits x hx)
    exact ⟨x, hx, by omega⟩
  · have hKoeff : 0 ≤ p.1.toInt ∧ p.1.toInt ≤ 32766 := bounds_of_dialTone _ (List.of_mem_zip hp).1
    have hcast : ((p.1.toInt.toNat : Nat) : Int) = p.1.toInt := Int.toNat_of_nonneg hKoeff.1
    obtain ⟨hinside, hmakes⟩ := @runRaised_spec p.1.toInt.toNat (0, 0) levels (by omega) ⟨by decide, by decide⟩ hfits _
      (hruns p hp)
    rw [hcast] at hinside hmakes
    have hlast : Inside (states p.1.toInt levels) := hinside levels List.prefix_rfl
    rw [← states, raised_sub hlast.fst, raised_sub hlast.snd] at hmakes
    exact ⟨hinside, of_decide_eq_true hmakes⟩

end Unbounded

/-! ### The blocks -/

namespace DtmfDetector

/-- The last samples of a block that traps. -/
def waveSamples : List Int16 := Unbounded.levels.map Int16.ofInt

/-- A block that traps, with `n` zeros in front. -/
def longBlock (n : Nat) : List Int16 := List.replicate n 0 ++ waveSamples

theorem toInt_waveSamples : waveSamples.map Int16.toInt = Unbounded.levels := by
  rw [waveSamples, List.map_map]
  refine (List.map_congr_left fun x hx => ?_).trans (List.map_id _)
  obtain ⟨hle, hlt⟩ := Unbounded.levels_spec.1 x hx
  exact Int16.toInt_ofInt_of_le hle hlt

theorem length_waveSamples : waveSamples.length = 2700 := by
  rw [waveSamples, List.length_map, Unbounded.levels, List.length_map, Unbounded.length_waves, List.length_replicate]

theorem length_longBlock (n : Nat) : (longBlock n).length = n + 2700 := by
  rw [longBlock, List.length_append, List.length_replicate, length_waveSamples]

theorem toInt_longBlock (n : Nat) : (longBlock n).map Int16.toInt = List.replicate n 0 ++ Unbounded.levels := by
  rw [longBlock, List.map_append, List.map_replicate, toInt_waveSamples]
  rfl

/-- The block is loud enough not to be shifted. -/
theorem normalised_longBlock (n : Nat) : normalised (longBlock n) = longBlock n := by
  obtain ⟨x, hx, hloud⟩ := Unbounded.levels_spec.2.1
  have hmem : x ∈ (longBlock n).map Int16.toInt := by
    rw [toInt_longBlock]
    exact List.mem_append_right _ hx
  rw [normalised, internalArray_of_loud hmem hloud, List.map_map]
  exact (List.map_congr_left fun x _ => Int16.ofInt_toInt x).trans (List.map_id _)

theorem resonate_zero : ∀ Koeff ∈ CONSTANTS, resonate Koeff (0, 0) 0 = (0, 0) := List.forall_iff_forall_mem.mp (by decide)

/-- Zeros do not move a resonator that is at rest. -/
theorem resonated_longBlock {Koeff : Int16} (hKoeff : Koeff ∈ CONSTANTS) (n : Nat) :
    resonated Koeff (longBlock n) = resonated Koeff waveSamples := by
  have hzeros : ∀ m, (List.replicate m (0 : Int16)).foldl (resonate Koeff) (0, 0) = (0, 0) := fun m => by
    induction m with
    | zero => rfl
    | succ m ih => rw [List.replicate_succ, List.foldl_cons, resonate_zero Koeff hKoeff, ih]
  rw [resonated, longBlock, List.foldl_append, hzeros]
  rfl

theorem magnitude_longBlock {p : Int16 × Int32} (hp : p ∈ (CONSTANTS.take 10).zip Unbounded.dialTones) (n : Nat) :
    magnitude p.1 (resonated p.1 (longBlock n)).1 (resonated p.1 (longBlock n)).2 = p.2 := by
  obtain ⟨-, -, -, hruns⟩ := Unbounded.levels_spec
  obtain ⟨hinside, hmagnitude⟩ := hruns p hp
  have hKoeff : p.1 ∈ CONSTANTS := List.mem_of_mem_take (List.of_mem_zip hp).1
  have hfits : Unbounded.FilterFits p.1.toInt Unbounded.levels :=
    Unbounded.filterFits hKoeff fun ys hys => (hinside ys hys).fst.le
  rw [← toInt_waveSamples] at hfits
  have hstates := toInt_resonated (Unbounded.min_lt_of_mem _ hKoeff) hfits
  rw [toInt_waveSamples] at hstates
  obtain ⟨hfst, hsnd⟩ := Prod.ext_iff.mp hstates
  dsimp only at hfst hsnd
  rw [← hfst, ← hsnd, Int32.ofInt_toInt, Int32.ofInt_toInt] at hmagnitude
  rw [resonated_longBlock hKoeff, hmagnitude]

theorem getD_tonesOf_longBlock (n : Nat) {i : Nat} (hi : i < 10) :
    (tonesOf (longBlock n)).getD i 0 = Unbounded.dialTones.getD i 0 := by
  have hzip : i < ((CONSTANTS.take 10).zip Unbounded.dialTones).length := hi
  have hconstants : i < CONSTANTS.length := Nat.lt_of_lt_of_le hi (by decide)
  have hdial : i < Unbounded.dialTones.length := hi
  have hmagnitude := magnitude_longBlock (List.getElem_mem hzip) n
  rw [List.getElem_zip, List.getElem_take] at hmagnitude
  rw [tonesOf, normalised_longBlock, List.getD_eq_getElem _ _ (by rwa [List.length_map]), List.getElem_map,
    List.getD_eq_getElem _ _ hdial]
  exact hmagnitude

/-! ### The comparison with the average -/

section Congr
variable {T T' : List Int32} (h : ∀ i < 10, T.getD i 0 = T'.getD i 0)
include h

theorem maxTone_congr {first : Nat} (hfirst : first ≤ 4) : maxTone T first = maxTone T' first := by
  rw [maxTone, maxTone]
  refine congrArg Prod.fst (List.foldl_ext _ _ _ fun s i hi => ?_)
  have hi : i < 4 := List.mem_range.mp hi
  rw [h (first + i) (by omega)]

theorem average_congr {Row Column : Nat} (hrow : Row < 10) (hcolumn : Column < 10) :
    average T Row Column = average T' Row Column := by
  have hsum : (List.range 10).foldl (fun Sum i => Sum + T.getD i 0) 0 =
      (List.range 10).foldl (fun Sum i => Sum + T'.getD i 0) 0 :=
    List.foldl_ext _ _ _ fun Sum i hi => by rw [h i (List.mem_range.mp hi)]
  rw [average, average, hsum, h Row hrow, h Column hcolumn]

/-- Whether the comparison traps depends on the dial tones only. -/
theorem trapping_congr : Trapping T (maxTone T 0) (maxTone T 4) ↔ Trapping T' (maxTone T' 0) (maxTone T' 4) := by
  obtain ⟨-, hrow⟩ := maxTone_mem T' 0
  obtain ⟨-, hcolumn⟩ := maxTone_mem T' 4
  rw [maxTone_congr h (Nat.zero_le 4), maxTone_congr h (Nat.le_refl 4), Trapping, Trapping,
    average_congr h (by omega) (by omega), h _ (by omega), h _ (by omega)]

end Congr

/-! ### The result -/

theorem le_absSum_longBlock {n : Nat} (hn : n + 2700 < 65536) : 328 * 65535 ≤ (absSum (longBlock n)).toInt := by
  have hle := Unbounded.levels_spec.2.2.1
  rw [toInt_absSum (by rwa [length_longBlock]), Unbounded.absSum_eq_sum, toInt_longBlock, List.map_append, List.sum_append,
    List.map_replicate, List.sum_replicate, abs_zero, smul_zero, Int.zero_add, ← Unbounded.sum_natAbs]
  exact Int.ofNat_le.mpr hle

/-- From 2700 samples on, and where the counter of the filter does not wrap around, there is a block that traps. -/
theorem exists_traps {SAMPLES : Int32} (hle : 2700 ≤ SAMPLES.toInt) (hlt : SAMPLES.toInt < 65536) :
    ∃ block : List Int16, block.length = SAMPLES.toInt.toNat ∧ Traps SAMPLES block := by
  obtain ⟨n, hn⟩ : ∃ n : Nat, SAMPLES.toInt = n + 2700 := ⟨(SAMPLES.toInt - 2700).toNat, by omega⟩
  have hsum := le_absSum_longBlock (n := n) (by omega)
  refine ⟨longBlock n, by rw [length_longBlock]; omega, ?_, ?_⟩
  · exact not_div_lt (by omega) (by decide) (Int.le_trans (show 328 * SAMPLES.toInt ≤ 328 * 65535 by omega) hsum)
  · exact (trapping_congr fun _ hi => getD_tonesOf_longBlock _ hi).mpr (by decide)

end DtmfDetector
end Recd2
