import Recd2.Theorems.Unbounded
import Mathlib.Tactic.Linarith
import Mathlib.Tactic.Positivity

/-! The sum of the absolute values and the normalised samples of a block. They have their exact values in every block of
    less than 65536 samples. -/

namespace Recd2
open Checked Width

/-! ### The shift of one sample -/

namespace Unbounded

theorem normLoop_le (rounds : Nat) (L : Int) : normLoop rounds L ≤ rounds := by
  induction rounds generalizing L with
  | zero => exact Nat.le_refl 0
  | succ rounds ih =>
    rw [normLoop]
    split_ifs
    · exact Nat.succ_le_succ (ih _)
    · exact Nat.zero_le _

/-- The number that is shifted stays below `2 ^ 31`. -/
theorem mul_two_pow_normLoop {L : Int} (hlt : L < 2 ^ 31) (rounds : Nat) : L * 2 ^ normLoop rounds L < 2 ^ 31 := by
  induction rounds generalizing L with
  | zero =>
    rw [normLoop]
    omega
  | succ rounds ih =>
    rw [normLoop]
    split_ifs with h
    · calc L * 2 ^ (normLoop rounds (2 * L) + 1) = 2 * L * 2 ^ normLoop rounds (2 * L) := by ring
        _ < 2 ^ 31 := ih (by omega)
    · omega

/-- A number below `2 ^ (31 - k)` is shifted by `k` at least. -/
theorem le_normLoop {k rounds : Nat} (hk : k ≤ rounds) {L : Int} (hpos : 0 < L) (hlt : L * 2 ^ k < 2 ^ 31) :
    k ≤ normLoop rounds L := by
  induction k generalizing rounds L with
  | zero => exact Nat.zero_le _
  | succ k ih =>
    obtain ⟨rounds, rfl⟩ : ∃ r, rounds = r + 1 := ⟨rounds - 1, by omega⟩
    have hdouble : 2 * L * 2 ^ k < 2 ^ 31 := by
      calc 2 * L * 2 ^ k = L * 2 ^ (k + 1) := by ring
        _ < 2 ^ 31 := hlt
    have hle : 2 * L ≤ 2 * L * 2 ^ k := le_mul_of_one_le_right (by omega) (one_le_pow₀ (by decide))
    rw [normLoop, if_pos (by omega)]
    exact Nat.succ_le_succ (ih (by omega) (by omega) hdouble)

/-- The number that `norm_l` shifts, for a sample. -/
theorem norm_l_pos {x : Int} (hx : 0 < x) : norm_l x = normLoop 30 x := by
  rw [norm_l, if_neg (by omega), if_neg (by omega), if_neg (by omega)]

theorem norm_l_neg {x : Int} (hx : x < -1) : norm_l x = normLoop 30 (-x - 1) := by
  rw [norm_l, if_neg (by omega), if_neg (by omega), if_pos (by omega)]

theorem mul_two_pow_lt {L : Int} (hpos : 0 < L) (hlt : L < 2 ^ 15) {k : Nat} (hk : k + 16 ≤ normLoop 30 L) :
    L * 2 ^ k < 2 ^ 15 := by
  have hle : L * 2 ^ k * 2 ^ 16 ≤ L * 2 ^ normLoop 30 L := by
    calc L * 2 ^ k * 2 ^ 16 = L * 2 ^ (k + 16) := by ring
      _ ≤ L * 2 ^ normLoop 30 L := mul_le_mul_of_nonneg_left (pow_le_pow_right₀ (by decide) hk) hpos.le
  have hlt := mul_two_pow_normLoop (L := L) (by omega) 30
  omega

/-- A sample has room for the shift, and for less. -/
theorem norm_l_fits {x : Int} (hfits : FitsInt16 x) (hx : x ≠ 0) :
    16 ≤ norm_l x ∧ ∀ k : Nat, k ≤ norm_l x - 16 → FitsInt16 (x * 2 ^ k) := by
  obtain ⟨hle, hlt⟩ := hfits
  rcases lt_trichotomy x (-1) with hneg | rfl | hpos
  · rw [norm_l_neg hneg]
    have hleast : 16 ≤ normLoop 30 (-x - 1) := le_normLoop (by decide) (by omega) (by omega)
    have hmost := normLoop_le 30 (-x - 1)
    refine ⟨by omega, fun k hk => ?_⟩
    have hlt' := mul_two_pow_lt (L := -x - 1) (by omega) (by omega) (k := k) (by omega)
    -- A bound by a power of two holds up to the power itself for the next number.
    have hpow : (2 : Int) ^ 15 = 2 ^ (15 - k) * 2 ^ k := by rw [← pow_add]; congr 1; omega
    have hnext : -x ≤ 2 ^ (15 - k) := by
      have : -x - 1 < 2 ^ (15 - k) := lt_of_mul_lt_mul_right (hpow ▸ hlt') (by positivity)
      omega
    have hmul : -x * 2 ^ k ≤ 2 ^ 15 := hpow ▸ mul_le_mul_of_nonneg_right hnext (by positivity)
    have hnonpos : x * 2 ^ k ≤ 0 := mul_nonpos_of_nonpos_of_nonneg (by omega) (by positivity)
    exact ⟨by linarith, by linarith⟩
  · refine ⟨by decide, fun k hk => ?_⟩
    have hk : k ≤ 15 := by
      have : norm_l (-1) = 31 := rfl
      omega
    have hpow : (2 : Int) ^ k ≤ 2 ^ 15 := pow_le_pow_right₀ (by decide) hk
    have hpos : (0 : Int) < 2 ^ k := by positivity
    exact ⟨by omega, by omega⟩
  · have hpos : 0 < x := by omega
    rw [norm_l_pos hpos]
    have hleast : 16 ≤ normLoop 30 x := le_normLoop (by decide) hpos (by omega)
    refine ⟨by omega, fun k hk => ?_⟩
    have hnonneg : 0 ≤ x * 2 ^ k := by positivity
    exact ⟨by omega, mul_two_pow_lt hpos hlt (by omega)⟩

end Unbounded

/-- The loop of the code makes the same rounds. -/
theorem toInt_normLoop {rounds fuel : Nat} (hfuel : rounds ≤ fuel) {v : Int16} (hv : v.toInt + rounds < 2 ^ 15) {L : Int32}
    (hpos : 0 < L.toInt) (hlast : 2 ^ 30 ≤ L.toInt * 2 ^ rounds) :
    Yields (fun _ => False) (fun t : Int16 × Int32 => t.1.toInt = v.toInt + Unbounded.normLoop rounds L.toInt)
      (whileLoop (fun (_, L_var1) => L_var1 < 0x40000000) (fun (var_out, L_var1) => .ok (var_out + 1, L_var1 <<< 1)) fuel (v, L)) := by
  induction rounds generalizing fuel v L with
  | zero =>
    refine whileLoop_yields_of_not (decide_eq_false fun h => ?_) (Int.add_zero _).symm
    have hlt : L.toInt < 2 ^ 30 := Int32.lt_iff_toInt_lt.mp h
    omega
  | succ rounds ih =>
    obtain ⟨fuel, rfl⟩ : ∃ f, fuel = f + 1 := ⟨fuel - 1, by omega⟩
    rw [Unbounded.normLoop]
    by_cases hlt : L.toInt < 0x40000000
    · have hdouble : (L <<< 1).toInt = 2 * L.toInt := toInt_shiftLeft_one ⟨by omega, by omega⟩
      have hnext : (v + 1).toInt = v.toInt + 1 := by
        have hle := v.le_toInt
        rw [Int16.toInt_add]
        exact Int.bmod_eq_of_le (by show _ ≤ v.toInt + 1; omega) (by show v.toInt + 1 < _; omega)
      rw [if_pos hlt]
      refine whileLoop_yields_succ (decide_eq_true (Int32.lt_iff_toInt_lt.mpr hlt)) ?_
      refine (ih (v := v + 1) (L := L <<< 1) (by omega) (by omega) (by omega) ?_).mono fun t ht => ?_
      · calc (2 : Int) ^ 30 ≤ L.toInt * 2 ^ (rounds + 1) := hlast
          _ = (L <<< 1).toInt * 2 ^ rounds := by rw [hdouble]; ring
      · rw [ht, hnext, hdouble]
        push_cast
        ring
    · rw [if_neg hlt]
      exact whileLoop_yields_of_not (decide_eq_false fun h => hlt (Int32.lt_iff_toInt_lt.mp h)) (Int.add_zero _).symm

theorem toInt_norm_l {fuel : Nat} (hfuel : 30 ≤ fuel) (L : Int32) :
    Yields (fun _ => False) (fun n => n.toInt = Unbounded.norm_l L.toInt) (norm_l fuel L) := by
  rw [norm_l, Unbounded.norm_l]
  by_cases hzero : L = 0
  · rw [if_pos hzero, hzero]
    rfl
  · by_cases hminus : L = -1
    · rw [if_neg hzero, if_pos hminus, hminus]
      rfl
    · have hne : L.toInt ≠ 0 := fun h => hzero (Int32.toInt_inj.mp h)
      have hne' : L.toInt ≠ -1 := fun h => hminus (Int32.toInt_inj.mp h)
      rw [if_neg hzero, if_neg hminus, if_neg hne, if_neg hne']
      have habs : (if L < 0 then ~~~L else L).toInt = if L.toInt < 0 then -L.toInt - 1 else L.toInt := by
        have hiff : L < 0 ↔ L.toInt < 0 := Int32.lt_iff_toInt_lt
        by_cases hneg : L.toInt < 0
        · rw [if_pos (hiff.mpr hneg), if_pos hneg, toInt_not]
        · rw [if_neg (mt hiff.mp hneg), if_neg hneg]
      have hpos : 0 < (if L < 0 then ~~~L else L).toInt := by
        rw [habs]
        split_ifs <;> omega
      rw [← habs]
      refine (toInt_normLoop hfuel (v := 0) (by decide) hpos (by omega)).bind fun t ht => ?_
      show t.1.toInt = _
      rw [ht]
      exact Int.zero_add _

/-! ### The shift of a block -/

theorem Unbounded.foldl_lowerDial {block : List Int} (hfits : ∀ x ∈ block, FitsInt16 x) {Dial : Int} (hDial : 16 ≤ Dial) :
    16 ≤ block.foldl lowerDial Dial ∧ block.foldl lowerDial Dial ≤ Dial ∧
      ∀ x ∈ block, x ≠ 0 → block.foldl lowerDial Dial ≤ norm_l x := by
  induction block generalizing Dial with
  | nil => exact ⟨hDial, le_rfl, nofun⟩
  | cons x xs ih =>
    have hlower : 16 ≤ lowerDial Dial x ∧ lowerDial Dial x ≤ Dial ∧ (x ≠ 0 → lowerDial Dial x ≤ norm_l x) := by
      rw [lowerDial]
      by_cases hx : x = 0
      · rw [if_neg (not_not.mpr hx)]
        exact ⟨hDial, le_rfl, fun h => absurd hx h⟩
      · have hleast := (norm_l_fits (hfits x List.mem_cons_self) hx).1
        rw [if_pos hx]
        split_ifs <;> refine ⟨?_, ?_, fun _ => ?_⟩ <;> omega
    obtain ⟨hleast, hmost, hsample⟩ := hlower
    obtain ⟨ihleast, ihmost, ihsample⟩ := ih (fun y hy => hfits y (List.mem_cons_of_mem _ hy)) hleast
    refine ⟨ihleast, ihmost.trans hmost, List.forall_mem_cons.mpr ⟨fun hx => ihmost.trans (hsample hx), ihsample⟩⟩

section Block
variable {block : List Int16} {fuel : Nat}

theorem fitsInt16_of_mem {x : Int} (h : x ∈ block.map Int16.toInt) : FitsInt16 x := by
  obtain ⟨y, -, rfl⟩ := List.mem_map.mp h
  exact fitsInt16_toInt y

/-- The shift of a block has room in each of its samples. -/
theorem normalDial_spec (block : List Int16) :
    0 ≤ Unbounded.normalDial (block.map Int16.toInt) ∧ Unbounded.normalDial (block.map Int16.toInt) ≤ 16 ∧
      ∀ x ∈ block.map Int16.toInt, x ≠ 0 → Unbounded.normalDial (block.map Int16.toInt) ≤ Unbounded.norm_l x - 16 := by
  have hfits : ∀ x ∈ block.map Int16.toInt, FitsInt16 x := fun x => fitsInt16_of_mem
  obtain ⟨hleast, hmost, hsample⟩ := Unbounded.foldl_lowerDial hfits (show (16 : Int) ≤ 32 by decide)
  rw [Unbounded.normalDial]
  refine ⟨by omega, by omega, fun x hx hzero => ?_⟩
  have hle := hsample x hx hzero
  omega

/-- The normalised samples fit in every block. -/
theorem internalArray_fits : ∀ x ∈ Unbounded.internalArray (block.map Int16.toInt), FitsInt16 x := by
  intro y hy
  obtain ⟨x, hx, rfl⟩ := List.mem_map.mp hy
  by_cases hzero : x = 0
  · rw [hzero, Int.zero_mul]
    decide
  · obtain ⟨hnonneg, -, hsample⟩ := normalDial_spec block
    refine (Unbounded.norm_l_fits (fitsInt16_of_mem hx) hzero).2 _ ?_
    rw [Int.toNat_of_nonneg hnonneg]
    exact hsample x hx hzero

theorem toInt_normalDial (hfuel : 30 ≤ fuel) (block : List Int16) :
    Yields (fun _ => False) (fun Dial => Dial.toInt = Unbounded.normalDial (block.map Int16.toInt))
      (DtmfDetector.normalDial fuel block) := by
  rw [DtmfDetector.normalDial, Unbounded.normalDial, List.foldl_map]
  refine (Yields.foldlM_foldl (Q := fun (D : Int32) (d : Int) => D.toInt = d ∧ 16 ≤ d ∧ d ≤ 32)
    (g := fun d (x : Int16) => Unbounded.lowerDial d x.toInt) ?_ ⟨rfl, by decide, by decide⟩).bind ?_
  · rintro D d x - ⟨rfl, hleast, hmost⟩
    have hiff : x.toInt32 ≠ 0 ↔ x.toInt ≠ 0 := by
      rw [Ne, ← Int32.toInt_inj, Int16.toInt_toInt32]
      rfl
    rw [Unbounded.lowerDial]
    by_cases hx : x.toInt = 0
    · rw [if_neg (mt hiff.mp (not_not.mpr hx)), if_neg (not_not.mpr hx)]
      exact ⟨rfl, hleast, hmost⟩
    · have hnorm := (Unbounded.norm_l_fits (fitsInt16_toInt x) hx).1
      rw [if_pos (hiff.mpr hx), if_pos hx]
      refine (toInt_norm_l hfuel x.toInt32).bind fun n hn => ?_
      rw [Int16.toInt_toInt32] at hn
      have hlt : n.toInt32 < D ↔ Unbounded.norm_l x.toInt < D.toInt := by
        rw [Int32.lt_iff_toInt_lt, Int16.toInt_toInt32, hn]
      by_cases h : Unbounded.norm_l x.toInt < D.toInt
      · rw [if_pos (hlt.mpr h), if_pos h]
        exact ⟨(Int16.toInt_toInt32 n).trans hn, hnorm, by omega⟩
      · rw [if_neg (mt hlt.mp h), if_neg h]
        exact ⟨rfl, hleast, hmost⟩
  · rintro D ⟨hD, hleast, hmost⟩
    show (D - 16).toInt = _
    rw [toInt_sub, hD]
    · rfl
    · rw [hD]
      exact ⟨by show _ ≤ _ - 16; omega, by show _ - 16 < _; omega⟩

theorem toInt_internalArray {Dial : Int32} (hDial : Dial.toInt = Unbounded.normalDial (block.map Int16.toInt)) :
    (block.map fun x => (x.toInt32 <<< Dial).toInt16).map Int16.toInt = Unbounded.internalArray (block.map Int16.toInt) := by
  obtain ⟨hnonneg, hmost, -⟩ := normalDial_spec block
  rw [Unbounded.internalArray, List.map_map, List.map_map]
  refine List.map_congr_left fun x hx => ?_
  have hfits : FitsInt16 (x.toInt * 2 ^ Dial.toInt.toNat) := by
    rw [hDial]
    exact internalArray_fits _ (List.mem_map.mpr ⟨x.toInt, List.mem_map_of_mem hx, rfl⟩)
  have hshift : (x.toInt32 <<< Dial).toInt = x.toInt * 2 ^ Dial.toInt.toNat := by
    rw [toInt_shiftLeft (by omega) (by omega)] <;> rw [Int16.toInt_toInt32]
    exact hfits.fitsInt32
  show (x.toInt32 <<< Dial).toInt16.toInt = _
  rw [toInt_toInt16, hshift, hDial]
  · rfl
  · rwa [hshift]

/-! ### The sum -/

theorem Unbounded.absSum_eq_sum (xs : List Int) : absSum xs = (xs.map fun x => |x|).sum := by
  induction xs using List.reverseRecOn with
  | nil => rfl
  | append_singleton xs x ih =>
    rw [absSum, List.foldl_append, List.map_append, List.sum_append, ← ih]
    show (if 0 ≤ x then absSum xs + x else absSum xs - x) = absSum xs + (|x| + 0)
    split_ifs with hx
    · rw [abs_of_nonneg hx, add_zero]
    · rw [abs_of_neg (not_le.mp hx), add_zero, sub_eq_add_neg]

theorem Unbounded.absSum_bounds {xs : List Int} (hfits : ∀ x ∈ xs, FitsInt16 x) :
    0 ≤ absSum xs ∧ absSum xs ≤ 2 ^ 15 * xs.length := by
  induction xs using List.reverseRecOn with
  | nil => decide
  | append_singleton xs x ih =>
    obtain ⟨hle, hlt⟩ := hfits x (List.mem_append_right _ (List.mem_singleton_self x))
    obtain ⟨hnonneg, hmost⟩ := ih fun y hy => hfits y (List.mem_append_left _ hy)
    rw [absSum, List.foldl_append, List.length_append]
    show 0 ≤ (if 0 ≤ x then absSum xs + x else absSum xs - x) ∧ (if 0 ≤ x then absSum xs + x else absSum xs - x) ≤ _
    push_cast [List.length_singleton]
    split_ifs <;> omega

theorem absSum_fits (hlen : block.length < 65536) :
    ∀ xs, xs <+: block.map Int16.toInt → FitsInt32 (Unbounded.absSum xs) := by
  intro xs hxs
  obtain ⟨hnonneg, hmost⟩ := Unbounded.absSum_bounds fun x (hx : x ∈ xs) => fitsInt16_of_mem (hxs.subset hx)
  have hle := hxs.length_le
  rw [List.length_map] at hle
  exact ⟨by omega, by omega⟩

theorem toInt_absSum (hlen : block.length < 65536) :
    (DtmfDetector.absSum block).toInt = Unbounded.absSum (block.map Int16.toInt) := by
  induction block using List.reverseRecOn with
  | nil => rfl
  | append_singleton xs x ih =>
    have hfits := absSum_fits hlen _ List.prefix_rfl
    rw [List.length_append] at hlen
    have ih := ih (by omega)
    rw [List.map_append, Unbounded.absSum, List.foldl_append] at hfits ⊢
    rw [DtmfDetector.absSum, List.foldl_append]
    change FitsInt32 (if 0 ≤ x.toInt then Unbounded.absSum (xs.map Int16.toInt) + x.toInt
      else Unbounded.absSum (xs.map Int16.toInt) - x.toInt) at hfits
    show (if 0 ≤ x then DtmfDetector.absSum xs + x.toInt32 else DtmfDetector.absSum xs - x.toInt32).toInt =
      if 0 ≤ x.toInt then Unbounded.absSum (xs.map Int16.toInt) + x.toInt
      else Unbounded.absSum (xs.map Int16.toInt) - x.toInt
    have hiff : 0 ≤ x ↔ 0 ≤ x.toInt := Int16.le_iff_toInt_le
    rw [← ih] at hfits ⊢
    by_cases hx : 0 ≤ x.toInt
    · rw [if_pos hx] at hfits ⊢
      rw [if_pos (hiff.mpr hx), toInt_add] <;> rw [Int16.toInt_toInt32]
      exact hfits
    · rw [if_neg hx] at hfits ⊢
      rw [if_neg (mt hiff.mp hx), toInt_sub] <;> rw [Int16.toInt_toInt32]
      exact hfits

end Block
end Recd2
