import Mathlib.Data.Nat.Digits.Defs
import Mathlib.Tactic.Ring

/-! Numbers that hold a list of numbers, each in its own bits. An operation on two of them does the operation in every lane, as
    long as no lane gets too large and nothing is subtracted from a smaller number. -/

namespace Recd2.Lanes
variable {ι : Type} {w : Nat} {is js : List ι} {f g : ι → Nat}

/-- The numbers of the indices, each in `w` bits. -/
def pack (w : Nat) (is : List ι) (f : ι → Nat) : Nat := Nat.ofDigits (2 ^ w) (is.map f)

/-- A one in each of `n` lanes. -/
def ones (w n : Nat) : Nat := (2 ^ (w * n) - 1) / (2 ^ w - 1)

/-! ### Operations without a carry -/

theorem pack_cons (i : ι) : pack w (i :: is) f = f i + 2 ^ w * pack w is f := Nat.ofDigits_cons

theorem pack_singleton (i : ι) : pack w [i] f = f i := Nat.ofDigits_singleton

theorem pack_congr (h : ∀ i ∈ is, f i = g i) : pack w is f = pack w is g :=
  congrArg (Nat.ofDigits (2 ^ w)) (List.map_congr_left h)

theorem pack_map {κ : Type} (h : κ → ι) (ks : List κ) : pack w (ks.map h) f = pack w ks fun k => f (h k) := by
  rw [pack, pack, List.map_map]
  rfl

theorem pack_append (w : Nat) (is js : List ι) (f : ι → Nat) :
    pack w (is ++ js) f = pack w is f + 2 ^ (w * is.length) * pack w js f := by
  rw [pack, List.map_append, Nat.ofDigits_append, List.length_map, ← pow_mul]
  rfl

theorem add_pack (w : Nat) (is : List ι) (f g : ι → Nat) : pack w is f + pack w is g = pack w is fun i => f i + g i := by
  induction is with
  | nil => rfl
  | cons i is ih =>
    rw [pack_cons, pack_cons, pack_cons, ← ih]
    ring

theorem mul_pack (w c : Nat) (is : List ι) (f : ι → Nat) : c * pack w is f = pack w is fun i => c * f i := by
  rw [pack, Nat.mul_ofDigits, List.map_map]
  rfl

theorem sub_pack (h : ∀ i ∈ is, g i ≤ f i) : pack w is f - pack w is g = pack w is fun i => f i - g i := by
  have hsum : pack w is f = (pack w is fun i => f i - g i) + pack w is g := by
    rw [add_pack]
    exact pack_congr fun i hi => (Nat.sub_add_cancel (h i hi)).symm
  rw [hsum, Nat.add_sub_cancel]

theorem sum_pack {κ : Type} (w : Nat) (is : List ι) (ks : List κ) (f : κ → ι → Nat) :
    (ks.map fun k => pack w is (f k)).sum = pack w is fun i => (ks.map fun k => f k i).sum := by
  induction ks with
  | nil => exact (Nat.zero_mul _).symm.trans (mul_pack w 0 is fun _ => 0)
  | cons k ks ih =>
    rw [List.map_cons, List.sum_cons, ih, add_pack]
    rfl

theorem pack_one (hw : 0 < w) (is : List ι) : pack w is (fun _ => 1) = ones w is.length := by
  have hbase : 0 < 2 ^ w - 1 := Nat.sub_pos_of_lt (Nat.one_lt_two_pow hw.ne')
  have hmul : (2 ^ w - 1) * pack w is (fun _ => 1) + 1 = 2 ^ (w * is.length) := by
    induction is with
    | nil => rfl
    | cons i is ih =>
      have hle := Nat.one_le_two_pow (n := w)
      obtain ⟨b, hb⟩ : ∃ b, 2 ^ w = b + 1 := ⟨2 ^ w - 1, by omega⟩
      rw [List.length_cons, Nat.mul_succ, pow_add, ← ih, pack_cons, hb, Nat.add_sub_cancel]
      ring
  rw [ones, ← hmul, Nat.add_sub_cancel, Nat.mul_div_cancel_left _ hbase]

theorem mul_ones (hw : 0 < w) (c : Nat) (is : List ι) : c * ones w is.length = pack w is fun _ => c := by
  rw [← pack_one hw, mul_pack]
  exact pack_congr fun i _ => Nat.mul_one c

/-! ### The bits of the lanes -/

section Bounded
variable (hf : ∀ i ∈ is, f i < 2 ^ w)
include hf

theorem lt_of_mem_map : ∀ x ∈ is.map f, x < 2 ^ w := List.forall_mem_map.mpr hf

/-- Some of the lanes. -/
theorem slice_pack (j n : Nat) : pack w is f / 2 ^ (w * j) % 2 ^ (w * n) = pack w ((is.drop j).take n) f := by
  have hlt := lt_of_mem_map hf
  rw [pack, pow_mul, pow_mul, Nat.ofDigits_div_pow_eq_ofDigits_drop j (Nat.two_pow_pos w) _ hlt,
    Nat.ofDigits_mod_pow_eq_ofDigits_take n (Nat.two_pow_pos w) _ fun x hx => hlt x (List.mem_of_mem_drop hx),
    ← List.map_drop, ← List.map_take]
  rfl

theorem eq_of_pack_eq (hw : 0 < w) (hg : ∀ i ∈ is, g i < 2 ^ w) (h : pack w is f = pack w is g) : ∀ i ∈ is, f i = g i :=
  List.map_inj_left.mp (Nat.ofDigits_inj_of_len_eq (Nat.one_lt_two_pow hw.ne') (by rw [List.length_map, List.length_map])
    (lt_of_mem_map hf) (lt_of_mem_map hg) h)

theorem land_pack (hg : ∀ i ∈ is, g i < 2 ^ w) : pack w is f &&& pack w is g = pack w is fun i => f i &&& g i := by
  induction is with
  | nil => exact Nat.zero_and 0
  | cons i is ih =>
    obtain ⟨hfi, hf⟩ := List.forall_mem_cons.mp hf
    obtain ⟨hgi, hg⟩ := List.forall_mem_cons.mp hg
    have hpos := Nat.two_pow_pos w
    rw [pack_cons, pack_cons, pack_cons, ← ih hf hg, ← Nat.mod_add_div ((f i + _) &&& _) (2 ^ w), Nat.and_mod_two_pow,
      Nat.and_div_two_pow, Nat.add_mul_mod_self_left, Nat.add_mul_mod_self_left, Nat.mod_eq_of_lt hfi,
      Nat.mod_eq_of_lt hgi, Nat.add_mul_div_left _ _ hpos, Nat.add_mul_div_left _ _ hpos, Nat.div_eq_of_lt hfi,
      Nat.div_eq_of_lt hgi, Nat.zero_add, Nat.zero_add]

end Bounded

/-! ### Operations on every lane -/

/-- The quotients by `2 ^ k`. -/
def quotients (ones k P : Nat) : Nat := (P - (P &&& (2 ^ k - 1) * ones)) / 2 ^ k

/-- All the quotients by `2 ^ k` are the same number. -/
def within (ones k c P : Nat) : Bool := Nat.beq ((P &&& (2 ^ k - 1) * ones) + 2 ^ k * c * ones) P

/-- No lane of `P` is above the one of `Q`. -/
def below (ones k P Q : Nat) : Bool := within ones k 1 (Q + 2 ^ k * ones - P)

/-- The products with the numbers of `m` bits in `Q`. -/
def products (ones m : Nat) : Nat → Nat → Nat → Nat
  | 0, _, _ => 0
  | bits + 1, P, Q => ((P &&& ones) * (2 ^ m - 1) &&& Q) + 2 * products ones m bits (quotients ones 1 P) Q

section Lanewise
variable {k m bits : Nat} (hw : 0 < w)
include hw

theorem land_mask_pack (hk : k ≤ w) (hf : ∀ i ∈ is, f i < 2 ^ w) :
    pack w is f &&& (2 ^ k - 1) * ones w is.length = pack w is fun i => f i % 2 ^ k := by
  have hmask : ∀ i ∈ is, 2 ^ k - 1 < 2 ^ w := fun _ _ =>
    Nat.lt_of_lt_of_le (Nat.sub_lt (Nat.two_pow_pos k) Nat.one_pos) (Nat.pow_le_pow_right Nat.two_pos hk)
  rw [mul_ones hw, land_pack hf hmask]
  exact pack_congr fun i _ => Nat.and_two_pow_sub_one_eq_mod (f i) k

theorem quotients_pack (hk : k ≤ w) (hf : ∀ i ∈ is, f i < 2 ^ w) :
    quotients (ones w is.length) k (pack w is f) = pack w is fun i => f i / 2 ^ k := by
  have hsub : pack w is f - (pack w is fun i => f i % 2 ^ k) = 2 ^ k * pack w is fun i => f i / 2 ^ k := by
    rw [sub_pack fun i _ => Nat.mod_le _ _, mul_pack]
    refine pack_congr fun i _ => ?_
    have := Nat.mod_add_div (f i) (2 ^ k)
    omega
  rw [quotients, land_mask_pack hw hk hf, hsub, Nat.mul_div_cancel_left _ (Nat.two_pow_pos k)]

theorem div_eq_of_within (hk : k ≤ w) (hf : ∀ i ∈ is, f i < 2 ^ w) {c : Nat} (hc : 2 ^ k * (c + 1) ≤ 2 ^ w)
    (h : within (ones w is.length) k c (pack w is f) = true) : ∀ i ∈ is, f i / 2 ^ k = c := by
  have hpos := Nat.two_pow_pos k
  have h : _ = pack w is f := Nat.eq_of_beq_eq_true h
  rw [land_mask_pack hw hk hf, mul_ones hw, add_pack] at h
  intro i hi
  have heq : f i % 2 ^ k + 2 ^ k * c = f i := eq_of_pack_eq (fun i _ => by
    have hlt := Nat.mod_lt (f i) hpos
    rw [Nat.mul_succ] at hc
    omega) hw hf h i hi
  rw [← heq, Nat.add_mul_div_left _ _ hpos, Nat.div_eq_of_lt (Nat.mod_lt _ hpos), Nat.zero_add]

theorem le_of_below (hk : k < w) (hf : ∀ i ∈ is, f i < 2 ^ k) (hg : ∀ i ∈ is, g i < 2 ^ k)
    (h : below (ones w is.length) k (pack w is f) (pack w is g) = true) : ∀ i ∈ is, f i ≤ g i := by
  have hpow : 2 ^ k * (1 + 1) ≤ 2 ^ w := by
    rw [← pow_succ]
    exact Nat.pow_le_pow_right Nat.two_pos hk
  have hsub : (pack w is fun i => g i + 2 ^ k) - pack w is f = pack w is fun i => g i + 2 ^ k - f i :=
    sub_pack fun i hi => by
      have := hf i hi
      omega
  rw [below, mul_ones hw, add_pack, hsub] at h
  intro i hi
  have hone : (g i + 2 ^ k - f i) / 2 ^ k = 1 := div_eq_of_within hw hk.le (fun i hi => by have := hg i hi; omega) hpow h i hi
  have hle := Nat.div_mul_le_self (g i + 2 ^ k - f i) (2 ^ k)
  rw [hone] at hle
  have := hf i hi
  omega

theorem products_pack (hm : m ≤ w) (hf : ∀ i ∈ is, f i < 2 ^ w) (hbits : ∀ i ∈ is, f i < 2 ^ bits)
    (hg : ∀ i ∈ is, g i < 2 ^ m) :
    products (ones w is.length) m bits (pack w is f) (pack w is g) = pack w is fun i => f i * g i := by
  induction bits generalizing f with
  | zero =>
    have hzero : ∀ i ∈ is, f i * g i = 0 * 1 := fun i hi => by
      have := hbits i hi
      rw [Nat.lt_one_iff.mp this, Nat.zero_mul]
    rw [products, pack_congr hzero, ← mul_pack (f := fun _ => 1), Nat.zero_mul]
  | succ bits ih =>
    have hone : 1 < 2 ^ w := Nat.one_lt_two_pow hw.ne'
    have hle : 2 ^ m ≤ 2 ^ w := Nat.pow_le_pow_right Nat.two_pos hm
    have hpos := Nat.two_pow_pos m
    have hbit : pack w is f &&& ones w is.length = pack w is fun i => f i % 2 := by
      rw [← pack_one hw, land_pack hf fun _ _ => hone]
      exact pack_congr fun i _ => Nat.and_two_pow_sub_one_eq_mod (f i) 1
    have hmask : ∀ i ∈ is, (2 ^ m - 1) * (f i % 2) < 2 ^ w := fun i _ => by
      rcases Nat.mod_two_eq_zero_or_one (f i) with h | h <;> rw [h] <;> omega
    have hhalf := ih (f := fun i => f i / 2 ^ 1) (fun i hi => (Nat.div_le_self _ _).trans_lt (hf i hi)) fun i hi =>
      Nat.div_lt_of_lt_mul (by rw [← pow_add, Nat.add_comm]; exact hbits i hi)
    rw [products, hbit, quotients_pack hw hw hf, hhalf, Nat.mul_comm _ (2 ^ m - 1), mul_pack,
      land_pack hmask fun i hi => (hg i hi).trans_le hle, mul_pack, add_pack]
    refine pack_congr fun i hi => ?_
    have hsplit : f i * g i = (f i % 2) * g i + 2 * (f i / 2 ^ 1 * g i) := by
      conv_lhs => rw [← Nat.mod_add_div (f i) 2]
      rw [pow_one]
      ring
    rw [hsplit]
    congr 1
    rcases Nat.mod_two_eq_zero_or_one (f i) with h | h <;> rw [h]
    · rw [Nat.mul_zero, Nat.zero_and, Nat.zero_mul]
    · rw [Nat.mul_one, Nat.one_mul, Nat.and_comm, Nat.and_two_pow_sub_one_of_lt_two_pow (hg i hi)]

end Lanewise
end Recd2.Lanes
