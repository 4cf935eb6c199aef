import Recd2.Lib.Lanes
import Recd2.Theorems.Tones

/-! The oscillators and the resonators in lanes of 44 bits, for many blocks at once. States are moved up, so that they are
    natural numbers, and the moves do not change what is rounded. -/

namespace Recd2
open Width Lanes
namespace Unbounded

/-! ### Numbers that are moved up -/

/-- What states are moved up by. -/
def moved : Nat := 5 * 2 ^ 21

/-- A state in a lane. -/
def up (n : Int) : Nat := (n + moved).toNat

/-- A sample in a lane. -/
def sample (x : Int) : Nat := (x + 2 ^ 15).toNat

/-- Twice the coefficient, moved up by two. -/
def factor (Koeff : Int) : Nat := (2 * Koeff + 2 ^ 16).toNat

/-- What a lane adds to the product, so that the rounding is that of the state that was moved up. -/
def addend (factor : Nat) : Nat := 2 ^ 14 + 2 ^ 15 * (4 * moved - 320 * factor - 2 ^ 15)

/-- States that are small enough for their lanes. -/
structure Small (v : Int × Int) : Prop where
  fst : |v.1| ≤ 2 ^ 21
  snd : |v.2| ≤ 2 ^ 21

section Moved
variable {Koeff n x : Int} {v : Int × Int}

theorem cast_up (hn : |n| ≤ 2 ^ 22) : (up n : Int) = n + 10485760 := by
  obtain ⟨hle, -⟩ := abs_le.mp hn
  have hmoved : (moved : Int) = 10485760 := rfl
  rw [up, Int.toNat_of_nonneg (by omega), hmoved]

theorem cast_sample (hx : FitsInt16 x) : (sample x : Int) = x + 32768 := Int.toNat_of_nonneg (by have := hx.1; omega)

theorem Small.abs_fst_le (hv : Small v) : |v.1| ≤ 2 ^ 22 := hv.fst.trans (by decide)

theorem Small.abs_snd_le (hv : Small v) : |v.2| ≤ 2 ^ 22 := hv.snd.trans (by decide)

variable (hKoeff : |Koeff| ≤ 32706)
include hKoeff

theorem cast_factor : (factor Koeff : Int) = 2 * Koeff + 65536 := by
  obtain ⟨hle, -⟩ := abs_le.mp hKoeff
  exact Int.toNat_of_nonneg (by omega)

theorem cast_addend : (addend (factor Koeff) : Int) = 16384 + 32768 * (41943040 - 320 * (2 * Koeff + 65536) - 32768) := by
  have hfactor := cast_factor hKoeff
  obtain ⟨-, hle⟩ := abs_le.mp hKoeff
  have hunfold : addend (factor Koeff) = 16384 + 32768 * (4 * 10485760 - 320 * factor Koeff - 32768) := rfl
  omega

variable (hv : Small v)
include hv

theorem abs_product_le : |Koeff * (2 * v.1)| ≤ 32706 * 2 ^ 22 := by
  obtain ⟨hle, hge⟩ := abs_le.mp hv.fst
  exact abs_mul_le hKoeff (abs_le.mpr ⟨by omega, by omega⟩)

theorem cast_sum : ((factor Koeff * up v.1 + addend (factor Koeff) : Nat) : Int) =
    Koeff * (2 * v.1) + 16384 + (2 * v.1 + 41943040 - 32768) * 32768 := by
  rw [Nat.cast_add, Nat.cast_mul, cast_factor hKoeff, cast_addend hKoeff, cast_up hv.abs_fst_le]
  ring

/-- What the moves add is a multiple of the divisor. -/
theorem cast_quotient : (((factor Koeff * up v.1 + addend (factor Koeff)) / 2 ^ 15 : Nat) : Int) =
    MPY48SR Koeff (2 * v.1) + (2 * v.1 + 41943040 - 32768) := by
  have hdiv := Int.add_mul_ediv_right (Koeff * (2 * v.1) + 2 ^ 14) (2 * v.1 + 41943040 - 32768)
    (by decide : (32768 : Int) ≠ 0)
  rw [Int.natCast_ediv, cast_sum hKoeff hv, MPY48SR]
  exact hdiv

variable (hx : FitsInt16 x)
include hx

theorem abs_next_le : |(next Koeff v x).1| ≤ 2 ^ 23 := by
  have hproduct := abs_product_le hKoeff hv
  obtain ⟨hle, hge⟩ := abs_le.mp hproduct
  obtain ⟨hle', hge'⟩ := abs_le.mp hv.snd
  obtain ⟨hlt, hlt'⟩ := hx
  have hnext : (next Koeff v x).1 = (Koeff * (2 * v.1) + 2 ^ 14) / 2 ^ 15 - v.2 + x := rfl
  rw [hnext]
  exact abs_le.mpr ⟨by omega, by omega⟩

/-- `next` on moved numbers. Nothing is subtracted from a smaller number. -/
theorem next_moved : 2 * up v.1 + up v.2 ≤ (factor Koeff * up v.1 + addend (factor Koeff)) / 2 ^ 15 + sample x ∧
    (factor Koeff * up v.1 + addend (factor Koeff)) / 2 ^ 15 + sample x - (2 * up v.1 + up v.2) = up (next Koeff v x).1 := by
  have hquotient := cast_quotient hKoeff hv
  have hfst := cast_up hv.abs_fst_le
  have hsnd := cast_up hv.abs_snd_le
  have hsample := cast_sample hx
  obtain ⟨hle, hge⟩ := abs_le.mp (abs_next_le hKoeff hv hx)
  have hnext : (next Koeff v x).1 = MPY48SR Koeff (2 * v.1) - v.2 + x := rfl
  have hup : up (next Koeff v x).1 = ((next Koeff v x).1 + 10485760).toNat := rfl
  omega

end Moved

/-! ### The resonators -/

/-- The kernel evaluates the number before it goes on. -/
def evaluate {β : Type} (n : Nat) (k : Nat → β) : β := n.casesOn (k 0) fun m => k m.succ

theorem evaluate_eq {β : Type} (n : Nat) (k : Nat → β) : evaluate n k = k n := by
  cases n <;> rfl

/-- The next states of one resonator in every lane. -/
def nextLanes (ones factor addends A B X : Nat) : Nat :=
  quotients ones 15 (factor * A + addends) + X - (2 * A + B)

/-- The last states go to `k`, unless a state is too large. -/
def runThen (ones factor addends : Nat) : List Nat → Nat → Nat → (Nat → Nat → Bool) → Bool
  | [], A, B, k => k A B
  | X :: Xs, A, B, k =>
    evaluate (nextLanes ones factor addends A B X) fun C =>
      within ones 22 2 C && runThen ones factor addends Xs C A k

section Resonators
variable {ι : Type} {is : List ι} {Koeff : Int} {v : ι → Int × Int}

theorem nextLanes_pack (hKoeff : |Koeff| ≤ 32706) (hv : ∀ i ∈ is, Small (v i)) {x : ι → Int}
    (hx : ∀ i ∈ is, FitsInt16 (x i)) :
    nextLanes (ones 44 is.length) (factor Koeff) (addend (factor Koeff) * ones 44 is.length)
        (pack 44 is fun i => up (v i).1) (pack 44 is fun i => up (v i).2) (pack 44 is fun i => sample (x i)) =
      pack 44 is fun i => up (next Koeff (v i) (x i)).1 := by
  have hlt : ∀ i ∈ is, factor Koeff * up (v i).1 + addend (factor Koeff) < 2 ^ 44 := fun i hi => by
    have hsum := cast_sum hKoeff (hv i hi)
    have hproduct := abs_product_le hKoeff (hv i hi)
    obtain ⟨hle, hge⟩ := abs_le.mp hproduct
    obtain ⟨hle', hge'⟩ := abs_le.mp (hv i hi).fst
    omega
  have hstep : ∀ i ∈ is, _ := fun i hi => next_moved hKoeff (hv i hi) (hx i hi)
  rw [nextLanes, mul_pack, mul_pack, mul_ones (by decide), add_pack, add_pack, quotients_pack (by decide) (by decide) hlt,
    add_pack, sub_pack fun i hi => (hstep i hi).1]
  exact pack_congr fun i hi => (hstep i hi).2

/-- A run that goes on has the last states, and none of the states was large. -/
theorem runThen_pack (hKoeff : |Koeff| ≤ 32706) (hv : ∀ i ∈ is, Small (v i)) {xs : List (ι → Int)}
    (hxs : ∀ x ∈ xs, ∀ i ∈ is, FitsInt16 (x i)) {k : Nat → Nat → Bool}
    (h : runThen (ones 44 is.length) (factor Koeff) (addend (factor Koeff) * ones 44 is.length)
      (xs.map fun x => pack 44 is fun i => sample (x i)) (pack 44 is fun i => up (v i).1)
      (pack 44 is fun i => up (v i).2) k = true) :
    (∀ i ∈ is, ∀ ys, ys <+: xs.map (fun x => x i) → Small (ys.foldl (next Koeff) (v i))) ∧
      k (pack 44 is fun i => up ((xs.map fun x => x i).foldl (next Koeff) (v i)).1)
        (pack 44 is fun i => up ((xs.map fun x => x i).foldl (next Koeff) (v i)).2) = true := by
  induction xs generalizing v with
  | nil =>
    refine ⟨fun i hi ys hys => ?_, h⟩
    rw [List.prefix_nil.mp hys]
    exact hv i hi
  | cons x xs ih =>
    obtain ⟨hx, hxs⟩ := List.forall_mem_cons.mp hxs
    rw [List.map_cons, runThen, evaluate_eq, nextLanes_pack hKoeff hv hx, Bool.and_eq_true] at h
    obtain ⟨hwithin, h⟩ := h
    have hnext : ∀ i ∈ is, Small (next Koeff (v i) (x i)) := fun i hi => by
      obtain ⟨hle, hge⟩ := abs_le.mp (abs_next_le hKoeff (hv i hi) (hx i hi))
      have hup : ∀ i ∈ is, up (next Koeff (v i) (x i)).1 < 2 ^ 44 := fun i hi => by
        obtain ⟨hle, hge⟩ := abs_le.mp (abs_next_le hKoeff (hv i hi) (hx i hi))
        have hunfold : up (next Koeff (v i) (x i)).1 = ((next Koeff (v i) (x i)).1 + 10485760).toNat := rfl
        omega
      have hquotient := div_eq_of_within (by decide) (by decide) hup (by decide) hwithin i hi
      have hunfold : up (next Koeff (v i) (x i)).1 = ((next Koeff (v i) (x i)).1 + 10485760).toNat := rfl
      exact ⟨abs_le.mpr ⟨by omega, by omega⟩, (hv i hi).fst⟩
    obtain ⟨hsmall, hk⟩ := ih hnext hxs h
    refine ⟨fun i hi ys hys => ?_, hk⟩
    rcases List.prefix_cons_iff.mp hys with rfl | ⟨zs, rfl, hzs⟩
    · exact hv i hi
    · exact hsmall i hi zs hzs

end Resonators
/-! ### The magnitudes -/

/-- The magnitudes, moved up by `2 ^ 25`. The factors of the products are moved up by 10240. -/
def magnitudeLanes (ones factor A B : Nat) : Nat :=
  evaluate (quotients ones 10 A) fun P => evaluate (quotients ones 10 B) fun Q =>
  evaluate (quotients ones 15 (factor * P + (2 ^ 14 + 2 ^ 15 * 40960 - 10240 * factor) * ones) -
    (2 * P + 10240 * ones)) fun U =>
  products ones 14 14 P P + products ones 14 14 Q Q + 10240 * U + (10240 * 10240 + 2 ^ 25) * ones -
    (20480 * P + 10240 * Q + products ones 14 14 U Q)

/-- A magnitude in a lane. -/
def value (t : Int) : Nat := (t + 2 ^ 25).toNat

section Magnitude
variable {Koeff p q t : Int} {P Q U : Nat} {v : Int × Int}

theorem cast_up_div {n : Int} (hn : |n| ≤ 2 ^ 21) : ((up n / 2 ^ 10 : Nat) : Int) = n / 2 ^ 10 + 10240 ∧
    |n / 2 ^ 10| ≤ 2048 := by
  have hup := cast_up (hn.trans (by decide))
  obtain ⟨hle, hge⟩ := abs_le.mp hn
  exact ⟨by omega, abs_le.mpr ⟨by omega, by omega⟩⟩

/-- `MPY48SR` on a number that is moved up. -/
theorem MPY48SR_moved (hKoeff : |Koeff| ≤ 32706) (hP : (P : Int) = p + 10240) (hp : |p| ≤ 2048) :
    2 * P + 10240 ≤ (factor Koeff * P + (2 ^ 14 + 2 ^ 15 * 40960 - 10240 * factor Koeff)) / 2 ^ 15 ∧
      (((factor Koeff * P + (2 ^ 14 + 2 ^ 15 * 40960 - 10240 * factor Koeff)) / 2 ^ 15 - (2 * P + 10240) : Nat) : Int) =
        MPY48SR Koeff (2 * p) + 10240 ∧ |MPY48SR Koeff (2 * p)| ≤ 4096 := by
  have hfactor := cast_factor hKoeff
  obtain ⟨hle, hge⟩ := abs_le.mp hp
  obtain ⟨hKle, hKge⟩ := abs_le.mp hKoeff
  have hdouble : |2 * p| ≤ 4096 := abs_le.mpr ⟨by omega, by omega⟩
  obtain ⟨hmul, hmul'⟩ := abs_le.mp (abs_mul_le hKoeff hdouble)
  have hsum : ((factor Koeff * P + (2 ^ 14 + 2 ^ 15 * 40960 - 10240 * factor Koeff) : Nat) : Int) =
      Koeff * (2 * p) + 2 ^ 14 + (2 * p + 40960) * 32768 := by
    have hrest : ((2 ^ 14 + 2 ^ 15 * 40960 - 10240 * factor Koeff : Nat) : Int) =
        2 ^ 14 + 2 ^ 15 * 40960 - 10240 * (2 * Koeff + 65536) := by omega
    rw [Nat.cast_add, Nat.cast_mul, hrest, hfactor, hP]
    ring
  have hquotient : (((factor Koeff * P + (2 ^ 14 + 2 ^ 15 * 40960 - 10240 * factor Koeff)) / 2 ^ 15 : Nat) : Int) =
      MPY48SR Koeff (2 * p) + (2 * p + 40960) := by
    rw [Int.natCast_ediv, hsum, MPY48SR]
    exact Int.add_mul_ediv_right _ _ (by decide)
  have hMPY : MPY48SR Koeff (2 * p) = (Koeff * (2 * p) + 2 ^ 14) / 2 ^ 15 := rfl
  refine ⟨by omega, by omega, abs_le.mpr ⟨by omega, by omega⟩⟩

/-- The products of moved numbers. -/
theorem magnitude_moved (hP : (P : Int) = p + 10240) (hQ : (Q : Int) = q + 10240) (hU : (U : Int) = t + 10240)
    (hp : |p| ≤ 2048) (hq : |q| ≤ 2048) (ht : |t| ≤ 4096) :
    20480 * P + 10240 * Q + U * Q ≤ P * P + Q * Q + 10240 * U + (10240 * 10240 + 2 ^ 25) ∧
      P * P + Q * Q + 10240 * U + (10240 * 10240 + 2 ^ 25) - (20480 * P + 10240 * Q + U * Q) =
        value (p * p + q * q - t * q) := by
  obtain ⟨hpp, hpp'⟩ := abs_le.mp (abs_mul_le hp hp)
  obtain ⟨hqq, hqq'⟩ := abs_le.mp (abs_mul_le hq hq)
  obtain ⟨htq, htq'⟩ := abs_le.mp (abs_mul_le ht hq)
  have hdiff : ((P * P + Q * Q + 10240 * U + (10240 * 10240 + 2 ^ 25) : Nat) : Int) -
      ((20480 * P + 10240 * Q + U * Q : Nat) : Int) = p * p + q * q - t * q + 2 ^ 25 := by
    push_cast
    rw [hP, hQ, hU]
    ring
  have hvalue : value (p * p + q * q - t * q) = (p * p + q * q - t * q + 2 ^ 25).toNat := rfl
  generalize P * P + Q * Q + 10240 * U + (10240 * 10240 + 2 ^ 25) = a at hdiff ⊢
  generalize 20480 * P + 10240 * Q + U * Q = b at hdiff ⊢
  exact ⟨by omega, by omega⟩

end Magnitude

theorem magnitudeLanes_pack {ι : Type} {is : List ι} {Koeff : Int} {v : ι → Int × Int} (hKoeff : |Koeff| ≤ 32706)
    (hv : ∀ i ∈ is, Small (v i)) :
    magnitudeLanes (ones 44 is.length) (factor Koeff) (pack 44 is fun i => up (v i).1) (pack 44 is fun i => up (v i).2) =
      pack 44 is fun i => value (magnitude Koeff (v i)) := by
  let P (i : ι) : Nat := up (v i).1 / 2 ^ 10
  let Q (i : ι) : Nat := up (v i).2 / 2 ^ 10
  let quotient (i : ι) : Nat := (factor Koeff * P i + (2 ^ 14 + 2 ^ 15 * 40960 - 10240 * factor Koeff)) / 2 ^ 15
  let U (i : ι) : Nat := quotient i - (2 * P i + 10240)
  have hP : ∀ i ∈ is, (P i : Int) = (v i).1 / 2 ^ 10 + 10240 ∧ |(v i).1 / 2 ^ 10| ≤ 2048 := fun i hi =>
    cast_up_div (hv i hi).fst
  have hQ : ∀ i ∈ is, (Q i : Int) = (v i).2 / 2 ^ 10 + 10240 ∧ |(v i).2 / 2 ^ 10| ≤ 2048 := fun i hi =>
    cast_up_div (hv i hi).snd
  have hU : ∀ i ∈ is, 2 * P i + 10240 ≤ quotient i ∧
      (U i : Int) = MPY48SR Koeff (2 * ((v i).1 / 2 ^ 10)) + 10240 ∧ |MPY48SR Koeff (2 * ((v i).1 / 2 ^ 10))| ≤ 4096 :=
    fun i hi => MPY48SR_moved hKoeff (hP i hi).1 (hP i hi).2
  -- The factors have 14 bits.
  have hPlt : ∀ i ∈ is, P i < 2 ^ 14 := fun i hi => by
    obtain ⟨hP, hp⟩ := hP i hi
    obtain ⟨-, hp⟩ := abs_le.mp hp
    omega
  have hQlt : ∀ i ∈ is, Q i < 2 ^ 14 := fun i hi => by
    obtain ⟨hQ, hq⟩ := hQ i hi
    obtain ⟨-, hq⟩ := abs_le.mp hq
    omega
  have hUlt : ∀ i ∈ is, U i < 2 ^ 14 := fun i hi => by
    obtain ⟨-, hU, ht⟩ := hU i hi
    obtain ⟨-, ht⟩ := abs_le.mp ht
    omega
  have hwide : ∀ {f : ι → Nat}, (∀ i ∈ is, f i < 2 ^ 14) → ∀ i ∈ is, f i < 2 ^ 44 := fun hf i hi =>
    (hf i hi).trans (by decide)
  have hup : ∀ {n : Int}, |n| ≤ 2 ^ 21 → up n < 2 ^ 44 := fun hn => by
    have hup := cast_up (hn.trans (by decide))
    obtain ⟨hle, hge⟩ := abs_le.mp hn
    omega
  have hsum : ∀ i ∈ is, factor Koeff * P i + (2 ^ 14 + 2 ^ 15 * 40960 - 10240 * factor Koeff) < 2 ^ 44 := fun i hi => by
    obtain ⟨-, hU, ht⟩ := hU i hi
    obtain ⟨-, ht⟩ := abs_le.mp ht
    have hPlt := hPlt i hi
    have hUdef : (U i : Int) = (quotient i - (2 * P i + 10240) : Nat) := rfl
    have hdef : quotient i = (factor Koeff * P i + (2 ^ 14 + 2 ^ 15 * 40960 - 10240 * factor Koeff)) / 2 ^ 15 := rfl
    omega
  have hmoved : ∀ i ∈ is, _ := fun i hi =>
    magnitude_moved (hP i hi).1 (hQ i hi).1 (hU i hi).2.1 (hP i hi).2 (hQ i hi).2 (hU i hi).2.2
  rw [magnitudeLanes, evaluate_eq, evaluate_eq, evaluate_eq,
    quotients_pack (by decide) (by decide) fun i hi => hup (hv i hi).fst,
    quotients_pack (by decide) (by decide) fun i hi => hup (hv i hi).snd, mul_pack, mul_ones (by decide), add_pack,
    quotients_pack (by decide) (by decide) hsum, mul_pack, mul_ones (by decide), add_pack,
    sub_pack fun i hi => (hU i hi).1, products_pack (by decide) (by decide) (hwide hPlt) hPlt hPlt,
    products_pack (by decide) (by decide) (hwide hQlt) hQlt hQlt, products_pack (by decide) (by decide) (hwide hUlt) hUlt hQlt,
    mul_pack, mul_pack, mul_pack, mul_ones (by decide), add_pack, add_pack, add_pack, add_pack, add_pack,
    sub_pack fun i hi => (hmoved i hi).1]
  exact pack_congr fun i hi => (hmoved i hi).2

end Unbounded
end Recd2
