import Recd2.PeakMeter
import Mathlib.Algebra.Order.Group.Unbundled.Abs
import Mathlib.Algebra.Order.Ring.Abs
import Mathlib.Order.Bounds.Basic

/-! The running maximum of `Helper::peek`. The absolute value of the sample -32768 does not fit into its 16 bits, and makes
    it negative, so that any sample behind replaces it. -/

namespace Recd2.Helper
open Checked

/-! ### Absolute values -/

theorem toInt_abs (x : Int16) : x.toInt32.abs.toInt = |x.toInt| := by
  have hlow := x.le_toInt
  have hhigh := x.toInt_lt
  have hmin : ¬(x.toInt32.toBitVec).toInt = (BitVec.intMin 32).toInt := by
    show ¬x.toInt32.toInt = _
    rw [Int16.toInt_toInt32]
    intro h
    rw [h] at hlow
    exact absurd hlow (by decide)
  show (x.toInt32.toBitVec.abs).toInt = _
  rw [BitVec.toInt_abs_eq_natAbs_of_ne_intMin fun h => hmin (congrArg BitVec.toInt h)]
  show (x.toInt32.toInt.natAbs : Int) = _
  rw [Int16.toInt_toInt32, Int.natCast_natAbs]

theorem peekSample_eq (m x : Int16) : peekSample m x = if m.toInt < |x.toInt| then x.toInt32.abs.toInt16 else m := by
  rw [peekSample]
  simp only [Int32.lt_iff_toInt_lt, Int16.toInt_toInt32, toInt_abs]

/-- A sample other than -32768 raises the maximum, as it should. -/
theorem toInt_peekSample {m x : Int16} (hx : x ≠ -32768) : (peekSample m x).toInt = max m.toInt |x.toInt| := by
  have hne : x.toInt ≠ -32768 := fun h => hx (Int16.toInt_inj.mp h)
  have hlow := x.le_toInt
  have hhigh := x.toInt_lt
  have hfits : |x.toInt| < 32768 := abs_lt.mpr (by omega)
  have hnonneg := abs_nonneg x.toInt
  rw [peekSample_eq]
  split_ifs with hlt
  · rw [Int32.toInt_toInt16, toInt_abs, Int.bmod_eq_of_le (by omega) (by omega), max_eq_right (by omega)]
  · rw [max_eq_left (by omega)]

theorem peekSample_min (m : Int16) : peekSample m (-32768) = -32768 := by
  have hhigh := m.toInt_lt
  rw [peekSample_eq, if_pos]
  · rfl
  · show m.toInt < 32768
    omega

/-! ### The loop -/

/-- What the loop makes of the maximum. -/
def peekSamples (m : Int16) (xs : List Int16) : Int16 := xs.foldl peekSample m

theorem peekSamples_append (m : Int16) (xs ys : List Int16) :
    peekSamples m (xs ++ ys) = peekSamples (peekSamples m xs) ys := List.foldl_append

/-- Over an array that is written, the loop is a fold over its values. -/
theorem peek_of_written {samples : Cells Int16} {size : Int32} {xs : List Int16} (m : Int16) (hxs : xs ≠ [])
    (hwritten : samples.Begins xs) (hsize : size.toInt = xs.length) :
    peek m samples size = .ok (peekSamples m xs, peekSamples m xs) := by
  have hzero : size ≠ 0 := by
    rintro rfl
    exact hxs (List.length_eq_zero_iff.mp (Int.ofNat.inj hsize.symm))
  have hloop : Yields (fun _ => False) (fun r => r = peekSamples m (xs.take xs.length))
      (forLoop xs.length (fun i m_peek => do return peekSample m_peek (← samples.load i)) m) := by
    refine @forLoop_yields _ _ m _ (fun i r => r = peekSamples m (xs.take i)) _ rfl ?_
    rintro i _ hi rfl
    rw [hwritten.load (List.getElem?_eq_getElem hi)]
    show peekSample _ _ = _
    rw [List.take_succ_eq_append_getElem hi, peekSamples_append]
    rfl
  obtain ⟨r, hr, rfl⟩ := hloop.exists_ok
  rw [peek, if_neg hzero, hsize, Int.toNat_natCast, hr, List.take_length]
  rfl

/-- Without the sample -32768, the result bounds what the loop saw, and is one of it. -/
theorem peekSamples_isGreatest {xs : List Int16} (hxs : ∀ x ∈ xs, x ≠ -32768) (m : Int16) :
    IsGreatest (insert m.toInt {a | ∃ x ∈ xs, a = |x.toInt|}) (peekSamples m xs).toInt := by
  induction xs using List.reverseRecOn with
  | nil =>
    refine ⟨Set.mem_insert _ _, ?_⟩
    rintro a (rfl | ⟨x, hx, -⟩)
    · exact le_refl _
    · cases hx
  | append_singleton xs x ih =>
    obtain ⟨hmem, hbound⟩ := ih fun y hy => hxs y (List.mem_append_left _ hy)
    have hlast : (peekSamples m (xs ++ [x])).toInt = max (peekSamples m xs).toInt |x.toInt| := by
      rw [peekSamples_append]
      exact toInt_peekSample (hxs x (List.mem_append_right _ (List.mem_singleton_self x)))
    rw [hlast]
    constructor
    · rcases max_choice (peekSamples m xs).toInt |x.toInt| with h | h
      · rw [h]
        rcases hmem with hm | ⟨y, hy, heq⟩
        · exact Or.inl hm
        · exact Or.inr ⟨y, List.mem_append_left _ hy, heq⟩
      · rw [h]
        exact Or.inr ⟨x, List.mem_append_right _ (List.mem_singleton_self x), rfl⟩
    · rintro a (rfl | ⟨y, hy, rfl⟩)
      · exact le_max_of_le_left (hbound (Set.mem_insert _ _))
      · rcases List.mem_append.mp hy with hy | hy
        · exact le_max_of_le_left (hbound (Or.inr ⟨y, hy, rfl⟩))
        · rw [List.mem_singleton.mp hy]
          exact le_max_right _ _

/-- From zero on, it is the largest absolute value. -/
theorem peekSamples_zero_isGreatest {xs : List Int16} (hne : xs ≠ []) (hxs : ∀ x ∈ xs, x ≠ -32768) :
    IsGreatest {a | ∃ x ∈ xs, a = |x.toInt|} (peekSamples 0 xs).toInt := by
  obtain ⟨hmem, hbound⟩ := peekSamples_isGreatest hxs 0
  refine ⟨?_, fun a ha => hbound (Or.inr ha)⟩
  rcases hmem with hzero | hmem
  · -- The result is zero, and with it the first sample.
    obtain ⟨x, xs, rfl⟩ := List.exists_cons_of_ne_nil hne
    have hle := hbound (Or.inr ⟨x, List.mem_cons_self, rfl⟩)
    exact ⟨x, List.mem_cons_self, le_antisymm (hzero.trans_le (abs_nonneg _)) hle⟩
  · exact hmem

/-- A result of 32767 comes from a sample with this absolute value. -/
theorem exists_of_peekSamples_eq {m : Int16} {xs : List Int16} (hm : m ≠ 32767) (h : peekSamples m xs = 32767) :
    ∃ x ∈ xs, |x.toInt| = 32767 := by
  induction xs generalizing m with
  | nil => exact absurd h hm
  | cons x xs ih =>
    by_cases hx : peekSample m x = 32767
    · refine ⟨x, List.mem_cons_self, ?_⟩
      by_cases hmin : x = -32768
      · rw [hmin, peekSample_min] at hx
        exact absurd hx (by decide)
      · have hmax := toInt_peekSample (m := m) hmin
        rw [hx] at hmax
        rcases max_choice m.toInt |x.toInt| with hle | hle
        · rw [hle] at hmax
          exact absurd (Int16.toInt_inj.mp hmax.symm) hm
        · exact hle.symm.trans hmax.symm
    · obtain ⟨y, hy, habs⟩ := ih hx h
      exact ⟨y, List.mem_cons_of_mem x hy, habs⟩

/-! ### The peak of an array -/

/-- The result is the largest absolute value, with 32767 for that of -32768. -/
def IsPeak (p : Int16) (samples : List Int16) : Prop :=
  (∀ x ∈ samples, min |x.toInt| 32767 ≤ p.toInt) ∧ ∃ x ∈ samples, p.toInt = min |x.toInt| 32767

/-- Every sample -32768 has one of 32767 or -32767 behind it. -/
def Restored (samples : List Int16) : Prop :=
  ∀ pre post, samples = pre ++ -32768 :: post → ∃ x ∈ post, x = 32767 ∨ x = -32767

theorem abs_eq_iff {x : Int16} : |x.toInt| = 32767 ↔ x = 32767 ∨ x = -32767 := by
  rw [abs_eq (by decide), ← Int16.toInt_inj, ← Int16.toInt_inj]
  rfl

/-- Such a sample behind the last -32768 makes the result 32767. -/
theorem peekSamples_of_restored {samples : List Int16} (h : Restored samples) (hmem : -32768 ∈ samples) :
    peekSamples 0 samples = 32767 := by
  obtain ⟨post, pre, heq, hpost⟩ := List.eq_append_cons_of_mem (List.mem_reverse.mpr hmem)
  have hsplit : samples = pre.reverse ++ -32768 :: post.reverse := by
    rw [← List.reverse_reverse samples, heq, List.reverse_append, List.reverse_cons, List.append_assoc]
    rfl
  obtain ⟨x, hx, hlarge⟩ := h _ _ hsplit
  have hrest : ∀ y ∈ post.reverse, y ≠ -32768 := by
    rintro y hy rfl
    exact hpost (List.mem_reverse.mp hy)
  have hge := (peekSamples_isGreatest hrest (peekSample (peekSamples 0 pre.reverse) (-32768))).2
    (Or.inr ⟨x, hx, (abs_eq_iff.mpr hlarge).symm⟩)
  have hcons : peekSamples 0 samples = peekSamples (peekSample (peekSamples 0 pre.reverse) (-32768)) post.reverse := by
    rw [hsplit, peekSamples_append]
    rfl
  rw [hcons]
  apply Int16.toInt_inj.mp
  have hhigh := (peekSamples (peekSample (peekSamples 0 pre.reverse) (-32768)) post.reverse).toInt_lt
  show _ = 32767
  omega

theorem isPeak_peekSamples_iff {samples : List Int16} (hne : samples ≠ []) :
    IsPeak (peekSamples 0 samples) samples ↔ Restored samples := by
  constructor
  · rintro ⟨hbound, -⟩ pre post rfl
    have hge : 32767 ≤ (peekSamples 0 (pre ++ -32768 :: post)).toInt := hbound (-32768) (by simp)
    have hhigh := (peekSamples 0 (pre ++ -32768 :: post)).toInt_lt
    have heq : peekSamples (peekSample (peekSamples 0 pre) (-32768)) post = 32767 := by
      have hsplit : peekSamples 0 (pre ++ -32768 :: post) = peekSamples (peekSample (peekSamples 0 pre) (-32768)) post :=
        peekSamples_append 0 pre _
      rw [← hsplit]
      apply Int16.toInt_inj.mp
      show _ = 32767
      omega
    obtain ⟨x, hx, habs⟩ := exists_of_peekSamples_eq (by rw [peekSample_min]; decide) heq
    exact ⟨x, hx, abs_eq_iff.mp habs⟩
  · intro h
    by_cases hmem : -32768 ∈ samples
    · rw [IsPeak, peekSamples_of_restored h hmem]
      exact ⟨fun x _ => min_le_right _ _, -32768, hmem, rfl⟩
    · have hxs : ∀ x ∈ samples, x ≠ -32768 := by
        rintro x hx rfl
        exact hmem hx
      have hfits : ∀ x ∈ samples, min |x.toInt| 32767 = |x.toInt| := by
        intro x hx
        have hlow := x.le_toInt
        have hhigh := x.toInt_lt
        have hx : x.toInt ≠ -32768 := fun h => hxs x hx (Int16.toInt_inj.mp h)
        exact min_eq_left (abs_le.mpr (by omega))
      obtain ⟨⟨x, hx, heq⟩, hbound⟩ := peekSamples_zero_isGreatest hne hxs
      refine ⟨fun y hy => ?_, x, hx, by rw [hfits x hx, heq]⟩
      rw [hfits y hy]
      exact hbound ⟨y, hy, rfl⟩

/-- The peak of an array is right exactly when each sample -32768 in it is made up for behind. -/
theorem peek_iff {samples : List Int16} {size : Int32} (hne : samples ≠ []) (hsize : size.toInt = samples.length) :
    (∃ p m_peek, peek 0 (samples.map some) size = .ok (p, m_peek) ∧ IsPeak p samples) ↔ Restored samples := by
  rw [← isPeak_peekSamples_iff hne, peek_of_written 0 hne List.prefix_rfl hsize]
  constructor
  · rintro ⟨p, m, hok, hp⟩
    cases hok
    exact hp
  · intro hp
    exact ⟨_, _, rfl, hp⟩

theorem peek_iff_two : (∃ p m_peek, peek 0 ([5, -7].map some) 2 = .ok (p, m_peek) ∧ IsPeak p [5, -7]) ↔
    Restored [5, -7] := peek_iff (by decide) rfl

/-- The array of the one sample -32768 has this sample for its peak. -/
theorem peek_counterexample : ¬∀ (samples : List Int16) (size : Int32), samples ≠ [] → size.toInt = samples.length →
    ∃ p m_peek, peek 0 (samples.map some) size = .ok (p, m_peek) ∧ IsPeak p samples := by
  intro h
  obtain ⟨p, m, hok, hbound, -⟩ := h [-32768] 1 (by decide) rfl
  have hp : peek 0 ([-32768].map some) 1 = .ok (-32768, -32768) := rfl
  rw [hp] at hok
  cases hok
  exact absurd (hbound _ List.mem_cons_self) (by decide)

end Recd2.Helper
