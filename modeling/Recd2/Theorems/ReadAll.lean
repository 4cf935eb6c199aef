import Recd2.Theorems.Overrun

/-! `readAll` against repeated reads. It takes the distance of the heads for the number of unread values, which it is
    while the write head has not passed the end of the cells. -/

namespace Recd2.RingBuffer
variable {T : Type} {SIZE : Nat}

/-! ### The unread values -/

/-- What was written and not yet read. -/
def unread (rb : RingBuffer T SIZE) (ops : List (Fifo.Op T)) : List T :=
  (Fifo.written ops).drop (rb.readValues ops).length

/-- `readAll` gives the number of the unread values and an array of them, and leaves the buffer as the single reads of
    these values do, behind which `read` gives `nullptr`. -/
def BulkEqReads (s : RingBuffer T SIZE) (unread : List T) : Prop :=
  ∃ cnt ret s', s.readAll = some (cnt, ret, s') ∧ cnt.toInt = unread.length ∧ ret.getD [] = unread ∧
    Run.emits step s (List.replicate unread.length .read) = unread.map some ∧
    Run.state step s (List.replicate unread.length .read) = s' ∧ s'.read.1 = none

section Tracked
variable {s : RingBuffer T SIZE} {written : List T} {r : Nat}

/-- The single reads and the loop of `readAll`, for as many values as are unread. -/
theorem Tracks.reads (h : s.Tracks written r) (hr : r ≤ written.length) (hlt : written.length < r + SIZE) :
    Run.emits step s (List.replicate (written.length - r) .read) = (written.drop r).map some ∧
      readLoop (written.length - r) s =
        some (written.drop r, Run.state step s (List.replicate (written.length - r) .read)) ∧
      (Run.state step s (List.replicate (written.length - r) .read)).read.1 = none := by
  obtain ⟨n, hn⟩ : ∃ n, written.length - r = n := ⟨_, rfl⟩
  rw [hn]
  induction n generalizing s r with
  | zero =>
    have hall : r = written.length := by omega
    rw [List.drop_eq_nil_of_le hall.ge]
    exact ⟨rfl, rfl, congrArg Prod.fst (h.read_of_le hlt hall)⟩
  | succ n ih =>
    have hr' : r < written.length := by omega
    obtain ⟨hptr, hnext⟩ := h.read_of_lt hlt hr'
    have hvalue : s.read.1.bind s.deref = some written[r] := by
      rw [hptr, Option.bind_some, h.deref hr' (by omega)]
    obtain ⟨hemits, hloop, hempty⟩ := ih hnext hr' (by omega) (by omega)
    have hstep : s.step .read = (s.read.2, [some written[r]]) := by rw [step, hvalue]
    rw [List.replicate_succ, Run.emits_cons, Run.state_cons, hstep, List.drop_eq_getElem_cons hr', readLoop, hvalue,
      Option.bind_some]
    refine ⟨by rw [hemits]; rfl, by rw [hloop]; rfl, hempty⟩

/-- Where the write head stands, seen from the read head. -/
theorem Tracks.distance (h : s.Tracks written r) (hr : r ≤ written.length) (hlt : written.length < r + SIZE) :
    (s.wHead : Int) - s.rHead = (written.length - r : Nat) - (if s.rHead ≤ s.wHead then 0 else (SIZE : Int)) := by
  have hsize : 0 < SIZE := by omega
  have hread := Nat.div_add_mod r SIZE
  have hwrite := Nat.div_add_mod written.length SIZE
  have hrlt := Nat.mod_lt r hsize
  have hwlt := Nat.mod_lt written.length hsize
  rw [← h.rHead] at hread hrlt
  rw [← h.wHead] at hwrite hwlt
  have hrounds : written.length / SIZE = r / SIZE ∨ written.length / SIZE = r / SIZE + 1 := by
    have hle : r / SIZE ≤ written.length / SIZE := Nat.div_le_div_right hr
    have hnext : written.length / SIZE < r / SIZE + 2 := by
      rw [Nat.div_lt_iff_lt_mul hsize, Nat.add_mul]
      have hround : r < SIZE * (r / SIZE) + SIZE := by omega
      rw [Nat.mul_comm] at hround
      omega
    omega
  rcases hrounds with hsame | hnext
  · rw [hsame] at hwrite
    have hheads : s.rHead ≤ s.wHead := by omega
    rw [if_pos hheads]
    omega
  · rw [hnext, Nat.mul_succ] at hwrite
    have hheads : ¬s.rHead ≤ s.wHead := by omega
    rw [if_neg hheads]
    omega

theorem Tracks.toInt_rwDiff_eq_iff (h : s.Tracks written r) (hr : r ≤ written.length) (hlt : written.length < r + SIZE) :
    s.rwDiff.toInt = (written.length - r : Nat) ↔
      (s.rHead ≤ s.wHead ∨ 2 ^ 32 ∣ SIZE) ∧ written.length - r < 2 ^ 31 := by
  have hwidth : ((Int32.size : Nat) : Int) = 2 ^ 32 := rfl
  rw [rwDiff, Int32.toInt_ofInt, h.distance hr hlt, Int.bmod_def, hwidth]
  by_cases hheads : s.rHead ≤ s.wHead
  · simp only [hheads, if_true, true_or, true_and]
    omega
  · simp only [hheads, if_false, false_or]
    omega

/-- `readAll` is right exactly when the `int` that it takes for the number of unread values is that number. -/
theorem Tracks.bulkEqReads_iff (h : s.Tracks written r) (hr : r ≤ written.length) (hlt : written.length < r + SIZE) :
    s.BulkEqReads (written.drop r) ↔ s.rwDiff.toInt = (written.length - r : Nat) := by
  have hlen : (written.drop r).length = written.length - r := List.length_drop
  constructor
  · rintro ⟨cnt, ret, s', hall, hcnt, -⟩
    rw [← hlen, ← hcnt]
    rw [readAll] at hall
    split_ifs at hall with hzero hneg
    · rw [hzero, (Prod.mk.inj (Option.some.inj hall)).1]
    · obtain ⟨d, -, hd⟩ := Option.map_eq_some_iff.mp hall
      rw [(Prod.mk.inj hd).1]
  · intro hdiff
    obtain ⟨hemits, hloop, hempty⟩ := h.reads hr hlt
    rw [BulkEqReads, hlen]
    by_cases hzero : s.rwDiff = 0
    · have hnone : written.length - r = 0 := by
        rw [hzero] at hdiff
        exact (Int.ofNat_eq_zero.mp hdiff.symm)
      rw [hnone] at hemits hempty ⊢
      refine ⟨0, none, s, by rw [readAll, if_pos hzero], rfl, ?_, hemits, rfl, hempty⟩
      exact (List.drop_eq_nil_of_le (by omega)).symm
    · have hpos : ¬s.rwDiff < 0 := by
        rw [Int32.lt_iff_toInt_lt, hdiff]
        exact not_lt_of_ge (Int.natCast_nonneg _)
      refine ⟨s.rwDiff, some (written.drop r), _, ?_, hdiff, rfl, hemits, rfl, hempty⟩
      rw [readAll, if_neg hzero, if_neg hpos, hdiff, Int.toNat_natCast, hloop]
      rfl

end Tracked

/-- Behind any run that leaves at most `SIZE - 1` values unread, `readAll` gives what the single reads give exactly when
    the write head has not passed the end of the cells behind the read head, and an `int` holds the number. In a buffer of a
    multiple of 2^32 cells the wrap of the `int` makes up for the end of the cells. -/
theorem readAll_eq_reads_iff (hsize : 1 ≤ SIZE) (rb : RingBuffer T SIZE) (ops : List (Fifo.Op T))
    (hunread : (rb.unread ops).length ≤ SIZE - 1) :
    (Run.state step rb.init ops).BulkEqReads (rb.unread ops) ↔
      ((Run.state step rb.init ops).rHead ≤ (Run.state step rb.init ops).wHead ∨ 2 ^ 32 ∣ SIZE) ∧
        (rb.unread ops).length < 2 ^ 31 := by
  have hlapped := lapped_run hsize rb ops
  have hlen : (rb.unread ops).length = (Fifo.written ops).length - (rb.readValues ops).length := List.length_drop
  have hlt : (Fifo.written ops).length < (rb.readValues ops).length + SIZE := by omega
  rw [hlen, unread, hlapped.tracks.bulkEqReads_iff hlapped.le hlt, hlapped.tracks.toInt_rwDiff_eq_iff hlapped.le hlt]

theorem readAll_eq_reads_iff_twoCells :
    (Run.state step twoCells.init [.write 5]).BulkEqReads (twoCells.unread [.write 5]) ↔
      ((Run.state step twoCells.init [.write 5]).rHead ≤ (Run.state step twoCells.init [.write 5]).wHead ∨ 2 ^ 32 ∣ 2) ∧
        (twoCells.unread [.write 5]).length < 2 ^ 31 :=
  readAll_eq_reads_iff (by decide) twoCells [.write 5] (by decide)

/-- The second value is in the last cell, and the write head is at the first one again. -/
theorem readAll_counterexample :
    ¬∀ (SIZE : Nat) (rb : RingBuffer Nat SIZE) (ops : List (Fifo.Op Nat)), 1 ≤ SIZE →
      (rb.unread ops).length ≤ SIZE - 1 → (Run.state step rb.init ops).BulkEqReads (rb.unread ops) := by
  intro h
  obtain ⟨cnt, ret, s', hall, -⟩ := h 2 twoCells [.write 5, .read, .write 6] (by decide) (by decide)
  have hnone : (Run.state step twoCells.init [.write 5, .read, .write 6]).readAll = none := by decide
  rw [hnone] at hall
  cases hall

end Recd2.RingBuffer
