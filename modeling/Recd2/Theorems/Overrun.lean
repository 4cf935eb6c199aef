import Mathlib.Data.List.Induction
import Recd2.Theorems.Ring

/-! The ring buffer without a bound on the writer. `write` has no test for a full buffer, and the heads meet whenever a
    whole number of rounds is unread, so that a buffer with as many unread values as cells reads as an empty one. -/

namespace Recd2.RingBuffer
variable {T : Type} {SIZE : Nat}

/-! ### Runs of any kind -/

/-- What is known behind every run. What was read is a part of the first `m` values, and the next read is at the cell of
    a value behind these; within a round, nothing was skipped. -/
structure Lapped (rb : RingBuffer T SIZE) (written out : List T) : Prop where
  tracks : rb.Tracks written out.length
  le : out.length ≤ written.length
  inOrder : ∃ m ≤ written.length, m % SIZE = out.length % SIZE ∧ out.Sublist (written.take m)
  whole : written.length < out.length + SIZE → out = written.take out.length

/-- The last value in the cell of an earlier one. -/
theorem exists_last {m n size : Nat} (hm : m < n) (hsize : 0 < size) :
    ∃ k, m ≤ k ∧ k < n ∧ n ≤ k + size ∧ k % size = m % size := by
  have hround := Nat.div_add_mod (n - 1 - m) size
  have hmod := Nat.mod_lt (n - 1 - m) hsize
  refine ⟨m + size * ((n - 1 - m) / size), Nat.le_add_right _ _, by omega, by omega, Nat.add_mul_mod_self_left _ _ _⟩

namespace Lapped
variable {rb : RingBuffer T SIZE} {written out : List T}

theorem init (rb : RingBuffer T SIZE) : rb.init.Lapped [] [] where
  tracks := .init rb
  le := Nat.le_refl 0
  inOrder := ⟨0, Nat.le_refl 0, rfl, List.Sublist.refl _⟩
  whole _ := rfl

theorem write (h : rb.Lapped written out) (hsize : 0 < SIZE) (t : T) : (rb.write t).Lapped (written ++ [t]) out where
  tracks := h.tracks.write hsize t
  le := by
    rw [List.length_append]
    exact Nat.le_add_right_of_le h.le
  inOrder := by
    obtain ⟨m, hm, hcell, hsub⟩ := h.inOrder
    refine ⟨m, by rw [List.length_append]; exact Nat.le_add_right_of_le hm, hcell, ?_⟩
    rwa [List.take_append_of_le_length hm]
  whole hlt := by
    rw [List.length_append, List.length_singleton] at hlt
    rw [List.take_append_of_le_length h.le]
    exact h.whole (by omega)

/-- A read that gives a pointer: it points to a value behind those that were read, and within a round to the next. -/
theorem read (h : rb.Lapped written out) (hsize : 0 < SIZE) (hheads : rb.rHead ≠ rb.wHead) :
    ∃ x, rb.read.1.bind rb.deref = some x ∧ rb.read.2.Lapped written (out ++ [x]) := by
  obtain ⟨m, hm, hcell, hsub⟩ := h.inOrder
  have hapart : ¬SIZE ∣ written.length - out.length := fun hdvd => hheads ((h.tracks.heads_eq_iff_dvd h.le).mpr hdvd)
  have hlt : out.length < written.length := Nat.lt_of_le_of_ne h.le fun heq => hapart (by simp [heq])
  have hne : m ≠ written.length := fun heq =>
    hheads (by rw [h.tracks.rHead, h.tracks.wHead, ← hcell, heq])
  obtain ⟨k, hmk, hk, hround, hkcell⟩ := exists_last (Nat.lt_of_le_of_ne hm hne) hsize
  have hread : rb.read = (some rb.rHead, { rb with rHead := advance SIZE rb.rHead }) := if_neg hheads
  have hvalue : rb.read.1.bind rb.deref = some written[k] := by
    rw [hread, h.tracks.rHead, ← hcell, ← hkcell]
    exact h.tracks.deref hk hround
  have hlen : (out ++ [written[k]]).length = out.length + 1 := List.length_append
  have htake : written.take (k + 1) = written.take k ++ [written[k]] := (List.take_append_getElem hk).symm
  refine ⟨written[k], hvalue, ?_, by rw [hlen]; exact hlt, ⟨k + 1, hk, ?_, ?_⟩, fun hnear => ?_⟩
  · rw [hlen, hread]
    refine ⟨?_, h.tracks.wHead, h.tracks.keeps⟩
    rw [← Ring.next_mod out.length hsize, ← h.tracks.rHead]
    rfl
  · rw [hlen, ← Nat.mod_add_mod, hkcell, hcell, Nat.mod_add_mod]
  · rw [htake]
    exact (hsub.trans (List.take_sublist_take_left hmk)).append (List.Sublist.refl _)
  · -- Within a round the cell still has the value with the number of the read.
    rw [hlen] at hnear
    have hfar : written.length ≠ out.length + SIZE := fun heq => hapart (by simp [heq])
    have hnext : written[k] = written[out.length] := by
      rw [hread, h.tracks.rHead, Option.bind_some, h.tracks.deref hlt (by omega)] at hvalue
      exact (Option.some.inj hvalue).symm
    rw [hlen, ← List.take_append_getElem hlt, hnext, ← h.whole (by omega)]

theorem step (h : rb.Lapped written out) (hsize : 0 < SIZE) (op : Fifo.Op T) :
    (rb.step op).1.Lapped (written ++ op.value?.toList) (out ++ (rb.step op).2.reduceOption) := by
  cases op with
  | write t =>
    have hout : out ++ ([] : List (Option T)).reduceOption = out := List.append_nil out
    rw [RingBuffer.step, hout]
    exact h.write hsize t
  | read =>
    have hwritten : written ++ (Fifo.Op.read : Fifo.Op T).value?.toList = written := List.append_nil written
    rw [hwritten]
    by_cases hheads : rb.rHead = rb.wHead
    · have hread : rb.read = (none, rb) := if_pos hheads
      have hout : out ++ [(none : Option T)].reduceOption = out := List.append_nil out
      rw [RingBuffer.step, hread, Option.bind_none, hout]
      exact h
    · obtain ⟨x, hx, hnext⟩ := h.read hsize hheads
      rw [RingBuffer.step, hx]
      exact hnext

end Lapped

/-- The values that were read in a run from `init`. -/
def readValues (rb : RingBuffer T SIZE) (ops : List (Fifo.Op T)) : List T := (Run.emits step rb.init ops).reduceOption

theorem written_snoc (ops : List (Fifo.Op T)) (op : Fifo.Op T) :
    Fifo.written (ops ++ [op]) = Fifo.written ops ++ op.value?.toList := by
  rw [Fifo.written, Fifo.written, List.filterMap_append]
  cases op <;> rfl

theorem readValues_snoc (rb : RingBuffer T SIZE) (ops : List (Fifo.Op T)) (op : Fifo.Op T) :
    rb.readValues (ops ++ [op]) =
      rb.readValues ops ++ ((Run.state step rb.init ops).step op).2.reduceOption := by
  rw [readValues, Run.emits_snoc, List.reduceOption_append]
  rfl

theorem lapped_run (hsize : 0 < SIZE) (rb : RingBuffer T SIZE) (ops : List (Fifo.Op T)) :
    (Run.state step rb.init ops).Lapped (Fifo.written ops) (rb.readValues ops) := by
  induction ops using List.reverseRecOn with
  | nil => exact .init rb
  | append_singleton ops op ih =>
    rw [Run.state_snoc, written_snoc, readValues_snoc]
    exact ih.step hsize op

/-! ### Unread values -/

/-- A buffer with unread values reads one, and the values read are a part of those written that, once the buffer has been
    read until it is empty, ends with the last `SIZE - 1` of them. -/
structure Serves (rb : RingBuffer T SIZE) (ops : List (Fifo.Op T)) : Prop where
  nonempty : (rb.readValues ops).length < (Fifo.written ops).length → (Run.state step rb.init ops).read.1 ≠ none
  emptied : ∃ n, (Run.state step rb.init (ops ++ List.replicate n .read)).read.1 = none ∧
    (rb.readValues (ops ++ List.replicate n .read)).Sublist (Fifo.written ops) ∧
    (Fifo.written ops).drop ((Fifo.written ops).length - (SIZE - 1)) <:+ rb.readValues (ops ++ List.replicate n .read)

section Serves
variable {rb : RingBuffer T SIZE} {ops : List (Fifo.Op T)}

theorem state_fifo_reads (q : List T) (n : Nat) : Run.state Fifo.step q (List.replicate n .read) = q.drop n := by
  induction n generalizing q with
  | zero => rfl
  | succ n ih =>
    have htail : (Fifo.step q .read).1 = q.drop 1 := List.drop_one.symm
    rw [List.replicate_succ, Run.state_cons, ih, htail, List.drop_drop, Nat.add_comm]

theorem written_reads (ops : List (Fifo.Op T)) (n : Nat) : Fifo.written (ops ++ List.replicate n .read) = Fifo.written ops := by
  rw [Fifo.written, List.filterMap_append, List.filterMap_replicate]
  exact List.append_nil _

/-- The queue never gets longer by reads at the end. -/
theorem capacity_reads (hcap : ∀ k, (Run.state Fifo.step [] (ops.take k)).length ≤ SIZE - 1) (n k : Nat) :
    (Run.state Fifo.step [] ((ops ++ List.replicate n Fifo.Op.read).take k)).length ≤ SIZE - 1 := by
  rw [List.take_append, List.take_replicate, Run.state_append, state_fifo_reads, List.length_drop]
  exact Nat.le_trans (Nat.sub_le _ _) (hcap k)

theorem serves_of_capacity (hsize : 1 ≤ SIZE) (hcap : ∀ k, (Run.state Fifo.step [] (ops.take k)).length ≤ SIZE - 1) :
    rb.Serves ops := by
  have hwhole : ∀ n, rb.readValues (ops ++ List.replicate n Fifo.Op.read) ++ (Run.state Fifo.step [] ops).drop n =
      Fifo.written ops := fun n => by
    obtain ⟨-, hemits⟩ := holds_run hsize rb _ (capacity_reads hcap n)
    rw [readValues, hemits, ← state_fifo_reads, ← Run.state_append, Fifo.emits_append_state, written_reads]
    rfl
  constructor
  · intro hunread hnone
    obtain ⟨hholds, -⟩ := holds_run hsize rb ops hcap
    have hnow := hwhole 0
    rw [List.replicate_zero, List.append_nil, (hholds.read_eq_none_iff hsize).mp hnone, List.drop_nil,
      List.append_nil] at hnow
    rw [hnow] at hunread
    exact Nat.lt_irrefl _ hunread
  · refine ⟨(Run.state Fifo.step [] ops).length, ?_, ?_⟩
    · obtain ⟨hholds, -⟩ := holds_run hsize rb _ (capacity_reads hcap (Run.state Fifo.step [] ops).length)
      rw [hholds.read_eq_none_iff hsize, Run.state_append, state_fifo_reads, List.drop_length]
    · have hall := hwhole (Run.state Fifo.step [] ops).length
      rw [List.drop_length, List.append_nil] at hall
      rw [hall]
      exact ⟨List.Sublist.refl _, List.drop_suffix _ _⟩

/-- A write that finds `SIZE - 1` unread values makes the heads meet. -/
theorem not_serves_write (hsize : 1 ≤ SIZE) (hcap : ∀ k, (Run.state Fifo.step [] (ops.take k)).length ≤ SIZE - 1)
    (hfull : (Run.state Fifo.step [] ops).length = SIZE - 1) (t : T) : ¬rb.Serves (ops ++ [.write t]) := by
  intro hserves
  obtain ⟨-, hemits⟩ := holds_run hsize rb ops hcap
  have hnow : rb.readValues ops ++ Run.state Fifo.step [] ops = Fifo.written ops := by
    rw [readValues, hemits, Fifo.emits_append_state]
    rfl
  have hcount := congrArg List.length hnow
  rw [List.length_append] at hcount
  have hout : rb.readValues (ops ++ [.write t]) = rb.readValues ops := by
    rw [readValues_snoc]
    exact List.append_nil _
  have hwritten : (Fifo.written (ops ++ [.write t])).length = (Fifo.written ops).length + 1 := by
    rw [written_snoc, List.length_append]
    rfl
  have hlapped := lapped_run hsize rb (ops ++ [.write t])
  have hmeet := (hlapped.tracks.heads_eq_iff_dvd hlapped.le).mpr (by
    rw [hwritten, hout]
    exact ⟨1, by omega⟩)
  exact hserves.nonempty (by rw [hwritten, hout]; omega) (by rw [RingBuffer.read, if_pos hmeet])

theorem capacity_of_serves (hsize : 1 ≤ SIZE) (h : ∀ k, rb.Serves (ops.take k)) :
    ∀ k, (Run.state Fifo.step [] (ops.take k)).length ≤ SIZE - 1 := by
  induction ops using List.reverseRecOn with
  | nil => intro k; simp
  | append_singleton ops op ih =>
    have hcap := ih fun k => by
      have hk := h (min k ops.length)
      rwa [List.take_append_of_le_length (Nat.min_le_right _ _), ← List.take_eq_take_min] at hk
    intro k
    rcases Nat.lt_or_ge ops.length k with hlt | hle
    · rw [List.take_of_length_le (by rw [List.length_append]; exact hlt), Run.state_snoc]
      have hlen := hcap ops.length
      rw [List.take_length] at hlen
      cases op with
      | read =>
        rw [Fifo.step, List.length_tail]
        omega
      | write t =>
        by_contra hover
        rw [Fifo.step, List.length_append, List.length_singleton] at hover
        have hserves := h (ops ++ [Fifo.Op.write t]).length
        rw [List.take_length] at hserves
        exact not_serves_write hsize hcap (by omega) t hserves
    · rw [List.take_append_of_le_length hle]
      exact hcap k

end Serves

/-- What is read is always a part of what was written, in order. A buffer with unread values never reads as empty, and
    loses no more than the values that are older than `SIZE - 1`, exactly as long as no more than `SIZE - 1` values are
    unread at any time. -/
theorem never_empty_iff (hsize : 2 ≤ SIZE) (rb : RingBuffer T SIZE) (ops : List (Fifo.Op T)) :
    (rb.readValues ops).Sublist (Fifo.written ops) ∧
      ((∀ k, rb.Serves (ops.take k)) ↔ ∀ k, (Run.state Fifo.step [] (ops.take k)).length ≤ SIZE - 1) := by
  have hcells : 1 ≤ SIZE := Nat.le_of_succ_le hsize
  constructor
  · obtain ⟨m, -, -, hsub⟩ := (lapped_run hcells rb ops).inOrder
    exact hsub.trans (List.take_sublist m _)
  · refine ⟨capacity_of_serves hcells, fun hcap k => serves_of_capacity hcells fun j => ?_⟩
    rw [List.take_take]
    exact hcap _

theorem never_empty_iff_twoCells :
    (twoCells.readValues threeValues).Sublist (Fifo.written threeValues) ∧
      ((∀ k, twoCells.Serves (threeValues.take k)) ↔ ∀ k, (Run.state Fifo.step [] (threeValues.take k)).length ≤ 2 - 1) :=
  never_empty_iff (Nat.le_refl 2) twoCells threeValues

/-- Two values in two cells: the buffer reads as empty. -/
theorem never_empty_counterexample :
    ¬∀ (SIZE : Nat) (rb : RingBuffer Nat SIZE) (ops : List (Fifo.Op Nat)), 2 ≤ SIZE → rb.Serves ops := by
  intro h
  have hserves := h 2 twoCells [.write 5, .write 6] (Nat.le_refl 2)
  exact hserves.nonempty (by decide) (by decide)

end Recd2.RingBuffer
