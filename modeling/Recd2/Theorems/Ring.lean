import Recd2.RingBuffer

/-! The ring buffer as a queue. The values that were written stay in their cells for a round of the buffer, and
    the heads follow the numbers of values written and read. While fewer values are unread than there are
    cells, the reads are those of the queue. -/

namespace Recd2.RingBuffer
variable {T : Type} {SIZE : Nat}

/-- The buffer after the given values were written and the first `r` of them were read. -/
structure Tracks (rb : RingBuffer T SIZE) (written : List T) (r : Nat) : Prop where
  rHead : rb.rHead = r % SIZE
  wHead : rb.wHead = written.length % SIZE
  keeps : Ring.Keeps rb.buffer written

namespace Tracks
variable {rb : RingBuffer T SIZE} {written : List T} {r : Nat}

theorem init (rb : RingBuffer T SIZE) : rb.init.Tracks [] 0 where
  rHead := (Nat.zero_mod SIZE).symm
  wHead := (Nat.zero_mod SIZE).symm
  keeps := Ring.keeps_nil _

theorem write (h : rb.Tracks written r) (hsize : 0 < SIZE) (t : T) : (rb.write t).Tracks (written ++ [t]) r where
  rHead := h.rHead
  wHead := by
    rw [List.length_append, List.length_singleton, ← Ring.next_mod written.length hsize, ← h.wHead]
    rfl
  keeps := by
    have hpush := h.keeps.push hsize t
    rwa [← h.wHead] at hpush

theorem heads_lt (h : rb.Tracks written r) (hsize : 0 < SIZE) : rb.rHead < SIZE ∧ rb.wHead < SIZE := by
  rw [h.rHead, h.wHead]
  exact ⟨Nat.mod_lt r hsize, Nat.mod_lt _ hsize⟩

/-- The heads meet where a whole number of rounds is unread. -/
theorem heads_eq_iff_dvd (h : rb.Tracks written r) (hr : r ≤ written.length) :
    rb.rHead = rb.wHead ↔ SIZE ∣ written.length - r := by
  rw [h.rHead, h.wHead]
  exact Nat.modEq_iff_dvd' hr

/-- Within a round, the heads meet only where everything is read. -/
theorem heads_eq_iff (h : rb.Tracks written r) (hr : r ≤ written.length) (hlt : written.length < r + SIZE) :
    rb.rHead = rb.wHead ↔ r = written.length := by
  rw [h.heads_eq_iff_dvd hr]
  refine ⟨fun hdvd => ?_, fun heq => by rw [heq, Nat.sub_self]; exact Nat.dvd_zero SIZE⟩
  by_contra hne
  have := Nat.le_of_dvd (by omega) hdvd
  omega

theorem read_of_le (h : rb.Tracks written r) (hlt : written.length < r + SIZE) (hr : r = written.length) :
    rb.read = (none, rb) :=
  if_pos ((h.heads_eq_iff hr.le hlt).mpr hr)

theorem read_of_lt (h : rb.Tracks written r) (hlt : written.length < r + SIZE) (hr : r < written.length) :
    rb.read.1 = some (r % SIZE) ∧ rb.read.2.Tracks written (r + 1) := by
  have hne : rb.rHead ≠ rb.wHead := mt (h.heads_eq_iff hr.le hlt).mp (Nat.ne_of_lt hr)
  rw [RingBuffer.read, if_neg hne]
  refine ⟨by rw [h.rHead], ⟨?_, h.wHead, h.keeps⟩⟩
  rw [← Ring.next_mod r (by omega), ← h.rHead]
  rfl

/-- A value stays behind its pointer until a whole round of values is written behind it. -/
theorem deref (h : rb.Tracks written r) {k : Nat} (hk : k < written.length) (hlt : written.length ≤ k + SIZE) :
    rb.deref (k % SIZE) = some written[k] := h.keeps k hk hlt

end Tracks

/-! ### The queue -/

/-- The unread values are the queue. -/
def Holds (rb : RingBuffer T SIZE) (q : List T) : Prop :=
  ∃ written r, rb.Tracks written r ∧ r ≤ written.length ∧ q = written.drop r ∧ q.length ≤ SIZE - 1

section
variable {rb : RingBuffer T SIZE} {q : List T}

theorem Holds.heads_lt (h : rb.Holds q) (hsize : 1 ≤ SIZE) : rb.rHead < SIZE ∧ rb.wHead < SIZE := by
  obtain ⟨written, r, htracks, -⟩ := h
  exact htracks.heads_lt hsize

theorem Holds.step (h : rb.Holds q) (hsize : 1 ≤ SIZE) (op : Fifo.Op T)
    (hcap : (Fifo.step q op).1.length ≤ SIZE - 1) :
    (rb.step op).1.Holds (Fifo.step q op).1 ∧ (rb.step op).2 = (Fifo.step q op).2 := by
  obtain ⟨written, r, htracks, hr, rfl, hlen⟩ := h
  rw [List.length_drop] at hlen
  cases op with
  | write t =>
    refine ⟨⟨written ++ [t], r, htracks.write hsize t, ?_, ?_, hcap⟩, rfl⟩
    · rw [List.length_append]
      omega
    · exact (List.drop_append_of_le_length hr).symm
  | read =>
    by_cases hall : r = written.length
    · have hread := htracks.read_of_le (by omega) hall
      have hnil : written.drop r = [] := List.drop_eq_nil_of_le hall.ge
      rw [RingBuffer.step, hread, hnil]
      exact ⟨⟨written, r, htracks, hr, hnil.symm, Nat.zero_le _⟩, rfl⟩
    · have hlt : r < written.length := by omega
      obtain ⟨hptr, hnext⟩ := htracks.read_of_lt (by omega) hlt
      have hcons : written.drop r = written[r] :: written.drop (r + 1) := List.drop_eq_getElem_cons hlt
      rw [RingBuffer.step, hptr, hcons]
      refine ⟨⟨written, r + 1, hnext, hlt, rfl, ?_⟩, ?_⟩
      · rw [hcons] at hcap
        exact hcap
      · rw [Option.bind_some, htracks.deref hlt (by omega)]
        rfl

theorem Holds.read_eq_none_iff (h : rb.Holds q) (hsize : 1 ≤ SIZE) : rb.read.1 = none ↔ q = [] := by
  obtain ⟨written, r, htracks, hr, rfl, hlen⟩ := h
  rw [List.length_drop] at hlen
  rw [List.drop_eq_nil_iff]
  by_cases hall : r = written.length
  · rw [htracks.read_of_le (by omega) hall]
    exact iff_of_true rfl hall.ge
  · rw [(htracks.read_of_lt (by omega) (by omega)).1]
    exact iff_of_false (Option.some_ne_none _) (by omega)

end

/-- The same for a whole run in which no more than `SIZE - 1` values are unread at any time. -/
theorem holds_run (hsize : 1 ≤ SIZE) (rb : RingBuffer T SIZE) (ops : List (Fifo.Op T))
    (hcap : ∀ k, (Run.state Fifo.step [] (ops.take k)).length ≤ SIZE - 1) :
    (Run.state step rb.init ops).Holds (Run.state Fifo.step [] ops) ∧
      Run.emits step rb.init ops = Run.emits Fifo.step [] ops := by
  have hstart : rb.init.Holds [] := ⟨[], 0, .init rb, Nat.le_refl 0, rfl, Nat.zero_le _⟩
  exact Run.emits_refines (C := fun q => q.length ≤ SIZE - 1) (fun s q op hs hcap => hs.step hsize op hcap) ops _ _ hstart hcap

/-- While no more than `SIZE - 1` values are unread, the reads of a buffer are those of a queue: what was read,
    followed by the unread values, is what was written, and a read gives `nullptr` exactly when everything is
    read. The heads stay in the buffer. -/
theorem refines_fifo (hsize : 1 ≤ SIZE) (rb : RingBuffer T SIZE) (ops : List (Fifo.Op T))
    (hcap : ∀ k, (Run.state Fifo.step [] (ops.take k)).length ≤ SIZE - 1) :
    Run.emits step rb.init ops = Run.emits Fifo.step [] ops ∧
      (Run.emits step rb.init ops).reduceOption ++ Run.state Fifo.step [] ops = Fifo.written ops ∧
      ((Run.state step rb.init ops).read.1 = none ↔ (Run.emits step rb.init ops).reduceOption = Fifo.written ops) ∧
      ∀ k, (Run.state step rb.init (ops.take k)).rHead < SIZE ∧ (Run.state step rb.init (ops.take k)).wHead < SIZE := by
  have hruns : ∀ k, (Run.state step rb.init (ops.take k)).Holds (Run.state Fifo.step [] (ops.take k)) := fun k =>
    (holds_run hsize rb (ops.take k) fun j => by
      rw [List.take_take]
      exact hcap _).1
  obtain ⟨hholds, hemits⟩ := holds_run hsize rb ops hcap
  have hfifo : (Run.emits step rb.init ops).reduceOption ++ Run.state Fifo.step [] ops = Fifo.written ops := by
    rw [hemits, Fifo.emits_append_state]
    rfl
  refine ⟨hemits, hfifo, ?_, fun k => (hruns k).heads_lt hsize⟩
  rw [hholds.read_eq_none_iff hsize]
  constructor
  · intro hnil
    rwa [hnil, List.append_nil] at hfifo
  · intro hall
    rw [hall] at hfifo
    exact List.append_right_eq_self.mp hfifo

/-- An empty ring of two cells. -/
def twoCells : RingBuffer Nat 2 := ⟨0, 0, #v[0, 0]⟩

/-- The second value goes to the second cell, and the third one to the first. -/
def threeValues : List (Fifo.Op Nat) := [.write 5, .read, .write 6, .read, .write 7, .read, .read]

theorem refines_fifo_twoCells :
    Run.emits step twoCells.init threeValues = Run.emits Fifo.step [] threeValues ∧
      (Run.emits step twoCells.init threeValues).reduceOption ++ Run.state Fifo.step [] threeValues =
        Fifo.written threeValues ∧
      ((Run.state step twoCells.init threeValues).read.1 = none ↔
        (Run.emits step twoCells.init threeValues).reduceOption = Fifo.written threeValues) ∧
      ∀ k, (Run.state step twoCells.init (threeValues.take k)).rHead < 2 ∧
        (Run.state step twoCells.init (threeValues.take k)).wHead < 2 :=
  refines_fifo (by decide) twoCells threeValues fun k => by
    have hshort : ∀ j ≤ 7, (Run.state Fifo.step [] (threeValues.take j)).length ≤ 1 := by decide
    rcases Nat.le_total k 7 with hk | hk
    · exact hshort k hk
    · rw [List.take_of_length_le (show threeValues.length ≤ k from hk)]
      exact hshort 7 (Nat.le_refl 7)

end Recd2.RingBuffer
