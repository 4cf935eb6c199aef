import Mathlib.Data.List.ReduceOption
import Recd2.Lib.Run

/-! A queue of any length, with writes and reads. A read of the empty queue gives none. -/

namespace Recd2.Fifo
variable {α : Type}

inductive Op (α : Type) where
  | write (x : α)
  | read
  deriving DecidableEq, Repr

def step (q : List α) : Op α → List α × List (Option α)
  | .write x => (q ++ [x], [])
  | .read => (q.tail, [q.head?])

def Op.value? : Op α → Option α
  | .write x => some x
  | .read => none

def written (ops : List (Op α)) : List α := ops.filterMap Op.value?

/-- What was read, followed by the queue, is what was written. -/
theorem emits_append_state (q : List α) (ops : List (Op α)) :
    (Run.emits step q ops).reduceOption ++ Run.state step q ops = q ++ written ops := by
  induction ops generalizing q with
  | nil => exact (List.append_nil q).symm
  | cons op ops ih =>
    rw [Run.emits_cons, Run.state_cons, List.reduceOption_append, List.append_assoc, ih]
    cases op with
    | write x => exact List.append_assoc q [x] (written ops)
    | read => cases q <;> rfl

end Recd2.Fifo
