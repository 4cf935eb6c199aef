import Recd2.Helper
import Recd2.Lib.Run

/-! The drain of the peak meter. Its loop runs while the buffer is empty, so that it takes from an empty buffer, and leaves
    the frames of any other where they are. -/

namespace Recd2.Helper
open Checked

/-- What the drain does, with a round at least. -/
theorem drain_eq (fuel : Nat) (buffer dbl : List FrameData) :
    drain (fuel + 1) buffer dbl = if buffer = [] then .error .bounds else .ok (buffer, dbl) := by
  cases buffer with
  | nil => rfl
  | cons fd rest => exact whileLoop_of_not rfl

/-- The frames that the server appended. -/
def appended (acts : List Act) : List FrameData :=
  acts.flatMap fun
    | .append udp => [udp]
    | .run => []

section Runs
variable (peekSize : Int32) (buffer dbl : List FrameData) (acts : List Act)

/-- The helper behind the steps, from any content of its two lists. -/
def after : Helper := Run.state (step peekSize) ⟨buffer, dbl, .drain⟩ acts

/-- The frames that it moved in the steps. -/
def moved : List FrameData := Run.emits (step peekSize) ⟨buffer, dbl, .drain⟩ acts

/-- The next step ends without a take from an empty buffer, leaves the buffer empty, and then all frames so far were moved,
    in order. -/
def Drains : Prop :=
  (∀ e, (after peekSize buffer dbl (acts ++ [.run])).runAt ≠ .faulted e) ∧
    (after peekSize buffer dbl (acts ++ [.run])).buffer = [] ∧
    moved peekSize buffer dbl (acts ++ [.run]) = buffer ++ appended acts

/-- A step of the helper moves nothing. -/
theorem emits_run (h : Helper) : (h.run peekSize).2 = [] := by
  obtain ⟨buffer, dbl, runAt⟩ := h
  cases runAt with
  | drain =>
    rw [run]
    simp only [drain_eq]
    by_cases hbuffer : buffer = []
    · rw [if_pos hbuffer]
    · rw [if_neg hbuffer]
      exact List.drop_length
  | test => rfl
  | faulted e => rfl

/-- Whatever the server appends, nothing is ever moved. -/
theorem moved_eq_nil : moved peekSize buffer dbl acts = [] := by
  rw [moved]
  induction acts using List.reverseRecOn with
  | nil => rfl
  | append_singleton acts a ih =>
    rw [Run.emits_snoc, ih, List.nil_append]
    cases a with
    | append udp => rfl
    | run => exact emits_run peekSize _

/-- In no run does the helper drain its buffer: an empty one is a fault, and any other stays as it is. -/
theorem not_drains (hdrain : (after peekSize buffer dbl acts).runAt = .drain) : ¬Drains peekSize buffer dbl acts := by
  rintro ⟨hsound, hempty, -⟩
  have hstep : after peekSize buffer dbl (acts ++ [.run]) = ((after peekSize buffer dbl acts).run peekSize).1 :=
    Run.state_snoc _ acts .run
  rw [hstep, run, hdrain] at hsound hempty
  by_cases hbuffer : (after peekSize buffer dbl acts).buffer = []
  · simp only [drain_eq, if_pos hbuffer] at hsound
    exact hsound .bounds rfl
  · simp only [drain_eq, if_neg hbuffer] at hempty
    exact hbuffer hempty

/-- The first drain, of a buffer with one frame. -/
theorem not_drains_one : ¬Drains 10 [] [] [.append (.silent 1)] := not_drains 10 [] [] _ rfl

/-- A buffer with one frame is left as it is. -/
theorem drains_counterexample : ¬∀ (peekSize : Int32) (buffer dbl : List FrameData) (acts : List Act),
    (after peekSize buffer dbl acts).runAt = .drain → Drains peekSize buffer dbl acts := by
  intro h
  have hempty : [FrameData.silent 1] = [] := (h 10 [] [] [.append (.silent 1)] rfl).2.1
  cases hempty

end Runs
end Recd2.Helper
