import Recd2.Lib.Handover
import Recd2.Writer
import Mathlib.Data.List.Induction

/-! What the logger's file has when its thread returns. The thread tests `m_isRunning` behind its drain, so the
    messages of the shared buffer are written only when `stopWriter` comes in time for another drain. -/

namespace Recd2.Writer

/-- What a step hands to the writer. -/
def Act.accepted : Act → List QByteArray
  | .write data => [data]
  | _ => []

/-- The messages handed to `write`. -/
def written (acts : List Act) : List QByteArray := acts.flatMap Act.accepted

/-- `run` comes to its drain before it tests `m_isRunning`. -/
def DrainAhead (w : Writer) : Prop := w.runAt = .sleep ∨ w.runAt = .drain

section Step
variable (w : Writer)

theorem run_handover :
    Handover.Step w.dblBuff w.buffer [] (w.run.2.flatMap fun d => [d]) w.run.1.dblBuff w.run.1.buffer := by
  rw [run]
  split
  · exact .idle w.dblBuff w.buffer
  · exact .drain w.dblBuff w.buffer
  · split
    · rename_i d ds hbuff
      rw [hbuff]
      exact .take d ds w.buffer
    · exact .idle w.dblBuff w.buffer
  · exact .idle w.dblBuff w.buffer
  · exact .idle w.dblBuff w.buffer

theorem step_handover (act : Act) :
    Handover.Step w.dblBuff w.buffer act.accepted ((step w act).2.flatMap fun d => [d]) (step w act).1.dblBuff
      (step w act).1.buffer := by
  cases act with
  | write data => exact .put w.dblBuff w.buffer data
  | stopWriter => exact .idle w.dblBuff w.buffer
  | run => exact run_handover w

theorem length_step (act : Act) :
    (step w act).2.length + (step w act).1.dblBuff.length + (step w act).1.buffer.length =
      w.dblBuff.length + w.buffer.length + act.accepted.length := by
  have hlen := congrArg List.length (step_handover w act).conserves
  rwa [List.flatMap_singleton', List.length_append, List.length_append, List.length_append, List.length_append] at hlen

/-- What the file gets, `dblBuff` and the shared buffer are the messages handed to `write`. -/
theorem balance (acts : List Act) :
    Run.emits step startWriter acts ++ (Run.state step startWriter acts).dblBuff ++
      (Run.state step startWriter acts).buffer = written acts := by
  have hall := Handover.conserved step_handover startWriter acts
  rwa [List.flatMap_singleton'] at hall

end Step

/-! ### Behind `stopWriter` -/

section Stopped
variable {w : Writer} (act : Act)

theorem stopped_step (h : w.isRunning = false) : (step w act).1.isRunning = false := by
  cases act with
  | write data => exact h
  | stopWriter => rfl
  | run =>
    show w.run.1.isRunning = false
    rw [run]
    split
    · exact h
    · exact h
    · split
      · exact h
      · exact h
    · exact h
    · exact h

/-- With no drain ahead, `dblBuff` is all that still gets to the file. -/
theorem late_step (h : w.isRunning = false) (hlate : ¬w.DrainAhead) :
    ¬(step w act).1.DrainAhead ∧ (step w act).2.length + (step w act).1.dblBuff.length = w.dblBuff.length := by
  cases act with
  | write data => exact ⟨hlate, Nat.zero_add _⟩
  | stopWriter => exact ⟨hlate, Nat.zero_add _⟩
  | run =>
    show ¬w.run.1.DrainAhead ∧ w.run.2.length + w.run.1.dblBuff.length = w.dblBuff.length
    rw [run]
    split
    · rename_i hat
      exact absurd (Or.inl hat) hlate
    · rename_i hat
      exact absurd (Or.inr hat) hlate
    · rename_i hat
      split
      · rename_i d ds hbuff
        refine ⟨hlate, ?_⟩
        rw [hbuff, List.length_singleton, List.length_cons]
        exact Nat.add_comm 1 ds.length
      · exact ⟨by simp [DrainAhead], Nat.zero_add _⟩
    · rw [h]
      exact ⟨by simp [DrainAhead], Nat.zero_add _⟩
    · exact ⟨hlate, Nat.zero_add _⟩

/-- The drain that is ahead takes the whole shared buffer. -/
theorem ahead_step (hahead : w.DrainAhead) :
    (step w act).1.DrainAhead ∨
      (step w act).2.length + (step w act).1.dblBuff.length = w.dblBuff.length + w.buffer.length := by
  cases act with
  | write data => exact Or.inl hahead
  | stopWriter => exact Or.inl hahead
  | run =>
    show w.run.1.DrainAhead ∨ w.run.2.length + w.run.1.dblBuff.length = w.dblBuff.length + w.buffer.length
    rcases hahead with hat | hat
    · have hrun : w.run = ({ w with runAt := .drain }, []) := by rw [run, hat]
      rw [hrun]
      exact Or.inl (Or.inr rfl)
    · have hrun : w.run = ({ w with dblBuff := w.dblBuff ++ w.buffer, buffer := [], runAt := .write }, []) := by
        rw [run, hat]
      rw [hrun]
      refine Or.inr ?_
      rw [List.length_nil, Nat.zero_add]
      exact List.length_append

variable (acts : List Act)

theorem late_run (h : w.isRunning = false) (hlate : ¬w.DrainAhead) :
    ¬(Run.state step w acts).DrainAhead ∧
      (Run.emits step w acts).length + (Run.state step w acts).dblBuff.length = w.dblBuff.length := by
  induction acts generalizing w with
  | nil => exact ⟨hlate, Nat.zero_add _⟩
  | cons act acts ih =>
    obtain ⟨hlate', hlen⟩ := late_step act h hlate
    obtain ⟨hend, hlen'⟩ := ih (stopped_step act h) hlate'
    refine ⟨hend, ?_⟩
    rw [Run.emits_cons, Run.state_cons, List.length_append]
    omega

theorem ahead_run (h : w.isRunning = false) (hahead : w.DrainAhead) :
    (Run.state step w acts).DrainAhead ∨
      w.dblBuff.length + w.buffer.length ≤
        (Run.emits step w acts).length + (Run.state step w acts).dblBuff.length := by
  induction acts generalizing w with
  | nil => exact Or.inl hahead
  | cons act acts ih =>
    have hlen := length_step w act
    rw [Run.emits_cons, Run.state_cons, List.length_append]
    by_cases hnext : (step w act).1.DrainAhead
    · rcases ih (stopped_step act h) hnext with hend | hend
      · exact Or.inl hend
      · exact Or.inr (by omega)
    · have hdrained := (ahead_step act hahead).resolve_left hnext
      have hrest := (late_run acts (stopped_step act h) hnext).2
      exact Or.inr (by omega)

end Stopped

/-! ### The whole run -/

/-- Behind its loop, `run` has an empty `dblBuff`. -/
theorem idle_of_returned (acts : List Act) :
    (Run.state step startWriter acts).runAt = .test ∨ (Run.state step startWriter acts).runAt = .returned →
      (Run.state step startWriter acts).dblBuff = [] := by
  induction acts using List.reverseRecOn with
  | nil => exact fun _ => rfl
  | append_singleton acts act ih =>
    rw [Run.state_snoc]
    generalize Run.state step startWriter acts = w at *
    cases act with
    | write data => exact ih
    | stopWriter => exact ih
    | run =>
      show w.run.1.runAt = .test ∨ w.run.1.runAt = .returned → w.run.1.dblBuff = []
      rw [run]
      split
      · simp
      · simp
      · rename_i hat
        split
        · simp [hat]
        · rename_i hbuff
          exact fun _ => hbuff
      · rename_i hat
        exact fun _ => ih (Or.inl hat)
      · exact ih

theorem prefix_written {pre post : List Act} :
    written pre <+: Run.emits step startWriter (pre ++ post) ↔
      (written pre).length ≤ (Run.emits step startWriter (pre ++ post)).length := by
  have hpre : written pre <+: written (pre ++ post) := by
    rw [written, written, List.flatMap_append]
    exact List.prefix_append _ _
  have hfile : Run.emits step startWriter (pre ++ post) <+: written (pre ++ post) := by
    rw [← balance, List.append_assoc]
    exact List.prefix_append _ _
  exact ⟨List.IsPrefix.length_le, List.prefix_of_prefix_length_le hpre hfile⟩

/-- When `run` has returned, the file starts with the messages written before `stopWriter`, in order, exactly when
    `stopWriter` came in front of a drain, or at a moment when the shared buffer was empty. -/
theorem logged_iff (pre post : List Act)
    (hret : (Run.state step startWriter (pre ++ .stopWriter :: post)).runAt = .returned) :
    written pre <+: Run.emits step startWriter (pre ++ .stopWriter :: post) ↔
      (Run.state step startWriter pre).DrainAhead ∨ (Run.state step startWriter pre).buffer = [] := by
  have hlen := congrArg List.length (balance pre)
  have hidle := idle_of_returned _ (Or.inr hret)
  rw [prefix_written, Run.emits_append]
  rw [Run.state_append] at hret hidle
  generalize Run.state step startWriter pre = w at *
  have hstop : w.stopWriter.isRunning = false := rfl
  have hemits : Run.emits step w (.stopWriter :: post) = Run.emits step w.stopWriter post := rfl
  rw [List.length_append, List.length_append] at hlen
  rw [List.length_append, hemits, ← hlen]
  have hend : (Run.state step w.stopWriter post).dblBuff.length = 0 := List.length_eq_zero_iff.mpr hidle
  by_cases hahead : w.DrainAhead
  · refine iff_of_true ?_ (Or.inl hahead)
    rcases ahead_run post hstop hahead with hnever | hall
    · rcases hnever with hat | hat
      · rw [show (Run.state step w.stopWriter post).runAt = .returned from hret] at hat
        cases hat
      · rw [show (Run.state step w.stopWriter post).runAt = .returned from hret] at hat
        cases hat
    · have hkept : w.stopWriter.dblBuff = w.dblBuff ∧ w.stopWriter.buffer = w.buffer := ⟨rfl, rfl⟩
      rw [hkept.1, hkept.2] at hall
      omega
  · rw [or_iff_right hahead, ← List.length_eq_zero_iff]
    have hlate := (late_run post hstop hahead).2
    have hkept : w.stopWriter.dblBuff = w.dblBuff := rfl
    rw [hkept] at hlate
    omega

/-- `stopWriter` comes while the thread sleeps. -/
theorem logged_iff_asleep :
    written [.write [1]] <+: Run.emits step startWriter ([.write [1]] ++ .stopWriter :: .replicate 5 .run) ↔
      (Run.state step startWriter [.write [1]]).DrainAhead ∨ (Run.state step startWriter [.write [1]]).buffer = [] :=
  logged_iff [.write [1]] (.replicate 5 .run) (by decide)

/-- A message that comes behind the drain is lost when `stopWriter` comes before the test. -/
theorem logged_counterexample :
    ¬∀ pre post : List Act, (Run.state step startWriter (pre ++ .stopWriter :: post)).runAt = .returned →
      written pre <+: Run.emits step startWriter (pre ++ .stopWriter :: post) := by
  intro h
  have hlogged := h [.run, .run, .write [1]] [.run, .run] (by decide)
  revert hlogged
  decide

end Recd2.Writer
