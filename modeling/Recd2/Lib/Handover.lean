import Recd2.Lib.Run

/-! A queue that a consumer empties into a buffer of its own, and then takes the elements of the buffer one by
    one. Whatever the order of the steps, nothing is lost, repeated or moved. -/

namespace Recd2.Handover

section Step
variable {α : Type}

/-- From a rest of the buffer and a queue to the next ones: what the step accepts into the queue, and what it
    takes out of the buffer. -/
inductive Step : List α → List α → List α → List α → List α → List α → Prop
  | idle (rest queue : List α) : Step rest queue [] [] rest queue
  | put (rest queue : List α) (x : α) : Step rest queue [x] [] rest (queue ++ [x])
  | drain (rest queue : List α) : Step rest queue [] [] (rest ++ queue) []
  | take (x : α) (rest queue : List α) : Step (x :: rest) queue [] [x] rest queue

theorem Step.conserves {rest queue accepted taken rest' queue' : List α}
    (h : Step rest queue accepted taken rest' queue') :
    taken ++ rest' ++ queue' = rest ++ queue ++ accepted := by
  cases h with
  | idle => simp
  | put => simp
  | drain => simp
  | take => simp

end Step

/-! ### Runs -/

section Run
variable {σ ε ο α : Type} {step : σ → ε → σ × List ο} {rest queue : σ → List α} {accepted : ε → List α} {taken : ο → List α}

/-- What was taken, the rest of the buffer and the queue together are what was there and what was accepted. -/
theorem conserved
    (hstep : ∀ s e, Step (rest s) (queue s) (accepted e) ((step s e).2.flatMap taken) (rest (step s e).1)
      (queue (step s e).1)) (s : σ) (es : List ε) :
    (Run.emits step s es).flatMap taken ++ rest (Run.state step s es) ++ queue (Run.state step s es) =
      rest s ++ queue s ++ es.flatMap accepted := by
  induction es generalizing s with
  | nil => simp
  | cons e es ih =>
    have hfirst := (hstep s e).conserves
    have hrest := ih (step s e).1
    rw [Run.emits_cons, Run.state_cons, List.flatMap_append, List.flatMap_cons]
    generalize Run.state step (step s e).1 es = t at *
    calc (step s e).2.flatMap taken ++ (Run.emits step (step s e).1 es).flatMap taken ++ rest t ++ queue t
      _ = (step s e).2.flatMap taken ++ ((Run.emits step (step s e).1 es).flatMap taken ++ rest t ++ queue t) := by simp
      _ = (step s e).2.flatMap taken ++ rest (step s e).1 ++ queue (step s e).1 ++ es.flatMap accepted := by
        rw [hrest]
        simp
      _ = rest s ++ queue s ++ (accepted e ++ es.flatMap accepted) := by rw [hfirst, List.append_assoc]

end Run
end Recd2.Handover
