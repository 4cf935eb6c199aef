import Recd2.Theorems.Overlong
import Recd2.Theorems.Shutdown

/-! The end of the thread. Where the lists fit the recorder and meet their slots, no call of `record` fails; so behind the
    step that clears `running` the thread records what it has drained and returns, whatever comes between its steps. -/

namespace Recd2.RecorderThread
open Recorder

/-! ### The thread comes to its end -/

section End
variable {env : Env} {r : Recorder} {acts : List Act}

theorem maxChans_step (env : Env) (t : RecorderThread) (act : Act) :
    (step env t act).1.recorder.maxChans = t.recorder.maxChans := by
  cases act with
  | putData data => cases data <;> rfl
  | run => exact (kept_run env t).2.2.1
  | deinit =>
    show t.deinit.recorder.maxChans = _
    rw [deinit]
    split
    · exact maxChans_deinitSlot _ _
    · rfl

/-- A list that fits and meets its slots goes through. -/
theorem record_of_fits (env : Env) {sd : QList} (hfits : Fits r.maxChans sd) (hmeets : MeetsSlots r sd) :
    ∃ r', r.record env sd = some r' := by
  refine record_isSome env hfits.length fun k b hb hs => ?_
  by_cases hk : k < r.maxChans
  · exact hmeets k hk b hb hs
  · have hmem : b ∈ sd.drop r.maxChans := List.mem_iff_getElem?.mpr
      ⟨k - r.maxChans, by rw [List.getElem?_drop, Nat.add_sub_cancel' (Nat.not_lt.mp hk), hb]⟩
    exact absurd (hfits.zero b hmem) hs

/-- Where the lists fit, no call of `record` fails. -/
theorem stands_of_allMeet (hr : ∀ i < r.maxChans, (r.wav? i).isSome) (h : AllMeet env r acts)
    (hfits : ∀ ls ∈ accepted acts, Fits r.maxChans ls) :
    ∀ i, (Run.state (step env) (startRecorder r) acts).runAt ≠ .crashed i := by
  induction acts using List.reverseRecOn with
  | nil => exact fun i hi => by cases hi
  | append_singleton acts act ih =>
    obtain ⟨hbefore, -⟩ := h.of_snoc
    have haccepted : accepted (acts ++ [act]) = accepted acts ++ act.accepted := by
      rw [accepted, List.flatMap_append, List.flatMap_singleton]
      rfl
    rw [haccepted] at hfits
    have hstands := ih hbefore fun ls hls => hfits ls (List.mem_append_left _ hls)
    have hsafe := (safe_of_allMeet hr hbefore).1
    have hall := handed_over env r acts
    have hchans : (Run.state (step env) (startRecorder r) acts).recorder.maxChans = r.maxChans :=
      Run.state_keeps (I := fun t : RecorderThread => t.recorder.maxChans = r.maxChans)
        (fun t act ht => (maxChans_step env t act).trans ht) rfl acts
    rw [Run.state_snoc]
    generalize Run.state (step env) (startRecorder r) acts = t at *
    generalize Run.emits (step env) (startRecorder r) acts = calls at *
    cases act with
    | putData data => cases data <;> exact hstands
    | deinit =>
      show ∀ i, t.deinit.runAt ≠ .crashed i
      rw [deinit]
      split <;> exact hstands
    | run =>
      intro i hi
      cases hat : t.runAt with
      | drain =>
        rw [step, run_drain hat] at hi
        cases hi
      | record k =>
        cases hsd : t.dblBuff[k]? with
        | none =>
          rw [step, run_clear hat hsd] at hi
          cases hi
        | some sd =>
          -- The list is pending, and one of those accepted.
          obtain ⟨hk, hget⟩ := List.getElem?_eq_some_iff.mp hsd
          have hrest : sd ∈ t.rest := by
            rw [rest, hat]
            exact List.mem_drop_iff_getElem.mpr ⟨0, by omega, by simpa using hget⟩
          have hpending : sd ∈ t.pending := by
            rw [rest, hat] at hrest
            rw [pending, hat]
            exact List.mem_append_left _ hrest
          have hmem : sd ∈ accepted acts := by
            rw [← hall]
            exact List.mem_append_left _ (List.mem_append_right _ hrest)
          have hfit := hfits sd (List.mem_append_left _ hmem)
          rw [← hchans] at hfit
          obtain ⟨r', hr'⟩ := record_of_fits env hfit (hsafe.metPending sd hpending)
          rcases (run_record env hat hsd).2 with ⟨hfail, -⟩ | ⟨r'', -, hstate⟩
          · rw [hr'] at hfail
            cases hfail
          · rw [step, hstate] at hi
            cases hi
      | test =>
        rw [step, run_test hat] at hi
        dsimp only at hi
        split at hi <;> cases hi
      | returned =>
        rw [step, run_returned hat, hat] at hi
        cases hi
      | crashed k => exact hstands k hat

/-- The steps of `run` up to its return, once `running` is cleared. -/
def stepsToReturn (t : RecorderThread) : Nat :=
  match t.runAt with
  | .drain => t.dblBuff.length + t.buffer.length + 3
  | .record i => t.dblBuff.length - i + 2
  | .test => 1
  | .returned => 0
  | .crashed _ => 0

/-- A step of `run` lowers their number. -/
theorem stepsToReturn_run (env : Env) {t : RecorderThread} (hstop : t.running = false) :
    stepsToReturn (t.run env).1 ≤ stepsToReturn t - 1 := by
  cases hat : t.runAt with
  | drain =>
    rw [run_drain hat]
    simp only [stepsToReturn, hat, List.length_append]
    omega
  | record i =>
    cases hsd : t.dblBuff[i]? with
    | none =>
      rw [run_clear hat hsd]
      simp only [stepsToReturn, hat]
      omega
    | some sd =>
      obtain ⟨hi, -⟩ := List.getElem?_eq_some_iff.mp hsd
      rcases (run_record env hat hsd).2 with ⟨-, hstate⟩ | ⟨r', -, hstate⟩
      · rw [hstate]
        exact Nat.zero_le _
      · rw [hstate]
        simp only [stepsToReturn, hat]
        omega
  | test =>
    rw [run_test hat, hstop]
    exact Nat.zero_le _
  | returned =>
    rw [run_returned hat]
    simp only [stepsToReturn, hat, Nat.zero_sub, Nat.le_refl]
  | crashed i =>
    rw [run_crashed hat]
    simp only [stepsToReturn, hat, Nat.zero_sub, Nat.le_refl]

/-- A list that `put_data` accepts adds one step at most, and `deinit` none. -/
theorem stepsToReturn_other (env : Env) (t : RecorderThread) {act : Act} (hact : act ≠ .run) :
    stepsToReturn (step env t act).1 ≤ stepsToReturn t + act.accepted.length := by
  cases act with
  | run => exact absurd rfl hact
  | putData data =>
    cases data with
    | none => exact Nat.le_add_right _ _
    | some ls =>
      have hlen : (Act.putData (some ls)).accepted.length = 1 := rfl
      rw [hlen]
      simp only [step, putData, stepsToReturn]
      cases t.runAt with
      | drain =>
        simp only [List.length_append, List.length_singleton]
        omega
      | record i => exact Nat.le_succ _
      | test => exact Nat.le_succ _
      | returned => exact Nat.le_succ _
      | crashed i => exact Nat.le_succ _
  | deinit =>
    show stepsToReturn t.deinit ≤ _
    rw [deinit]
    split <;> exact Nat.le_add_right _ _

/-- When `run` has come to its end, it stays there. -/
theorem stepsToReturn_zero (env : Env) {t : RecorderThread} (h : stepsToReturn t = 0) (act : Act) :
    stepsToReturn (step env t act).1 = 0 := by
  have hended : t.runAt = .returned ∨ ∃ i, t.runAt = .crashed i := by
    rw [stepsToReturn] at h
    split at h
    · omega
    · omega
    · omega
    · exact Or.inl ‹_›
    · exact Or.inr ⟨_, ‹_›⟩
  have hkept : (step env t act).1.runAt = t.runAt := by
    cases act with
    | putData data => cases data <;> rfl
    | deinit =>
      show t.deinit.runAt = _
      rw [deinit]
      split <;> rfl
    | run =>
      rcases hended with hat | ⟨i, hat⟩
      · rw [step, run_returned hat]
      · rw [step, run_crashed hat]
  rcases hended with hat | ⟨i, hat⟩ <;> simp only [stepsToReturn, hkept, hat]

theorem running_step (env : Env) {t : RecorderThread} (hstop : t.running = false) (act : Act) :
    (step env t act).1.running = false := by
  cases act with
  | putData data => cases data <;> exact hstop
  | run => exact (kept_run env t).2.1.trans hstop
  | deinit =>
    show t.deinit.running = false
    rw [deinit]
    split
    · exact hstop
    · rfl

/-- With a step of `run` for each of them and for each list that is accepted meanwhile, none is left. -/
theorem stepsToReturn_state (env : Env) {t : RecorderThread} (hstop : t.running = false) {acts : List Act}
    (hcount : stepsToReturn t + (accepted acts).length ≤ acts.count .run) :
    stepsToReturn (Run.state (step env) t acts) = 0 := by
  induction acts generalizing t with
  | nil => exact Nat.le_zero.mp ((Nat.le_add_right _ _).trans hcount)
  | cons act acts ih =>
    by_cases hzero : stepsToReturn t = 0
    · exact Run.state_keeps (I := fun t : RecorderThread => stepsToReturn t = 0)
        (fun _ act hzero => stepsToReturn_zero env hzero act) hzero (act :: acts)
    have haccepted : (accepted (act :: acts)).length = act.accepted.length + (accepted acts).length :=
      List.length_append
    rw [List.count_cons, haccepted] at hcount
    rw [Run.state_cons]
    refine ih (running_step env hstop act) ?_
    by_cases hrun : act = .run
    · subst hrun
      have hnone : Act.run.accepted.length = 0 := rfl
      have hle : stepsToReturn (step env t .run).1 ≤ stepsToReturn t - 1 := stepsToReturn_run env hstop
      rw [beq_self_eq_true, if_pos rfl] at hcount
      omega
    · have hle := stepsToReturn_other env t hrun
      rw [if_neg (mt beq_iff_eq.mp hrun)] at hcount
      omega

end End

/-- In a run whose steps all meet the condition, the shutdown is in order in every state reached. When all lists fit the
    recorder and `running` is cleared, the thread returns after a number of its steps, whatever comes between them, and
    has passed every list enqueued before `deinit` to `record` then. -/
theorem shutdown_orderly (env : Env) (cfg : RecorderConfig) (acts : List Act)
    (hmeets : AllMeet env (init env cfg new) acts) (k : Nat) :
    let state := fun acts => Run.state (step env) (startRecorder (init env cfg new)) acts
    let calls := fun acts => Run.emits (step env) (startRecorder (init env cfg new)) acts
    Orderly (before (acts.take k)) (state (acts.take k)) (calls (acts.take k)) ∧
      ((∀ ls ∈ accepted acts, Fits (init env cfg new).maxChans ls) → (state (acts.take k)).running = false →
        stepsToReturn (state (acts.take k)) + (accepted (acts.drop k)).length ≤ (acts.drop k).count .run →
          (state acts).runAt = .returned ∧ before acts <+: recorded (calls acts)) := by
  intro state calls
  refine ⟨orderly_of_allMeet (alloc_init env cfg) (hmeets.take k), fun hfits hstop hcount => ?_⟩
  have hzero := stepsToReturn_state env hstop hcount
  rw [← Run.state_append, List.take_append_drop] at hzero
  have hstands := stands_of_allMeet (alloc_init env cfg) hmeets hfits
  have hreturned : (state acts).runAt = .returned := by
    rw [stepsToReturn] at hzero
    split at hzero
    · omega
    · omega
    · omega
    · assumption
    · rename_i i hat
      exact absurd hat (hstands i)
  exact ⟨hreturned, (orderly_of_allMeet (alloc_init env cfg) hmeets).done hreturned⟩

/-- A list of one block with a non-zero signal byte, for the only slot of the default configuration. -/
def oneBlock : QList := [⟨1, [], 0⟩]

/-- The list is recorded and opens the slot. -/
def recordedOnce : List Act := [.putData (some oneBlock), .run, .run]

/-- Behind the list, `deinit` runs to its end, and then the thread clears its buffer and returns. -/
def quiet : List Act := recordedOnce ++ List.replicate 129 .deinit ++ [.run, .run]

section Quiet
variable {env : Env} {t : RecorderThread}

/-- The rounds of `deinit` leave the thread where it stands. -/
theorem state_deinits (env : Env) {n : Nat} (hn : t.deinitAt + n ≤ 128) :
    (Run.state (step env) t (List.replicate n .deinit)).deinitAt = t.deinitAt + n ∧
      (Run.state (step env) t (List.replicate n .deinit)).runAt = t.runAt ∧
      (Run.state (step env) t (List.replicate n .deinit)).dblBuff = t.dblBuff ∧
      (Run.state (step env) t (List.replicate n .deinit)).buffer = t.buffer ∧
      Run.emits (step env) t (List.replicate n .deinit) = [] := by
  induction n with
  | zero => exact ⟨rfl, rfl, rfl, rfl, rfl⟩
  | succ n ih =>
    obtain ⟨hat, hrun, hdbl, hbuffer, hcalls⟩ := ih (by omega)
    rw [List.replicate_succ', Run.state_snoc, Run.emits_snoc, hcalls]
    generalize Run.state (step env) t (List.replicate n .deinit) = t' at *
    have hround : t'.deinit = { t' with recorder := t'.recorder.deinitSlot t'.deinitAt, deinitAt := t'.deinitAt + 1 } :=
      if_pos (by omega)
    rw [step, hround]
    exact ⟨by rw [hat]; rfl, hrun, hdbl, hbuffer, rfl⟩

theorem allMeet_deinits {r : Recorder} {acts : List Act} (h : AllMeet env r acts)
    (hpending : (Run.state (step env) (startRecorder r) acts).pending = [])
    (hbuffer : (Run.state (step env) (startRecorder r) acts).buffer = [])
    (hat : (Run.state (step env) (startRecorder r) acts).deinitAt = 0) {n : Nat} (hn : n ≤ 128) :
    AllMeet env r (acts ++ List.replicate n .deinit) := by
  induction n with
  | zero => rwa [List.replicate_zero, List.append_nil]
  | succ n ih =>
    have hstate := @state_deinits (Run.state (step env) (startRecorder r) acts) env n (by omega)
    rw [← Run.state_append] at hstate
    obtain ⟨hat', hrun, hdbl, hbuffer', -⟩ := hstate
    rw [List.replicate_succ', ← List.append_assoc]
    refine (ih (by omega)).deinit ?_ (by omega)
    rw [hbuffer] at hbuffer'
    simp only [pending, hrun, hdbl, hbuffer', ite_self] at hpending ⊢
    rw [hbuffer] at hpending
    simpa using hpending

theorem allMeet_quiet : AllMeet calm (init calm .new new) quiet ∧
    (Run.state (step calm) (startRecorder (init calm .new new)) (quiet.take 132)).running = false ∧
    stepsToReturn (Run.state (step calm) (startRecorder (init calm .new new)) (quiet.take 132)) = 2 := by
  have hput : AllMeet calm (init calm .new new) [.putData (some oneBlock)] :=
    AllMeet.nil.snoc _ fun _ => .of_alloc (alloc_init calm .new) _
  have honce : AllMeet calm (init calm .new new) recordedOnce := hput.run.run
  have hat : (Run.state (step calm) (startRecorder (init calm .new new)) recordedOnce).runAt = .record 1 := by
    decide +kernel
  have hdbl : (Run.state (step calm) (startRecorder (init calm .new new)) recordedOnce).dblBuff = [oneBlock] := by
    decide +kernel
  have hbuffer : (Run.state (step calm) (startRecorder (init calm .new new)) recordedOnce).buffer = [] := by
    decide +kernel
  have hbegun : (Run.state (step calm) (startRecorder (init calm .new new)) recordedOnce).deinitAt = 0 := by
    decide +kernel
  have hcalls : (Run.emits (step calm) (startRecorder (init calm .new new)) recordedOnce).length = 1 := by
    decide +kernel
  have hpending : (Run.state (step calm) (startRecorder (init calm .new new)) recordedOnce).pending = [] := by
    simp only [pending, hat, hdbl, hbuffer, ite_self]
    rfl
  have hdeleted := allMeet_deinits honce hpending hbuffer hbegun (Nat.le_refl 128)
  have hstate := @state_deinits (Run.state (step calm) (startRecorder (init calm .new new)) recordedOnce) calm 128
    (by rw [hbegun])
  have hemits : Run.emits (step calm) (startRecorder (init calm .new new)) (recordedOnce ++ List.replicate 128 .deinit) = _ :=
    Run.emits_append (startRecorder (init calm .new new)) recordedOnce (List.replicate 128 .deinit)
  rw [← Run.state_append, hat, hdbl, hbuffer, hbegun] at hstate
  obtain ⟨hat', hrun', hdbl', hbuffer', hnone⟩ := hstate
  rw [hnone, List.append_nil] at hemits
  have hstopped : AllMeet calm (init calm .new new) (recordedOnce ++ List.replicate 128 .deinit ++ [.deinit]) := by
    refine hdeleted.snoc .deinit ?_
    have hbefore : (before (recordedOnce ++ List.replicate 128 .deinit)).length = 1 := rfl
    rw [Meets, hat', if_neg (by decide), hemits, hbefore, hcalls]
    exact fun _ => Or.inr (Or.inr (Nat.le_add_right 1 _))
  have htake : quiet.take 132 = recordedOnce ++ List.replicate 128 .deinit ++ [.deinit] := by decide
  refine ⟨hstopped.run.run, ?_⟩
  rw [htake, Run.state_snoc]
  generalize Run.state (step calm) (startRecorder (init calm .new new)) (recordedOnce ++ List.replicate 128 .deinit) = t at *
  have hstop : t.deinit = { t with running := false, deinitAt := 129 } := if_neg (by rw [hat']; decide)
  show t.deinit.running = false ∧ stepsToReturn t.deinit = 2
  rw [hstop]
  refine ⟨rfl, ?_⟩
  simp only [stepsToReturn, hrun', hdbl']
  rfl

end Quiet

theorem shutdown_orderly_quiet :
    (Run.state (step calm) (startRecorder (init calm .new new)) quiet).runAt = .returned ∧
      [oneBlock] <+: recorded (Run.emits (step calm) (startRecorder (init calm .new new)) quiet) := by
  obtain ⟨hmeets, hstop, hsteps⟩ := allMeet_quiet
  have haccepted : accepted quiet = [oneBlock] := by decide
  have hdrop : (accepted (quiet.drop 132)).length = 0 := by decide
  refine (shutdown_orderly calm .new quiet hmeets 132).2 (fun ls hls => ?_) hstop (by rw [hsteps, hdrop]; decide)
  rw [haccepted] at hls
  rw [List.mem_singleton.mp hls]
  refine ⟨by decide, ?_⟩
  rw [maxChans_calm]
  exact fun b hb => by cases hb

/-- A second list is in the queue when `deinit` deletes the slot. -/
def hasty : List Act :=
  [.putData (some oneBlock), .run, .run, .putData (some oneBlock), .deinit, .run, .run, .run, .run]

theorem shutdown_counterexample :
    ¬∀ (env : Env) (cfg : RecorderConfig) (acts : List Act),
      Orderly (before acts) (Run.state (step env) (startRecorder (init env cfg new)) acts)
        (Run.emits (step env) (startRecorder (init env cfg new)) acts) := by
  intro h
  have hcalls : (Run.emits (step calm) (startRecorder (init calm .new new)) hasty).map
      (fun c => (c.sd, c.recorder.maxChans, (c.recorder.wav? 0).isSome)) =
        [(oneBlock, 1, true), (oneBlock, 1, false)] := by
    decide +kernel
  have hmet := (h calm .new hasty).met
  generalize Run.emits (step calm) (startRecorder (init calm .new new)) hasty = calls at *
  obtain ⟨c, hc, hcall⟩ : ∃ c ∈ calls, (c.sd, c.recorder.maxChans, (c.recorder.wav? 0).isSome) = (oneBlock, 1, false) := by
    rw [← List.mem_map, hcalls]
    decide
  simp only [Prod.mk.injEq] at hcall
  obtain ⟨hsd, hchans, hgone⟩ := hcall
  have hslot := hmet c hc 0 (by omega) ⟨1, [], 0⟩ (by rw [hsd]; rfl) (by decide)
  rw [hgone] at hslot
  cases hslot

end Recd2.RecorderThread
