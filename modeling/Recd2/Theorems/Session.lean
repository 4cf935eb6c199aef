import Recd2.Session
import Recd2.Theorems.Chain
import Recd2.Theorems.Handler
import Recd2.Theorems.Records
import Recd2.Theorems.Shutdown

/-! Sessions. Whatever the order in which the event loop and the thread of the recorder take their steps, the lists
    recorded and those on their way are the lists of all notifications; the recorder is in the state to which the
    recorded ones alone bring it; and when the event loop is done, a bounded number of further steps of the thread
    records the rest. -/

namespace Recd2

/-! ### One call of `put_data` -/

namespace Plugin

/-- A queue that one of the plugins fills gets what that plugin makes of the list, as often as it is in the chain. -/
theorem deliver_appends {α : Type} {get : World → List α} {q : Plugin} {add : QList → List α}
    (hkeep : ∀ (p : Plugin) w, get (p.keep w) = get w ++ if p = q then add w.list else [])
    (hcalls : ∀ (p : Plugin) w, get (p.enter w) = get w) (hlist : ∀ (p : Plugin) w, get (p.finish w) = get w)
    {ps : List Plugin} {w : World} :
    get (deliver ps w) = get w ++ (List.replicate (ps.count q) (add w.list)).flatten := by
  have hcount : ∀ (p : Plugin) (ps : List Plugin) (xs : List α), (if p = q then xs else []) ++
      (List.replicate (ps.count q) xs).flatten = (List.replicate ((p :: ps).count q) xs).flatten := by
    intro p ps xs
    by_cases hp : p = q
    · rw [if_pos hp, hp, List.count_cons_self, List.replicate_succ, List.flatten_cons]
    · rw [if_neg hp, List.count_cons_of_ne hp, List.nil_append]
  induction ps generalizing w with
  | nil => exact (List.append_nil _).symm
  | cons p ps ih =>
    rw [← hcount p ps (add w.list)]
    cases ps with
    | nil =>
      rw [deliver, hlist, hkeep, hcalls, List.count_nil, List.replicate_zero, List.flatten_nil, List.append_nil]
      rfl
    | cons r ps =>
      rw [deliver, ih, list_keep, hkeep, hcalls, List.append_assoc]
      rfl

theorem recorderBuffer_deliver {ps : List Plugin} {w : World} :
    (deliver ps w).recorderBuffer = w.recorderBuffer ++ List.replicate (ps.count .recorder) w.list := by
  have hqueue : _ = _ ++ (List.replicate _ [_]).flatten :=
    @deliver_appends _ World.recorderBuffer .recorder (fun ls => [ls]) (fun p w => by cases p <;> simp [keep])
      (fun _ _ => rfl) (fun p w => by rw [finish]; split <;> rfl) ps w
  rw [hqueue, List.flatten_replicate_singleton]

/-- One call of the handler along a chain with one recorder: the recorder gets the list, and the list is left as the
    handler's `put_data` leaves it. -/
theorem putData_server {ps : List Plugin} {w : World} {fuel : Nat} (h : Linked w.nextPlugin (.server :: ps))
    (hmd5 : Plugin.md5 ∉ (.server :: ps : List Plugin).dropLast) (hone : ps.count .recorder = 1)
    (hfuel : ps.length < fuel) :
    ∃ w', putData fuel .server w = some w' ∧ w'.recorderBuffer = w.recorderBuffer ++ [w.list] ∧
      w'.list = Recd2.Server.putData (nextOf ps) w.list := by
  refine ⟨_, putData_eq_deliver h hmd5 hfuel, ?_, list_deliver_server⟩
  rw [recorderBuffer_deliver, List.count_cons_of_ne (by decide), hone]
  rfl

/-- The last plugin behind the server clears the lists. -/
def clears (ps : List Plugin) : Bool := !ps.getLast?.all leaves || ps.isEmpty

theorem putData_nextOf (ps : List Plugin) (ls : QList) :
    Recd2.Server.putData (nextOf ps) ls = if clears ps then [] else ls := by
  cases ps with
  | nil => rfl
  | cons p ps =>
    show (if (p :: ps).getLast?.all leaves then ls else []) = _
    rw [clears, List.isEmpty_cons, Bool.or_false]
    cases (p :: ps).getLast?.all leaves <;> rfl

end Plugin

/-! ### The chain of a session -/

/-- The plugins behind the server are linked in this order, the calls may be nested so deep, and the MD5 generator has no
    plugin behind it. -/
structure Chain.Links (chain : Chain) (ps : List Plugin) : Prop where
  linked : Linked chain.nextPlugin (.server :: ps)
  md5 : Plugin.md5 ∉ (.server :: ps : List Plugin).dropLast
  deep : ps.length < chain.depth

/-- Each call of `put_data` brings the recorder the list once. -/
def Chain.Records (chain : Chain) : Prop := ∀ ls, ∃ w, chain.putData ls = some w ∧ w.recorderBuffer = [ls]

section Links
variable {chain : Chain} {ps : List Plugin}

theorem Chain.Links.records (h : chain.Links ps) (hone : ps.count .recorder = 1) : chain.Records := fun ls => by
  obtain ⟨w, hw, hbuffer, -⟩ := Plugin.putData_server (w := ⟨chain.nextPlugin, ls, [], [], []⟩) h.linked h.md5 hone h.deep
  exact ⟨w, hw, hbuffer⟩

/-- The handler sees what the last plugin leaves of the list. -/
theorem Chain.Links.next (h : chain.Links ps) (ls : QList) :
    Server.putData chain.next ls = Server.putData (Plugin.nextOf ps) ls := by
  have hdeliver := Plugin.putData_eq_deliver (w := ⟨chain.nextPlugin, ls, [], [], []⟩) h.linked h.md5 h.deep
  show ((chain.putData ls).map World.list).getD ls = _
  rw [Chain.putData, hdeliver, Option.map_some, Option.getD_some, Plugin.list_deliver_server]

end Links

/-! ### Chains that leave the same -/

namespace Server
variable {next next' : Next} (h : ∀ ls, putData next ls = putData next' ls)
include h

theorem errLoop_congr (blocks : QList) (n : Nat) (errLs : QList) :
    errLoop next blocks n errLs = errLoop next' blocks n errLs := by
  induction n generalizing errLs with
  | zero => rfl
  | succ n ih => rw [errLoop, errLoop, ih, h]

theorem calls_congr (s : Server) (fs : List FrameData) : s.calls next fs = s.calls next' fs := by
  induction fs generalizing s with
  | nil => rfl
  | cons f fs ih =>
    have hsends : s.sends next f = s.sends next' f := by
      rw [sends, sends, errLists, errLists, errLoop_congr h]
    rw [calls, calls, hsends, ih]

end Server

namespace Session
open RecorderThread Recorder
variable {chain : Chain} {env : Env} {s : Session}

/-! ### Nothing is lost -/

/-- The lists on their way, from the rest of `dblBuff` back to those of the notifications to come. -/
def onTheWay (chain : Chain) (s : Session) : List QList :=
  s.thread.rest ++ s.thread.buffer ++ s.outbox ++ putDataCalls (Run.emits (Server.step chain.next) s.server s.inbox)

theorem onTheWay_handle : onTheWay chain (s.handle chain) = onTheWay chain s := by
  unfold handle
  split
  · rename_i i inbox hout hin
    simp only [onTheWay, hout, hin, Run.emits_cons, Server.putDataCalls_append, List.append_assoc, List.nil_append]
  · rfl

/-- With one recorder in the chain, the thread gets the list. -/
theorem putData_of_records (h : chain.Records) (s : Session) :
    s.putData chain = match s.outbox with
      | ls :: outbox => { s with outbox := outbox, thread := (s.thread.putData (some ls)).1 }
      | [] => s := by
  unfold putData
  cases s.outbox with
  | nil => rfl
  | cons ls outbox =>
    obtain ⟨w, hw, hbuffer⟩ := h ls
    simp only [hw, hbuffer, List.foldl_cons, List.foldl_nil]

theorem onTheWay_putData (env : Env) (h : chain.Records) : onTheWay chain (s.putData chain) = onTheWay chain s := by
  rw [putData_of_records h]
  split
  · rename_i ls outbox hout
    have hput : (s.thread.putData (some ls)).1.rest ++ (s.thread.putData (some ls)).1.buffer =
        s.thread.rest ++ s.thread.buffer ++ [ls] := (step_handover env s.thread (.putData (some ls))).conserves
    simp only [onTheWay, hput, hout, List.append_assoc, List.cons_append, List.nil_append]
  · rfl

theorem step_conserves (h : chain.Records) (s : Session) (act : Act) :
    recorded (step chain env s act).2 ++ onTheWay chain (step chain env s act).1 = onTheWay chain s := by
  cases act with
  | handle => exact onTheWay_handle
  | putData => exact onTheWay_putData env h
  | run =>
    have hrun := (run_handover env s.thread).conserves
    rw [List.append_nil] at hrun
    simp only [step, onTheWay, ← hrun, List.append_assoc]

/-- What was recorded and what is on its way are, in this order, what is on its way at the beginning. -/
theorem conserved (h : chain.Records) (env : Env) (s : Session) (acts : List Act) :
    recorded (Run.emits (step chain env) s acts) ++ onTheWay chain (Run.state (step chain env) s acts) = onTheWay chain s :=
  Run.emits_append_left (step_conserves h) s acts

/-! ### The recorder follows the recorded lists -/

/-- The calls of `record` brought the recorder to where it is. The last of them failed when the thread is stopped in
    the middle of it. -/
structure Ran (env : Env) (r : Recorder) (t : RecorderThread) (lss : List QList) : Prop where
  goes : (∀ i, t.runAt ≠ .crashed i) → Run.exec (Recorder.step env) r (lss.map .record) = some t.recorder
  fails : ∀ i, t.runAt = .crashed i → Run.exec (Recorder.step env) r (lss.map .record) = none
  running : t.running = true
  stays : t.runAt ≠ .returned
  cleared : t.runAt = .test → t.dblBuff = []

section Steps
variable {r : Recorder} {t : RecorderThread} {lss : List QList}

theorem ran_start (env : Env) (r : Recorder) : Ran env r (startRecorder r) [] where
  goes _ := rfl
  fails i h := by cases h
  running := rfl
  stays h := by cases h
  cleared h := by cases h

theorem Ran.putData (h : Ran env r t lss) (ls : QList) : Ran env r (t.putData (some ls)).1 lss :=
  ⟨h.goes, h.fails, h.running, h.stays, h.cleared⟩

theorem Ran.queued (h : Ran env r t lss) (queue : List QList) :
    Ran env r (queue.foldl (fun t ls => (t.putData (some ls)).1) t) lss := by
  induction queue generalizing t with
  | nil => exact h
  | cons ls queue ih => exact ih (h.putData ls)

theorem exec_record_snoc (env : Env) (r : Recorder) (lss : List QList) (sd : QList) :
    Run.exec (Recorder.step env) r ((lss ++ [sd]).map .record) =
      (Run.exec (Recorder.step env) r (lss.map .record)).bind (Recorder.record env sd) := by
  rw [List.map_append, List.map_singleton, Run.exec_snoc]
  rfl

theorem Ran.run (h : Ran env r t lss) : Ran env r (t.run env).1 (lss ++ recorded (t.run env).2) := by
  have hnil : lss ++ recorded [] = lss := List.append_nil lss
  cases hat : t.runAt with
  | drain =>
    rw [run_drain hat, hnil]
    have hgoes := h.goes fun i hi => by rw [hat] at hi; cases hi
    exact ⟨fun _ => hgoes, fun _ hi => (by cases hi), h.running, fun hi => (by cases hi), fun hi => by cases hi⟩
  | record i =>
    have hgoes := h.goes fun i hi => by rw [hat] at hi; cases hi
    cases hsd : t.dblBuff[i]? with
    | none =>
      rw [run_clear hat hsd, hnil]
      exact ⟨fun _ => hgoes, fun _ hi => (by cases hi), h.running, fun hi => (by cases hi), fun _ => rfl⟩
    | some sd =>
      obtain ⟨hcall, hstate⟩ := run_record env hat hsd
      have hlss : recorded (t.run env).2 = [sd] := by rw [hcall]; rfl
      rw [hlss]
      rcases hstate with ⟨hfail, hstate⟩ | ⟨r', hr', hstate⟩
      · rw [hstate]
        refine ⟨fun hi => absurd rfl (hi i), fun j _ => ?_, h.running, fun hi => (by cases hi), fun hi => by cases hi⟩
        rw [exec_record_snoc, hgoes]
        exact hfail
      · rw [hstate]
        refine ⟨fun _ => ?_, fun j hj => (by cases hj), h.running, fun hi => (by cases hi), fun hi => by cases hi⟩
        rw [exec_record_snoc, hgoes]
        exact hr'
  | test =>
    have hgoes := h.goes fun i hi => by rw [hat] at hi; cases hi
    rw [run_test hat, hnil, h.running, if_pos rfl]
    exact ⟨fun _ => hgoes, fun _ hi => (by cases hi), rfl, fun hi => (by cases hi), fun hi => by cases hi⟩
  | returned => exact absurd hat h.stays
  | crashed i =>
    rw [run_crashed hat, hnil]
    exact h

end Steps

theorem ran_step {r : Recorder} {lss : List QList} (h : Ran env r s.thread lss) (act : Act) :
    Ran env r (step chain env s act).1.thread (lss ++ recorded (step chain env s act).2) := by
  cases act with
  | handle =>
    have hthread : (s.handle chain).thread = s.thread := by
      unfold handle
      split <;> rfl
    have hnil : lss ++ recorded [] = lss := List.append_nil lss
    rw [step, hnil, hthread]
    exact h
  | putData =>
    have hnil : lss ++ recorded [] = lss := List.append_nil lss
    rw [step, hnil]
    unfold Session.putData
    split
    · split
      · exact h.queued _
      · exact h
    · exact h
  | run => exact h.run

theorem ran_state (chain : Chain) (s : Session) {r : Recorder} {lss : List QList} (h : Ran env r s.thread lss)
    (acts : List Act) :
    Ran env r (Run.state (step chain env) s acts).thread (lss ++ recorded (Run.emits (step chain env) s acts)) := by
  induction acts using List.reverseRecOn with
  | nil =>
    rw [Run.emits_nil, show lss ++ recorded [] = lss from List.append_nil lss]
    exact h
  | append_singleton acts act ih =>
    have hcalls : recorded (Run.emits (step chain env) s (acts ++ [act])) =
        recorded (Run.emits (step chain env) s acts) ++ recorded (step chain env (Run.state (step chain env) s acts) act).2 := by
      rw [Run.emits_snoc, recorded, List.flatMap_append]
      rfl
    rw [hcalls, Run.state_snoc, ← List.append_assoc]
    exact ran_step ih act

/-! ### The thread comes to its end -/

/-- The thread has nothing left to record, or is stopped in the middle of a call. -/
def Settled (t : RecorderThread) : Prop := (∃ i, t.runAt = .crashed i) ∨ t.rest = [] ∧ t.buffer = []

/-- The steps of `run` that bring the thread to its end at most. -/
def stepsLeft (t : RecorderThread) : Nat :=
  match t.runAt with
  | .drain => t.rest.length + t.buffer.length + 1
  | .record _ => t.rest.length + if t.buffer = [] then 0 else t.buffer.length + 3
  | .test => t.buffer.length + 2
  | .returned => 0
  | .crashed _ => 0

theorem stepsLeft_le (t : RecorderThread) : stepsLeft t ≤ t.rest.length + t.buffer.length + 3 := by
  unfold stepsLeft
  split
  · omega
  · split <;> omega
  · omega
  · omega
  · omega

section Progress
variable {r : Recorder} {t : RecorderThread} {lss : List QList}

theorem settled_of_stepsLeft (h : Ran env r t lss) (hzero : stepsLeft t = 0) : Settled t := by
  unfold stepsLeft at hzero
  split at hzero
  · omega
  · have hbuffer : t.buffer = [] := by
      by_contra hne
      rw [if_neg hne] at hzero
      omega
    exact Or.inr ⟨List.length_eq_zero_iff.mp (by omega), hbuffer⟩
  · omega
  · rename_i hat
    exact absurd hat h.stays
  · rename_i i hat
    exact Or.inl ⟨i, hat⟩

theorem Settled.run (h : Settled t) : Settled (t.run env).1 := by
  rcases h with ⟨i, hat⟩ | ⟨hrest, hbuffer⟩
  · rw [run_crashed hat]
    exact Or.inl ⟨i, hat⟩
  · have hnext := (run_handover env t).conserves
    rw [hrest, hbuffer, List.append_nil, List.append_nil, List.append_eq_nil_iff, List.append_eq_nil_iff] at hnext
    exact Or.inr ⟨hnext.1.2, hnext.2⟩

/-- A step of `run` lowers the number of steps that are left. -/
theorem run_lowers (h : Ran env r t lss) : Settled (t.run env).1 ∨ stepsLeft (t.run env).1 < stepsLeft t := by
  cases hat : t.runAt with
  | drain =>
    refine Or.inr ?_
    rw [run_drain hat]
    simp only [stepsLeft, hat, rest, List.drop_zero, List.length_append, if_true]
    omega
  | record i =>
    cases hsd : t.dblBuff[i]? with
    | none =>
      rw [run_clear hat hsd]
      by_cases hbuffer : t.buffer = []
      · exact Or.inl (Or.inr ⟨rfl, hbuffer⟩)
      · refine Or.inr ?_
        simp only [stepsLeft, hat, if_neg hbuffer]
        omega
    | some sd =>
      obtain ⟨hi, hget⟩ := List.getElem?_eq_some_iff.mp hsd
      rcases (run_record env hat hsd).2 with ⟨-, hstate⟩ | ⟨r', -, hstate⟩
      · exact Or.inl (Or.inl ⟨i, by rw [hstate]⟩)
      · refine Or.inr ?_
        rw [hstate]
        simp only [stepsLeft, hat, rest, List.length_drop]
        omega
  | test =>
    refine Or.inr ?_
    have hdbl := h.cleared hat
    rw [run_test hat, h.running, if_pos rfl]
    simp only [stepsLeft, hat, rest, hdbl, List.length_nil]
    omega
  | returned => exact absurd hat h.stays
  | crashed i =>
    rw [run_crashed hat]
    exact Or.inl (Or.inl ⟨i, hat⟩)

end Progress

/-- The event loop is done. -/
def Handled (s : Session) : Prop := s.inbox = [] ∧ s.outbox = []

theorem handle_of_handled (h : Handled s) : s.handle chain = s := by
  unfold handle
  split
  · rename_i i inbox hout hin
    rw [h.1] at hin
    cases hin
  · rfl

theorem putData_of_handled (h : Handled s) : s.putData chain = s := by
  unfold putData
  split
  · rename_i ls outbox hout
    rw [h.2] at hout
    cases hout
  · rfl

/-- When the event loop is done, as many further steps of `run` as there are lists left, and three, bring the thread
    to its end. -/
theorem settles (chain : Chain) {r : Recorder} {lss : List QList} (hran : Ran env r s.thread lss) (h : Handled s)
    {acts : List Act} (hcount : s.thread.rest.length + s.thread.buffer.length + 3 ≤ acts.count .run) :
    Handled (Run.state (step chain env) s acts) ∧ Settled (Run.state (step chain env) s acts).thread := by
  have hkeep : ∀ s act, (Handled s ∧ ∃ lss, Ran env r s.thread lss) →
      Handled (step chain env s act).1 ∧ ∃ lss, Ran env r (step chain env s act).1.thread lss := by
    rintro s act ⟨hs, lss, hlss⟩
    refine ⟨?_, _, ran_step hlss act⟩
    cases act with
    | handle =>
      rw [step, handle_of_handled hs]
      exact hs
    | putData =>
      rw [step, putData_of_handled hs]
      exact hs
    | run => exact hs
  refine ⟨(Run.state_keeps hkeep ⟨h, lss, hran⟩ acts).1, ?_⟩
  refine Run.state_reaches (fun s => Settled s.thread) (fun s => stepsLeft s.thread) (fun act => act == .run) hkeep
    ?_ ?_ ?_ ?_ ⟨h, lss, hran⟩ acts ((stepsLeft_le _).trans hcount)
  · rintro s act ⟨hs, -⟩ hend
    cases act with
    | handle =>
      rw [step, handle_of_handled hs]
      exact hend
    | putData =>
      rw [step, putData_of_handled hs]
      exact hend
    | run => exact hend.run
  · rintro s ⟨-, lss, hlss⟩ hzero
    exact settled_of_stepsLeft hlss hzero
  · rintro s act ⟨-, lss, hlss⟩ hact
    rw [beq_iff_eq.mp hact]
    exact run_lowers hlss
  · rintro s act ⟨hs, -⟩ hact
    cases act with
    | handle => rw [step, handle_of_handled hs]
    | putData => rw [step, putData_of_handled hs]
    | run => cases hact

theorem exists_flushed (h : chain.Records) (env : Env) (s : Session) :
    ∃ acts, (Run.state (step chain env) s acts).outbox = [] ∧ (Run.state (step chain env) s acts).inbox = s.inbox := by
  obtain ⟨server, inbox, outbox, thread⟩ := s
  induction outbox generalizing thread with
  | nil => exact ⟨[], rfl, rfl⟩
  | cons ls outbox ih =>
    obtain ⟨acts, hout, hin⟩ := ih (thread.putData (some ls)).1
    refine ⟨.putData :: acts, ?_⟩
    have hput := putData_of_records h ⟨server, inbox, ls :: outbox, thread⟩
    rw [Run.state_cons, step, hput]
    exact ⟨hout, hin⟩

/-- The event loop can always come to its end. -/
theorem exists_handled (h : chain.Records) (env : Env) (s : Session) :
    ∃ acts, Handled (Run.state (step chain env) s acts) := by
  generalize hin : s.inbox = inbox
  induction inbox generalizing s with
  | nil =>
    obtain ⟨acts, hout, hkept⟩ := exists_flushed h env s
    exact ⟨acts, by rw [hkept, hin], hout⟩
  | cons i inbox ih =>
    obtain ⟨acts, hout, hkept⟩ := exists_flushed h env s
    have hnext : ((Run.state (step chain env) s acts).handle chain).inbox = inbox := by
      unfold handle
      rw [hout, hkept, hin]
    obtain ⟨acts', hhandled⟩ := ih _ hnext
    refine ⟨acts ++ .handle :: acts', ?_⟩
    rw [Run.state_append]
    exact hhandled

end Session
end Recd2
