import Recd2.Lib.Handover
import Recd2.RecorderThread
import Recd2.Theorems.Finalised
import Recd2.Theorems.Moves
import Mathlib.Data.List.Induction
import Mathlib.Data.List.Infix

/-! The hand-over of lists to `record`, and what `deinit` makes of it. The thread of the recorder passes on every
    list that `put_data` accepted, once and in order. `deinit` deletes the slots before it stops the thread, and
    so it is in order only when the lists on their way no longer need the slots it deletes. -/

namespace Recd2.RecorderThread
open Recorder

/-! ### The hand-over -/

/-- The part of `dblBuff` that is not recorded yet. -/
def rest (t : RecorderThread) : List QList :=
  match t.runAt with
  | .record i => t.dblBuff.drop i
  | .crashed i => t.dblBuff.drop (i + 1)
  | _ => t.dblBuff

/-- The lists of the calls of `record`. -/
def recorded (calls : List RecordCall) : List QList := calls.flatMap fun c => [c.sd]

/-- The list that a step hands over. -/
def Act.accepted : Act → List QList
  | .putData (some ls) => [ls]
  | _ => []

/-- The lists that `put_data` accepted. -/
def accepted (acts : List Act) : List QList := acts.flatMap Act.accepted

section Run
variable {env : Env} {t : RecorderThread}

theorem run_drain (h : t.runAt = .drain) :
    t.run env = ({ t with dblBuff := t.dblBuff ++ t.buffer, buffer := [], runAt := .record 0 }, []) := by
  rw [run, h]

/-- A call of `record`, with the recorder that it leaves unless it follows a null pointer. -/
theorem run_record (env : Env) {i : Nat} {sd : QList} (h : t.runAt = .record i) (hsd : t.dblBuff[i]? = some sd) :
    (t.run env).2 = [⟨sd, t.recorder⟩] ∧
      ((t.recorder.record env sd = none ∧ (t.run env).1 = { t with runAt := .crashed i }) ∨
        ∃ r, t.recorder.record env sd = some r ∧
          (t.run env).1 = { t with recorder := r, runAt := .record (i + 1) }) := by
  cases hr : t.recorder.record env sd with
  | none =>
    have hrun : t.run env = ({ t with runAt := .crashed i }, [⟨sd, t.recorder⟩]) := by simp only [run, h, hsd, hr]
    exact ⟨congrArg Prod.snd hrun, Or.inl ⟨rfl, congrArg Prod.fst hrun⟩⟩
  | some r =>
    have hrun : t.run env = ({ t with recorder := r, runAt := .record (i + 1) }, [⟨sd, t.recorder⟩]) := by
      simp only [run, h, hsd, hr]
    exact ⟨congrArg Prod.snd hrun, Or.inr ⟨r, rfl, congrArg Prod.fst hrun⟩⟩

theorem run_clear {i : Nat} (h : t.runAt = .record i) (hnone : t.dblBuff[i]? = none) :
    t.run env = ({ t with dblBuff := [], runAt := .test }, []) := by
  simp only [run, h, hnone]

theorem run_test (h : t.runAt = .test) :
    t.run env = ({ t with runAt := if t.running then .drain else .returned }, []) := by
  rw [run, h]

theorem run_returned (h : t.runAt = .returned) : t.run env = (t, []) := by
  rw [run, h]

theorem run_crashed {i : Nat} (h : t.runAt = .crashed i) : t.run env = (t, []) := by
  rw [run, h]

end Run

theorem run_handover (env : Env) (t : RecorderThread) :
    Handover.Step t.rest t.buffer [] (recorded (t.run env).2) (t.run env).1.rest (t.run env).1.buffer := by
  cases hat : t.runAt with
  | drain =>
    have hrest : t.rest = t.dblBuff := by rw [rest, hat]
    rw [run_drain hat, hrest]
    exact .drain t.dblBuff t.buffer
  | record i =>
    have hrest : t.rest = t.dblBuff.drop i := by rw [rest, hat]
    cases hsd : t.dblBuff[i]? with
    | none =>
      rw [run_clear hat hsd, hrest, List.drop_eq_nil_of_le (List.getElem?_eq_none_iff.mp hsd)]
      exact .idle [] t.buffer
    | some sd =>
      obtain ⟨hi, hget⟩ := List.getElem?_eq_some_iff.mp hsd
      obtain ⟨hcall, hstate⟩ := run_record env hat hsd
      rw [hrest, List.drop_eq_getElem_cons hi, hget, hcall]
      rcases hstate with ⟨-, hstate⟩ | ⟨r, -, hstate⟩
      · rw [hstate]
        exact .take sd (t.dblBuff.drop (i + 1)) t.buffer
      · rw [hstate]
        exact .take sd (t.dblBuff.drop (i + 1)) t.buffer
  | test =>
    have hrest : t.rest = t.dblBuff := by rw [rest, hat]
    rw [run_test hat, hrest]
    cases t.running <;> exact .idle t.dblBuff t.buffer
  | returned =>
    rw [run_returned hat]
    exact .idle t.rest t.buffer
  | crashed i =>
    rw [run_crashed hat]
    exact .idle t.rest t.buffer

theorem step_handover (env : Env) (t : RecorderThread) (act : Act) :
    Handover.Step t.rest t.buffer act.accepted (recorded (step env t act).2) (step env t act).1.rest
      (step env t act).1.buffer := by
  cases act with
  | putData data =>
    cases data with
    | none => exact .idle t.rest t.buffer
    | some ls => exact .put t.rest t.buffer ls
  | run => exact run_handover env t
  | deinit =>
    show Handover.Step t.rest t.buffer [] [] t.deinit.rest t.deinit.buffer
    rw [deinit]
    split <;> exact .idle t.rest t.buffer

/-- In every order of the steps, the lists that were passed to `record`, the rest of `dblBuff` and the queue are
    the lists that `put_data` accepted. -/
theorem handed_over (env : Env) (r : Recorder) (acts : List Act) :
    recorded (Run.emits (step env) (startRecorder r) acts) ++ (Run.state (step env) (startRecorder r) acts).rest ++
        (Run.state (step env) (startRecorder r) acts).buffer = accepted acts :=
  Handover.conserved (step_handover env) (startRecorder r) acts

/-! ### What has to hold while `deinit` runs -/

/-- All slots of the list exist. -/
def HasSlots (r : Recorder) (sd : QList) : Prop := ∀ i < sd.length, i < r.maxChans → (r.wav? i).isSome

/-- No block of the list with a non-zero signal byte is for a slot that is gone. -/
def MeetsSlots (r : Recorder) (sd : QList) : Prop :=
  ∀ i < r.maxChans, ∀ b ∈ sd[i]?, b.signal ≠ 0 → (r.wav? i).isSome

/-- The lists enqueued before `deinit` begins. -/
def before : List Act → List QList
  | [] => []
  | .deinit :: _ => []
  | act :: acts => act.accepted ++ before acts

/-- The lists enqueued before `deinit` meet their slots, no list meets a slot that is gone with a non-zero signal
    byte, and when `run` has returned none of the former is left. -/
structure Orderly (before : List QList) (t : RecorderThread) (calls : List RecordCall) : Prop where
  kept : ∀ (k : Nat) (c : RecordCall), calls[k]? = some c → ∀ sd ∈ before[k]?, c.sd = sd ∧ HasSlots c.recorder sd
  met : ∀ c ∈ calls, MeetsSlots c.recorder c.sd
  done : t.runAt = .returned → before <+: recorded calls

/-- `run` comes to its drain another time. -/
def drainsAgain (t : RecorderThread) : Prop :=
  t.runAt = .drain ∨ t.running = true ∧ (t.runAt = .test ∨ ∃ i, t.runAt = .record i)

/-- The lists that `run` may still pass to `record`. -/
def pending (t : RecorderThread) : List QList :=
  match t.runAt with
  | .drain => t.dblBuff ++ t.buffer
  | .record i => t.dblBuff.drop i ++ if t.running then t.buffer else []
  | .test => t.dblBuff ++ if t.running then t.buffer else []
  | .returned => []
  | .crashed _ => []

/-- The condition on a step, and on the state before it. An open slot is deleted when no pending list needs it: those
    enqueued before `deinit` are shorter, the others have a zero signal byte there. `running` is cleared when the
    lists enqueued before `deinit` have left the queue, or a drain follows. A list that is enqueued has zero signal
    bytes for the slots that are gone, unless no drain follows. -/
def Meets (before : List QList) (t : RecorderThread) (calls : List RecordCall) : Act → Prop
  | .putData (some ls) => t.drainsAgain → MeetsSlots t.recorder ls
  | .putData none => True
  | .run => True
  | .deinit =>
    if t.deinitAt < 128 then
      ∀ w ∈ t.recorder.wav? t.deinitAt, w.isOpened = true →
        (∀ ls ∈ t.pending.take (before.length - calls.length), ls.length ≤ t.deinitAt) ∧
          ∀ ls ∈ t.pending, ∀ b ∈ ls[t.deinitAt]?, b.signal = 0
    else
      t.running = true →
        t.runAt = .drain ∨ (∃ i, t.runAt = .crashed i) ∨ before.length ≤ calls.length + t.rest.length

/-- Every step of the run meets the condition. -/
def AllMeet (env : Env) (r : Recorder) (acts : List Act) : Prop :=
  ∀ k act, acts[k]? = some act →
    Meets (before (acts.take k)) (Run.state (step env) (startRecorder r) (acts.take k))
      (Run.emits (step env) (startRecorder r) (acts.take k)) act

/-! ### Which lists are safe -/

section Slots
variable {r r' : Recorder} {sd : QList}

theorem HasSlots.of_alloc (h : ∀ i < r.maxChans, (r.wav? i).isSome) (sd : QList) : HasSlots r sd := fun i _ hi => h i hi

theorem MeetsSlots.of_alloc (h : ∀ i < r.maxChans, (r.wav? i).isSome) (sd : QList) : MeetsSlots r sd :=
  fun i hi _ _ _ => h i hi

theorem HasSlots.of_record {env : Env} {ls : QList} (h : HasSlots r sd) (hr : r.record env ls = some r') :
    HasSlots r' sd := by
  intro i hi hchans
  rw [(record_moves hr).isSome]
  exact h i hi ((record_moves hr).maxChans ▸ hchans)

theorem MeetsSlots.of_record {env : Env} {ls : QList} (h : MeetsSlots r sd) (hr : r.record env ls = some r') :
    MeetsSlots r' sd := by
  intro i hchans b hb hs
  rw [(record_moves hr).isSome]
  exact h i ((record_moves hr).maxChans ▸ hchans) b hb hs

theorem maxChans_deinitSlot (r : Recorder) (i : Nat) : (r.deinitSlot i).maxChans = r.maxChans := by
  rw [deinitSlot]
  split
  · split <;> rfl
  · rfl

theorem wav?_deinitSlot_of_ne (r : Recorder) {i j : Nat} (h : j ≠ i) : (r.deinitSlot i).wav? j = r.wav? j := by
  rw [deinitSlot]
  split
  · split
    · exact wav?_setWav_of_ne (r := r) h
    · rfl
  · rfl

theorem HasSlots.deinitSlot {i : Nat} (h : HasSlots r sd) (hlen : sd.length ≤ i) : HasSlots (r.deinitSlot i) sd := by
  intro j hj hchans
  rw [wav?_deinitSlot_of_ne r (by omega)]
  exact h j hj (maxChans_deinitSlot r i ▸ hchans)

theorem MeetsSlots.deinitSlot {i : Nat} (h : MeetsSlots r sd) (hzero : ∀ b ∈ sd[i]?, b.signal = 0) :
    MeetsSlots (r.deinitSlot i) sd := by
  intro j hchans b hb hs
  by_cases hj : j = i
  · rw [hj] at hb
    exact absurd (hzero b hb) hs
  · rw [wav?_deinitSlot_of_ne r hj]
    exact h j (maxChans_deinitSlot r i ▸ hchans) b hb hs

end Slots

/-- The lists passed so far were in order, and so are the pending ones with the slots there are now. -/
structure Safe (before : List QList) (t : RecorderThread) (calls : List RecordCall) : Prop where
  kept : ∀ c ∈ calls.take before.length, HasSlots c.recorder c.sd
  met : ∀ c ∈ calls, MeetsSlots c.recorder c.sd
  keptPending : ∀ ls ∈ t.pending.take (before.length - calls.length), HasSlots t.recorder ls
  metPending : ∀ ls ∈ t.pending, MeetsSlots t.recorder ls

section Safe
variable {env : Env} {bs : List QList} {t t' : RecorderThread} {calls : List RecordCall}

theorem Safe.mono (h : Safe bs t calls) (hrec : t'.recorder = t.recorder) (hpending : t'.pending <+: t.pending) :
    Safe bs t' calls where
  kept := h.kept
  met := h.met
  keptPending ls hls := by
    rw [hrec]
    exact h.keptPending ls ((hpending.take _).subset hls)
  metPending ls hls := by
    rw [hrec]
    exact h.metPending ls (hpending.subset hls)

/-- A pending list is passed to `record`, and the others stay pending. -/
theorem Safe.record (env : Env) {sd : QList} {ps : List QList} (h : Safe bs t calls) (hpending : t.pending = sd :: ps)
    (hnext : t'.pending = [] ∨
      t'.pending = ps ∧ ∃ r, t.recorder.record env sd = some r ∧ t'.recorder = r) :
    Safe bs t' (calls ++ [⟨sd, t.recorder⟩]) where
  kept c hc := by
    rw [List.take_append, List.mem_append] at hc
    rcases hc with hc | hc
    · exact h.kept c hc
    · by_cases hle : bs.length ≤ calls.length
      · rw [Nat.sub_eq_zero_of_le hle] at hc
        cases hc
      · rw [List.mem_singleton.mp (List.mem_of_mem_take hc)]
        refine h.keptPending sd ?_
        obtain ⟨n, hn⟩ : ∃ n, bs.length - calls.length = n + 1 := ⟨bs.length - calls.length - 1, by omega⟩
        rw [hpending, hn]
        exact List.mem_cons_self
  met c hc := by
    rcases List.mem_append.mp hc with hc | hc
    · exact h.met c hc
    · rw [List.mem_singleton.mp hc]
      exact h.metPending sd (hpending ▸ List.mem_cons_self)
  keptPending ls hls := by
    rcases hnext with hnil | ⟨hps, r, hr, hrec⟩
    · rw [hnil, List.take_nil] at hls
      cases hls
    · rw [hps, List.length_append, List.length_singleton, Nat.sub_add_eq, ← @List.tail_cons _ sd ps,
        ← hpending, ← List.tail_take_eq_take_tail] at hls
      rw [hrec]
      exact (h.keptPending ls (List.mem_of_mem_tail hls)).of_record hr
  metPending ls hls := by
    rcases hnext with hnil | ⟨hps, r, hr, hrec⟩
    · rw [hnil] at hls
      cases hls
    · rw [hps] at hls
      rw [hrec]
      exact (h.metPending ls (hpending ▸ List.mem_cons_of_mem sd hls)).of_record hr

end Safe

/-! ### The control state -/

/-- Where the threads stand. The lists enqueued before `deinit` are the first ones of those passed, of the rest of
    `dblBuff` and of the queue, and once `running` is cleared none of them is left behind in the queue. -/
structure Control (before : List QList) (t : RecorderThread) (calls : List RecordCall) : Prop where
  alloc : t.deinitAt = 0 → ∀ i < t.recorder.maxChans, (t.recorder.wav? i).isSome
  all : t.deinitAt = 0 → before.length = calls.length + t.rest.length + t.buffer.length
  le : before.length ≤ calls.length + t.rest.length + t.buffer.length
  idle : t.runAt = .test ∨ t.runAt = .returned → t.dblBuff = []
  started : t.deinitAt = 0 → t.running = true
  returned : t.runAt = .returned → t.running = false
  drained : t.running = false →
    t.runAt = .drain ∨ (∃ i, t.runAt = .crashed i) ∨ before.length ≤ calls.length + t.rest.length

/-- `before` after the next step. -/
def beforeNext (before : List QList) (t : RecorderThread) (act : Act) : List QList :=
  if t.deinitAt = 0 then before ++ act.accepted else before

section Steps
variable {env : Env} {bs : List QList} {t : RecorderThread} {calls : List RecordCall}

theorem length_recorded (calls : List RecordCall) : (recorded calls).length = calls.length := by
  rw [recorded, ← List.map_eq_flatMap, List.length_map]

/-- A step keeps the balance of what is accepted and what is passed. -/
theorem length_step (env : Env) (t : RecorderThread) (act : Act) :
    (step env t act).2.length + (step env t act).1.rest.length + (step env t act).1.buffer.length =
      t.rest.length + t.buffer.length + act.accepted.length := by
  have hlen := congrArg List.length (step_handover env t act).conserves
  simpa only [List.length_append, length_recorded] using hlen

theorem pending_of_drainsAgain (h : t.drainsAgain) : t.pending = t.rest ++ t.buffer := by
  rcases h with hat | ⟨hrun, hat | ⟨i, hat⟩⟩
  · simp only [pending, rest, hat]
  · simp only [pending, rest, hat, hrun, if_true]
  · simp only [pending, rest, hat, hrun, if_true]

theorem pending_putData_of_drainsAgain (h : t.drainsAgain) (ls : QList) :
    (t.putData (some ls)).1.pending = t.pending ++ [ls] := by
  have hnext : (t.putData (some ls)).1.drainsAgain := h
  rw [pending_of_drainsAgain h, pending_of_drainsAgain hnext, List.append_assoc]
  rfl

/-- A list that no drain comes for is not pending. -/
theorem pending_putData_of_stopped (h : ¬t.drainsAgain) (ls : QList) : (t.putData (some ls)).1.pending = t.pending := by
  obtain ⟨hdrain, hstopped⟩ : t.runAt ≠ .drain ∧ (t.running = true → t.runAt ≠ .test ∧ ∀ i, t.runAt ≠ .record i) := by
    simpa [drainsAgain] using h
  cases hat : t.runAt with
  | drain => exact absurd hat hdrain
  | record i =>
    have hrun : ¬t.running = true := fun hrun => (hstopped hrun).2 i hat
    simp [pending, putData, hat, hrun]
  | test =>
    have hrun : ¬t.running = true := fun hrun => (hstopped hrun).1 hat
    simp [pending, putData, hat, hrun]
  | returned => simp [pending, putData, hat]
  | crashed i => simp [pending, putData, hat]

theorem safe_putData {ls : QList} (h : Safe bs t calls) (hcontrol : Control bs t calls)
    (hmeets : t.drainsAgain → MeetsSlots t.recorder ls) :
    Safe (beforeNext bs t (.putData (some ls))) (t.putData (some ls)).1 calls := by
  by_cases hat : t.deinitAt = 0
  · have halloc := hcontrol.alloc hat
    have hall := hcontrol.all hat
    have hnext : beforeNext bs t (.putData (some ls)) = bs ++ [ls] := if_pos hat
    refine ⟨fun c hc => ?_, h.met, fun _ _ => .of_alloc halloc _, fun _ _ => .of_alloc halloc _⟩
    rw [hnext, List.take_of_length_le (by rw [List.length_append]; omega)] at hc
    exact h.kept c (by rwa [List.take_of_length_le (by omega)])
  · have hnext : beforeNext bs t (.putData (some ls)) = bs := if_neg hat
    rw [hnext]
    by_cases hagain : t.drainsAgain
    · have hpending := pending_putData_of_drainsAgain hagain ls
      have hle := hcontrol.le
      refine ⟨h.kept, h.met, fun ls' hls' => h.keptPending ls' ?_, fun ls' hls' => ?_⟩
      · rwa [hpending, List.take_append_of_le_length] at hls'
        rw [pending_of_drainsAgain hagain, List.length_append]
        omega
      · rw [hpending] at hls'
        rcases List.mem_append.mp hls' with hls' | hls'
        · exact h.metPending ls' hls'
        · rw [List.mem_singleton.mp hls']
          exact hmeets hagain
    · refine h.mono rfl ?_
      rw [pending_putData_of_stopped hagain]

theorem safe_run (h : Safe bs t calls) : Safe bs (t.run env).1 (calls ++ (t.run env).2) := by
  cases hat : t.runAt with
  | drain =>
    rw [run_drain hat, List.append_nil]
    refine h.mono rfl ?_
    simp only [pending, hat, List.drop_zero]
    cases t.running <;> simp
  | record i =>
    cases hsd : t.dblBuff[i]? with
    | none =>
      rw [run_clear hat hsd, List.append_nil]
      refine h.mono rfl ?_
      simp only [pending, hat, List.drop_eq_nil_of_le (List.getElem?_eq_none_iff.mp hsd)]
      exact List.prefix_refl _
    | some sd =>
      obtain ⟨hi, hget⟩ := List.getElem?_eq_some_iff.mp hsd
      have hpending : t.pending = sd :: (t.dblBuff.drop (i + 1) ++ if t.running then t.buffer else []) := by
        simp only [pending, hat, List.drop_eq_getElem_cons hi, hget, List.cons_append]
      obtain ⟨hcall, hstate⟩ := run_record env hat hsd
      rw [hcall]
      rcases hstate with ⟨-, hstate⟩ | ⟨r, hr, hstate⟩
      · rw [hstate]
        exact h.record env hpending (Or.inl rfl)
      · rw [hstate]
        exact h.record env hpending (Or.inr ⟨rfl, r, hr, rfl⟩)
  | test =>
    rw [run_test hat, List.append_nil]
    refine h.mono rfl ?_
    cases hrun : t.running with
    | true =>
      simp only [pending, hat, hrun, if_true]
      exact List.prefix_refl _
    | false => exact List.nil_prefix
  | returned => rwa [run_returned hat, List.append_nil]
  | crashed i => rwa [run_crashed hat, List.append_nil]

theorem safe_deinit (h : Safe bs t calls) (hmeets : Meets bs t calls .deinit) : Safe bs t.deinit calls := by
  rw [Meets] at hmeets
  rw [deinit]
  split
  · rename_i hat
    rw [if_pos hat] at hmeets
    by_cases hclosed : ∀ w ∈ t.recorder.wav? t.deinitAt, w.isOpened = false
    · rw [deinitSlot_of_not_open hclosed]
      exact h.mono rfl (List.prefix_refl _)
    · obtain ⟨w, hw, hopen⟩ : ∃ w, t.recorder.wav? t.deinitAt = some w ∧ w.isOpened = true := by simpa using hclosed
      obtain ⟨hshort, hzero⟩ := hmeets w hw hopen
      exact ⟨h.kept, h.met, fun ls hls => (h.keptPending ls hls).deinitSlot (hshort ls hls),
        fun ls hls => (h.metPending ls hls).deinitSlot (hzero ls hls)⟩
  · refine h.mono rfl ?_
    cases hat : t.runAt <;> simp [pending, stopRecoder, hat]

/-- What `run` leaves alone. -/
theorem kept_run (env : Env) (t : RecorderThread) :
    (t.run env).1.deinitAt = t.deinitAt ∧ (t.run env).1.running = t.running ∧
      (t.run env).1.recorder.maxChans = t.recorder.maxChans ∧
      ∀ i, ((t.run env).1.recorder.wav? i).isSome = (t.recorder.wav? i).isSome := by
  rw [run]
  split
  · exact ⟨rfl, rfl, rfl, fun _ => rfl⟩
  · split
    · split
      · rename_i hr
        exact ⟨rfl, rfl, (record_moves hr).maxChans, (record_moves hr).isSome⟩
      · exact ⟨rfl, rfl, rfl, fun _ => rfl⟩
    · exact ⟨rfl, rfl, rfl, fun _ => rfl⟩
  · exact ⟨rfl, rfl, rfl, fun _ => rfl⟩
  · exact ⟨rfl, rfl, rfl, fun _ => rfl⟩
  · exact ⟨rfl, rfl, rfl, fun _ => rfl⟩

theorem buffer_run (env : Env) (t : RecorderThread) :
    (t.run env).1.buffer = if t.runAt = .drain then [] else t.buffer := by
  cases hat : t.runAt with
  | drain => rw [run_drain hat, if_pos rfl]
  | record i =>
    rw [if_neg (by simp)]
    cases hsd : t.dblBuff[i]? with
    | none => rw [run_clear hat hsd]
    | some sd =>
      rcases (run_record env hat hsd).2 with ⟨-, hstate⟩ | ⟨r, -, hstate⟩ <;> rw [hstate]
  | test =>
    rw [run_test hat]
    rfl
  | returned =>
    rw [run_returned hat]
    rfl
  | crashed i =>
    rw [run_crashed hat]
    rfl

/-- Behind its loop, `run` has an empty `dblBuff`, and it returns only when `running` is cleared. -/
theorem idle_run (env : Env) (h : Control bs t calls) :
    ((t.run env).1.runAt = .test ∨ (t.run env).1.runAt = .returned → (t.run env).1.dblBuff = []) ∧
      ((t.run env).1.runAt = .returned → t.running = false) := by
  cases hat : t.runAt with
  | drain =>
    rw [run_drain hat]
    simp
  | record i =>
    cases hsd : t.dblBuff[i]? with
    | none =>
      rw [run_clear hat hsd]
      simp
    | some sd =>
      rcases (run_record env hat hsd).2 with ⟨-, hstate⟩ | ⟨r, -, hstate⟩ <;> rw [hstate] <;> simp
  | test =>
    rw [run_test hat]
    refine ⟨fun _ => h.idle (Or.inl hat), fun hret => ?_⟩
    by_contra hrun
    have hagain : (if t.running = true then RunAt.drain else RunAt.returned) = .drain :=
      if_pos (Bool.not_eq_false _ ▸ hrun)
    rw [hagain] at hret
    cases hret
  | returned =>
    rw [run_returned hat]
    exact ⟨h.idle, h.returned⟩
  | crashed i =>
    rw [run_crashed hat, hat]
    simp

theorem length_beforeNext (bs : List QList) (t : RecorderThread) (act : Act) :
    (beforeNext bs t act).length = bs.length + if t.deinitAt = 0 then act.accepted.length else 0 := by
  rw [beforeNext]
  split
  · exact List.length_append
  · rfl

theorem control_putData (h : Control bs t calls) (data : Option QList) :
    Control (beforeNext bs t (.putData data)) (t.putData data).1 calls := by
  cases data with
  | none =>
    have hnext : beforeNext bs t (.putData none) = bs := by
      rw [beforeNext]
      split
      · exact List.append_nil bs
      · rfl
    rwa [hnext]
  | some ls =>
    have hnext := length_beforeNext bs t (.putData (some ls))
    have hbuffer : (t.putData (some ls)).1.buffer.length = t.buffer.length + 1 := List.length_append
    have haccepted : (Act.putData (some ls)).accepted.length = 1 := rfl
    have hrest : (t.putData (some ls)).1.rest = t.rest := rfl
    refine ⟨h.alloc, fun hat => ?_, ?_, h.idle, h.started, h.returned, fun hstop => ?_⟩
    · have hbegun : t.deinitAt = 0 := hat
      have hall := h.all hbegun
      rw [hnext, if_pos hbegun, hbuffer, hrest]
      omega
    · have hle := h.le
      rw [hnext, hbuffer, hrest]
      split <;> omega
    · have hat : ¬t.deinitAt = 0 := fun hat => by
        have hrun : t.running = false := hstop
        rw [h.started hat] at hrun
        cases hrun
      rw [beforeNext, if_neg hat, hrest]
      exact h.drained hstop

theorem beforeNext_of_nil {act : Act} (h : act.accepted = []) : beforeNext bs t act = bs := by
  rw [beforeNext, h, List.append_nil, ite_self]

theorem control_run (h : Control bs t calls) : Control bs (t.run env).1 (calls ++ (t.run env).2) := by
  obtain ⟨hat, hrunning, hchans, hsome⟩ := kept_run env t
  obtain ⟨hidle, hret⟩ := idle_run env h
  have hlen := length_step env t .run
  have hbuffer := buffer_run env t
  have hle := h.le
  simp only [step, Act.accepted, List.length_nil, Nat.add_zero] at hlen
  refine ⟨fun hzero i hi => ?_, fun hzero => ?_, ?_, hidle, fun hzero => ?_, fun hr => ?_, fun hstop => ?_⟩
  · rw [hsome]
    exact h.alloc (hat ▸ hzero) i (hchans ▸ hi)
  · have hall := h.all (hat ▸ hzero)
    rw [List.length_append]
    omega
  · rw [List.length_append]
    omega
  · rw [hrunning]
    exact h.started (hat ▸ hzero)
  · rw [hrunning]
    exact hret hr
  · rw [List.length_append]
    rcases h.drained (hrunning ▸ hstop) with hdrain | ⟨i, hcrash⟩ | hfew
    · rw [if_pos hdrain] at hbuffer
      rw [hbuffer, List.length_nil] at hlen
      omega
    · rw [run_crashed hcrash]
      exact Or.inr (Or.inl ⟨i, hcrash⟩)
    · by_cases hdrain : t.runAt = .drain
      · rw [if_pos hdrain] at hbuffer
        rw [hbuffer, List.length_nil] at hlen
        omega
      · rw [if_neg hdrain] at hbuffer
        rw [hbuffer] at hlen
        omega

theorem control_deinit (h : Control bs t calls) (hmeets : Meets bs t calls .deinit) : Control bs t.deinit calls := by
  rw [Meets] at hmeets
  rw [deinit]
  split
  · have hbegun : ¬t.deinitAt + 1 = 0 := Nat.succ_ne_zero _
    exact ⟨(absurd · hbegun), (absurd · hbegun), h.le, h.idle, (absurd · hbegun), h.returned, h.drained⟩
  · rename_i hat
    rw [if_neg hat] at hmeets
    have hbegun : ¬129 = 0 := by decide
    refine ⟨(absurd · hbegun), (absurd · hbegun), h.le, h.idle, (absurd · hbegun), fun _ => rfl, fun _ => ?_⟩
    cases hrun : t.running with
    | true => exact hmeets hrun
    | false => exact h.drained hrun

end Steps

/-! ### Runs -/

section Runs
variable {env : Env} {r : Recorder} {acts : List Act}

theorem before_snoc (acts : List Act) (act : Act) :
    before (acts ++ [act]) = if .deinit ∈ acts then before acts else before acts ++ act.accepted := by
  induction acts with
  | nil => cases act <;> simp [before, Act.accepted]
  | cons a acts ih =>
    cases a with
    | deinit => rw [if_pos List.mem_cons_self]; rfl
    | run => simpa [before, Act.accepted] using ih
    | putData data =>
      rw [List.cons_append, before, before, ih]
      · by_cases h : .deinit ∈ acts
        · rw [if_pos h, if_pos (List.mem_cons_of_mem _ h)]
        · rw [if_neg h, if_neg (by simpa using h), List.append_assoc]
      · simp
      · simp

theorem before_prefix (acts : List Act) : before acts <+: accepted acts := by
  induction acts with
  | nil => exact List.prefix_refl []
  | cons a acts ih =>
    cases a with
    | deinit => exact List.nil_prefix
    | run => exact (List.prefix_append_right_inj _).mpr ih
    | putData data => exact (List.prefix_append_right_inj _).mpr ih

theorem deinitAt_eq_zero_iff (env : Env) (r : Recorder) (acts : List Act) :
    (Run.state (step env) (startRecorder r) acts).deinitAt = 0 ↔ .deinit ∉ acts := by
  induction acts using List.reverseRecOn with
  | nil => simp [startRecorder]
  | append_singleton acts act ih =>
    rw [Run.state_snoc, List.mem_append, not_or]
    generalize Run.state (step env) (startRecorder r) acts = t at *
    cases act with
    | putData data =>
      have hkept : (t.putData data).1.deinitAt = t.deinitAt := by cases data <;> rfl
      simpa [step, hkept] using ih
    | run => simpa [step, (kept_run env t).1] using ih
    | deinit =>
      have hbegun : t.deinit.deinitAt ≠ 0 := by
        rw [deinit]
        split
        · exact Nat.succ_ne_zero _
        · exact Nat.succ_ne_zero _
      simpa [step] using hbegun

theorem before_step (env : Env) (r : Recorder) (acts : List Act) (act : Act) :
    before (acts ++ [act]) = beforeNext (before acts) (Run.state (step env) (startRecorder r) acts) act := by
  rw [before_snoc, beforeNext]
  by_cases h : .deinit ∈ acts
  · rw [if_pos h, if_neg (mt (deinitAt_eq_zero_iff env r acts).mp (not_not_intro h))]
  · rw [if_neg h, if_pos ((deinitAt_eq_zero_iff env r acts).mpr h)]

theorem AllMeet.take (h : AllMeet env r acts) (k : Nat) : AllMeet env r (acts.take k) := by
  intro j act hact
  have hlt : j < (acts.take k).length := (List.getElem?_eq_some_iff.mp hact).1
  rw [List.length_take] at hlt
  rw [List.getElem?_take_of_lt (by omega)] at hact
  have hmeets := h j act hact
  rwa [List.take_take, Nat.min_eq_left (by omega)]

theorem AllMeet.of_snoc {act : Act} (h : AllMeet env r (acts ++ [act])) :
    AllMeet env r acts ∧ Meets (before acts) (Run.state (step env) (startRecorder r) acts)
      (Run.emits (step env) (startRecorder r) acts) act := by
  constructor
  · have htake := h.take acts.length
    rwa [List.take_left] at htake
  · have hlast := h acts.length act (by simp)
    rwa [List.take_left] at hlast

theorem AllMeet.nil : AllMeet env r [] := fun k act hact => by cases hact

theorem AllMeet.snoc (h : AllMeet env r acts) (act : Act)
    (hmeets : Meets (before acts) (Run.state (step env) (startRecorder r) acts)
      (Run.emits (step env) (startRecorder r) acts) act) : AllMeet env r (acts ++ [act]) := by
  intro k act' hact
  rcases Nat.lt_trichotomy k acts.length with hk | hk | hk
  · rw [List.getElem?_append_left hk] at hact
    rw [List.take_append_of_le_length (Nat.le_of_lt hk)]
    exact h k act' hact
  · rw [hk, List.getElem?_concat_length] at hact
    rw [hk, List.take_left, ← Option.some.inj hact]
    exact hmeets
  · rw [List.getElem?_eq_none (by rw [List.length_append, List.length_singleton]; omega)] at hact
    cases hact

theorem AllMeet.run (h : AllMeet env r acts) : AllMeet env r (acts ++ [.run]) := h.snoc .run trivial

/-- `deinit` may delete any slot when nothing is pending. -/
theorem AllMeet.deinit (h : AllMeet env r acts)
    (hpending : (Run.state (step env) (startRecorder r) acts).pending = [])
    (hat : (Run.state (step env) (startRecorder r) acts).deinitAt < 128) : AllMeet env r (acts ++ [.deinit]) := by
  refine h.snoc .deinit ?_
  rw [Meets, if_pos hat, hpending]
  exact fun w _ _ => ⟨by simp, by simp⟩

theorem safe_of_allMeet (hr : ∀ i < r.maxChans, (r.wav? i).isSome) (h : AllMeet env r acts) :
    Safe (before acts) (Run.state (step env) (startRecorder r) acts) (Run.emits (step env) (startRecorder r) acts) ∧
      Control (before acts) (Run.state (step env) (startRecorder r) acts)
        (Run.emits (step env) (startRecorder r) acts) := by
  induction acts using List.reverseRecOn with
  | nil =>
    refine ⟨⟨by simp, by simp, by simp [before], by simp [pending, startRecorder]⟩, ⟨fun _ => hr, ?_, ?_, ?_, ?_, ?_, ?_⟩⟩
    all_goals simp [startRecorder, before, rest]
  | append_singleton acts act ih =>
    obtain ⟨hbefore, hmeets⟩ := h.of_snoc
    obtain ⟨hsafe, hcontrol⟩ := ih hbefore
    rw [before_step env r, Run.state_snoc, Run.emits_snoc]
    generalize Run.state (step env) (startRecorder r) acts = t at *
    generalize Run.emits (step env) (startRecorder r) acts = calls at *
    cases act with
    | putData data =>
      show Safe _ (t.putData data).1 (calls ++ []) ∧ Control _ (t.putData data).1 (calls ++ [])
      rw [List.append_nil]
      refine ⟨?_, control_putData hcontrol data⟩
      cases data with
      | none => rwa [beforeNext_of_nil rfl]
      | some ls => exact safe_putData hsafe hcontrol hmeets
    | run =>
      rw [beforeNext_of_nil rfl]
      exact ⟨safe_run hsafe, control_run hcontrol⟩
    | deinit =>
      show Safe _ t.deinit (calls ++ []) ∧ Control _ t.deinit (calls ++ [])
      rw [List.append_nil, beforeNext_of_nil rfl]
      exact ⟨safe_deinit hsafe hmeets, control_deinit hcontrol hmeets⟩

theorem getElem?_of_prefix {α : Type} {xs ys : List α} (h : xs <+: ys) {k : Nat} {x : α} (hx : xs[k]? = some x) :
    ys[k]? = some x := by
  obtain ⟨zs, rfl⟩ := h
  rw [List.getElem?_append_left (List.getElem?_eq_some_iff.mp hx).1, hx]

theorem orderly_of_allMeet (hr : ∀ i < r.maxChans, (r.wav? i).isSome) (h : AllMeet env r acts) :
    Orderly (before acts) (Run.state (step env) (startRecorder r) acts)
      (Run.emits (step env) (startRecorder r) acts) := by
  obtain ⟨hsafe, hcontrol⟩ := safe_of_allMeet hr h
  have hbefore : before acts <+: accepted acts := before_prefix acts
  have hpassed : recorded (Run.emits (step env) (startRecorder r) acts) <+: accepted acts := by
    have hall : _ = accepted acts := Handover.conserved (step_handover env) (startRecorder r) acts
    rw [← hall, List.append_assoc]
    exact List.prefix_append _ _
  generalize Run.state (step env) (startRecorder r) acts = t at *
  generalize Run.emits (step env) (startRecorder r) acts = calls at *
  refine ⟨fun k c hc sd hsd => ?_, hsafe.met, fun hret => ?_⟩
  · have hk : k < (before acts).length := (List.getElem?_eq_some_iff.mp hsd).1
    have hcall : (recorded calls)[k]? = some c.sd := by
      rw [recorded, ← List.map_eq_flatMap, List.getElem?_map, hc]
      rfl
    have hsame : some c.sd = some sd := by
      rw [← getElem?_of_prefix hpassed hcall]
      exact getElem?_of_prefix hbefore hsd
    have hmem : c ∈ calls.take (before acts).length :=
      List.mem_iff_getElem?.mpr ⟨k, by rw [List.getElem?_take_of_lt hk, hc]⟩
    have heq : c.sd = sd := Option.some.inj hsame
    exact ⟨heq, heq ▸ hsafe.kept c hmem⟩
  · have hfew : (before acts).length ≤ calls.length + t.rest.length := by
      rcases hcontrol.drained (hcontrol.returned hret) with hat | ⟨i, hat⟩ | hfew
      · rw [hret] at hat
        cases hat
      · rw [hret] at hat
        cases hat
      · exact hfew
    have hempty : t.rest = [] := by
      rw [rest, hret]
      exact hcontrol.idle (Or.inr hret)
    refine List.prefix_of_prefix_length_le hbefore hpassed ?_
    rw [hempty] at hfew
    rw [length_recorded]
    exact hfew

end Runs

theorem alloc_init (env : Env) (cfg : RecorderConfig) :
    ∀ i < (init env cfg new).maxChans, ((init env cfg new).wav? i).isSome := fun i hi =>
  ((good_init env cfg).ready.alloc i).mpr hi

end Recd2.RecorderThread
