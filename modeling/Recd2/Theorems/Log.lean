import Recd2.Log
import Recd2.Theorems.Logging

/-! The messages of the plugins and of the application on their way to the file of the log. Nothing that comes to the socket of
    the message server is lost behind it, repeated or moved, and the file gets all of it as long as the logger is not stopped. -/

namespace Recd2

/-! ### The datagrams -/

namespace IPC

theorem module_msg_ne_nil (module msg : CString) : module_msg module msg ≠ [] := by
  rw [module_msg, List.append_assoc, List.append_assoc, List.singleton_append, List.take_succ_cons]
  exact List.cons_ne_nil _ _

/-- A message that is not too long is sent whole. -/
theorem module_msg_of_le {module msg : CString} (h : module.bytes.length + msg.bytes.length ≤ 508) :
    module_msg module msg = ['['.toUInt8] ++ module.bytes ++ [']'.toUInt8, ':'.toUInt8] ++ msg.bytes := by
  refine List.take_of_length_le ?_
  rw [List.length_append, List.length_append, List.length_append, List.length_singleton, List.length_cons,
    List.length_singleton]
  omega

end IPC

/-! ### The thread that is not stopped -/

namespace Writer

/-- The thread goes on, and tests only when it has written its buffer. -/
structure Live (w : Writer) : Prop where
  isRunning : w.isRunning = true
  running : w.runAt ≠ .returned
  tested : w.runAt = .test → w.dblBuff = []

/-- Everything that was handed over is written. -/
def Done (w : Writer) : Prop := w.dblBuff = [] ∧ w.buffer = []

/-- The steps until everything is written. -/
def todo (w : Writer) : Nat :=
  match w.runAt with
  | .sleep => w.dblBuff.length + w.buffer.length + 2
  | .drain => w.dblBuff.length + w.buffer.length + 1
  | .write => w.dblBuff.length + if w.buffer = [] then 0 else w.buffer.length + 4
  | .test => w.buffer.length + 3
  | .returned => 0

section Live
variable {w : Writer}

theorem live_startWriter : startWriter.Live := ⟨rfl, nofun, nofun⟩

theorem Live.write (h : w.Live) (data : QByteArray) : (w.write data).Live := ⟨h.isRunning, h.running, h.tested⟩

theorem todo_le (w : Writer) : w.todo ≤ w.dblBuff.length + w.buffer.length + 4 := by
  rw [todo]
  split
  · omega
  · omega
  · split_ifs <;> omega
  · omega
  · omega

theorem Live.done_of_todo (h : w.Live) (hzero : w.todo = 0) : w.Done := by
  obtain ⟨isRunning, buffer, dblBuff, runAt⟩ := w
  cases runAt with
  | sleep => exact absurd hzero (Nat.succ_ne_zero _)
  | drain => exact absurd hzero (Nat.succ_ne_zero _)
  | write =>
    by_cases hnil : buffer = []
    · have hlen : dblBuff.length + (if buffer = [] then 0 else buffer.length + 4) = 0 := hzero
      rw [if_pos hnil] at hlen
      exact ⟨List.eq_nil_of_length_eq_zero hlen, hnil⟩
    · have hlen : dblBuff.length + (if buffer = [] then 0 else buffer.length + 4) = 0 := hzero
      rw [if_neg hnil] at hlen
      omega
  | test => exact absurd hzero (Nat.succ_ne_zero _)
  | returned => exact absurd rfl h.running

theorem Done.run (h : w.Done) : w.run.1.Done := by
  obtain ⟨isRunning, buffer, dblBuff, runAt⟩ := w
  obtain ⟨rfl, rfl⟩ : dblBuff = [] ∧ buffer = [] := h
  cases runAt <;> exact ⟨rfl, rfl⟩

theorem Live.run (h : w.Live) : w.run.1.Live ∧ (w.run.1.Done ∨ w.run.1.todo < w.todo) := by
  obtain ⟨isRunning, buffer, dblBuff, runAt⟩ := w
  obtain rfl : isRunning = true := h.isRunning
  cases runAt with
  | sleep => exact ⟨⟨rfl, nofun, nofun⟩, Or.inr (Nat.lt_succ_self _)⟩
  | drain =>
    refine ⟨⟨rfl, nofun, nofun⟩, Or.inr ?_⟩
    show (dblBuff ++ buffer).length + 0 < dblBuff.length + buffer.length + 1
    rw [List.length_append]
    exact Nat.lt_succ_self _
  | write =>
    cases dblBuff with
    | cons d ds =>
      refine ⟨⟨rfl, nofun, nofun⟩, Or.inr ?_⟩
      exact Nat.add_lt_add_right (Nat.lt_succ_self ds.length) _
    | nil =>
      refine ⟨⟨rfl, nofun, fun _ => rfl⟩, ?_⟩
      by_cases hnil : buffer = []
      · exact Or.inl ⟨rfl, hnil⟩
      · refine Or.inr ?_
        show buffer.length + 3 < 0 + if buffer = [] then 0 else buffer.length + 4
        rw [if_neg hnil]
        omega
  | test =>
    obtain rfl : dblBuff = [] := h.tested rfl
    refine ⟨⟨rfl, nofun, nofun⟩, Or.inr ?_⟩
    show 0 + buffer.length + 2 < buffer.length + 3
    omega
  | returned => exact absurd rfl h.running

end Live
end Writer

namespace Log

/-! ### What is on its way -/

/-- The datagrams that a step brings to the socket. -/
def Act.arrived : Act → List UdpDatagram
  | .sendMessage module msg delivered => if delivered then [IPC.datagram module msg] else []
  | .receive d => [d]
  | _ => []

/-- What a step of the application logs. -/
def Act.called : Act → List QByteArray
  | .logMessage msg => [msg]
  | _ => []

/-- The datagrams that come to the socket. -/
def arrived (acts : List Act) : List UdpDatagram := acts.flatMap Act.arrived

/-- What the application logs itself. -/
def called (acts : List Act) : List QByteArray := acts.flatMap Act.called

/-- The contents of datagrams, but for empty ones. -/
def contents (ds : List UdpDatagram) : List QByteArray := (ds.map UdpDatagram.bytes).filter (· ≠ [])

/-- The contents that an event brings. -/
def Event.content : Event → List QByteArray
  | .arrived d => contents [d]
  | _ => []

/-- The call of `logMessage` that an event is. -/
def Event.call : Event → List (Caller × QByteArray)
  | .logMessage caller msg => [(caller, msg)]
  | _ => []

/-- The line that an event writes to the file. -/
def Event.line : Event → List QByteArray
  | .written msg => [msg]
  | _ => []

/-- The calls of `logMessage`, in their order. -/
def calls (es : List Event) : List (Caller × QByteArray) := es.flatMap Event.call

/-- The lines of the log file, in their order. -/
def file (es : List Event) : List QByteArray := es.flatMap Event.line

/-- The messages of one of the callers. -/
def ofCaller (caller : Caller) (log : List (Caller × QByteArray)) : List QByteArray :=
  (log.filter (·.1 = caller)).map Prod.snd

/-! ### The steps -/

section Step
variable {l : Log} {d : UdpDatagram} {rest : List UdpDatagram}

/-- A round that reads a datagram logs it, unless it is empty. -/
theorem readyRead_received (h : l.pending = d :: rest) : l.readyRead .received =
    if d.bytes = [] then (⟨rest, l.writer⟩, []) else (⟨rest, l.writer.write d.bytes⟩, [.logMessage .server d.bytes]) := by
  have hread : 0 < (Int64.ofNat d.bytes.length).toUInt64 ↔ ¬d.bytes = [] := by
    have hle := d.size_le
    have hsize : (UInt64.ofNat d.bytes.length).toNat = d.bytes.length := Nat.mod_eq_of_lt (by omega)
    rw [Int64.toUInt64_ofNat', UInt64.lt_iff_toNat_lt, hsize]
    exact List.length_pos_iff
  rw [readyRead, h]
  dsimp only [MsgServer.readDatagram]
  by_cases hnil : d.bytes = []
  · rw [if_neg fun hlt => hread.mp hlt hnil, if_pos hnil]
    rfl
  · rw [if_pos (hread.mpr hnil), if_neg hnil]
    rfl

theorem contents_cons (d : UdpDatagram) (ds : List UdpDatagram) : contents (d :: ds) = contents [d] ++ contents ds := by
  rw [contents, contents, contents, List.map_cons, List.map_cons, List.map_nil, ← List.filter_append, List.singleton_append]

theorem contents_append (ds ds' : List UdpDatagram) : contents (ds ++ ds') = contents ds ++ contents ds' := by
  rw [contents, contents, contents, List.map_append, List.filter_append]

/-- A message of a plugin is not empty. -/
theorem contents_datagram (module msg : CString) : contents [IPC.datagram module msg] = [IPC.module_msg module msg] :=
  List.filter_cons_of_pos (decide_eq_true (IPC.module_msg_ne_nil module msg))

theorem map_calls (es : List Event) : (calls es).map Prod.snd = es.flatMap fun e => e.call.map Prod.snd := List.map_flatMap

theorem ofCaller_calls (caller : Caller) (es : List Event) :
    ofCaller caller (calls es) = es.flatMap fun e => ofCaller caller e.call := by
  rw [ofCaller, calls, List.filter_flatMap, List.map_flatMap]
  rfl

/-- The lines that wait for the thread of the writer. -/
def waiting (l : Log) : List QByteArray := l.writer.dblBuff ++ l.writer.buffer

theorem waiting_write (msg : QByteArray) (pending : List UdpDatagram) :
    waiting ⟨pending, l.writer.write msg⟩ = waiting l ++ [msg] := (List.append_assoc _ _ _).symm

theorem flatMap_line_run (msgs : List QByteArray) : (msgs.map Event.written).flatMap Event.line = msgs := by
  rw [List.flatMap_map]
  exact List.flatMap_singleton' msgs

theorem flatMap_written_eq_nil {α : Type} {f : Event → List α} (hf : ∀ msg, f (.written msg) = []) (msgs : List QByteArray) :
    (msgs.map Event.written).flatMap f = [] := by
  rw [List.flatMap_map, List.flatMap_eq_nil_iff]
  exact fun msg _ => hf msg

/-- A round of the server calls the logger or does not, and leaves no more datagrams than there were. -/
theorem readyRead_cases (r : MsgServer.ReadDatagram) (l : Log) : ∃ pending, pending.length ≤ l.pending.length ∧
    (l.readyRead r = (⟨pending, l.writer⟩, []) ∨
      ∃ msg, l.readyRead r = (⟨pending, l.writer.write msg⟩, [.logMessage .server msg])) := by
  obtain ⟨pending, writer⟩ := l
  cases pending with
  | nil => exact ⟨[], Nat.le_refl _, Or.inl rfl⟩
  | cons d rest =>
    rw [readyRead]
    dsimp only
    split_ifs
    · exact ⟨rest, Nat.le_succ _, Or.inr ⟨_, rfl⟩⟩
    · exact ⟨d :: rest, Nat.le_refl _, Or.inr ⟨_, rfl⟩⟩
    · exact ⟨rest, Nat.le_succ _, Or.inl rfl⟩
    · exact ⟨d :: rest, Nat.le_refl _, Or.inl rfl⟩

/-- What is written, and what waits for the thread, is what waited and what is logged. -/
theorem step_lines (l : Log) (a : Act) : (step l a).2.flatMap Event.line ++ (step l a).1.waiting =
    l.waiting ++ (step l a).2.flatMap fun e => e.call.map Prod.snd := by
  cases a with
  | sendMessage module msg delivered => cases delivered <;> exact (List.append_nil _).symm
  | receive d => exact (List.append_nil _).symm
  | readyRead r =>
    show (l.readyRead r).2.flatMap Event.line ++ (l.readyRead r).1.waiting = _ ++ (l.readyRead r).2.flatMap _
    obtain ⟨pending, -, heq | ⟨msg, heq⟩⟩ := readyRead_cases r l
    · rw [heq]
      exact (List.append_nil _).symm
    · rw [heq]
      exact waiting_write msg pending
  | logMessage msg => exact waiting_write msg l.pending
  | deinit => exact (List.append_nil _).symm
  | run =>
    have hconserves := (Writer.run_handover l.writer).conserves
    rw [List.flatMap_singleton'] at hconserves
    show (l.writer.run.2.map Event.written).flatMap Event.line ++ (l.writer.run.1.dblBuff ++ l.writer.run.1.buffer) =
      _ ++ (l.writer.run.2.map Event.written).flatMap _
    rw [flatMap_line_run, flatMap_written_eq_nil fun _ => rfl, ← List.append_assoc]
    exact hconserves

/-- What the server logs, and what waits for it, is what waited and what arrives. -/
theorem step_contents (l : Log) {a : Act} (ha : ∀ r, a = .readyRead r → r = .received) :
    ((step l a).2.flatMap fun e => ofCaller .server e.call) ++ contents (step l a).1.pending =
      contents l.pending ++ (step l a).2.flatMap Event.content := by
  cases a with
  | sendMessage module msg delivered =>
    cases delivered with
    | false => exact (List.append_nil _).symm
    | true =>
      show contents (l.pending ++ [IPC.datagram module msg]) = _ ++ (contents [IPC.datagram module msg] ++ [])
      rw [contents_append, List.append_nil]
  | receive d =>
    show contents (l.pending ++ [d]) = _ ++ (contents [d] ++ [])
    rw [contents_append, List.append_nil]
  | readyRead r =>
    obtain rfl := ha r rfl
    show ((l.readyRead .received).2.flatMap _) ++ contents (l.readyRead .received).1.pending =
      _ ++ (l.readyRead .received).2.flatMap _
    cases hpending : l.pending with
    | nil =>
      have hnone : l.readyRead .received = (l, []) := by rw [readyRead, hpending]
      rw [hnone, hpending]
      rfl
    | cons d rest =>
      rw [readyRead_received hpending, contents_cons]
      split_ifs with hnil
      · have hempty : contents [d] = [] := by simp [contents, hnil]
        rw [hempty]
        exact (List.append_nil _).symm
      · have hone : contents [d] = [d.bytes] := by simp [contents, hnil]
        rw [hone]
        exact (List.append_nil _).symm
  | logMessage msg => exact (List.append_nil _).symm
  | deinit => exact (List.append_nil _).symm
  | run =>
    show ((l.writer.run.2.map Event.written).flatMap _) ++ contents l.pending = _ ++ (l.writer.run.2.map Event.written).flatMap _
    rw [flatMap_written_eq_nil fun _ => rfl, flatMap_written_eq_nil fun _ => rfl, List.append_nil]
    rfl

theorem step_called (l : Log) (a : Act) : ((step l a).2.flatMap fun e => ofCaller .application e.call) = a.called := by
  cases a with
  | sendMessage module msg delivered => cases delivered <;> rfl
  | receive d => rfl
  | readyRead r =>
    show (l.readyRead r).2.flatMap _ = []
    obtain ⟨pending, -, heq | ⟨msg, heq⟩⟩ := readyRead_cases r l
    · rw [heq]
      rfl
    · rw [heq]
      rfl
  | logMessage msg => rfl
  | deinit => rfl
  | run => exact flatMap_written_eq_nil (fun _ => rfl) _

theorem step_arrived (l : Log) (a : Act) : (step l a).2.flatMap Event.content = contents a.arrived := by
  cases a with
  | sendMessage module msg delivered =>
    cases delivered with
    | false => rfl
    | true => exact List.append_nil _
  | receive d => exact List.append_nil _
  | readyRead r =>
    show (l.readyRead r).2.flatMap _ = []
    obtain ⟨pending, -, heq | ⟨msg, heq⟩⟩ := readyRead_cases r l
    · rw [heq]
      rfl
    · rw [heq]
      rfl
  | logMessage msg => rfl
  | deinit => rfl
  | run => exact flatMap_written_eq_nil (fun _ => rfl) _

theorem contents_arrived (acts : List Act) : contents (arrived acts) = acts.flatMap fun a => contents a.arrived := by
  induction acts with
  | nil => rfl
  | cons a acts ih =>
    rw [arrived, List.flatMap_cons, contents_append, List.flatMap_cons]
    exact congrArg (_ ++ ·) ih

end Step

/-! ### Runs -/

/-- The log behind the steps. -/
def after (acts : List Act) : Log := Run.state step start acts

/-- What happened in the steps. -/
def events (acts : List Act) : List Event := Run.emits step start acts

/-- No read fails. -/
def Reads (acts : List Act) : Prop := ∀ r, .readyRead r ∈ acts → r = .received

section Runs
variable {acts : List Act}

theorem file_append_waiting (acts : List Act) :
    file (events acts) ++ (after acts).waiting = (calls (events acts)).map Prod.snd := by
  rw [map_calls]
  exact Run.emits_balanced (fun l a _ => step_lines l a) start

theorem server_append_pending (h : Reads acts) :
    ofCaller .server (calls (events acts)) ++ contents (after acts).pending = contents (arrived acts) := by
  have hall : (events acts).flatMap _ ++ contents (after acts).pending = [] ++ (events acts).flatMap Event.content :=
    @Run.emits_balanced _ _ _ _ _ (fun l => contents l.pending) _ _ acts
      (fun l a ha => step_contents l fun r hr => h r (hr ▸ ha)) start
  rw [ofCaller_calls, hall, List.nil_append, events, Run.flatMap_emits step_arrived, contents_arrived]

theorem application_eq (acts : List Act) : ofCaller .application (calls (events acts)) = called acts := by
  rw [ofCaller_calls, events, Run.flatMap_emits step_called, called]

theorem length_ofCaller (log : List (Caller × QByteArray)) :
    (ofCaller .server log).length + (ofCaller .application log).length = log.length := by
  induction log with
  | nil => rfl
  | cons m log ih =>
    obtain ⟨caller, msg⟩ := m
    rw [ofCaller, ofCaller, List.length_map, List.length_map] at ih ⊢
    cases caller <;> simp only [List.filter_cons, decide_true, if_true, reduceCtorEq, decide_false, Bool.false_eq_true,
      if_false, List.length_cons] <;> omega

theorem length_contents_le (ds : List UdpDatagram) : (contents ds).length ≤ ds.length :=
  Nat.le_trans (List.length_filter_le _ _) (Nat.le_of_eq (List.length_map _))

theorem length_pending_le (acts : List Act) : (after acts).pending.length ≤ (arrived acts).length := by
  induction acts using List.reverseRecOn with
  | nil => exact Nat.le_refl 0
  | append_singleton acts a ih =>
    rw [after, Run.state_snoc, arrived, List.flatMap_append, List.flatMap_singleton, List.length_append]
    refine Nat.le_trans ?_ (Nat.add_le_add_right ih _)
    show (step (after acts) a).1.pending.length ≤ _
    generalize after acts = l
    cases a with
    | sendMessage module msg delivered =>
      cases delivered with
      | false => exact Nat.le_refl _
      | true => exact Nat.le_of_eq (List.length_append)
    | receive d => exact Nat.le_of_eq (List.length_append)
    | readyRead r =>
      show (l.readyRead r).1.pending.length ≤ _
      obtain ⟨pending, hle, heq | ⟨msg, heq⟩⟩ := readyRead_cases r l
      · rw [heq]
        exact hle
      · rw [heq]
        exact hle
    | logMessage msg => exact Nat.le_refl _
    | deinit => exact Nat.le_refl _
    | run => exact Nat.le_refl _

theorem length_waiting_le (h : Reads acts) : (after acts).waiting.length ≤ (arrived acts).length + (called acts).length := by
  have hlines := congrArg List.length (file_append_waiting acts)
  have hserver := congrArg List.length (server_append_pending h)
  have hcontents := length_contents_le (arrived acts)
  have hboth := length_ofCaller (calls (events acts))
  rw [application_eq] at hboth
  rw [List.length_append, List.length_map] at hlines
  rw [List.length_append] at hserver
  omega

theorem live_after (h : Act.deinit ∉ acts) : (after acts).writer.Live := by
  refine Run.state_keeps_of_mem (I := fun l : Log => l.writer.Live) (fun l a ha hlive => ?_) Writer.live_startWriter
  cases a with
  | sendMessage module msg delivered => cases delivered <;> exact hlive
  | receive d => exact hlive
  | readyRead r =>
    show (l.readyRead r).1.writer.Live
    obtain ⟨pending, -, heq | ⟨msg, heq⟩⟩ := readyRead_cases r l
    · rw [heq]
      exact hlive
    · rw [heq]
      exact hlive.write msg
  | logMessage msg => exact hlive.write msg
  | deinit => exact absurd ha h
  | run => exact hlive.run.1

/-! ### The last messages -/

/-- A turn of the server, whose read succeeds, or of the thread of the writer. -/
inductive Turn where
  | readyRead
  | run
  deriving DecidableEq

/-- The step of the log that a turn is. -/
def Turn.act : Turn → Act
  | .readyRead => .readyRead .received
  | .run => .run

/-- One turn of the log. -/
def turn (l : Log) (t : Turn) : Log × List Event := step l t.act

theorem after_append_turns (acts : List Act) (ts : List Turn) :
    after (acts ++ ts.map Turn.act) = Run.state turn (after acts) ts := by
  rw [after, Run.state_append, Run.state, List.foldl_map]
  rfl

theorem pending_turn_readyRead (l : Log) : (turn l .readyRead).1.pending = l.pending.tail := by
  show (l.readyRead .received).1.pending = _
  cases hpending : l.pending with
  | nil =>
    rw [readyRead, hpending]
    exact hpending
  | cons d rest =>
    rw [readyRead_received hpending]
    split_ifs <;> rfl

/-- The server reads what is pending, one datagram in each of its turns. -/
theorem pending_of_turns {l : Log} {ts : List Turn} (h : l.pending.length ≤ ts.count .readyRead) :
    (Run.state turn l ts).pending = [] := by
  refine Run.state_reaches (I := fun _ => True) (fun l : Log => l.pending = []) (fun l => l.pending.length)
    (· == Turn.readyRead)
    (fun _ _ _ => trivial) (fun l t _ hdone => ?_) (fun l _ hzero => List.eq_nil_of_length_eq_zero hzero)
    (fun l t _ ht => ?_) (fun l t _ ht => ?_) trivial ts h
  · cases t with
    | readyRead => rw [pending_turn_readyRead, hdone, List.tail_nil]
    | run => exact hdone
  · obtain rfl := eq_of_beq ht
    rw [pending_turn_readyRead]
    cases l.pending with
    | nil => exact Or.inl rfl
    | cons d rest => exact Or.inr (Nat.lt_succ_self _)
  · cases t with
    | readyRead => exact absurd ht (by decide)
    | run => exact Nat.le_refl _

theorem turn_readyRead_of_nil {l : Log} (h : l.pending = []) : turn l .readyRead = (l, []) := by
  show l.readyRead .received = _
  rw [readyRead, h]

/-- The thread writes what waits for it, when nothing comes behind. -/
theorem waiting_of_turns {l : Log} {ts : List Turn} (hpending : l.pending = []) (hlive : l.writer.Live)
    (h : l.waiting.length + 4 ≤ ts.count .run) : (Run.state turn l ts).waiting = [] := by
  have hcount : l.writer.todo ≤ ts.countP (· == Turn.run) := by
    have hle := l.writer.todo_le
    rw [waiting, List.length_append] at h
    exact Nat.le_trans hle h
  have hdone : (Run.state turn l ts).writer.Done := by
    refine Run.state_reaches (I := fun l : Log => l.pending = [] ∧ l.writer.Live) (fun l : Log => l.writer.Done)
      (fun l => l.writer.todo) (· == Turn.run) ?_ ?_ (fun l hl => hl.2.done_of_todo) ?_ ?_ ⟨hpending, hlive⟩ ts hcount
    · rintro l t ⟨hpending, hlive⟩
      cases t with
      | readyRead =>
        rw [turn_readyRead_of_nil hpending]
        exact ⟨hpending, hlive⟩
      | run => exact ⟨hpending, hlive.run.1⟩
    · rintro l t ⟨hpending, -⟩ hdone
      cases t with
      | readyRead =>
        rw [turn_readyRead_of_nil hpending]
        exact hdone
      | run => exact hdone.run
    · rintro l t ⟨-, hlive⟩ ht
      obtain rfl := eq_of_beq ht
      exact hlive.run.2
    · rintro l t ⟨hpending, -⟩ ht
      cases t with
      | readyRead => exact Nat.le_of_eq (congrArg (fun r => r.1.writer.todo) (turn_readyRead_of_nil hpending))
      | run => exact absurd ht (by decide)
  rw [waiting, hdone.1, hdone.2]
  rfl

theorem flatMap_append_turns {α : Type} {f : Act → List α} (hf : ∀ t : Turn, f t.act = []) (acts : List Act)
    (ts : List Turn) : (acts ++ ts.map Turn.act).flatMap f = acts.flatMap f := by
  have hnone : (ts.map Turn.act).flatMap f = [] := by
    rw [List.flatMap_map, List.flatMap_eq_nil_iff]
    exact fun t _ => hf t
  rw [List.flatMap_append, hnone, List.append_nil]

theorem arrived_append_turns (acts : List Act) (ts : List Turn) : arrived (acts ++ ts.map Turn.act) = arrived acts :=
  flatMap_append_turns (fun t => by cases t <;> rfl) acts ts

theorem called_append_turns (acts : List Act) (ts : List Turn) : called (acts ++ ts.map Turn.act) = called acts :=
  flatMap_append_turns (fun t => by cases t <;> rfl) acts ts

theorem Reads.append_turns (h : Reads acts) (ts : List Turn) : Reads (acts ++ ts.map Turn.act) := by
  intro r hr
  rcases List.mem_append.mp hr with hr | hr
  · exact h r hr
  · obtain ⟨t, -, ht⟩ := List.mem_map.mp hr
    cases t with
    | readyRead => exact (Act.readyRead.inj ht).symm
    | run => cases ht

/-- At every moment the file, with what waits for the thread of the writer, is a log of the messages that the application
    calls with and of the datagrams that come to the server, each in their order, but for those that are still in the socket
    and for empty ones. When nothing more comes, and the logger is not stopped, so many turns of the server and so many turns
    of the thread behind them complete the file. -/
theorem log_complete (h : Reads acts) :
    (∃ log, file (events acts) ++ (after acts).waiting = log.map Prod.snd ∧
      ofCaller .server log ++ contents (after acts).pending = contents (arrived acts) ∧
      ofCaller .application log = called acts) ∧
    (.deinit ∉ acts → ∀ ts ts' : List Turn, (arrived acts).length ≤ ts.count .readyRead →
      (arrived acts).length + (called acts).length + 4 ≤ ts'.count .run →
      ∃ log, file (events (acts ++ ts.map Turn.act ++ ts'.map Turn.act)) = log.map Prod.snd ∧
        ofCaller .server log = contents (arrived acts) ∧ ofCaller .application log = called acts) := by
  refine ⟨⟨_, file_append_waiting acts, server_append_pending h, application_eq acts⟩, fun hstop ts ts' hts hts' => ?_⟩
  have hread : (after (acts ++ ts.map Turn.act)).pending = [] := by
    rw [after_append_turns]
    exact pending_of_turns (Nat.le_trans (length_pending_le acts) hts)
  have hlive : (after (acts ++ ts.map Turn.act)).writer.Live := by
    refine live_after fun hmem => ?_
    rcases List.mem_append.mp hmem with hmem | hmem
    · exact hstop hmem
    · obtain ⟨t, -, ht⟩ := List.mem_map.mp hmem
      cases t <;> cases ht
  have hwaiting := length_waiting_le (h.append_turns ts)
  rw [arrived_append_turns, called_append_turns] at hwaiting
  have hwritten : (after (acts ++ ts.map Turn.act ++ ts'.map Turn.act)).waiting = [] := by
    rw [after_append_turns]
    exact waiting_of_turns hread hlive (by omega)
  have hnone : (after (acts ++ ts.map Turn.act ++ ts'.map Turn.act)).pending = [] := by
    rw [after_append_turns]
    exact pending_of_turns (by rw [hread]; exact Nat.zero_le _)
  have hfile := file_append_waiting (acts ++ ts.map Turn.act ++ ts'.map Turn.act)
  have hserver := server_append_pending ((h.append_turns ts).append_turns ts')
  have happlication := application_eq (acts ++ ts.map Turn.act ++ ts'.map Turn.act)
  rw [hwritten, List.append_nil] at hfile
  rw [hnone, arrived_append_turns, arrived_append_turns] at hserver
  rw [called_append_turns, called_append_turns] at happlication
  exact ⟨_, hfile, (List.append_nil _).symm.trans hserver, happlication⟩

/-- A message of a plugin, and one of the application. -/
theorem log_complete_two : ∃ log, file (events ([.receive ⟨[1], by decide⟩, .logMessage [2]] ++ [Turn.readyRead].map Turn.act ++
    (List.replicate 6 Turn.run).map Turn.act)) = log.map Prod.snd ∧ ofCaller .server log = [[1]] ∧
      ofCaller .application log = [[2]] := by
  refine (log_complete fun r hr => ?_).2 (by simp) [.readyRead] (List.replicate 6 .run) (by decide) (by decide)
  simp at hr

end Runs
end Log
end Recd2
