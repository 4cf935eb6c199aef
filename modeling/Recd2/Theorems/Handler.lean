import Recd2.Udp

/-! What the datagram handler does, once for each branch: only datagrams of the size of a frame change the
    server, and such a frame changes the counters by `ConnInfo.receive` and sends `Server.sends`. Runs of the
    handler over the pending datagrams follow from that. -/

namespace Recd2

/-! ### Frames -/

/-- The frame of a datagram that has the size of one. -/
def frame? (d : Datagram) : Option FrameData :=
  if d.length = sizeofFrameData then some (FrameData.ofBytes d) else none

/-- The frames among the datagrams, in their order. -/
def frames (ds : List Datagram) : List FrameData := ds.filterMap frame?

theorem frames_cons_some {d : Datagram} {f : FrameData} (h : frame? d = some f) (ds : List Datagram) :
    frames (d :: ds) = f :: frames ds := List.filterMap_cons_some h

theorem frames_cons_none {d : Datagram} (h : frame? d = none) (ds : List Datagram) : frames (d :: ds) = frames ds :=
  List.filterMap_cons_none h

theorem frames_append (ds es : List Datagram) : frames (ds ++ es) = frames ds ++ frames es :=
  List.filterMap_append

theorem frames_map_toBytes (fs : List FrameData) : frames (fs.map FrameData.toBytes) = fs := by
  induction fs with
  | nil => rfl
  | cons f fs ih =>
    have hf : frame? f.toBytes = some f := by rw [frame?, if_pos f.length_toBytes, f.ofBytes_toBytes]
    rw [List.map_cons, frames_cons_some hf, ih]

/-! ### Counters -/

namespace ConnInfo
variable (c : ConnInfo) (k : UInt32)

theorem receive_next (h : k = c.paketCounter + 1) : c.receive k = { c with paketCounter := c.paketCounter + 1 } := by
  simp [receive, h]

theorem receive_desynch (h : k ≠ c.paketCounter + 1) :
    c.receive k = ⟨k, c.desynchCounter + 1, c.totalLost + (c.errs k).toUInt32, true⟩ := by
  simp [receive, h]

@[simp] theorem paketCounter_receive : (c.receive k).paketCounter = k := by
  by_cases h : k = c.paketCounter + 1
  · rw [receive_next c k h, h]
  · rw [receive_desynch c k h]

/-- The loss goes through a signed number, and is what the counter jumps over modulo 2^32. -/
theorem totalLost_receive : (c.receive k).totalLost = c.totalLost + (k - (c.paketCounter + 1)) := by
  by_cases h : k = c.paketCounter + 1
  · rw [receive_next c k h, h, UInt32.sub_self, UInt32.add_zero]
  · rw [receive_desynch c k h]
    rfl

theorem desynchCounter_receive :
    (c.receive k).desynchCounter = c.desynchCounter + if k ≠ c.paketCounter + 1 then 1 else 0 := by
  by_cases h : k = c.paketCounter + 1
  · rw [receive_next c k h, if_neg (not_not_intro h), UInt32.add_zero]
  · rw [receive_desynch c k h, if_pos h]

theorem onetimeSynch_receive : (c.receive k).onetimeSynch = (c.onetimeSynch || k != c.paketCounter + 1) := by
  by_cases h : k = c.paketCounter + 1
  · rw [receive_next c k h]
    simp [h]
  · rw [receive_desynch c k h]
    simp [h]

/-- The counters behind the frames. -/
def receives (fs : List FrameData) : ConnInfo := fs.foldl (fun c f => c.receive f.counter) c

@[simp] theorem receives_nil : c.receives [] = c := rfl

@[simp] theorem receives_cons (f : FrameData) (fs : List FrameData) :
    c.receives (f :: fs) = (c.receive f.counter).receives fs := rfl

theorem receives_append (fs gs : List FrameData) : c.receives (fs ++ gs) = (c.receives fs).receives gs :=
  List.foldl_append

theorem receives_snoc (fs : List FrameData) (f : FrameData) :
    c.receives (fs ++ [f]) = (c.receives fs).receive f.counter := receives_append c fs [f]

end ConnInfo

/-! ### One frame -/

namespace Server
variable {next : Next} (s : Server)

/-- The lists a frame makes the handler send: the list of its samples when it is the next one, and filler
    lists otherwise. -/
def sends (next : Next) (s : Server) (udp : FrameData) : List QList :=
  if udp.counter ≠ s.connInfo.paketCounter + 1 then s.errLists next udp else [s.frameList udp]

@[simp] theorem putDataCalls_append (es fs : List Event) :
    putDataCalls (es ++ fs) = putDataCalls es ++ putDataCalls fs := List.filterMap_append

theorem putDataCalls_map_putData (lss : List QList) : putDataCalls (lss.map .putData) = lss := by
  induction lss with
  | nil => rfl
  | cons ls lss ih => exact congrArg (ls :: ·) ih

theorem putDataCalls_handleFrame (f : FrameData) : putDataCalls (handleFrame next s f).2 = s.sends next f := by
  by_cases h : f.counter = s.connInfo.paketCounter + 1
  · simp [handleFrame, sends, h, putDataCalls, Event.list?]
  · simp only [handleFrame, sends, h, ne_eq, not_false_eq_true, if_true]
    exact putDataCalls_map_putData _

/-- The server behind the frames: the counters move on, and the helper's buffer grows while the peek is on. -/
def after (fs : List FrameData) : Server :=
  { s with
    helperBuffer := if s.peekOptions.peekOnOff then s.helperBuffer ++ fs else s.helperBuffer
    connInfo := s.connInfo.receives fs }

@[simp] theorem after_nil : s.after [] = s := by simp [after]

theorem after_cons (f : FrameData) (fs : List FrameData) : s.after (f :: fs) = (s.after [f]).after fs := by
  cases hp : s.peekOptions.peekOnOff <;> simp [after, hp]

theorem handleFrame_fst (f : FrameData) : (handleFrame next s f).1 = s.after [f] := rfl

/-! ### All pending datagrams -/

theorem handleDatagram_of_frame {d : Datagram} {f : FrameData} (h : frame? d = some f) :
    handleDatagram next s d = handleFrame next s f := by
  unfold frame? at h
  unfold handleDatagram
  split at h
  · rename_i hd
    rw [if_pos hd, Option.some.inj h]
  · cases h

theorem handleDatagram_of_not_frame {d : Datagram} (h : frame? d = none) :
    handleDatagram next s d = (s, [.sendMessage .missedUdp]) := by
  unfold frame? at h
  unfold handleDatagram
  split at h
  · cases h
  · rename_i hd
    exact if_neg hd

theorem state_handleDatagram (ds : List Datagram) :
    Run.state (handleDatagram next) s ds = s.after (frames ds) := by
  induction ds generalizing s with
  | nil => exact (after_nil s).symm
  | cons d ds ih =>
    rw [Run.state_cons, ih]
    cases hd : frame? d with
    | none => rw [handleDatagram_of_not_frame s hd, frames_cons_none hd]
    | some f => rw [handleDatagram_of_frame s hd, handleFrame_fst, frames_cons_some hd, ← after_cons]

/-- The lists that go to `put_data` for the frames, in their order. -/
def calls (next : Next) (s : Server) : List FrameData → List QList
  | [] => []
  | f :: fs => s.sends next f ++ calls next (s.after [f]) fs

theorem calls_append (fs gs : List FrameData) :
    s.calls next (fs ++ gs) = s.calls next fs ++ (s.after fs).calls next gs := by
  induction fs generalizing s with
  | nil => rw [after_nil]; rfl
  | cons f fs ih => rw [List.cons_append, calls, calls, ih, List.append_assoc, ← after_cons]

theorem calls_snoc (fs : List FrameData) (f : FrameData) :
    s.calls next (fs ++ [f]) = s.calls next fs ++ (s.after fs).sends next f := by
  rw [calls_append, calls, calls, List.append_nil]

theorem calls_monitorData (m : List Char) (fs : List FrameData) :
    calls next { s with monitorData := m } fs = s.calls next fs := by
  induction fs generalizing s with
  | nil => rfl
  | cons f fs ih => exact congrArg (s.sends next f ++ ·) (ih (s.after [f]))

theorem putDataCalls_handleDatagram (ds : List Datagram) :
    putDataCalls (Run.emits (handleDatagram next) s ds) = s.calls next (frames ds) := by
  induction ds generalizing s with
  | nil => rfl
  | cons d ds ih =>
    rw [Run.emits_cons, putDataCalls_append, ih]
    cases hd : frame? d with
    | none => rw [handleDatagram_of_not_frame s hd, frames_cons_none hd]; rfl
    | some f =>
      rw [handleDatagram_of_frame s hd, handleFrame_fst, putDataCalls_handleFrame, frames_cons_some hd, calls]

/-! ### Notifications -/

theorem readyReadUdp_cons {pending : List Datagram} (h : pending ≠ []) :
    s.readyReadUdp next pending =
      (Run.state (handleDatagram next) { s with monitorData := s.monitorData ++ ['.'] } pending,
        Run.emits (handleDatagram next) { s with monitorData := s.monitorData ++ ['.'] } pending) := if_pos h

/-- A notification with datagrams sends what their frames send, however they are grouped. -/
theorem putDataCalls_readyRead (s : Server) (groups : List (List Datagram)) (h : ∀ g ∈ groups, g ≠ []) :
    putDataCalls (Run.emits (step next) s (groups.map .readyRead)) = s.calls next (frames groups.flatten) := by
  induction groups generalizing s with
  | nil => rfl
  | cons g groups ih =>
    have hg := h g List.mem_cons_self
    rw [List.map_cons, Run.emits_cons, putDataCalls_append, ih _ fun g' hg' => h g' (List.mem_cons_of_mem g hg'),
      List.flatten_cons, frames_append, calls_append, step, readyReadUdp_cons s hg, putDataCalls_handleDatagram,
      state_handleDatagram, calls_monitorData]
    exact congrArg (s.calls next (frames g) ++ ·) (calls_monitorData (s.after (frames g)) _ _)

end Server
end Recd2
