import Recd2.Tcp
import Recd2.Theorems.Ring
import Mathlib.Data.List.Induction

/-! Delivery over TCP. The frames whose counter is the successor of the one before go into the ring buffer, the
    others only synchronise the server's counter. While the writer keeps up with the buffer, it turns the frames
    of the buffer into lists one after the other, and the frame behind its pointer is not overwritten. -/

namespace Recd2.TcpServer

/-- The frame that an input brings. -/
def Input.frame? : Input → Option FrameData
  | .frame f => some f
  | _ => none

/-- The frames received on the connection. -/
def received (is : List Input) : List FrameData := is.filterMap Input.frame?

/-- The frame that a handed-over list was made of. -/
def Event.frame? : Event → Option FrameData
  | .putData f _ => some f
  | .missed _ => none

/-- The frames that are turned into lists. -/
def turned (es : List Event) : List FrameData := es.filterMap Event.frame?

/-- The frames whose counter is the successor of the one before, the first one's being `p`. -/
def inSequence : UInt32 → List FrameData → List FrameData
  | _, [] => []
  | p, f :: fs => if f.counter = p + 1 then f :: inSequence f.counter fs else inSequence f.counter fs

/-- The counter behind the frames, `p` without any. -/
def lastCounter (p : UInt32) (fs : List FrameData) : UInt32 := (fs.map (·.counter)).getLastD p

theorem inSequence_snoc (p : UInt32) (fs : List FrameData) (f : FrameData) :
    inSequence p (fs ++ [f]) = inSequence p fs ++ if f.counter = lastCounter p fs + 1 then [f] else [] := by
  induction fs generalizing p with
  | nil => rfl
  | cons g fs ih =>
    have hlast : lastCounter p (g :: fs) = lastCounter g.counter fs := by
      rw [lastCounter, List.map_cons, List.getLastD_cons, lastCounter]
    rw [List.cons_append, inSequence, inSequence, ih, hlast]
    split <;> rfl

theorem lastCounter_snoc (p : UInt32) (fs : List FrameData) (f : FrameData) : lastCounter p (fs ++ [f]) = f.counter := by
  simp [lastCounter]

theorem received_snoc (is : List Input) (i : Input) : received (is ++ [i]) = received is ++ i.frame?.toList := by
  rw [received, List.filterMap_append]
  cases i <;> rfl

theorem turned_append (es es' : List Event) : turned (es ++ es') = turned es ++ turned es' := List.filterMap_append

/-! ### One step -/

/-- How many frames the writer has read: those turned into lists, and the one behind its pointer. -/
def taken (th : Threads) (sent : List FrameData) : Nat := sent.length + th.t.toList.length

/-- The buffer tracks the frames `fs`, and the writer has turned the first ones, `sent`, into lists. -/
structure Stage (th : Threads) (fs sent : List FrameData) : Prop where
  tracks : th.buffer.Tracks fs (taken th sent)
  le : taken th sent ≤ fs.length
  inOrder : sent <+: fs
  ptr : ∀ p ∈ th.t, p = sent.length % 512

section Step
variable {th : Threads} {fs sent : List FrameData}

theorem paketCounter_worker (th : Threads) (f : FrameData) : (worker th f).1.server.connInfo.paketCounter = f.counter := by
  rw [worker]
  split
  · rfl
  · rename_i h
    exact not_not.mp h

theorem turned_worker (th : Threads) (f : FrameData) : turned (worker th f).2 = [] := by
  rw [worker]
  split <;> rfl

theorem Stage.worker (h : Stage th fs sent) (f : FrameData) :
    Stage (worker th f).1 (fs ++ if f.counter = th.server.connInfo.paketCounter + 1 then [f] else []) sent := by
  by_cases hf : f.counter = th.server.connInfo.paketCounter + 1
  · rw [TcpServer.worker, if_neg (not_not_intro hf.symm), if_pos hf]
    refine ⟨h.tracks.write (by decide) f, ?_, h.inOrder.trans (List.prefix_append fs [f]), h.ptr⟩
    rw [List.length_append]
    exact Nat.le_add_right_of_le h.le
  · rw [TcpServer.worker, if_pos (Ne.symm hf), if_neg hf, List.append_nil]
    exact ⟨h.tracks, h.le, h.inOrder, h.ptr⟩

theorem Stage.read (h : Stage th fs sent) (hcap : fs.length ≤ taken th sent + 511) : Stage (Writer.read th) fs sent := by
  rw [Writer.read]
  cases ht : th.t with
  | some p => exact h
  | none =>
    have htaken : taken th sent = sent.length := by rw [taken, ht]; rfl
    have htracks := h.tracks
    rw [htaken] at htracks hcap
    by_cases hall : sent.length = fs.length
    · rw [htracks.read_of_le (by omega) hall]
      refine ⟨?_, ?_, h.inOrder, fun p hp => by cases hp⟩
      · exact htracks
      · exact hall.le
    · have hlt : sent.length < fs.length := Nat.lt_of_le_of_ne h.inOrder.length_le hall
      obtain ⟨hptr, hnext⟩ := htracks.read_of_lt (by omega) hlt
      rw [hptr]
      refine ⟨hnext, hlt, h.inOrder, fun p hp => ?_⟩
      exact (Option.some.inj hp).symm

theorem Stage.putData (h : Stage th fs sent) (hcap : fs.length ≤ taken th sent + 511) :
    Stage (Writer.putData th).1 fs (sent ++ turned (Writer.putData th).2) := by
  rw [Writer.putData]
  cases ht : th.t with
  | none =>
    rw [Option.bind_none]
    show Stage th fs (sent ++ [])
    rwa [List.append_nil]
  | some p =>
    have htaken : taken th sent = sent.length + 1 := by rw [taken, ht]; rfl
    have htracks := h.tracks
    have hle := h.le
    rw [htaken] at htracks hcap hle
    -- The frame behind the pointer is still there: less than a round of frames was written behind it.
    have hderef : th.buffer.deref p = some fs[sent.length] := by
      rw [h.ptr p ht]
      exact htracks.deref hle (by omega)
    have hnew : (sent ++ [fs[sent.length]]).length = sent.length + 1 := by simp
    rw [Option.bind_some, hderef]
    refine ⟨?_, ?_, ?_, fun q hq => by cases hq⟩
    · show th.buffer.Tracks fs ((sent ++ [fs[sent.length]]).length + 0)
      rwa [hnew]
    · show (sent ++ [fs[sent.length]]).length + 0 ≤ fs.length
      rwa [hnew]
    · show sent ++ [fs[sent.length]] <+: fs
      have htake : fs.take (sent.length + 1) = sent ++ [fs[sent.length]] := by
        rw [← List.take_append_getElem hle, ← List.prefix_iff_eq_take.mp h.inOrder]
      rw [← htake]
      exact List.take_prefix _ fs

end Step

/-! ### Runs -/

theorem server_read (th : Threads) : (Writer.read th).server = th.server := by
  rw [Writer.read]
  split <;> rfl

theorem server_putData (th : Threads) : (Writer.putData th).1.server = th.server := by
  rw [Writer.putData]
  split <;> rfl

theorem paketCounter_state (th : Threads) (is : List Input) :
    (Run.state step th is).server.connInfo.paketCounter = lastCounter th.server.connInfo.paketCounter (received is) := by
  induction is using List.reverseRecOn with
  | nil => rfl
  | append_singleton is i ih =>
    rw [Run.state_snoc, received_snoc]
    cases i with
    | frame f =>
      show (worker _ f).1.server.connInfo.paketCounter = lastCounter _ (received is ++ [f])
      rw [paketCounter_worker, lastCounter_snoc]
    | read =>
      show (Writer.read _).server.connInfo.paketCounter = lastCounter _ (received is ++ [])
      rw [server_read, ih, List.append_nil]
    | putData =>
      show (Writer.putData _).1.server.connInfo.paketCounter = lastCounter _ (received is ++ [])
      rw [server_putData, ih, List.append_nil]

/-- The writer keeps up with the buffer: at no time more than 511 of its frames are unread. -/
def KeepsUp (th : Threads) (is : List Input) : Prop :=
  ∀ k, (inSequence th.server.connInfo.paketCounter (received (is.take k))).length ≤
    taken (Run.state step th (is.take k)) (turned (Run.emits step th (is.take k))) + 511

theorem KeepsUp.of_snoc {th : Threads} {is : List Input} {i : Input} (h : KeepsUp th (is ++ [i])) : KeepsUp th is := by
  intro k
  rcases Nat.le_total k is.length with hk | hk
  · have hkth := h k
    rwa [List.take_append_of_le_length hk] at hkth
  · have hall := h is.length
    rwa [List.take_left, ← List.take_of_length_le hk] at hall

theorem stage_of_keepsUp {th : Threads} {is : List Input} (hstart : Stage th [] []) (hkeeps : KeepsUp th is) :
    Stage (Run.state step th is) (inSequence th.server.connInfo.paketCounter (received is))
      (turned (Run.emits step th is)) := by
  induction is using List.reverseRecOn with
  | nil => exact hstart
  | append_singleton is i ih =>
    have hstage := ih hkeeps.of_snoc
    have hcap := hkeeps is.length
    rw [List.take_left] at hcap
    rw [Run.state_snoc, Run.emits_snoc, turned_append, received_snoc]
    cases i with
    | frame f =>
      have hframe := hstage.worker f
      rw [paketCounter_state, ← inSequence_snoc] at hframe
      show Stage (worker _ f).1 _ (_ ++ turned (worker _ f).2)
      rw [turned_worker, List.append_nil]
      exact hframe
    | read =>
      show Stage (Writer.read _) (inSequence _ (received is ++ [])) (_ ++ [])
      rw [List.append_nil, List.append_nil]
      exact hstage.read hcap
    | putData =>
      show Stage (Writer.putData _).1 (inSequence _ (received is ++ [])) _
      rw [List.append_nil]
      exact hstage.putData hcap

/-- The transport before the first frame of a connection: the buffer is initialised, and the writer has no
    pointer. The server's counter is any number. -/
def Threads.start (s : Server) (cells : Vector FrameData 512) : Threads := ⟨s, RingBuffer.init ⟨0, 0, cells⟩, none⟩

theorem stage_start (s : Server) (cells : Vector FrameData 512) : Stage (.start s cells) [] [] :=
  ⟨.init _, Nat.le_refl 0, List.prefix_refl [], fun _ h => by cases h⟩

/-- At every moment of a run in which the writer keeps up, the frames turned into lists are the first ones of the
    frames in sequence: none of these is skipped, repeated or moved. -/
theorem delivered_in_order (s : Server) (cells : Vector FrameData 512) (is : List Input)
    (hkeeps : KeepsUp (.start s cells) is) :
    turned (Run.emits step (.start s cells) is) <+: inSequence s.connInfo.paketCounter (received is) :=
  (stage_of_keepsUp (stage_start s cells) hkeeps).inOrder

/-! ### What the bound is for -/

theorem t_worker (th : Threads) (f : FrameData) : (worker th f).1.t = th.t := by
  rw [worker]
  split <;> rfl

/-- Frames that come while the writer does nothing. -/
theorem stage_frames (fs : List FrameData) {th : Threads} {gs sent : List FrameData} (h : Stage th gs sent) :
    Stage (Run.state step th (fs.map .frame)) (gs ++ inSequence th.server.connInfo.paketCounter fs) sent ∧
      turned (Run.emits step th (fs.map .frame)) = [] ∧ (Run.state step th (fs.map .frame)).t = th.t := by
  induction fs generalizing th gs with
  | nil =>
    refine ⟨?_, rfl, rfl⟩
    rwa [inSequence, List.append_nil]
  | cons f fs ih =>
    obtain ⟨hstage, hturned, ht⟩ := ih (h.worker f)
    rw [paketCounter_worker, List.append_assoc] at hstage
    rw [List.map_cons, Run.state_cons, Run.emits_cons, turned_append]
    refine ⟨?_, ?_, ht.trans (t_worker th f)⟩
    · rw [inSequence]
      by_cases hf : f.counter = th.server.connInfo.paketCounter + 1
      · rw [if_pos hf] at hstage ⊢
        exact hstage
      · rw [if_neg hf] at hstage ⊢
        exact hstage
    · exact (congrArg (turned (worker th f).2 ++ ·) hturned).trans (by rw [turned_worker, List.append_nil])

/-- One frame more than the cells: of 513 unread frames in sequence, the writer turns the last one into a list, and
    the others are lost. -/
theorem turned_overrun (s : Server) (cells : Vector FrameData 512) (fs : List FrameData) (hlen : fs.length = 513)
    (hseq : inSequence s.connInfo.paketCounter fs = fs) :
    turned (Run.emits step (.start s cells) (fs.map .frame ++ [.read, .putData, .read, .putData])) = [fs[512]] := by
  obtain ⟨hstage, hnone, ht⟩ := stage_frames fs (stage_start s cells)
  have hfs : [] ++ inSequence (Threads.start s cells).server.connInfo.paketCounter fs = fs := hseq
  rw [hfs] at hstage
  rw [Run.emits_append, turned_append, hnone, List.nil_append]
  generalize Run.state step (Threads.start s cells) (fs.map .frame) = th at *
  have htaken : taken th [] = 0 := by rw [taken, ht]; rfl
  have htracks := hstage.tracks
  rw [htaken] at htracks
  -- The heads are apart by one cell, which holds the last frame.
  have hrHead : th.buffer.rHead = 0 := htracks.rHead
  have hwHead : th.buffer.wHead = 1 := by rw [htracks.wHead, hlen]
  have hderef : th.buffer.deref 0 = some fs[512] := htracks.deref (k := 512) (by omega) (by omega)
  obtain ⟨server, ⟨rHead, wHead, cells'⟩, t⟩ := th
  obtain rfl : t = none := ht
  obtain rfl : rHead = 0 := hrHead
  obtain rfl : wHead = 1 := hwHead
  have hread : Writer.read ⟨server, ⟨0, 1, cells'⟩, none⟩ = ⟨server, ⟨1, 1, cells'⟩, some 0⟩ := rfl
  have hput : Writer.putData ⟨server, ⟨1, 1, cells'⟩, some 0⟩ =
      (⟨server, ⟨1, 1, cells'⟩, none⟩, [.putData fs[512] (Writer.worker server fs[512])]) := by
    have hcell : RingBuffer.deref ⟨1, 1, cells'⟩ 0 = some fs[512] := hderef
    rw [Writer.putData, Option.bind_some, hcell]
  have hdone : Writer.read ⟨server, ⟨1, 1, cells'⟩, none⟩ = ⟨server, ⟨1, 1, cells'⟩, none⟩ := rfl
  simp only [Run.emits_cons, Run.emits_nil, step, hread, hput, hdone]
  rfl

/-- The cells of the ring at the start. -/
def silentCells : Vector FrameData 512 := .replicate 512 (.silent 0)

/-- Frame 5 only synchronises the counter, and frame 6 is turned into a list. -/
def fiveAndSix : List Input := [.frame (.silent 5), .frame (.silent 6), .read, .putData]

theorem delivered_in_order_fiveAndSix :
    turned (Run.emits step (.start .new silentCells) fiveAndSix) <+:
      inSequence Server.new.connInfo.paketCounter (received fiveAndSix) :=
  delivered_in_order .new silentCells fiveAndSix fun k => by
    have hfew : ∀ j ≤ 4, (inSequence 0 (received (fiveAndSix.take j))).length ≤ 1 := by decide
    rcases Nat.le_total k 4 with hk | hk
    · exact Nat.le_trans (hfew k hk) (by omega)
    · rw [List.take_of_length_le (show fiveAndSix.length ≤ k from hk)]
      exact Nat.le_trans (hfew 4 (Nat.le_refl 4)) (by omega)

theorem delivered_counterexample :
    ¬∀ (s : Server) (cells : Vector FrameData 512) (is : List Input),
      turned (Run.emits step (.start s cells) is) <+: received is := by
  intro h
  have hcounters := (h .new silentCells fiveAndSix).map (·.counter)
  revert hcounters
  decide +kernel

end Recd2.TcpServer
