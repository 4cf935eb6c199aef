import Recd2.TcpSession
import Recd2.Theorems.Records
import Recd2.Theorems.Shutdown

/-! Recording over TCP. The blocks that the TCP writer builds have a zero signal byte, on which `record` closes the
    file of a slot and never opens one. So a TCP session records nothing, whatever comes over the connection and
    in whatever order the threads take their steps. -/

namespace Recd2

/-! ### Lists of silent blocks -/

namespace Recorder
variable {env : Env} {r r' : Recorder} {sd : QList}

/-- Every slot is closed. -/
def Closed (r : Recorder) : Prop := ∀ i, ∀ w ∈ r.wav? i, w.isOpened = false

/-- No block of the list has a signal. -/
def Silent (sd : QList) : Prop := ∀ b ∈ sd, b.signal = 0

theorem closeWav_of_closed {i : Nat} {w : Wav} (hw : r.wavs[i]? = some (some w)) (hclosed : w.isOpened = false) :
    closeWav i w r = r := by
  have hclose : w.close r.disk = (r.disk, w) := by rw [Wav.close, hclosed, if_neg Bool.false_ne_true]
  have hset : r.wavs.setIfInBounds i (some w) = r.wavs := by
    ext1 j hj
    rw [Vector.getElem_setIfInBounds]
    split
    · rename_i heq
      subst heq
      rw [Vector.getElem?_eq_getElem hj] at hw
      exact (Option.some.inj hw).symm
    · rfl
  simp only [closeWav, hclose, setWav, hset]

theorem recordBlock_silent (h : r.Closed) {i : Nat} {s : SampleData} (hs : s.signal = 0)
    (hr : recordBlock env i s r = some r') : r' = r := by
  cases hw : r.wavs[i]? with
  | none =>
    rw [recordBlock, hw] at hr
    cases hr
  | some slot =>
    cases slot with
    | none =>
      simp only [recordBlock, hw, hs, if_true] at hr
      exact (Option.some.inj hr).symm
    | some w =>
      have hwav : r.wav? i = some w := by rw [wav?, hw]; rfl
      simp only [recordBlock, hw, hs, if_true, closeWav_of_closed hw (h i w hwav)] at hr
      exact (Option.some.inj hr).symm

theorem recordFrom_silent (h : r.Closed) {i : Nat} (hs : Silent sd) (hr : recordFrom env i sd r = some r') : r' = r := by
  induction sd generalizing i with
  | nil => exact (Option.some.inj hr).symm
  | cons s sd ih =>
    obtain ⟨r₁, hblock, hrest⟩ := Option.bind_eq_some_iff.mp hr
    have heq := recordBlock_silent h (hs s List.mem_cons_self) hblock
    rw [heq] at hrest
    exact ih (fun b hb => hs b (List.mem_cons_of_mem s hb)) hrest

theorem pollHotSwap_of_closed (h : r.Closed) : pollHotSwap env r = r :=
  Run.foldl_range (P := fun _ s => s = r) rfl fun i s _ hs => by
    subst hs
    rcases pollSlot_swaps env s i with heq | ⟨w, hw, hopen, -⟩
    · exact heq
    · rw [h i w hw] at hopen
      cases hopen

/-- A list of silent blocks leaves a recorder with closed slots as it is. -/
theorem record_silent (h : r.Closed) (hs : Silent sd) (hr : record env sd r = some r') : r' = r := by
  rw [record, pollHotSwap_of_closed h, ite_self] at hr
  split at hr
  · exact (Option.some.inj hr).symm
  · exact recordFrom_silent h hs hr

theorem closed_init (env : Env) (cfg : RecorderConfig) : (init env cfg new).Closed := (fresh_init env cfg).1.closed

end Recorder

/-! ### The lists of the TCP writer -/

namespace TcpServer

theorem Writer.silent_blocks (t : FrameData) (smplPerChan : UInt32) (max rounds i : Nat) :
    Recorder.Silent (Writer.blocks t smplPerChan max rounds i) := by
  induction rounds generalizing i with
  | zero => exact fun b hb => by cases hb
  | succ rounds ih =>
    rw [Writer.blocks]
    split
    · intro b hb
      rcases List.mem_cons.mp hb with rfl | hb
      · rfl
      · exact ih _ b hb
    · exact fun b hb => by cases hb

theorem Writer.silent_worker (s : Server) (t : FrameData) : Recorder.Silent (Writer.worker s t) := by
  intro b hb
  obtain ⟨c, hc, rfl⟩ := List.mem_map.mp hb
  exact silent_blocks _ _ _ _ _ c hc

theorem Writer.silent_putData (th : Threads) : ∀ ls ∈ TcpSession.putDataLists (Writer.putData th).2, Recorder.Silent ls := by
  rw [Writer.putData]
  split
  · intro ls hls
    rw [show ls = _ from List.mem_singleton.mp hls]
    exact Writer.silent_worker _ _
  · exact fun ls hls => by cases hls

end TcpServer

/-! ### Sessions -/

namespace TcpSession
open RecorderThread Recorder
variable {env : Env} {r : Recorder}

/-- The recorder is untouched, and no list on its way to it can change that. -/
structure Untouched (r : Recorder) (t : RecorderThread) : Prop where
  recorder : t.recorder = r
  buffer : ∀ ls ∈ t.buffer, Silent ls
  dblBuff : ∀ ls ∈ t.dblBuff, Silent ls

theorem Untouched.run {t : RecorderThread} (hr : r.Closed) (h : Untouched r t) :
    Untouched r (t.run env).1 ∧ ∀ c ∈ (t.run env).2, Silent c.sd := by
  have hnil : ∀ c ∈ ([] : List RecordCall), Silent c.sd := fun c hc => by cases hc
  cases hat : t.runAt with
  | drain =>
    rw [run_drain hat]
    refine ⟨⟨h.recorder, (fun ls hls => by cases hls), fun ls hls => ?_⟩, hnil⟩
    rcases List.mem_append.mp hls with hls | hls
    · exact h.dblBuff ls hls
    · exact h.buffer ls hls
  | record i =>
    cases hsd : t.dblBuff[i]? with
    | none =>
      rw [run_clear hat hsd]
      exact ⟨⟨h.recorder, h.buffer, fun ls hls => by cases hls⟩, hnil⟩
    | some sd =>
      have hsilent : Silent sd := h.dblBuff sd (List.mem_of_getElem? hsd)
      obtain ⟨hcall, hstate⟩ := run_record env hat hsd
      rw [hcall]
      refine ⟨?_, fun c hc => by rw [List.mem_singleton.mp hc]; exact hsilent⟩
      rcases hstate with ⟨-, hstate⟩ | ⟨r', hr', hstate⟩
      · rw [hstate]
        exact ⟨h.recorder, h.buffer, h.dblBuff⟩
      · rw [h.recorder] at hr'
        rw [hstate, record_silent hr hsilent hr']
        exact ⟨rfl, h.buffer, h.dblBuff⟩
  | test =>
    rw [run_test hat]
    exact ⟨⟨h.recorder, h.buffer, h.dblBuff⟩, hnil⟩
  | returned =>
    rw [run_returned hat]
    exact ⟨h, hnil⟩
  | crashed i =>
    rw [run_crashed hat]
    exact ⟨h, hnil⟩

theorem Untouched.putData {t : RecorderThread} (h : Untouched r t) {lss : List QList} (hs : ∀ ls ∈ lss, Silent ls) :
    Untouched r (lss.foldl (fun t ls => (t.putData (some ls)).1) t) := by
  induction lss generalizing t with
  | nil => exact h
  | cons ls lss ih =>
    refine ih ⟨h.recorder, fun l hl => ?_, h.dblBuff⟩ fun l hl => hs l (List.mem_cons_of_mem ls hl)
    rcases List.mem_append.mp hl with hl | hl
    · exact h.buffer l hl
    · rw [List.mem_singleton.mp hl]
      exact hs ls List.mem_cons_self

theorem step_untouched (env : Env) (hr : r.Closed) {s : TcpSession} (h : Untouched r s.thread) (act : Act) :
    Untouched r (step env s act).1.thread ∧ ∀ c ∈ (step env s act).2, Silent c.sd := by
  have hnil : ∀ c ∈ ([] : List RecordCall), Silent c.sd := fun c hc => by cases hc
  cases act with
  | receive r => exact ⟨h, hnil⟩
  | writerRead => exact ⟨h, hnil⟩
  | writerPut => exact ⟨h.putData (TcpServer.Writer.silent_putData s.threads), hnil⟩
  | run => exact h.run hr

/-- Over TCP nothing is recorded: whatever the reads return, and whatever the order of the steps, the recorder stays as
    `init` left it, without a file, and each list that it gets is silent. -/
theorem nothing_recorded (env : Env) (cfg : RecorderConfig) (selectResult : Int32) (threads : TcpServer.Threads)
    (acts : List Act) :
    (Run.state (step env) (start selectResult threads (Recorder.init env cfg .new)) acts).thread.recorder =
        Recorder.init env cfg .new ∧
      (Recorder.init env cfg .new).disk = [] ∧
      ∀ c ∈ Run.emits (step env) (start selectResult threads (Recorder.init env cfg .new)) acts, Silent c.sd := by
  have hr := closed_init env cfg
  have hstart : Untouched (Recorder.init env cfg .new)
      (start selectResult threads (Recorder.init env cfg .new)).thread :=
    ⟨rfl, fun ls hls => (by cases hls), fun ls hls => by cases hls⟩
  generalize start selectResult threads (Recorder.init env cfg .new) = s at hstart ⊢
  refine ⟨?_, (fresh_init env cfg).1.disk, ?_⟩
  · exact (Run.state_keeps (I := fun (s : TcpSession) => Untouched _ s.thread) (fun s act hs => (step_untouched env hr hs act).1) hstart
      acts).recorder
  · induction acts generalizing s with
    | nil => exact fun c hc => by cases hc
    | cons act acts ih =>
      obtain ⟨hnext, hcalls⟩ := step_untouched env hr hstart act
      intro c hc
      rcases List.mem_append.mp hc with hc | hc
      · exact hcalls c hc
      · exact ih _ hnext c hc

end TcpSession
end Recd2
