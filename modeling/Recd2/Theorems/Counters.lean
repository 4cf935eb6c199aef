import Recd2.Theorems.Handler

/-! The counters of the connection over whole runs of the server, with datagrams of any size, empty
    notifications and timer ticks in any order. The frames handled since the last `disconnected` are the log
    of the run, and the counters are a function of it. -/

namespace Recd2

/-! ### Counters of a list of frames -/

/-- How many of the counters are not the successor of the one before, the first one's being `p`. -/
def outOfSequence : UInt32 → List UInt32 → Nat
  | _, [] => 0
  | p, c :: cs => (if c ≠ p + 1 then 1 else 0) + outOfSequence c cs

namespace ConnInfo

theorem paketCounter_receives (c : ConnInfo) (fs : List FrameData) :
    (c.receives fs).paketCounter = (fs.map (·.counter)).getLastD c.paketCounter := by
  induction fs generalizing c with
  | nil => rfl
  | cons f fs ih => rw [receives_cons, ih, paketCounter_receive, List.map_cons, List.getLastD_cons]

theorem paketCounter_eq_totalLost (c : ConnInfo) (fs : List FrameData) (n : UInt32)
    (h : c.paketCounter = c.totalLost + n) :
    (c.receives fs).paketCounter = (c.receives fs).totalLost + (n + UInt32.ofNat fs.length) := by
  induction fs generalizing c n with
  | nil => simpa using h
  | cons f fs ih =>
    have hstep : (c.receive f.counter).paketCounter = (c.receive f.counter).totalLost + (n + 1) := by
      rw [paketCounter_receive, totalLost_receive, h]
      grind
    rw [receives_cons, ih _ _ hstep, List.length_cons, UInt32.ofNat_add]
    grind

theorem desynchCounter_receives (c : ConnInfo) (fs : List FrameData) :
    (c.receives fs).desynchCounter =
      c.desynchCounter + UInt32.ofNat (outOfSequence c.paketCounter (fs.map (·.counter))) := by
  induction fs generalizing c with
  | nil => simp [outOfSequence]
  | cons f fs ih =>
    rw [receives_cons, ih, desynchCounter_receive, paketCounter_receive, List.map_cons, outOfSequence,
      UInt32.ofNat_add, UInt32.add_assoc]
    split <;> rfl

end ConnInfo

/-! ### Runs -/

namespace Server

/-- The frames among the pending datagrams; a tick of the timer has none. -/
def Input.frames : Input → List FrameData
  | .readyRead pending => Recd2.frames pending
  | .timeout => []

/-- The slot that the input calls runs `disconnected`. -/
def disconnects (s : Server) : Input → Bool
  | .readyRead pending => pending.isEmpty
  | .timeout => s.monitorData.isEmpty

theorem step_of_disconnects {next : Next} {s : Server} {i : Input} (h : s.disconnects i = true) :
    (s.step next i).1 = s.disconnected := by
  cases i with
  | readyRead pending =>
    obtain rfl := List.isEmpty_iff.mp h
    rfl
  | timeout => simp [step, checkConnection, show s.monitorData.isEmpty = true from h]

theorem connInfo_step {next : Next} {s : Server} {i : Input} (h : s.disconnects i = false) :
    (s.step next i).1.connInfo = s.connInfo.receives i.frames := by
  cases i with
  | readyRead pending =>
    have hne : pending ≠ [] := by
      rintro rfl
      cases h
    rw [step, readyReadUdp_cons s hne, state_handleDatagram]
    rfl
  | timeout =>
    rw [step, checkConnection, show s.monitorData.isEmpty = false from h]
    rfl

/-- A server with the frames it has handled since the last `disconnected`. -/
structure Logged where
  server : Server
  log : List FrameData

/-- A disconnect empties the log, any other step adds its frames. -/
def Logged.step (next : Next) (l : Logged) (i : Input) : Logged where
  server := (l.server.step next i).1
  log := if l.server.disconnects i then [] else l.log ++ i.frames

/-- The steps of a run, one after the other. -/
def Logged.run (next : Next) (l : Logged) (is : List Input) : Logged := is.foldl (Logged.step next) l

/-- The counters are those that the log leads to from a reset. -/
def Logged.Counted (l : Logged) : Prop := l.server.connInfo = ConnInfo.reset.receives l.log

theorem Logged.Counted.step {next : Next} {l : Logged} (h : l.Counted) (i : Input) :
    (l.step next i).Counted := by
  unfold Counted Logged.step
  cases hd : l.server.disconnects i with
  | true => rw [step_of_disconnects hd]; rfl
  | false =>
    rw [connInfo_step hd, show l.server.connInfo = _ from h, ← ConnInfo.receives_append]
    rfl

theorem Logged.Counted.run {next : Next} {l : Logged} (h : l.Counted) (is : List Input) :
    (l.run next is).Counted := by
  induction is generalizing l with
  | nil => exact h
  | cons i is ih => exact ih (h.step i)

/-- In every run from `disconnected`, with `n` frames handled since the last `disconnected`: the server's
    counter is the losses plus `n`, it is the counter of the last frame, and the desynchronisations count the
    frames that are not the successor of the frame before. -/
theorem counters_conserved (next : Next) (s : Server) (is : List Input) :
    let l := Logged.run next ⟨s.disconnected, []⟩ is
    l.server.connInfo.paketCounter = l.server.connInfo.totalLost + UInt32.ofNat l.log.length ∧
      (∀ f ∈ l.log.getLast?, l.server.connInfo.paketCounter = f.counter) ∧
      l.server.connInfo.desynchCounter = UInt32.ofNat (outOfSequence 0 (l.log.map (·.counter))) := by
  intro l
  have hl : l.server.connInfo = ConnInfo.reset.receives l.log := Logged.Counted.run (l := ⟨s.disconnected, []⟩) rfl is
  rw [hl]
  refine ⟨?_, fun f hf => ?_, ?_⟩
  · have := ConnInfo.paketCounter_eq_totalLost ConnInfo.reset l.log 0 rfl
    rwa [UInt32.zero_add] at this
  · rw [ConnInfo.paketCounter_receives, List.getLastD_eq_getLast?, List.getLast?_map, hf]
    rfl
  · rw [ConnInfo.desynchCounter_receives]
    exact UInt32.zero_add _

/-! ### Losses -/

/-- The highest counter among the frames, 0 without any. -/
def highest (fs : List FrameData) : Nat := fs.foldr (fun f n => max f.counter.toNat n) 0

/-- The counter of the last frame, 0 without any. -/
def last (fs : List FrameData) : Nat := ((fs.map FrameData.counter).getLastD 0).toNat

theorem le_highest {fs : List FrameData} {f : FrameData} (hf : f ∈ fs) : f.counter.toNat ≤ highest fs := by
  induction fs with
  | nil => cases hf
  | cons g fs ih =>
    rw [highest, List.foldr_cons]
    rcases List.mem_cons.mp hf with rfl | hf
    · exact Nat.le_max_left _ _
    · exact Nat.le_trans (ih hf) (Nat.le_max_right _ _)

theorem highest_lt {fs : List FrameData} {n : Nat} (hn : 0 < n) (h : ∀ f ∈ fs, f.counter.toNat < n) : highest fs < n := by
  induction fs with
  | nil => exact hn
  | cons f fs ih =>
    rw [highest, List.foldr_cons]
    exact Nat.max_lt.mpr ⟨h f List.mem_cons_self, ih fun g hg => h g (List.mem_cons_of_mem f hg)⟩

theorem last_le_highest (fs : List FrameData) : last fs ≤ highest fs := by
  rcases List.eq_nil_or_concat fs with rfl | ⟨fs', f, rfl⟩
  · exact Nat.zero_le _
  · have hlast : last (fs' ++ [f]) = f.counter.toNat := by
      rw [last, List.map_append, List.map_singleton, List.getLastD_concat]
    rw [List.concat_eq_append, hlast]
    exact le_highest (List.mem_append_right _ List.mem_cons_self)

theorem totalLost_receives (fs : List FrameData) :
    (ConnInfo.reset.receives fs).totalLost.toNat = (2 ^ 32 - fs.length % 2 ^ 32 + last fs) % 2 ^ 32 := by
  have hcounter := ConnInfo.paketCounter_receives ConnInfo.reset fs
  rw [ConnInfo.paketCounter_eq_totalLost ConnInfo.reset fs 0 rfl, UInt32.zero_add] at hcounter
  have hlost : (ConnInfo.reset.receives fs).totalLost =
      (fs.map FrameData.counter).getLastD 0 - UInt32.ofNat fs.length := by
    rw [← UInt32.add_sub_cancel (ConnInfo.reset.receives fs).totalLost (UInt32.ofNat fs.length), hcounter]
    rfl
  rw [hlost, UInt32.toNat_sub, UInt32.toNat_ofNat', last]

/-- The losses are at most the highest counter exactly when no more frames were handled than the last counter
    says, up to the wrap of their number. -/
theorem Logged.Counted.totalLost_le_iff {l : Logged} (h : l.Counted) :
    l.server.connInfo.totalLost.toNat ≤ highest l.log ↔
      l.log.length % 2 ^ 32 ≤ last l.log ∨ 2 ^ 32 + last l.log ≤ l.log.length % 2 ^ 32 + highest l.log := by
  have hle := last_le_highest l.log
  have hlast : last l.log < 2 ^ 32 := UInt32.toNat_lt ((l.log.map FrameData.counter).getLastD 0)
  rw [show l.server.connInfo = _ from h, totalLost_receives]
  omega

/-- The same in every run from `disconnected`, for the frames handled since the last `disconnected`. -/
theorem totalLost_le_highest_iff (next : Next) (s : Server) (is : List Input) :
    let l := Logged.run next ⟨s.disconnected, []⟩ is
    l.server.connInfo.totalLost.toNat ≤ highest l.log ↔
      l.log.length % 2 ^ 32 ≤ last l.log ∨ 2 ^ 32 + last l.log ≤ l.log.length % 2 ^ 32 + highest l.log :=
  (Logged.Counted.run (l := ⟨s.disconnected, []⟩) rfl is).totalLost_le_iff

/-- With counters below 2^31, and no more than 2^31 frames, the wrap plays no part. -/
theorem Logged.Counted.totalLost_le_iff_of_lt {l : Logged} (h : l.Counted) (hlt : ∀ f ∈ l.log, f.counter.toNat < 2 ^ 31)
    (hlen : l.log.length ≤ 2 ^ 31) : l.server.connInfo.totalLost.toNat ≤ highest l.log ↔ l.log.length ≤ last l.log := by
  have hhigh : highest l.log < 2 ^ 31 := highest_lt (by decide) hlt
  rw [h.totalLost_le_iff]
  omega

theorem Logged.log_readyRead (next : Next) (l : Logged) {fs : List FrameData} (h : fs ≠ []) :
    (l.run next [.readyRead (fs.map FrameData.toBytes)]).log = l.log ++ fs := by
  have hstay : l.server.disconnects (.readyRead (fs.map FrameData.toBytes)) = false := by
    simpa [disconnects] using h
  rw [run, List.foldl_cons, List.foldl_nil, step, hstay, Input.frames, frames_map_toBytes]
  rfl

/-- A frame that arrives twice. -/
theorem totalLost_counterexample :
    ¬∀ (next : Next) (s : Server) (is : List Input),
      let l := Logged.run next ⟨s.disconnected, []⟩ is
      (∀ f ∈ l.log, f.counter.toNat < 2 ^ 31) → l.server.connInfo.totalLost.toNat ≤ highest l.log := by
  intro h
  have hlog := Logged.log_readyRead none ⟨new.disconnected, []⟩ (List.cons_ne_nil (FrameData.silent 1) [.silent 1])
  have hcounted := @Logged.Counted.run none ⟨new.disconnected, []⟩ rfl
    [.readyRead ([.silent 1, .silent 1].map FrameData.toBytes)]
  have hle := h none new [.readyRead ([.silent 1, .silent 1].map FrameData.toBytes)] (by rw [hlog]; decide)
  rw [hcounted.totalLost_le_iff, hlog] at hle
  revert hle
  decide

end Server
end Recd2
