import Recd2.Lib.Framing
import Recd2.TcpReceive

/-! What the receive loops of the TCP worker make of the reads. As long as each read returns some bytes, the
    frames are the pieces of the stream, however it is cut; once the connection is dead, the loops go on for ever. -/

namespace Recd2.TcpServer
open Bytes Framing

/-! ### One read -/

/-- The bytes of the frame that have arrived, with `len` and the pointer behind them. -/
structure Assembly.Holds (a : Assembly) (acc : List UInt8) : Prop where
  frame : a.frame = acc ++ List.replicate (sizeofFrameData - acc.length) 0
  len : a.len.toNat = acc.length
  buffer : a.buffer = acc.length

namespace Assembly
variable {a : Assembly} {acc bs : List UInt8}

theorem start_holds : start.Holds [] := ⟨rfl, rfl, rfl⟩

theorem toUInt64_nn (h : bs.length ≤ sizeofFrameData) :
    (ReadResult.bytes bs).nn.toInt64.toUInt64 = UInt64.ofNat bs.length := by
  rw [sizeofFrameData_eq] at h
  have hmax : (bs.length : Int) ≤ Int32.maxValue.toInt := by
    rw [Int32.toInt_maxValue]
    omega
  rw [ReadResult.nn, Int32.toInt64_ofNat' hmax, Int64.toUInt64_ofNat']

theorem toInt_nn (h : bs.length ≤ sizeofFrameData) : (ReadResult.bytes bs).nn.toInt = bs.length := by
  rw [sizeofFrameData_eq] at h
  exact Int32.toInt_ofNat_of_lt (by omega)

/-- A read that stays within the frame stores its bytes behind those before. -/
theorem Holds.read (h : a.Holds acc) (hle : acc.length + bs.length ≤ sizeofFrameData) :
    (a.read (.bytes bs)).Holds (acc ++ bs) := by
  have hbs : bs.length ≤ sizeofFrameData := Nat.le_trans (Nat.le_add_left _ _) hle
  refine ⟨?_, ?_, ?_⟩
  · show patch a.frame a.buffer.toNat bs = _
    rw [h.buffer, h.frame, Int.toNat_natCast, patch, List.take_left' rfl, List.drop_append,
      List.drop_eq_nil_of_le (Nat.le_add_right _ _), List.nil_append, Nat.add_sub_cancel_left, List.drop_replicate,
      List.length_append, Nat.sub_sub]
  · show (a.len + (ReadResult.bytes bs).nn.toInt64.toUInt64).toNat = _
    rw [sizeofFrameData_eq] at hle
    rw [toUInt64_nn hbs, UInt64.toNat_add, h.len, UInt64.toNat_ofNat', List.length_append]
    omega
  · show a.buffer + (ReadResult.bytes bs).nn.toInt = _
    rw [toInt_nn hbs, h.buffer, List.length_append, Int.natCast_add]

theorem Holds.requested (h : a.Holds acc) (hlt : acc.length < sizeofFrameData) :
    a.requested.toNat = sizeofFrameData - acc.length := by
  have hlen := h.len
  rw [sizeofFrameData_eq] at hlt ⊢
  rw [Assembly.requested, sizeofFrameData_eq, UInt64.toNat_sub_of_le]
  · rw [h.len]
    rfl
  · rw [UInt64.le_iff_toNat_le, hlen]
    exact hlt.le

theorem Holds.len_lt_iff (h : a.Holds acc) :
    a.len < UInt64.ofNat sizeofFrameData ↔ acc.length < sizeofFrameData := by
  rw [UInt64.lt_iff_toNat_lt, h.len, sizeofFrameData_eq]
  rfl

theorem Holds.frame_of_full (h : a.Holds acc) (hfull : acc.length = sizeofFrameData) : a.frame = acc := by
  rw [h.frame, hfull, Nat.sub_self, List.replicate_zero, List.append_nil]

end Assembly

/-! ### Runs of reads that return bytes -/

namespace Connection
variable {c : Connection} {selectResult : Int32} {acc bs : List UInt8} {chunks : List (List UInt8)}

/-- The connection is open, and the bytes of the next frame that have arrived are given. -/
structure Receiving (c : Connection) (acc : List UInt8) : Prop where
  select : 0 < c.selectResult
  lt : acc.length < sizeofFrameData
  assembly : ∃ a, c.assembly = some a ∧ a.Holds acc

/-- How many bytes the next `read` asks for. -/
def requested (c : Connection) : Nat := (c.assembly.map Assembly.requested).elim 0 UInt64.toNat

/-- Each read returns between 1 byte and the requested number. -/
def Delivers : Connection → List (List UInt8) → Prop
  | _, [] => True
  | c, bs :: chunks => 1 ≤ bs.length ∧ bs.length ≤ c.requested ∧ Delivers (c.step (.bytes bs)).1 chunks

theorem loop_receiving (h : 0 < selectResult) : (loop selectResult).Receiving [] :=
  ⟨h, by decide, .start, if_pos h, Assembly.start_holds⟩

theorem Receiving.requested (h : c.Receiving acc) : c.requested = sizeofFrameData - acc.length := by
  obtain ⟨a, ha, hholds⟩ := h.assembly
  rw [Connection.requested, ha]
  exact hholds.requested h.lt

/-- A read does what the assembly of pieces does with its bytes. -/
theorem Receiving.step (h : c.Receiving acc) (hle : acc.length + bs.length ≤ sizeofFrameData) :
    (c.step (.bytes bs)).1.Receiving (feed sizeofFrameData acc bs).1 ∧
      (c.step (.bytes bs)).2 = (feed sizeofFrameData acc bs).2.map FrameData.ofBytes := by
  obtain ⟨a, ha, hholds⟩ := h.assembly
  have hread := hholds.read hle
  have hlen : (acc ++ bs).length = acc.length + bs.length := List.length_append
  rw [Connection.step, ha]
  rcases Nat.lt_or_eq_of_le hle with hlt | heq
  · have hcond := hread.len_lt_iff.mpr (by rwa [hlen])
    rw [feed_of_lt hlt]
    simp only [if_pos hcond]
    exact ⟨⟨h.select, by rwa [hlen], _, rfl, hread⟩, rfl⟩
  · have hcond : ¬(a.read (.bytes bs)).len < UInt64.ofNat sizeofFrameData := by
      rw [hread.len_lt_iff, hlen, heq]
      exact Nat.lt_irrefl _
    rw [feed_of_eq heq]
    simp only [if_neg hcond]
    refine ⟨loop_receiving h.select, ?_⟩
    rw [hread.frame_of_full (by rw [hlen, heq])]
    rfl

/-- The reads deliver chunks exactly when no chunk is empty or longer than what its frame lacks. -/
theorem Receiving.delivers_chunks_iff (h : c.Receiving acc) :
    c.Delivers chunks ↔ (∀ bs ∈ chunks, 1 ≤ bs.length) ∧ Fits sizeofFrameData acc chunks := by
  induction chunks generalizing c acc with
  | nil => exact iff_of_true trivial ⟨fun _ hbs => absurd hbs List.not_mem_nil, trivial⟩
  | cons bs chunks ih =>
    have hlt := h.lt
    have hrequested : bs.length ≤ c.requested ↔ acc.length + bs.length ≤ sizeofFrameData := by
      rw [h.requested]
      omega
    rw [Delivers, Fits, hrequested, List.forall_mem_cons]
    constructor
    · rintro ⟨hpos, hle, hrest⟩
      obtain ⟨hall, hfits⟩ := (ih (h.step hle).1).mp hrest
      exact ⟨⟨hpos, hall⟩, hle, hfits⟩
    · rintro ⟨⟨hpos, hall⟩, hle, hfits⟩
      exact ⟨hpos, hle, (ih (h.step hle).1).mpr ⟨hall, hfits⟩⟩

theorem Receiving.emits (h : c.Receiving acc) (hfits : Fits sizeofFrameData acc chunks) :
    Run.emits Connection.step c (chunks.map ReadResult.bytes) =
      (Run.emits (feed sizeofFrameData) acc chunks).map FrameData.ofBytes := by
  induction chunks generalizing c acc with
  | nil => rfl
  | cons bs chunks ih =>
    obtain ⟨hle, hrest⟩ := hfits
    obtain ⟨hnext, hemit⟩ := h.step hle
    rw [List.map_cons, Run.emits_cons, Run.emits_cons, List.map_append, hemit, ih hnext hrest]

/-- The frames that the loops make of the reads on a new connection. -/
def framesOf (selectResult : Int32) (reads : List ReadResult) : List FrameData :=
  Run.emits step (accepted selectResult) reads

theorem framesOf_bytes (hsel : 0 < selectResult) (hchunks : (accepted selectResult).Delivers chunks) :
    framesOf selectResult (chunks.map ReadResult.bytes) = (pieces sizeofFrameData chunks.flatten).map FrameData.ofBytes := by
  obtain ⟨-, hfits⟩ := (loop_receiving hsel).delivers_chunks_iff.mp hchunks
  rw [framesOf, accepted, (loop_receiving hsel).emits hfits, emits_feed (by decide) (by decide) hfits, List.nil_append]

/-- A stream of whole frames arrives as these frames, and so as the same frames however it is delivered. -/
theorem framing_independent (selectResult : Int32) (hsel : 0 < selectResult) (stream : List UInt8)
    (hdvd : sizeofFrameData ∣ stream.length) (chunks chunks' : List (List UInt8))
    (hchunks : (accepted selectResult).Delivers chunks) (hstream : chunks.flatten = stream)
    (hchunks' : (accepted selectResult).Delivers chunks') (hstream' : chunks'.flatten = stream) :
    (pieces sizeofFrameData stream).flatten = stream ∧
      framesOf selectResult (chunks.map ReadResult.bytes) = (pieces sizeofFrameData stream).map FrameData.ofBytes ∧
      framesOf selectResult (chunks'.map ReadResult.bytes) = framesOf selectResult (chunks.map ReadResult.bytes) := by
  refine ⟨flatten_pieces (by decide) hdvd, ?_, ?_⟩
  · rw [framesOf_bytes hsel hchunks, hstream]
  · rw [framesOf_bytes hsel hchunks', framesOf_bytes hsel hchunks, hstream', hstream]

/-- One frame, in one read and in two. -/
theorem framing_independent_silent :
    (pieces sizeofFrameData (FrameData.silent 1).toBytes).flatten = (FrameData.silent 1).toBytes ∧
      framesOf 1 ([(FrameData.silent 1).toBytes].map ReadResult.bytes) =
        (pieces sizeofFrameData (FrameData.silent 1).toBytes).map FrameData.ofBytes ∧
      framesOf 1 ([(FrameData.silent 1).toBytes.take 1000, (FrameData.silent 1).toBytes.drop 1000].map ReadResult.bytes) =
        framesOf 1 ([(FrameData.silent 1).toBytes].map ReadResult.bytes) := by
  have hopen : (accepted 1).Receiving [] := loop_receiving (by decide)
  have hlen : (FrameData.silent 1).toBytes.length = 1093 := FrameData.length_toBytes _
  have hone : (accepted 1).Delivers [(FrameData.silent 1).toBytes] :=
    hopen.delivers_chunks_iff.mpr ⟨by simp [hlen], by simp [Fits, hlen, sizeofFrameData_eq]⟩
  have htwo : (accepted 1).Delivers [(FrameData.silent 1).toBytes.take 1000, (FrameData.silent 1).toBytes.drop 1000] :=
    hopen.delivers_chunks_iff.mpr ⟨by simp [hlen], by simp [Fits, feed, hlen, sizeofFrameData_eq]⟩
  exact framing_independent 1 (by decide) (FrameData.silent 1).toBytes (by rw [FrameData.length_toBytes]) _ _ hone
    (by simp) htwo (by simp)

/-! ### Dead connections -/

/-- The bytes that the reads have stored. -/
def received (reads : List ReadResult) : List UInt8 :=
  reads.flatMap fun
    | .bytes bs => bs
    | .error => []

/-- The loops end: after some of the reads, the connection is closed and `accept` is reached again. -/
def Ends (selectResult : Int32) (reads : Nat → ReadResult) : Prop :=
  ∃ n, (Run.state step (accepted selectResult) ((List.range n).map reads)).assembly = none

/-- At all times, the frames that were processed are whole frames of the bytes received. -/
def OnlyWhole (selectResult : Int32) (reads : Nat → ReadResult) : Prop :=
  ∀ n, framesOf selectResult ((List.range n).map reads) <+:
    (pieces sizeofFrameData (received ((List.range n).map reads))).map FrameData.ofBytes

/-- The loops are still running, with the frame not full. -/
structure Running (c : Connection) : Prop where
  select : 0 < c.selectResult
  assembly : ∃ a, c.assembly = some a ∧ a.len < UInt64.ofNat sizeofFrameData

theorem loop_running (h : 0 < selectResult) : (loop selectResult).Running :=
  ⟨h, .start, if_pos h, by decide⟩

/-- No read ends the loops, since `select_result` never changes. -/
theorem Running.step (h : c.Running) (r : ReadResult) : (c.step r).1.Running := by
  obtain ⟨a, ha, -⟩ := h.assembly
  rw [Connection.step, ha]
  by_cases hlen : (a.read r).len < UInt64.ofNat sizeofFrameData
  · simp only [if_pos hlen]
    exact ⟨h.select, _, rfl, hlen⟩
  · simp only [if_neg hlen]
    exact loop_running h.select

theorem Running.run (h : c.Running) (reads : List ReadResult) : (Run.state Connection.step c reads).Running := by
  induction reads generalizing c with
  | nil => exact h
  | cons r reads ih => exact ih (h.step r)

theorem not_ends (hsel : 0 < selectResult) (reads : Nat → ReadResult) : ¬Ends selectResult reads := by
  rintro ⟨n, hclosed⟩
  obtain ⟨a, ha, -⟩ := ((loop_running hsel).run ((List.range n).map reads)).assembly
  rw [show Run.state step (accepted selectResult) _ = Run.state step (loop selectResult) _ from rfl, ha] at hclosed
  cases hclosed

section Errors
variable {a : Assembly}

theorem frame_read_error (a : Assembly) : (a.read .error).frame = a.frame := by rw [Assembly.read]

theorem len_read_error (a : Assembly) : (a.read .error).len.toNat = (a.len.toNat + (2 ^ 64 - 1)) % 2 ^ 64 := by
  have hnn : ReadResult.error.nn.toInt64.toUInt64.toNat = 2 ^ 64 - 1 := by decide
  rw [← hnn]
  exact UInt64.toNat_add _ _

theorem step_error_zero (hlen : a.len.toNat = 0) :
    step ⟨selectResult, some a⟩ .error = (loop selectResult, [FrameData.ofBytes a.frame]) := by
  have hfull : ¬(a.read .error).len < UInt64.ofNat sizeofFrameData := by
    rw [UInt64.lt_iff_toNat_lt, len_read_error, hlen]
    decide
  rw [Connection.step]
  simp only [if_neg hfull, frame_read_error]

theorem step_error_succ {k : Nat} (hlen : a.len.toNat = k + 1) (hlt : k + 1 < sizeofFrameData) :
    step ⟨selectResult, some a⟩ .error = (⟨selectResult, some (a.read .error)⟩, []) ∧ (a.read .error).len.toNat = k := by
  rw [sizeofFrameData_eq] at hlt
  have hk : (a.read .error).len.toNat = k := by
    rw [len_read_error, hlen]
    omega
  have hnext : (a.read .error).len < UInt64.ofNat sizeofFrameData := by
    rw [UInt64.lt_iff_toNat_lt, hk, sizeofFrameData_eq]
    exact Nat.lt_of_succ_lt hlt
  rw [Connection.step]
  simp only [if_pos hnext]
  exact ⟨trivial, hk⟩

theorem emits_errors_start (hsel : 0 < selectResult) (j : Nat) :
    Run.emits step (loop selectResult) (List.replicate j .error) =
      List.replicate j (FrameData.ofBytes Assembly.start.frame) := by
  induction j with
  | zero => rfl
  | succ j ih =>
    have hloop : loop selectResult = ⟨selectResult, some .start⟩ := by rw [loop, if_pos hsel]
    rw [List.replicate_succ, Run.emits_cons, hloop, step_error_zero rfl, ih]
    rfl

/-- Behind `k` bytes, the errors count `len` down, and the next one wraps it round: the inner loop ends, and the
    frame is processed as it is. From then on each error processes a frame of zeros. -/
theorem emits_errors (hsel : 0 < selectResult) (j : Nat) {k : Nat} (hk : a.len.toNat = k) (hlt : k < sizeofFrameData) :
    Run.emits step ⟨selectResult, some a⟩ (List.replicate (k + 1 + j) .error) =
      FrameData.ofBytes a.frame :: List.replicate j (FrameData.ofBytes Assembly.start.frame) := by
  induction k generalizing a with
  | zero =>
    rw [Nat.zero_add, Nat.add_comm, List.replicate_succ, Run.emits_cons, step_error_zero hk, emits_errors_start hsel]
    rfl
  | succ k ih =>
    obtain ⟨hstep, hlen⟩ := @step_error_succ selectResult a k hk hlt
    have hcount : k + 1 + 1 + j = (k + 1 + j) + 1 := by omega
    rw [hcount, List.replicate_succ, Run.emits_cons, hstep, List.nil_append, ih hlen (Nat.lt_of_succ_lt hlt),
      frame_read_error]

theorem received_append_errors (reads : List ReadResult) (n : Nat) :
    received (reads ++ List.replicate n .error) = received reads := by
  have herrors : received (List.replicate n .error) = [] := by
    rw [received, List.flatMap_replicate]
    simp
  rw [received, List.flatMap_append]
  exact (congrArg (received reads ++ ·) herrors).trans (List.append_nil _)

theorem map_range_errors {reads : Nat → ReadResult} {n : Nat} (herror : ∀ m, n ≤ m → reads m = .error) (m : Nat) :
    (List.range (n + m)).map reads = (List.range n).map reads ++ List.replicate m .error := by
  rw [List.range_add, List.map_append, List.map_map]
  congr 1
  refine List.eq_replicate_iff.mpr ⟨by simp, fun r hr => ?_⟩
  obtain ⟨i, -, rfl⟩ := List.mem_map.mp hr
  exact herror _ (Nat.le_add_right n i)

/-- With errors for ever, more frames are processed than were received. -/
theorem not_onlyWhole (hsel : 0 < selectResult) {reads : Nat → ReadResult} {n : Nat} (herror : ∀ m, n ≤ m → reads m = .error) :
    ¬OnlyWhole selectResult reads := by
  intro hwhole
  have hrunning := (loop_running hsel).run ((List.range n).map reads)
  obtain ⟨a, ha, hlen⟩ := hrunning.assembly
  have hlt : a.len.toNat < sizeofFrameData := hlen
  obtain ⟨count, hcount⟩ : ∃ count, (received ((List.range n).map reads)).length / sizeofFrameData = count := ⟨_, rfl⟩
  have hstate : Run.state step (loop selectResult) ((List.range n).map reads) =
      ⟨(Run.state step (loop selectResult) ((List.range n).map reads)).selectResult, some a⟩ := by rw [← ha]
  have hle := (hwhole (n + (a.len.toNat + 1 + count))).length_le
  rw [map_range_errors herror, received_append_errors, List.length_map, pieces, List.length_map, List.length_range, hcount,
    framesOf, accepted, Run.emits_append, hstate, emits_errors hrunning.select count rfl hlt, List.length_append,
    List.length_cons, List.length_replicate] at hle
  omega

end Errors

/-- Whatever the reads of a connection are that is dead from some point on, the loops do not end; where they fail
    for ever, frames are processed that were not received whole. -/
theorem never_closes (selectResult : Int32) (hsel : 0 < selectResult) (reads : Nat → ReadResult)
    (_hdead : ∃ n, ∀ m, n ≤ m → reads m = .bytes [] ∨ reads m = .error) :
    ¬Ends selectResult reads ∧ ((∃ n, ∀ m, n ≤ m → reads m = .error) → ¬OnlyWhole selectResult reads) :=
  ⟨not_ends hsel reads, fun ⟨_, herror⟩ => not_onlyWhole hsel herror⟩

/-- The peer has closed the connection, so that every read returns 0. -/
def peerClosed (_ : Nat) : ReadResult := .bytes []

theorem never_closes_closed :
    ¬Ends 1 peerClosed ∧ ((∃ n, ∀ m, n ≤ m → peerClosed m = .error) → ¬OnlyWhole 1 peerClosed) :=
  never_closes 1 (by decide) peerClosed ⟨0, fun _ _ => Or.inl rfl⟩

theorem ends_counterexample :
    ¬∀ (selectResult : Int32) (reads : Nat → ReadResult), 0 < selectResult →
      (∃ n, ∀ m, n ≤ m → reads m = .bytes [] ∨ reads m = .error) →
      Ends selectResult reads ∧ OnlyWhole selectResult reads := by
  intro h
  have hsel : (0 : Int32) < 1 := by decide
  exact not_ends hsel peerClosed (h 1 peerClosed hsel ⟨0, fun _ _ => Or.inl rfl⟩).1

end Connection
end Recd2.TcpServer
