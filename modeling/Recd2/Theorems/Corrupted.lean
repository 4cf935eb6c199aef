import Recd2.Checksum
import Recd2.Theorems.Handler

/-! Frames with a wrong checksum. The handler compares the checksums, but its branch for a difference is empty:
    such a frame is handled like any other. -/

namespace Recd2

/-- A frame always leaves its trace in the counters. -/
theorem ConnInfo.receive_ne (c : ConnInfo) (k : UInt32) : c.receive k ≠ c := by
  intro h
  have hcounter : k = c.paketCounter := by rw [← paketCounter_receive c k, h]
  have hdesynch := congrArg ConnInfo.desynchCounter h
  rw [desynchCounter_receive, hcounter] at hdesynch
  grind

namespace Server

/-- The datagram leaves no trace: nothing goes to `put_data`, and the counters stay. -/
structure Rejects (next : Next) (s : Server) (d : Datagram) : Prop where
  silent : putDataCalls (s.readyReadUdp next [d]).2 = []
  connInfo : (s.readyReadUdp next [d]).1.connInfo = s.connInfo

section Frame
variable {next : Next} {s : Server} {d : Datagram}

theorem connInfo_readyRead_frame (h : d.length = sizeofFrameData) :
    (s.readyReadUdp next [d]).1.connInfo = s.connInfo.receive (FrameData.ofBytes d).counter := by
  rw [readyReadUdp_cons s (List.cons_ne_nil _ _), state_handleDatagram, frames_cons_some (if_pos h)]
  rfl

theorem readyRead_frame (h : d.length = sizeofFrameData) :
    (s.readyReadUdp next [d]).2 =
      (handleFrame next { s with monitorData := s.monitorData ++ ['.'] } (FrameData.ofBytes d)).2 := by
  rw [readyReadUdp_cons s (List.cons_ne_nil _ _), Run.emits_cons, Run.emits_nil, List.append_nil,
    handleDatagram_of_frame _ (if_pos h)]

/-- The handler makes no use of the checksum. -/
theorem handleFrame_genChecksumLrc (f : FrameData) :
    (handleFrame next s (genChecksumLrc f)).2 = (handleFrame next s f).2 := by
  have hcounter : (genChecksumLrc f).counter = f.counter := rfl
  have hblocks : s.frameList (genChecksumLrc f) = s.frameList f := rfl
  have hfillers : errLists next s (genChecksumLrc f) = errLists next s f := rfl
  rw [handleFrame, handleFrame, hcounter, hblocks, hfillers]

/-- What the handler sends for a frame, and the counters after it, are those for the same frame with the right
    checksum. -/
theorem readyRead_genChecksumLrc (h : d.length = sizeofFrameData) :
    (s.readyReadUdp next [(genChecksumLrc (FrameData.ofBytes d)).toBytes]).2 = (s.readyReadUdp next [d]).2 ∧
      (s.readyReadUdp next [(genChecksumLrc (FrameData.ofBytes d)).toBytes]).1.connInfo =
        (s.readyReadUdp next [d]).1.connInfo := by
  have hlen := (genChecksumLrc (FrameData.ofBytes d)).length_toBytes
  constructor
  · rw [readyRead_frame h, readyRead_frame hlen, FrameData.ofBytes_toBytes, handleFrame_genChecksumLrc]
  · rw [connInfo_readyRead_frame h, connInfo_readyRead_frame hlen, FrameData.ofBytes_toBytes, genChecksumLrc]

end Frame

/-- No datagram of the size of a frame is rejected, whatever its checksum: the counters change. -/
theorem not_rejects (next : Next) (s : Server) (d : Datagram) (h : d.length = sizeofFrameData)
    (_hbad : (FrameData.ofBytes d).checksum ≠ checksumLrc (FrameData.ofBytes d)) : ¬Rejects next s d := by
  intro hrejects
  have hcounters := @connInfo_readyRead_frame next s d h
  rw [hrejects.connInfo] at hcounters
  exact ConnInfo.receive_ne s.connInfo _ hcounters.symm

theorem foldl_add_zeros (n : Nat) (a : UInt8) : (List.replicate n 0).foldl (· + ·) a = a := by
  induction n with
  | zero => rfl
  | succ n ih => rw [List.replicate_succ, List.foldl_cons, UInt8.add_zero, ih]

theorem lrcBytes_silent (k : UInt32) : lrcBytes (.silent k) = le32 k ++ List.replicate 576 0 := by
  have hdata : (List.replicate 512 (0 : Int16)).flatMap le16 = List.replicate 1024 0 := by
    have hzero : le16 0 = List.replicate 2 0 := rfl
    rw [List.flatMap_replicate, hzero, List.flatten_replicate_replicate]
  rw [lrcBytes, FrameData.silent, Vector.toList_replicate, Vector.toList_replicate, hdata, List.take_replicate,
    List.append_assoc, List.replicate_append_replicate]
  rfl

/-- Frame 1 with samples and header bytes that are all zero has the checksum 255, not 0. -/
theorem checksumLrc_silent :
    (FrameData.ofBytes (FrameData.silent 1).toBytes).checksum ≠
      checksumLrc (FrameData.ofBytes (FrameData.silent 1).toBytes) := by
  rw [FrameData.ofBytes_toBytes, checksumLrc, lrcBytes_silent, List.foldl_append, foldl_add_zeros]
  decide

theorem not_rejects_silent : ¬Rejects none .new (FrameData.silent 1).toBytes :=
  not_rejects none .new _ (FrameData.length_toBytes _) checksumLrc_silent

theorem corrupted_counterexample :
    ¬∀ (next : Next) (s : Server) (d : Datagram), d.length = sizeofFrameData →
      (FrameData.ofBytes d).checksum ≠ checksumLrc (FrameData.ofBytes d) → Rejects next s d := by
  intro h
  have hconn := (h none .new _ (FrameData.length_toBytes (.silent 1)) checksumLrc_silent).connInfo
  rw [connInfo_readyRead_frame (FrameData.length_toBytes _), FrameData.ofBytes_toBytes] at hconn
  revert hconn
  decide

end Server
end Recd2
