import Recd2.Udp

/-! The indices with which `Server::init`, `readyReadUdp`, `TcpServer::Writer::worker` and `Helper::run` reach into
    arrays of a fixed size, in the order of the loops. -/

namespace Recd2

/-- The arrays: `err_udp.data`, the `data` and `null_bytes` of a received frame, and the local arrays `smpl` and
    `peeks`. -/
inductive FixedArray where
  | errUdpData
  | frameData
  | nullBytes
  | smpl
  | peeks
  deriving DecidableEq, Repr

def FixedArray.size : FixedArray → Nat
  | .errUdpData => 512
  | .frameData => 512
  | .nullBytes => 64
  | .smpl => 512
  | .peeks => 64

structure Access where
  array : FixedArray
  index : Int
  deriving DecidableEq, Repr

def Access.InBounds (a : Access) : Prop := 0 ≤ a.index ∧ a.index < a.array.size

/-- The loop over `j < m_smplPerChan` with the index `j * m_channels + i`, which is unsigned. -/
def stridedRow (channels smplPerChan : UInt32) (i : Nat) : List UInt32 :=
  (List.range smplPerChan.toNat).map fun j => UInt32.ofNat j * channels + UInt32.ofNat i

namespace Server
variable (s : Server)

/-- The loops of `init` over `err_udp.data[i * m_channels + j]`. -/
def initAccesses : List Access :=
  (List.range s.smplPerChan.toNat).flatMap fun i =>
    (List.range s.channels.toNat).map fun j => ⟨.errUdpData, (UInt32.ofNat i * s.channels + UInt32.ofNat j).toNat⟩

/-- The loops over `m_channels` and `m_smplPerChan` that read `err_udp`. -/
def errAccesses : List Access :=
  (List.range s.channels.toNat).flatMap fun i =>
    (stridedRow s.channels s.smplPerChan i).map fun k => ⟨.errUdpData, k.toNat⟩

/-- The loops that read the frame. Here the index is stored in an `int`. -/
def frameAccesses : List Access :=
  (List.range s.channels.toNat).flatMap fun (i : Nat) =>
    ⟨.nullBytes, (i : Int)⟩ :: (stridedRow s.channels s.smplPerChan i).map fun k => ⟨.frameData, k.toInt32.toInt⟩

/-- The branches of `readyReadUdp` for a datagram of the size of a frame. -/
def handleAccesses (udp : FrameData) : List Access :=
  if udp.counter ≠ s.connInfo.paketCounter + 1 then
    if !s.connInfo.onetimeSynch then s.errAccesses
    else (List.replicate (s.connInfo.errs udp.counter).toInt.toNat s.errAccesses).flatten
  else if !s.singleFile then s.frameAccesses
  else []

end Server

/-- The loops of `Writer::worker` over one frame, for at most the given number of rounds. `i` is unsigned and counts
    on from round to round. -/
def TcpServer.Writer.accesses (smplPerChan max : UInt32) : Nat → UInt32 → List Access
  | 0, _ => []
  | rounds + 1, i =>
    if i < max then
      ((List.range smplPerChan.toNat).flatMap fun (j : Nat) =>
          [⟨.smpl, (j : Int)⟩, ⟨.frameData, (i + UInt32.ofNat j).toNat⟩]) ++
        TcpServer.Writer.accesses smplPerChan max rounds (i + smplPerChan)
    else []

/-- The loops of `Helper::run` over the frames that it has taken; with fewer than `peekSize` of them it goes on
    without a look. -/
def Helper.accesses (s : Server) (dbl : List FrameData) : List Access :=
  if (dbl.length : Int) < s.peekOptions.peekSize.toInt then []
  else dbl.flatMap fun _ =>
    (List.range s.channels.toNat).flatMap fun (j : Nat) =>
      ((stridedRow s.channels s.smplPerChan j).map fun k => ⟨.frameData, k.toNat⟩) ++ [⟨.peeks, (j : Int)⟩]

end Recd2
