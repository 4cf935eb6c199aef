import Recd2.QCapDevice
import Recd2.Recorder
import Recd2.Tcp

/-! The arrays behind the blocks, and who frees them. `readyReadUdp` allocates an array for each block
    (`udp-streamer/server.cpp`); the TCP writer has its samples on the stack (`udp-streamer/tcp-server.cpp`), and the
    capture device in a `QByteArray` (`alsa-rec/qcapdev.cpp`). A list copies the pointers of its blocks only, so the copy
    that the recorder takes has the same arrays, and `record` frees the array of each block (`recorder/recorder.cpp`). An
    array is its number in the order of the allocations. -/

namespace Recd2

/-- `sample_data_t` with what `samples` points to: the array of that number, or memory that is not from `new`. No block
    that a producer sends has a null pointer. -/
structure Block where
  data : SampleData
  samples : Option Nat

/-- The numbers of the arrays in the lists. -/
def arraysOf (lss : List (List Block)) : List Nat := lss.flatMap fun ls => ls.filterMap Block.samples

/-! ### The producers -/

namespace Server

/-- The blocks with an array of their own each, the first of them being `top`. -/
def newBlocks (top : Nat) (ls : QList) : List Block := (ls.zipIdx top).map fun p => ⟨p.1, some p.2⟩

/-- What `put_data` leaves of a list, when the last plugin of the chain clears it or not. -/
def putBlocks (clears : Bool) (ls : List Block) : List Block := if clears then [] else ls

/-- `errLoop`, with the arrays. -/
def errLoopBlocks (clears : Bool) (blocks : QList) : Nat → Nat → List Block → List (List Block)
  | 0, _, _ => []
  | n + 1, top, errLs =>
    (errLs ++ newBlocks top blocks) ::
      errLoopBlocks clears blocks n (top + blocks.length) (putBlocks clears (errLs ++ newBlocks top blocks))

/-- The lists that `handleFrame` sends, with the arrays. -/
def sendsBlocks (clears : Bool) (s : Server) (top : Nat) (udp : FrameData) : List (List Block) :=
  if udp.counter ≠ s.connInfo.paketCounter + 1 then
    if !s.connInfo.onetimeSynch then [newBlocks top s.errBlocks]
    else errLoopBlocks clears s.errBlocks (s.connInfo.errs udp.counter).toInt.toNat top []
  else [newBlocks top (s.frameList udp)]

/-- The arrays that `handleFrame` allocates. -/
def allocates (s : Server) (udp : FrameData) : Nat :=
  if udp.counter ≠ s.connInfo.paketCounter + 1 then
    if !s.connInfo.onetimeSynch then s.errBlocks.length
    else (s.connInfo.errs udp.counter).toInt.toNat * s.errBlocks.length
  else (s.frameList udp).length

/-- The lists that are sent for the frames, and the number of the next array. -/
def callsBlocks (clears : Bool) (s : Server) (top : Nat) : List FrameData → List (List Block) × Nat
  | [] => ([], top)
  | f :: fs =>
    let (lss, top') := callsBlocks clears (handleFrame none s f).1 (top + s.allocates f) fs
    (s.sendsBlocks clears top f ++ lss, top')

/-- The lists of one connection after the other. -/
def connectionsBlocks (clears : Bool) (s : Server) (top : Nat) : List (List FrameData) → List (List Block) × Nat
  | [] => ([], top)
  | fs :: css =>
    let (lss, top) := callsBlocks clears s.disconnected top fs
    let (lss', top') := connectionsBlocks clears s top css
    (lss ++ lss', top')

end Server

/-- The blocks of a list whose samples are not from `new`. -/
def foreign (ls : QList) : List Block := ls.map fun b => ⟨b, none⟩

/-- The list of the TCP writer. `samples` points to an array of the function. -/
def TcpServer.Writer.workerBlocks (s : Server) (t : FrameData) : List Block := foreign (worker s t)

/-- The list of the capture device. `samples` points to the bytes of the `QByteArray`. -/
def QCapDevice.readyReadBlocks (samples : List UInt8) : List Block := foreign (readyRead samples)

/-! ### `Recorder::record` -/

namespace Recorder

/-- `delete [] s.samples`, where `dead` has the arrays that were deleted before. It is undefined in the source, and
    there is no result, for such an array and for memory that is not from `new`. -/
def deleteSamples (dead : List Nat) (b : Block) : Option (List Nat) :=
  match b.samples with
  | some a => if a ∈ dead then none else some (a :: dead)
  | none => none

/-- The loop of `recordFrom`, with the `delete []` at the end of each round. -/
def recordBlocksFrom (env : Env) : Nat → List Block → Recorder × List Nat → Option (Recorder × List Nat)
  | _, [], r => some r
  | i, b :: sd, (r, dead) =>
    (recordBlock env i b.data r).bind fun r =>
      (deleteSamples dead b).bind fun dead => recordBlocksFrom env (i + 1) sd (r, dead)

/-- `Recorder::record`, with the arrays. -/
def recordBlocks (env : Env) (r : Recorder × List Nat) (sd : List Block) : Option (Recorder × List Nat) :=
  if sd.length ≤ 0 then some r
  else recordBlocksFrom env 0 sd (if r.1.sizeBased then pollHotSwap env r.1 else r.1, r.2)

end Recorder
end Recd2
