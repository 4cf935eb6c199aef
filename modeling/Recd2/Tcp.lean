import Recd2.RingBuffer
import Recd2.Udp

/-! The TCP transport (`udp-streamer/tcp-server.cpp`): the socket worker, which takes complete frames into the
    ring buffer, and the writer, which turns them into lists. The socket, the locks and the threads are outside
    the model; each call of the buffer is one step. -/

namespace Recd2.TcpServer

/-! ### From a frame to a list -/

/-- A round of the loop in `Writer::worker`, with `smpl` as the round leaves it: cleared, and the first samples taken
    from `t->data[i++]`. -/
def Writer.block (t : FrameData) (smplPerChan : UInt32) (i : Nat) : SampleData where
  signal := 0
  samples := (List.range 512).map fun j => if j < smplPerChan.toNat then t.sample (i + j) else 0
  size := smplPerChan

/-- The rounds of the loop over `i < MAX`, at most the given number of them. -/
def Writer.blocks (t : FrameData) (smplPerChan : UInt32) (max : Nat) : Nat → Nat → QList
  | 0, _ => []
  | rounds + 1, i =>
    if i < max then block t smplPerChan i :: blocks t smplPerChan max rounds (i + smplPerChan.toNat) else []

/-- What the blocks of the list point to behind the loop. `smpl` is one array on the stack that every round clears and
    fills, and all the blocks have its address: they show the samples of the last round. (Its scope has ended by then,
    but nothing else has written there.) -/
def Writer.shared (ls : QList) : QList :=
  ls.map fun b => { b with samples := (ls.getLast?.map (·.samples)).getD [] }

/-- The list that `Writer::worker` hands to `put_data` for a frame. Each round of the loop takes a sample or more when
    `MAX` is not zero, so `MAX` rounds are enough. -/
def Writer.worker (s : Server) (t : FrameData) : QList :=
  let max := (s.channels * s.smplPerChan).toNat
  shared (blocks t s.smplPerChan max max 0)

/-! ### The two threads -/

/-- `t` is the pointer of the writer between its read of the buffer and the end of its round. -/
structure Threads where
  server : Server
  buffer : RingBuffer FrameData 512
  t : Option Nat

/-- `missed` is the text for the log server with the number it shows, `putData` the list built from a frame. -/
inductive Event where
  | missed (n : UInt64)
  | putData (frame : FrameData) (ls : QList)

def Event.text? : Event → Option String
  | .missed n => some ("Missed: " ++ toString n ++ "\n")
  | .putData _ _ => none

/-- What `worker` does with a complete frame. -/
def worker (th : Threads) (frame : FrameData) : Threads × List Event :=
  let connInfo := { th.server.connInfo with paketCounter := th.server.connInfo.paketCounter + 1 }
  if connInfo.paketCounter ≠ frame.counter then
    ({ th with server := { th.server with connInfo := { connInfo with paketCounter := frame.counter } } },
      [.missed (frame.counter.toUInt64 + 1)])
  else ({ th with server := { th.server with connInfo := connInfo }, buffer := th.buffer.write frame }, [])

/-- The read of the writer, with which its round goes on where the buffer is not empty. -/
def Writer.read (th : Threads) : Threads :=
  match th.t with
  | none => { th with t := th.buffer.read.1, buffer := th.buffer.read.2 }
  | some _ => th

/-- The rest of the round: the frame behind `t` becomes a list. -/
def Writer.putData (th : Threads) : Threads × List Event :=
  match th.t.bind th.buffer.deref with
  | some frame => ({ th with t := none }, [.putData frame (worker th.server frame)])
  | none => (th, [])

inductive Input where
  | frame (f : FrameData)
  | read
  | putData

def step (th : Threads) : Input → Threads × List Event
  | .frame f => worker th f
  | .read => (Writer.read th, [])
  | .putData => Writer.putData th

end Recd2.TcpServer
