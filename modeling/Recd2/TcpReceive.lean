import Recd2.Types

/-! The receive loops of the socket worker (`udp-streamer/tcp-server.cpp`), from an accepted connection to
    `close`. The frames that the inner loop assembles go to `TcpServer.worker`. -/

namespace Recd2.TcpServer
open Bytes

/-- What `read` returns: it stores some bytes, or fails with -1. No bytes mean that the peer has closed. -/
inductive ReadResult where
  | bytes (bs : List UInt8)
  | error
  deriving DecidableEq, Repr

/-- `int nn`. -/
def ReadResult.nn : ReadResult → Int32
  | .bytes bs => Int32.ofNat bs.length
  | .error => -1

/-- `frame`, `len`, and `buffer` as its distance from the start of the frame. -/
structure Assembly where
  frame : List UInt8
  len : UInt64
  buffer : Int
  deriving DecidableEq, Repr

namespace Assembly

/-- `frame` starts as zeros. -/
def start : Assembly := ⟨List.replicate sizeofFrameData 0, 0, 0⟩

/-- `SIZE - len`, the bytes that `read` may return. -/
def requested (a : Assembly) : UInt64 := UInt64.ofNat sizeofFrameData - a.len

/-- One round: `read` stores at `buffer`, and `nn` is added to the unsigned `len` and to the pointer. -/
def read (a : Assembly) (r : ReadResult) : Assembly where
  frame := match r with
    | .bytes bs => patch a.frame a.buffer.toNat bs
    | .error => a.frame
  len := a.len + r.nn.toInt64.toUInt64
  buffer := a.buffer + r.nn.toInt

end Assembly

/-- An accepted connection. `assembly` is `none` where the loops are left and the connection is closed. -/
structure Connection where
  selectResult : Int32
  assembly : Option Assembly
  deriving DecidableEq, Repr

namespace Connection

/-- The condition of the loop around the assembly, `select_result > 0`. -/
def loop (selectResult : Int32) : Connection := ⟨selectResult, if 0 < selectResult then some .start else none⟩

def accepted (selectResult : Int32) : Connection := loop selectResult

/-- The connection after `read` has returned, with the frame that the inner loop leaves when its condition
    `len < SIZE` fails. -/
def step (c : Connection) (r : ReadResult) : Connection × List FrameData :=
  match c.assembly with
  | none => (c, [])
  | some a =>
    let a := a.read r
    if a.len < UInt64.ofNat sizeofFrameData then ({ c with assembly := some a }, [])
    else (loop c.selectResult, [FrameData.ofBytes a.frame])

end Connection
end Recd2.TcpServer
