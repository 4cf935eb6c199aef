import Recd2.Writer

/-! The log of the application. The plugins send messages as datagrams (`utils/ipc-msg.cpp`) to the message server
    (`app/server.cpp`), which passes what it reads to the logger (`utils/logger.cpp`). The application calls the logger
    itself. The thread of the writer (`Writer.lean`) writes the file.

    The socket of the server is bound. The system may drop a datagram that is sent, any process may send one, and a read may
    fail. A step is one round of a loop, or one call; they come in any order. -/

namespace Recd2

/-- What is in front of the null character of a C string. -/
structure CString where
  bytes : List UInt8
  nonzero : 0 ∉ bytes

structure UdpDatagram where
  bytes : QByteArray
  size_le : bytes.length ≤ 65507

namespace IPC

/-- `snprintf` of `"[%s]:%s"` into an array of 512. -/
def module_msg (module msg : CString) : QByteArray :=
  (['['.toUInt8] ++ module.bytes ++ [']'.toUInt8, ':'.toUInt8] ++ msg.bytes).take 511

/-- The datagram of `sendMessage`. -/
def datagram (module msg : CString) : UdpDatagram where
  bytes := module_msg module msg
  size_le := Nat.le_trans (List.length_take_le _ _) (by decide)

end IPC

namespace MsgServer

/-- A read that fails leaves the array as `resize` made it, and the datagram may be gone or not. -/
inductive ReadDatagram where
  | received
  | failed (uninitialised : Nat → UInt8) (gone : Bool)

/-- The result of `readDatagram`, the array behind it, and whether the datagram is taken. -/
def readDatagram (d : UdpDatagram) : ReadDatagram → Int64 × QByteArray × Bool
  | .received => (Int64.ofNat d.bytes.length, d.bytes, true)
  | .failed uninitialised gone => (-1, (List.range d.bytes.length).map uninitialised, gone)

end MsgServer

/-- `pending` are the datagrams that wait in the socket of the server. -/
structure Log where
  pending : List UdpDatagram
  writer : Writer

namespace Log

inductive Act where
  | sendMessage (module msg : CString) (delivered : Bool)
  | receive (d : UdpDatagram)
  | readyRead (r : MsgServer.ReadDatagram)
  | logMessage (msg : QByteArray)
  | deinit
  | run

/-- Who calls `logMessage`. -/
inductive Caller where
  | server
  | application
  deriving DecidableEq

/-- A datagram comes to the socket, `logMessage` is called, or the thread writes to the file. -/
inductive Event where
  | arrived (d : UdpDatagram)
  | logMessage (caller : Caller) (msg : QByteArray)
  | written (msg : QByteArray)

/-- Before the thread runs. What is logged earlier is in the buffer when it starts. -/
def start : Log := ⟨[], .startWriter⟩

def logMessage (caller : Caller) (msg : QByteArray) (l : Log) : Log × List Event :=
  ({ l with writer := l.writer.write msg }, [.logMessage caller msg])

def arrive (d : UdpDatagram) (l : Log) : Log × List Event := ({ l with pending := l.pending ++ [d] }, [.arrived d])

/-- A round of the loop in `readyRead`. The result of `readDatagram` is compared as an unsigned number. -/
def readyRead (r : MsgServer.ReadDatagram) (l : Log) : Log × List Event :=
  match l.pending with
  | [] => (l, [])
  | d :: rest =>
    let (result, msg, taken) := MsgServer.readDatagram d r
    let read : UInt64 := result.toUInt64
    let l := { l with pending := if taken then rest else d :: rest }
    if 0 < read then l.logMessage .server msg else (l, [])

def step (l : Log) : Act → Log × List Event
  | .sendMessage module msg delivered => if delivered then l.arrive (IPC.datagram module msg) else (l, [])
  | .receive d => l.arrive d
  | .readyRead r => l.readyRead r
  | .logMessage msg => l.logMessage .application msg
  | .deinit => ({ l with writer := l.writer.stopWriter }, [])
  | .run => ({ l with writer := l.writer.run.1 }, l.writer.run.2.map .written)

end Log
end Recd2
