import Mathlib.Data.List.Basic

/-! The server for users (`app/server.cpp`, `UserServer`). Its slots are called for the sockets of all clients, and
    work on the one socket behind `p_conn`. Sockets are numbered in the order of their connections. -/

namespace Recd2

/-! ### The menu -/

/-- `QByteArray::contains`. -/
def contains (line text : String) : Bool := line.toList.tails.any text.toList.isPrefixOf

def isQuit (line : String) : Bool := !contains line "help" && !contains line "version" && contains line "quit"

/-- `resp` for a line. For `info` it is empty. -/
def response (line : String) : String :=
  if contains line "help" then "Help unavailable yet. See you later!\n"
  else if contains line "version" then "Version... \n"
  else if contains line "quit" then "BYE!\n"
  else if contains line "info" then ""
  else "Unknown command!\nRefer to: 'help', 'version', 'info' or 'quit' for now!\n"

/-- The loop of `hConnection` over the lines that can be read: what it writes, the lines it leaves unread, and
    whether it has disconnected. -/
def serve : List String → List String × List String × Bool
  | [] => ([], [], false)
  | line :: lines =>
    if isQuit line then ([response line], lines, true)
    else (response line :: (serve lines).1, (serve lines).2.1, (serve lines).2.2)

/-! ### The server -/

/-- `lines` holds the complete lines that have arrived and were not read, `scheduled` says that `deleteLater` was
    called. -/
structure Socket where
  connected : Bool
  lines : List String
  scheduled : Bool
  deleted : Bool
  deriving DecidableEq, Repr

/-- `conn` is `p_conn`. `crashed` stands for the use of a socket that is null or deleted, which is undefined. -/
structure UserServer where
  sockets : List Socket
  conn : Option Nat
  crashed : Bool
  deriving DecidableEq, Repr

inductive UserEvent where
  | write (i : Nat) (resp : String)
  | deleteLater (i : Nat)
  deriving DecidableEq, Repr

namespace UserServer

def new : UserServer := ⟨[], none, false⟩

/-- A call on `*p_conn`. -/
def withConn (s : UserServer) (f : Nat → Socket → Socket × List UserEvent) : UserServer × List UserEvent :=
  match s.conn.bind fun c => (s.sockets[c]?).map fun k => (c, k) with
  | some (c, k) =>
    if k.deleted then ({ s with crashed := true }, [])
    else ({ s with sockets := s.sockets.set c (f c k).1 }, (f c k).2)
  | none => ({ s with crashed := true }, [])

/-- The slot `disconnected`. -/
def disconnected (s : UserServer) : UserServer × List UserEvent :=
  s.withConn fun c k => ({ k with scheduled := true }, [.deleteLater c])

/-- The slot `hConnection`. A socket that is not connected any more sends nothing. When `quit` disconnects it,
    the slot `disconnected` runs within `disconnectFromHost`. -/
def hConnection (s : UserServer) : UserServer × List UserEvent :=
  s.withConn fun c k =>
    let r := serve k.lines
    let left := k.connected && r.2.2
    ({ k with connected := k.connected && !left, lines := r.2.1, scheduled := k.scheduled || left },
      if k.connected then r.1.map (.write c) ++ (if left then [.deleteLater c] else []) else [])

/-- `incomingConnection` with the success of `setSocketDescriptor`, behind which `newConnection` is emitted. -/
def incomingConnection (s : UserServer) (ok : Bool) : UserServer × List UserEvent :=
  hConnection { s with sockets := s.sockets ++ [⟨ok, [], false, false⟩], conn := some s.sockets.length }

/-- What can happen: a client connects; complete lines of a client arrive, and `readyRead` is emitted; a client
    disconnects; the event loop deletes a socket for which `deleteLater` was called. -/
inductive Act where
  | connect (ok : Bool)
  | lines (i : Nat) (ls : List String)
  | disconnect (i : Nat)
  | deferredDelete (i : Nat)
  deriving DecidableEq, Repr

def isConnected (s : UserServer) (i : Nat) : Bool := (s.sockets[i]?).any (·.connected)

def isScheduled (s : UserServer) (i : Nat) : Bool := (s.sockets[i]?).any fun k => k.scheduled && !k.deleted

/-- An act of a client that is not connected does not happen. The destructor of a connected socket emits
    `disconnected` before the socket is gone. -/
def step (s : UserServer) : Act → UserServer × List UserEvent
  | .connect ok => s.incomingConnection ok
  | .lines i ls =>
    if s.isConnected i ∧ ls ≠ [] then
      hConnection { s with sockets := s.sockets.modify i fun k => { k with lines := k.lines ++ ls } }
    else (s, [])
  | .disconnect i =>
    if s.isConnected i then disconnected { s with sockets := s.sockets.modify i fun k => { k with connected := false } }
    else (s, [])
  | .deferredDelete i =>
    if s.isScheduled i then
      let closed := { s with sockets := s.sockets.modify i fun k => { k with connected := false } }
      let r := if s.isConnected i then disconnected closed else (closed, [])
      ({ r.1 with sockets := r.1.sockets.modify i fun k => { k with deleted := true } }, r.2)
    else (s, [])

end UserServer
end Recd2
