import Recd2.Plugins
import Recd2.RecorderThread
import Recd2.Udp

/-! A session of the UDP streamer with the recorder behind it. The event loop hands the notifications of the socket
    and the ticks of the timer to the server one after the other (`udp-streamer/server.cpp`); each handler calls
    `put_data` for its lists, which goes along the chain, and returns behind the last of the calls. A thread that runs
    `Recorder::run` goes beside the event loop, and its steps come in any order with the calls. (The source starts a
    plain `QThread` in `startRecorder`, and `Recorder::run` is not its body: a session is the system with that thread.)

    What the chain leaves of a list does not depend on the thread, so the lists of a handler are known when it
    begins. The timer of the recorder and `deinit` are not part of a session. -/

namespace Recd2

/-! ### The chain -/

/-- The links of the interfaces, and how deep the calls along them may be nested. -/
structure Chain where
  nextPlugin : Plugin → Option Plugin
  depth : Nat

namespace Chain

/-- A call of `put_data` from the server on, with empty queues. There is no result when it does not return. -/
def putData (chain : Chain) (ls : QList) : Option World := Plugin.putData chain.depth .server ⟨chain.nextPlugin, ls, [], [], []⟩

/-- What the handler sees of the call: the list behind it. -/
def next (chain : Chain) : Server.Next := some fun ls => ((chain.putData ls).map World.list).getD ls

end Chain

/-! ### Sessions -/

/-- `inbox` holds the notifications and ticks to come, `outbox` the lists for which the running handler still has to
    call `put_data`. -/
structure Session where
  server : Server
  inbox : List Server.Input
  outbox : List QList
  thread : RecorderThread

namespace Session

/-- What goes on in a session: the event loop begins with a handler, the handler calls `put_data`, or the thread takes a
    step. -/
inductive Act where
  | handle
  | putData
  | run
  deriving DecidableEq

/-- The event loop begins with the next handler when the last one has returned. -/
def handle (chain : Chain) (s : Session) : Session :=
  match s.outbox, s.inbox with
  | [], i :: inbox =>
    let (server, es) := s.server.step chain.next i
    { s with server := server, inbox := inbox, outbox := putDataCalls es }
  | _, _ => s

/-- The next call of `put_data`: what it adds to the queue of the recorder goes to the thread. -/
def putData (chain : Chain) (s : Session) : Session :=
  match s.outbox with
  | ls :: outbox =>
    match chain.putData ls with
    | some w =>
      { s with
        outbox := outbox
        thread := w.recorderBuffer.foldl (fun t ls => (t.putData (some ls)).1) s.thread }
    | none => s
  | [] => s

def step (chain : Chain) (env : Env) (s : Session) : Act → Session × List RecordCall
  | .handle => (s.handle chain, [])
  | .putData => (s.putData chain, [])
  | .run => ({ s with thread := (s.thread.run env).1 }, (s.thread.run env).2)

/-- The session that begins when the server and the recorder are initialised. -/
def start (server : Server) (recorder : Recorder) (inbox : List Server.Input) : Session :=
  ⟨server, inbox, [], .startRecorder recorder⟩

end Session
end Recd2
