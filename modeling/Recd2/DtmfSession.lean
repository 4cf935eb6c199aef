import Recd2.DtmfPlugin
import Recd2.Session

/-! A session of the UDP streamer with the DTMF plugin behind it. The event loop goes as in a session with the recorder
    (`Session.lean`), and the thread of the plugin runs beside it. The recorder is not in the chain: it frees the arrays of
    samples, which the plugin may read later. -/

namespace Recd2

/-- `inbox` and `outbox` are those of a `Session`. -/
structure DtmfSession where
  server : Server
  inbox : List Server.Input
  outbox : List QList
  plugin : DtmfPlugin

namespace DtmfSession

/-- The event loop begins with the next handler when the last one has returned. -/
def handle (chain : Chain) (s : DtmfSession) : DtmfSession :=
  match s.outbox, s.inbox with
  | [], i :: inbox =>
    let (server, es) := s.server.step chain.next i
    { s with server := server, inbox := inbox, outbox := putDataCalls es }
  | _, _ => s

/-- The next call of `put_data`: what it adds to the buffer of the plugin goes to its thread. -/
def putData (chain : Chain) (s : DtmfSession) : DtmfSession :=
  match s.outbox with
  | ls :: outbox =>
    match chain.putData ls with
    | some w => { s with outbox := outbox, plugin := { s.plugin with dtmf := s.plugin.dtmf.putData w.dtmfBuffer } }
    | none => s
  | [] => s

def step (chain : Chain) (fuel : Nat) (s_frameSize : Int32) (s : DtmfSession) :
    Session.Act → DtmfSession × List DtmfRound
  | .handle => (s.handle chain, [])
  | .putData => (s.putData chain, [])
  | .run => ({ s with plugin := (s.plugin.run fuel s_frameSize).1 }, (s.plugin.run fuel s_frameSize).2)

/-- The session that begins when the server and the plugin are initialised. -/
def start (server : Server) (plugin : DtmfPlugin) (inbox : List Server.Input) : DtmfSession :=
  ⟨server, inbox, [], plugin⟩

end DtmfSession
end Recd2
