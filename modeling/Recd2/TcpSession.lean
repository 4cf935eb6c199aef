import Recd2.RecorderThread
import Recd2.Tcp
import Recd2.TcpReceive

/-! A session of the TCP transport with the recorder behind it: the socket worker between `accept` and `close`
    (`udp-streamer/tcp-server.cpp`), the writer thread, and the thread of the recorder. The steps of the three come in
    any order. What `read` returns is the input of a step of the socket worker. -/

namespace Recd2

structure TcpSession where
  connection : TcpServer.Connection
  threads : TcpServer.Threads
  thread : RecorderThread

namespace TcpSession

inductive Act where
  | receive (r : TcpServer.ReadResult)
  | writerRead
  | writerPut
  | run

/-- The lists that the writer passes to `put_data`. -/
def putDataLists (es : List TcpServer.Event) : List QList :=
  es.filterMap fun
    | .putData _ ls => some ls
    | .missed _ => none

/-- A `read` of the socket worker, with what it does with the frame that is complete then. -/
def receive (r : TcpServer.ReadResult) (s : TcpSession) : TcpSession :=
  { s with
    connection := (s.connection.step r).1
    threads := Run.state (fun th f => TcpServer.worker th f) s.threads (s.connection.step r).2 }

/-- The rest of the writer's round. The list goes along the chain to `put_data` of the recorder. -/
def writerPut (s : TcpSession) : TcpSession :=
  { s with
    threads := (TcpServer.Writer.putData s.threads).1
    thread := (putDataLists (TcpServer.Writer.putData s.threads).2).foldl (fun t ls => (t.putData (some ls)).1) s.thread }

def step (env : Env) (s : TcpSession) : Act → TcpSession × List RecordCall
  | .receive r => (s.receive r, [])
  | .writerRead => ({ s with threads := TcpServer.Writer.read s.threads }, [])
  | .writerPut => (s.writerPut, [])
  | .run => ({ s with thread := (s.thread.run env).1 }, (s.thread.run env).2)

/-- The session that begins with an accepted connection. -/
def start (selectResult : Int32) (threads : TcpServer.Threads) (recorder : Recorder) : TcpSession :=
  ⟨.accepted selectResult, threads, .startRecorder recorder⟩

end TcpSession
end Recd2
