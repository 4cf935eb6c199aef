import Recd2.Lib.Run

/-! The writer thread of the logger (`utils/writer.cpp`): `Writer::run` against `write` and `stopWriter`, which other
    threads call. A step is what the source does under the lock, one message written, or one test. -/

namespace Recd2

/-- Where `Writer::run` stands: in front of `sleep`, of the drain, of the loop over `dblBuff`, or of the test of
    `m_isRunning`; or it has returned. -/
inductive WriterAt where
  | sleep
  | drain
  | write
  | test
  | returned
  deriving DecidableEq, Repr

abbrev QByteArray : Type := List UInt8

structure Writer where
  isRunning : Bool
  buffer : List QByteArray
  dblBuff : List QByteArray
  runAt : WriterAt
  deriving DecidableEq, Repr

namespace Writer

/-- The constructed writer, after `startWriter`. -/
def startWriter : Writer where
  isRunning := true
  buffer := []
  dblBuff := []
  runAt := .sleep

def write (data : QByteArray) (w : Writer) : Writer := { w with buffer := w.buffer ++ [data] }

/-- `Logger::deinit` calls this and nothing else. -/
def stopWriter (w : Writer) : Writer := { w with isRunning := false }

/-- The next step of `Writer::run`, with the message that it writes to the file, if any. -/
def run (w : Writer) : Writer × List QByteArray :=
  match w.runAt with
  | .sleep => ({ w with runAt := .drain }, [])
  | .drain => ({ w with dblBuff := w.dblBuff ++ w.buffer, buffer := [], runAt := .write }, [])
  | .write =>
    match w.dblBuff with
    | d :: ds => ({ w with dblBuff := ds }, [d])
    | [] => ({ w with runAt := .test }, [])
  | .test => ({ w with runAt := if w.isRunning then .sleep else .returned }, [])
  | .returned => (w, [])

inductive Act where
  | write (data : QByteArray)
  | stopWriter
  | run
  deriving DecidableEq, Repr

def step (w : Writer) : Act → Writer × List QByteArray
  | .write data => (w.write data, [])
  | .stopWriter => (w.stopWriter, [])
  | .run => w.run

end Writer
end Recd2
