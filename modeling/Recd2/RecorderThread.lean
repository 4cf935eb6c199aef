import Recd2.Recorder

/-! The thread of the recorder (`recorder/recorder.cpp`): `Recorder::run`, taken as the body of a thread, against `put_data`
    and `deinit`, which other threads call. A step is what the source does under the lock, one call of `record`, one test,
    or one round of the loop of `deinit`; the steps of the threads come in any order. Sleeping does nothing here. -/

namespace Recd2

/-- Where `Recorder::run` stands: in front of the drain, of round `i` of the loop over `dblBuff`, or of the test
    of `running`; or it has returned, or followed a null pointer in round `i`. -/
inductive RunAt where
  | drain
  | record (i : Nat)
  | test
  | returned
  | crashed (i : Nat)
  deriving DecidableEq, Repr

/-- `running` and `buffer` are those of `m_thread`. `deinitAt` counts the steps that `deinit` has taken. -/
structure RecorderThread where
  recorder : Recorder
  running : Bool
  buffer : List QList
  dblBuff : List QList
  runAt : RunAt
  deinitAt : Nat

/-- A call of `record`: the list, and the recorder that it finds. -/
structure RecordCall where
  sd : QList
  recorder : Recorder

namespace RecorderThread

/-- `startRecorder`, at the end of `Recorder::init`, with a thread whose body is `run`. (The one that the source makes is a
    plain `QThread`, whose body is another one.) -/
def startRecorder (r : Recorder) : RecorderThread where
  recorder := r
  running := true
  buffer := []
  dblBuff := []
  runAt := .drain
  deinitAt := 0

def stopRecoder (t : RecorderThread) : RecorderThread := { t with running := false }

/-- `Recorder::put_data` up to the call of the next plugin, with its return value. -/
def putData (data : Option QList) (t : RecorderThread) : RecorderThread × Int32 :=
  match data with
  | none => (t, 1)
  | some ls => ({ t with buffer := t.buffer ++ [ls] }, 0)

/-- The next step of `Recorder::run`. -/
def run (env : Env) (t : RecorderThread) : RecorderThread × List RecordCall :=
  match t.runAt with
  | .drain => ({ t with dblBuff := t.dblBuff ++ t.buffer, buffer := [], runAt := .record 0 }, [])
  | .record i =>
    match t.dblBuff[i]? with
    | some sd =>
      match t.recorder.record env sd with
      | some r => ({ t with recorder := r, runAt := .record (i + 1) }, [⟨sd, t.recorder⟩])
      | none => ({ t with runAt := .crashed i }, [⟨sd, t.recorder⟩])
    | none => ({ t with dblBuff := [], runAt := .test }, [])
  | .test => ({ t with runAt := if t.running then .drain else .returned }, [])
  | .returned => (t, [])
  | .crashed _ => (t, [])

/-- The next step of `Recorder::deinit`: a round of its loop over the slots, and `stopRecoder` behind them. -/
def deinit (t : RecorderThread) : RecorderThread :=
  if t.deinitAt < 128 then { t with recorder := t.recorder.deinitSlot t.deinitAt, deinitAt := t.deinitAt + 1 }
  else { t.stopRecoder with deinitAt := 129 }

inductive Act where
  | putData (data : Option QList)
  | run
  | deinit
  deriving DecidableEq

def step (env : Env) (t : RecorderThread) : Act → RecorderThread × List RecordCall
  | .putData data => ((t.putData data).1, [])
  | .run => t.run env
  | .deinit => (t.deinit, [])

end RecorderThread
end Recd2
