import Recd2.Lib.Checked
import Recd2.Types

/-! The thread of the peak meter (`udp-streamer/helper.cpp`), which takes the frames that `Server::readyReadUdp` appends.
    A step is what the source does under the lock, or the rest of an iteration; the steps of the threads come in any
    order. Sleeping does nothing here. -/

namespace Recd2
open Checked

/-- Where `Helper::run` stands: in front of the drain of `m_buffer`, or of the test of the number of frames; or a fault
    ended the drain. -/
inductive HelperAt where
  | drain
  | test
  | faulted (e : Fault)
  deriving DecidableEq

/-- `buffer` is `m_buffer`. -/
structure Helper where
  buffer : List FrameData
  dbl : List FrameData
  runAt : HelperAt

namespace Helper

def new : Helper := ⟨[], [], .drain⟩

/-- `QList::takeFirst`, which needs a list that is not empty. -/
def takeFirst (buffer : List FrameData) : Except Fault (FrameData × List FrameData) :=
  match buffer with
  | fd :: rest => .ok (fd, rest)
  | [] => .error .bounds

/-- The loop of the drain, over `m_buffer` and `dbl`. -/
def drain (fuel : Nat) (buffer dbl : List FrameData) : Except Fault (List FrameData × List FrameData) :=
  whileLoop (fun (buffer, _) => buffer.isEmpty) (fun (buffer, dbl) => do
    let (fd, buffer) ← takeFirst buffer
    return (buffer, dbl ++ [fd])) fuel (buffer, dbl)

/-- The next step of `Helper::run`, and the frames that it moves to `dbl`. The drain gets a round more than there are
    frames. -/
def run (peekSize : Int32) (h : Helper) : Helper × List FrameData :=
  match h.runAt with
  | .drain =>
    match drain (h.buffer.length + 1) h.buffer h.dbl with
    | .ok (buffer, dbl) => ({ buffer := buffer, dbl := dbl, runAt := .test }, dbl.drop h.dbl.length)
    | .error e => ({ h with runAt := .faulted e }, [])
  | .test => ({ h with dbl := if (h.dbl.length : Int) < peekSize.toInt then h.dbl else [], runAt := .drain }, [])
  | .faulted _ => (h, [])

inductive Act where
  | append (udp : FrameData)
  | run

def step (peekSize : Int32) (h : Helper) : Act → Helper × List FrameData
  | .append udp => ({ h with buffer := h.buffer ++ [udp] }, [])
  | .run => h.run peekSize

end Helper
end Recd2
