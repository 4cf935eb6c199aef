import Recd2.Dtmf

/-! The DTMF plugin with its detector (`DFT/dtmf.cpp`): the detector that `init` makes, and what `run` does with the frames
    that it packs: the calls of `dtmfDetecting`, and the lines that it prints behind each of them. -/

namespace Recd2
open Checked

/-- The line `#[ii] We got: [button]`. -/
structure DtmfLine where
  ii : Nat
  button : Char
  deriving DecidableEq, Repr

/-- A frame that was passed to the detector, and what is printed behind the call. -/
structure DtmfRound where
  frame : List Int16
  lines : List DtmfLine
  deriving DecidableEq

structure DtmfPlugin where
  dtmf : Dtmf
  m_dtmfDetector : DtmfDetector

namespace DtmfPlugin

def s_DialButtons : List Char :=
  ['1', '2', '3', 'A', '4', '5', '6', 'B', '7', '8', '9', 'C', '*', '0', '#', 'D']

/-- `init`. The second argument of the detector is the number of samples in a block. -/
def init (s_frameSize s_freq : Int32) : Except Fault DtmfPlugin := do
  let detector ← DtmfDetector.new s_frameSize s_freq
  return ⟨.new, detector⟩

def buttonAt (ii : Nat) : Except Fault Char :=
  match s_DialButtons[ii]? with
  | some button => .ok button
  | none => .error .bounds

/-- The loop body for one of the buttons that are detected. -/
def printButton (b : DialButtons) (ii : Nat) (lines : List DtmfLine) : Except Fault (List DtmfLine) := do
  let detected ← b.dialButtons.load ii
  let button ← buttonAt ii
  if detected ≠ button then return lines else return lines ++ [⟨ii, button⟩]

def printButtons (b : DialButtons) : Except Fault (List DtmfLine) :=
  if b.indexForDialButtons < 1 then .ok [] else forLoop b.indexForDialButtons.toNat (printButton b) []

/-- The loop body behind the packing of a frame. -/
def detectFrame (fuel : Nat) : DtmfDetector × List DtmfRound → List Int16 → Except Fault (DtmfDetector × List DtmfRound) :=
  fun (detector, rounds) frame => do
    let detector ← detector.dtmfDetecting fuel frame
    let lines ← printButtons detector.buttons
    return (detector, rounds ++ [⟨frame, lines⟩])

/-- The next step of `run`. The loop over the blocks clears their list in its first round, so that a step has one frame to
    detect, or none. -/
def run (fuel : Nat) (s_frameSize : Int32) (p : DtmfPlugin) : DtmfPlugin × List DtmfRound :=
  let (dtmf, frames) := p.dtmf.run s_frameSize
  match frames.foldlM (detectFrame fuel) (p.m_dtmfDetector, []) with
  | .ok (detector, rounds) => (⟨dtmf, detector⟩, rounds)
  | .error e => (⟨{ dtmf with runAt := .faulted e }, p.m_dtmfDetector⟩, [])

def step (fuel : Nat) (s_frameSize : Int32) (p : DtmfPlugin) : Dtmf.Act → DtmfPlugin × List DtmfRound
  | .putData ls => ({ p with dtmf := p.dtmf.putData ls }, [])
  | .run => p.run fuel s_frameSize

end DtmfPlugin
end Recd2
