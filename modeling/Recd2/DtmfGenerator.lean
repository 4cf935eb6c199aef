import Mathlib.Data.List.Basic
import Recd2.DtmfDetector

/-! The DTMF generator (`DFT/DtmfGenerator.cpp`). Its `MPY48SR` is the one of the detector. -/

namespace Recd2
open Checked

/-! ### The oscillators -/

/-- The states of the two oscillators that `frequency_oscillator` runs. -/
structure Oscillators where
  Temp1_0 : Int32
  Temp1_1 : Int32
  Temp2_0 : Int32
  Temp2_1 : Int32
  deriving DecidableEq

namespace Oscillators

/-- What a round of `frequency_oscillator` makes of the states. -/
def next (Coeff0 Coeff1 : Int16) (v : Oscillators) : Oscillators where
  Temp1_0 := MPY48SR Coeff0 (v.Temp1_0 <<< 1) - v.Temp2_0
  Temp1_1 := MPY48SR Coeff1 (v.Temp1_1 <<< 1) - v.Temp2_1
  Temp2_0 := v.Temp1_0
  Temp2_1 := v.Temp1_1

/-- What a round writes, from the states that it leaves. -/
def output (Coeff0 Coeff1 : Int16) (v : Oscillators) : Int16 :=
  let Subject := Coeff0.toInt32 * Coeff1.toInt32
  let Temp0 := v.Temp1_0 + v.Temp1_1
  (if Subject ≠ 0 then Temp0 >>> 1 else Temp0).toInt16

end Oscillators

/-- The loop body of `frequency_oscillator`, over the counter, the states and the array. -/
def oscillatorRound (Coeff0 Coeff1 : Int16) :
    UInt16 × Oscillators × Cells Int16 → Except Fault (UInt16 × Oscillators × Cells Int16) := fun (ii, v, y) => do
  let v := v.next Coeff0 Coeff1
  let y ← y.store ii.toNat (v.output Coeff0 Coeff1)
  return (ii + 1, v, y)

/-- The loop of `frequency_oscillator`. Its counter has 16 bits and `COUNT` has 32. -/
def oscillatorLoop (fuel : Nat) (Coeff0 Coeff1 : Int16) (COUNT : UInt32) (v : Oscillators) (y : Cells Int16) :
    Except Fault (UInt16 × Oscillators × Cells Int16) :=
  whileLoop (fun (ii, _, _) => ii.toUInt32 < COUNT) (oscillatorRound Coeff0 Coeff1) fuel (0, v, y)

def frequency_oscillator (fuel : Nat) (Coeff0 Coeff1 : Int16) (COUNT : UInt32) (v : Oscillators) (y : Cells Int16) :
    Except Fault (Oscillators × Cells Int16) := do
  let (_, v, y) ← oscillatorLoop fuel Coeff0 Coeff1 COUNT v y
  return (v, y)

/-! ### The generator -/

/-- `y` holds `y1_1`, `y1_2`, `y2_1` and `y2_2`. -/
structure DtmfGenerator where
  countDurationPushButton : Int32
  countDurationPause : Int32
  tempCountDurationPushButton : Int32
  tempCountDurationPause : Int32
  readyFlag : Int32
  pushDialButtons : Cells Char
  countLengthDialButtonsArray : UInt32
  count : UInt32
  sizeOfFrame : Int32
  tempCoeff1 : Int16
  tempCoeff2 : Int16
  y : Oscillators

namespace DtmfGenerator

def tempCoeff : List Int16 := [27980, 26956, 25701, 24218, 19073, 16325, 13085, 9315]

/-- The cases of the `switch`: the places of the two coefficients. -/
def tones : Char → Option (Nat × Nat)
  | '1' => some (0, 4)
  | '2' => some (0, 5)
  | '3' => some (0, 6)
  | 'A' => some (0, 7)
  | '4' => some (1, 4)
  | '5' => some (1, 5)
  | '6' => some (1, 6)
  | 'B' => some (1, 7)
  | '7' => some (2, 4)
  | '8' => some (2, 5)
  | '9' => some (2, 6)
  | 'C' => some (2, 7)
  | '*' => some (3, 4)
  | '0' => some (3, 5)
  | '#' => some (3, 6)
  | 'D' => some (3, 7)
  | _ => none

/-- `tempCoeff1` and `tempCoeff2` for a button. -/
def coefficients (button : Char) : Int16 × Int16 :=
  match tones button with
  | some (low, high) => (tempCoeff.getD low 0, tempCoeff.getD high 0)
  | none => (0, 0)

/-- The states from which the tone of a button starts. -/
def start (button : Char) : Oscillators :=
  match tones button with
  | some (low, high) => ⟨(tempCoeff.getD low 0).toInt32, (tempCoeff.getD high 0).toInt32, 31000, 31000⟩
  | none => ⟨0, 0, 0, 0⟩

/-- The constructor. A member that it does not set is what the memory holds. -/
def new (memory : DtmfGenerator) (FrameSize DurationPush DurationPause : Int32) : Except Fault DtmfGenerator := do
  let push ← divide (DurationPush <<< 3) FrameSize
  let pause ← divide (DurationPause <<< 3) FrameSize
  return { memory with
    countDurationPushButton := push + 1
    countDurationPause := pause + 1
    sizeOfFrame := FrameSize
    readyFlag := 1
    countLengthDialButtonsArray := 0
    pushDialButtons := List.replicate 20 none }

def getReadyFlag (g : DtmfGenerator) : Int32 := if g.readyFlag ≠ 0 then 1 else 0

def dtmfGeneratorReset (g : DtmfGenerator) : DtmfGenerator :=
  { g with countLengthDialButtonsArray := 0, count := 0, readyFlag := 1 }

/-- The `switch`, and the test in front of it. -/
def pressButton (g : DtmfGenerator) : Except Fault DtmfGenerator :=
  if g.countDurationPushButton = g.tempCountDurationPushButton then do
    let button ← g.pushDialButtons.load g.count.toNat
    return { g with tempCoeff1 := (coefficients button).1, tempCoeff2 := (coefficients button).2, y := start button }
  else .ok g

/-- The loop that fills the frame with zeros. -/
def silence (sizeOfFrame : Int32) (y : Cells Int16) : Except Fault (Cells Int16) :=
  forLoop sizeOfFrame.toInt.toNat (fun ii y => y.store ii 0) y

/-- What stands behind the inner loops, whose bodies return. -/
def nextButton (g : DtmfGenerator) : DtmfGenerator :=
  { g with
    tempCountDurationPushButton := g.countDurationPushButton
    tempCountDurationPause := g.countDurationPause
    count := g.count + 1
    countLengthDialButtonsArray := g.countLengthDialButtonsArray - 1 }

/-- The outer loop, over the buttons that are left. Each round but one that returns lowers
    `countLengthDialButtonsArray` by one. -/
def buttonLoop (fuel : Nat) : Nat → DtmfGenerator → Cells Int16 → Except Fault (DtmfGenerator × Cells Int16)
  | 0, g, y => .ok ({ g with readyFlag := 1 }, y)
  | left + 1, g, y => do
    let g ← g.pressButton
    if 0 < g.tempCountDurationPushButton then
      let (v, y) ← frequency_oscillator fuel g.tempCoeff1 g.tempCoeff2 g.sizeOfFrame.toUInt32 g.y y
      return ({ g with tempCountDurationPushButton := g.tempCountDurationPushButton - 1, y := v }, y)
    else if 0 < g.tempCountDurationPause then
      let y ← silence g.sizeOfFrame y
      return ({ g with tempCountDurationPause := g.tempCountDurationPause - 1 }, y)
    else buttonLoop fuel left g.nextButton y

def dtmfGenerating (fuel : Nat) (g : DtmfGenerator) (y : Cells Int16) : Except Fault (DtmfGenerator × Cells Int16) :=
  if g.readyFlag ≠ 0 then .ok (g, y) else buttonLoop fuel g.countLengthDialButtonsArray.toNat g y

/-- A read of the array of buttons. -/
def buttonAt (dialButtonsArray : List Char) (i : Nat) : Except Fault Char :=
  match dialButtonsArray[i]? with
  | some x => .ok x
  | none => .error .bounds

/-- The loop that copies the buttons. -/
def copyButtons (dialButtonsArray : List Char) (n : Nat) (cells : Cells Char) : Except Fault (Cells Char) :=
  forLoop n (fun ii cells => do
    cells.store ii (← buttonAt dialButtonsArray ii)) cells

def transmitNewDialButtonsArray (g : DtmfGenerator) (dialButtonsArray : List Char) (lengthDialButtonsArray : UInt32) :
    Except Fault (DtmfGenerator × Int32) :=
  if g.getReadyFlag = 0 then .ok (g, 0)
  else if lengthDialButtonsArray = 0 then
    .ok ({ g with countLengthDialButtonsArray := 0, count := 0, readyFlag := 1 }, 1)
  else do
    let length := if 20 < lengthDialButtonsArray then 20 else lengthDialButtonsArray
    let cells ← copyButtons dialButtonsArray length.toNat g.pushDialButtons
    return ({ g with
      countLengthDialButtonsArray := length
      pushDialButtons := cells
      tempCountDurationPushButton := g.countDurationPushButton
      tempCountDurationPause := g.countDurationPause
      count := 0
      readyFlag := 0 }, 1)

/-! ### The calls -/

/-- The calls of a caller, with the arrays that it gives. -/
inductive Call where
  | transmitNewDialButtonsArray (dialButtonsArray : List Char) (lengthDialButtonsArray : UInt32)
  | dtmfGenerating (y : Cells Int16)
  | dtmfGeneratorReset
  | getReadyFlag

/-- What the caller sees of a call. -/
inductive Seen where
  | returned (value : Int32)
  | out (y : Cells Int16)
  deriving DecidableEq

def call (fuel : Nat) (g : DtmfGenerator) : Call → Except Fault (DtmfGenerator × List Seen)
  | .transmitNewDialButtonsArray dialButtonsArray length => do
    let (g, value) ← g.transmitNewDialButtonsArray dialButtonsArray length
    return (g, [.returned value])
  | .dtmfGenerating y => do
    let (g, y) ← g.dtmfGenerating fuel y
    return (g, [.out y])
  | .dtmfGeneratorReset => .ok (g.dtmfGeneratorReset, [])
  | .getReadyFlag => .ok (g, [.returned g.getReadyFlag])

/-- A run of calls, to its end. -/
def calls (fuel : Nat) : DtmfGenerator → List Call → Except Fault (DtmfGenerator × List Seen) := runs (call fuel)

end DtmfGenerator
end Recd2
