import Mathlib.Data.List.Basic
import Recd2.Lib.Checked

/-! The DTMF detector (`DFT/DtmfDetector.cpp`). `INT32` and the other types are those of `types_cpp.hpp` where a `long` has
    eight bytes. Loops that need not end take the number of rounds that they may make. -/

namespace Recd2
open Checked

/-! ### The filter -/

def MPY48SR (o16 : Int16) (o32 : Int32) : Int32 :=
  let Temp0 : UInt32 := ((o32.toUInt32.toUInt16.toUInt32.toInt32 * o16.toInt32 + 0x4000) >>> 15).toUInt32
  let Temp1 : Int32 := (o32 >>> 16).toInt16.toInt32 * o16.toInt32
  ((Temp1 <<< 1).toUInt32 + Temp0).toInt32

/-- The states of the two resonators that `goertzel_filter` runs. -/
structure Resonators where
  Vk1_0 : Int32
  Vk2_0 : Int32
  Vk1_1 : Int32
  Vk2_1 : Int32

/-- The loop body of `goertzel_filter`. -/
def Resonators.next (Koeff0 Koeff1 : Int16) (sample : Int16) (v : Resonators) : Resonators where
  Vk1_0 := MPY48SR Koeff0 (v.Vk1_0 <<< 1) - v.Vk2_0 + sample.toInt32
  Vk2_0 := v.Vk1_0
  Vk1_1 := MPY48SR Koeff1 (v.Vk1_1 <<< 1) - v.Vk2_1 + sample.toInt32
  Vk2_1 := v.Vk1_1

/-- What is computed from a resonator behind the loop. -/
def magnitude (Koeff : Int16) (Vk1 Vk2 : Int32) : Int32 :=
  let Vk1 := Vk1 >>> 10
  let Vk2 := Vk2 >>> 10
  let Temp := MPY48SR Koeff (Vk1 <<< 1)
  let Temp := Temp.toInt16.toInt32 * Vk2.toInt16.toInt32
  Vk1.toInt16.toInt32 * Vk1.toInt16.toInt32 + Vk2.toInt16.toInt32 * Vk2.toInt16.toInt32 - Temp

/-- A read of an array that was filled. -/
def sampleAt (arraySamples : List Int16) (i : Nat) : Except Fault Int16 :=
  match arraySamples[i]? with
  | some x => .ok x
  | none => .error .bounds

/-- The loop of `goertzel_filter`. Its counter has 16 bits and `COUNT` has 32. -/
def goertzelLoop (fuel : Nat) (Koeff0 Koeff1 : Int16) (arraySamples : List Int16) (COUNT : UInt32) :
    Except Fault (UInt16 × Resonators) :=
  whileLoop (fun (ii, _) => ii.toUInt32 < COUNT) (fun (ii, v) => do
    let sample ← sampleAt arraySamples ii.toNat
    return (ii + 1, v.next Koeff0 Koeff1 sample)) fuel (0, ⟨0, 0, 0, 0⟩)

/-- The magnitudes of the two frequencies. -/
def goertzel_filter (fuel : Nat) (Koeff0 Koeff1 : Int16) (arraySamples : List Int16) (COUNT : UInt32) :
    Except Fault (List Int32) := do
  let (_, v) ← goertzelLoop fuel Koeff0 Koeff1 arraySamples COUNT
  return [magnitude Koeff0 v.Vk1_0 v.Vk2_0, magnitude Koeff1 v.Vk1_1 v.Vk2_1]

/-! ### Detection -/

/-- The loop of `norm_l`, over `var_out` and `L_var1`. -/
def normLoop (fuel : Nat) (L_var1 : Int32) : Except Fault (Int16 × Int32) :=
  whileLoop (fun (_, L_var1) => L_var1 < 0x40000000) (fun (var_out, L_var1) => .ok (var_out + 1, L_var1 <<< 1)) fuel
    (0, L_var1)

def norm_l (fuel : Nat) (L_var1 : Int32) : Except Fault Int16 :=
  if L_var1 = 0 then .ok 0
  else if L_var1 = -1 then .ok 31
  else do
    let (var_out, _) ← normLoop fuel (if L_var1 < 0 then ~~~L_var1 else L_var1)
    return var_out

namespace DtmfDetector

def CONSTANTS : List Int16 :=
  [27860, 26745, 25529, 24216, 19747, 16384, 12773, 8967, 21319, 29769, 32706, 32210, 31778, 31226, -1009, -12772, -22811,
    -30555]

def powerThreshold : Int32 := 328
def dialTonesToOhersTones : Int32 := 16
def dialTonesToOhersDialTones : Int32 := 6

/-- The sum of the absolute values, in an `INT32`. -/
def absSum (block : List Int16) : Int32 :=
  block.foldl (fun Sum x => if 0 ≤ x then Sum + x.toInt32 else Sum - x.toInt32) 0

/-- The shift that the largest sample allows. -/
def normalDial (fuel : Nat) (block : List Int16) : Except Fault Int32 := do
  let Dial ← block.foldlM (fun Dial x =>
    if x.toInt32 ≠ 0 then do
      let norm ← norm_l fuel x.toInt32
      return if norm.toInt32 < Dial then norm.toInt32 else Dial
    else .ok Dial) 32
  return Dial - 16

/-- The eighteen magnitudes `T`, by nine calls of the filter. -/
def magnitudes (fuel : Nat) (internalArray : List Int16) (COUNT : UInt32) : Except Fault (List Int32) := do
  let T ← (List.range 9).mapM fun i =>
    goertzel_filter fuel (CONSTANTS.getD (2 * i) 0) (CONSTANTS.getD (2 * i + 1) 0) internalArray COUNT
  return T.flatten

/-- The index of the largest of `T[first]` and the three behind it, when one of them is above zero. -/
def maxTone (T : List Int32) (first : Nat) : Nat :=
  ((List.range 4).foldl (fun (best, Temp) i =>
    if Temp < T.getD (first + i) 0 then (first + i, T.getD (first + i) 0) else (best, Temp)) (first, (0 : Int32))).1

/-- The average of the dial tones without the two largest, and 1 instead of 0. -/
def average (T : List Int32) (Row Column : Nat) : Int32 :=
  let Sum := (List.range 10).foldl (fun Sum i => Sum + T.getD i 0) 0
  let Sum := (Sum - T.getD Row 0 - T.getD Column 0) >>> 3
  if Sum = 0 then 1 else Sum

/-- The two tones against the average of the others. -/
def aboveAverage (T : List Int32) (Row Column : Nat) : Except Fault Bool := do
  let row ← divide (T.getD Row 0) (average T Row Column)
  let column ← divide (T.getD Column 0) (average T Row Column)
  return !(row < dialTonesToOhersDialTones) && !(column < dialTonesToOhersDialTones)

/-- The two tones against each other. -/
def balanced (T : List Int32) (Row Column : Nat) : Bool :=
  !(T.getD Row 0 < T.getD Column 0 >>> 2) && !(T.getD Column 0 < (T.getD Row 0 >>> 1) - (T.getD Row 0 >>> 3))

/-- The loop body that compares the two tones with one of the other tones. -/
def aboveOther (T : List Int32) (Row Column ii : Nat) : Except Fault Bool := do
  let row ← divide (T.getD Row 0) (T.getD ii 0)
  let column ← divide (T.getD Column 0) (T.getD ii 0)
  return !(row < dialTonesToOhersTones) && !(column < dialTonesToOhersTones)

/-- The loop body that compares the two tones with one of the dial tones. -/
def aboveDialTone (T : List Int32) (Row Column ii : Nat) : Except Fault Bool :=
  if T.getD ii 0 ≠ T.getD Column 0 ∧ T.getD ii 0 ≠ T.getD Row 0 then do
    let row ← divide (T.getD Row 0) (T.getD ii 0)
    let column ← divide (T.getD Column 0) (T.getD ii 0)
    let least := if Column ≠ 4 then dialTonesToOhersDialTones else dialTonesToOhersDialTones / 3
    return !(row < dialTonesToOhersDialTones) && !(column < least)
  else .ok true

def pushButton (Row Column : Nat) : Char :=
  (([['1', '2', '3', 'A'], ['4', '5', '6', 'B'], ['7', '8', '9', 'C'], ['*', '0', '#', 'D']].getD Row []).getD
    (Column - 4) ' ')

/-- The comparisons behind the replacement of the zeros in `T`. -/
def aboveAll (T : List Int32) (Row Column : Nat) : Except Fault Bool := do
  let others ← ((List.range 8).map (10 + ·)).allM (aboveOther T Row Column)
  if others then (List.range 10).allM (aboveDialTone T Row Column) else .ok false

/-- The decision from the magnitudes: a blank as soon as a comparison fails. -/
def verdict (T : List Int32) : Except Fault Char := do
  let Row := maxTone T 0
  let Column := maxTone T 4
  let average ← aboveAverage T Row Column
  if average && balanced T Row Column then
    let all ← aboveAll (T.map fun t => if t = 0 then 1 else t) Row Column
    return if all then pushButton Row Column else ' '
  else return ' '

/-- `DTMF_detection` of the block of `SAMPLES` samples behind its argument. -/
def DTMF_detection (fuel : Nat) (SAMPLES : Int32) (block : List Int16) : Except Fault Char := do
  let Sum ← divide (absSum block) SAMPLES
  if Sum < powerThreshold then return ' '
  else
    let Dial ← normalDial fuel block
    let internalArray := block.map fun x => (x.toInt32 <<< Dial).toInt16
    let T ← magnitudes fuel internalArray SAMPLES.toUInt32
    verdict T

end DtmfDetector

/-! ### The detector -/

/-- What the verdicts on the blocks change. `detected` records each call of `DTMF_detection` with its result, and
    `appended` each button with its index. -/
structure DialButtons where
  dialButtons : Cells Char
  indexForDialButtons : Int
  prevDialButton : Char
  permissionFlag : Bool
  detected : List (List Int16 × Char)
  appended : List (Int × Char)

structure DtmfDetector where
  frameSize : Int32
  SAMPLES : Int32
  pArraySamples : Cells Int16
  frameCount : Int32
  buttons : DialButtons

namespace DialButtons

def NUMBER_OF_BUTTONS : Nat := 65

def new : DialButtons where
  dialButtons := (List.replicate NUMBER_OF_BUTTONS none).set 0 (some '\x00')
  indexForDialButtons := 0
  prevDialButton := ' '
  permissionFlag := false
  detected := []
  appended := []

/-- The button is stored, with a null character behind it. -/
def append (b : DialButtons) (button : Char) : Except Fault DialButtons := do
  let index := b.indexForDialButtons
  let cells ← b.dialButtons.store index button
  let cells ← cells.store (index + 1) '\x00'
  return { b with
    dialButtons := cells
    indexForDialButtons := if 64 ≤ index + 1 then 0 else index + 1
    appended := b.appended ++ [(index, button)] }

/-- The rest of the loop body behind the call of `DTMF_detection`. -/
def accept (b : DialButtons) (block : List Int16) (temp_dial_button : Char) : Except Fault DialButtons := do
  let b := { b with detected := b.detected ++ [(block, temp_dial_button)] }
  let b ← if b.permissionFlag ∧ temp_dial_button ≠ ' ' then b.append temp_dial_button else .ok b
  return { b with
    permissionFlag := temp_dial_button ≠ ' ' ∧ b.prevDialButton = ' '
    prevDialButton := temp_dial_button }

end DialButtons

namespace DtmfDetector

/-- The constructor. `new` of a negative number of elements throws. -/
def new (frameSize_ smpls : Int32) : Except Fault DtmfDetector := do
  let pArraySamples ← Cells.alloc (frameSize_ + smpls).toInt
  let _internalArray : Cells Int16 ← Cells.alloc smpls.toInt
  return ⟨frameSize_, smpls, pArraySamples, 0, .new⟩

/-- The samples from `temp_index` on that `DTMF_detection` reads. Its loops count to `SAMPLES` as an unsigned number. -/
def loadBlock (d : DtmfDetector) (temp_index : Nat) : Except Fault (List Int16) :=
  (List.range d.SAMPLES.toUInt32.toNat).mapM fun ii => d.pArraySamples.load (temp_index + ii : Nat)

/-- The body of the block loop. A `temp_index` that does not fit into a `UINT32` is behind the end of every array. -/
def detectBlock (fuel : Nat) : DtmfDetector × Nat → Except Fault (DtmfDetector × Nat) := fun (d, temp_index) => do
  let block ← d.loadBlock temp_index
  let temp_dial_button ← DTMF_detection fuel d.SAMPLES block
  let buttons ← d.buttons.accept block temp_dial_button
  return ({ d with frameCount := d.frameCount - d.SAMPLES, buttons := buttons },
    temp_index + d.SAMPLES.toUInt32.toNat)

/-- The loop that puts the frame behind the samples that are left. -/
def copyFrame (d : DtmfDetector) (input_array : List Int16) : Except Fault (Cells Int16) :=
  forLoop d.frameSize.toInt.toNat (fun ii cells => do
    cells.store (ii + d.frameCount.toInt) (← sampleAt input_array ii)) d.pArraySamples

/-- The loop that moves what is left to the front. -/
def moveRest (d : DtmfDetector) (temp_index : Nat) : Except Fault (Cells Int16) :=
  forLoop d.frameCount.toInt.toNat (fun ii cells => do
    cells.store ii (← cells.load (ii + temp_index : Nat))) d.pArraySamples

def dtmfDetecting (fuel : Nat) (d : DtmfDetector) (input_array : List Int16) : Except Fault DtmfDetector := do
  let cells ← d.copyFrame input_array
  let d := { d with pArraySamples := cells, frameCount := d.frameCount + d.frameSize }
  if d.SAMPLES ≤ d.frameCount then
    let (d, temp_index) ← whileLoop (fun (d, _) => d.SAMPLES ≤ d.frameCount) (detectBlock fuel) fuel (d, 0)
    let cells ← d.moveRest temp_index
    return { d with pArraySamples := cells }
  else return d

/-- The calls for a list of frames. -/
def feed (fuel : Nat) (d : DtmfDetector) (frames : List (List Int16)) : Except Fault DtmfDetector :=
  frames.foldlM (dtmfDetecting fuel) d

end DtmfDetector
end Recd2
