import Recd2.Lib.Checked
import Recd2.Types

/-! What the thread of the peak meter does with the frames that it took (`udp-streamer/helper.cpp`: `Helper::peek` and
    the loops of `Helper::run` behind the test of the number of frames). -/

namespace Recd2
open Checked
namespace Helper

/-- The loop body of `peek`. -/
def peekSample (m_peek sample : Int16) : Int16 :=
  if m_peek.toInt32 < sample.toInt32.abs then sample.toInt32.abs.toInt16 else m_peek

/-- The result of `peek`, and `m_peek` behind it. -/
def peek (m_peek : Int16) (samples : Cells Int16) (size : Int32) : Except Fault (Int16 × Int16) :=
  if size = 0 then .ok (-1, m_peek)
  else do
    let m_peek ← forLoop size.toInt.toNat (fun i m_peek => do return peekSample m_peek (← samples.load i)) m_peek
    return (m_peek, m_peek)

/-- The array `smpls`. With each value goes the channel that it was written for. -/
abbrev Window : Type := Cells (Nat × Int16)

/-- `m_peek` and the local array `peeks`. `inspected` records for each call of `peek` in a batch the channel and the
    cells that it looks at. -/
structure Meter where
  m_peek : Int16
  peeks : Cells Int16
  inspected : List (Nat × Window)

def Meter.new : Meter := ⟨0, .replicate 64 (some 0), []⟩

/-- `fd.data[k * m_channels + j]`, with an unsigned index. -/
def sample (channels : UInt32) (fd : FrameData) (j k : Nat) : Except Fault Int16 :=
  match fd.data[(UInt32.ofNat k * channels + UInt32.ofNat j).toNat]? with
  | some x => .ok x
  | none => .error .bounds

/-- The innermost loop, over `sindex` and `smpls`. -/
def fillWindow (channels smplPerChan : UInt32) (ssize : Int32) (fd : FrameData) (j : Nat) (smpls : Window) :
    Except Fault (Int32 × Window) :=
  forLoop smplPerChan.toNat (fun k (sindex, smpls) => do
    let x ← sample channels fd j k
    let index ← remainder sindex ssize
    let smpls ← smpls.store index.toInt (j, x)
    return (sindex + 1, smpls)) (0, smpls)

/-- The body of the loop over the channels. -/
def meterChannel (channels smplPerChan : UInt32) (ssize : Int32) (fd : FrameData) (j : Nat) :
    Window × Meter → Except Fault (Window × Meter) := fun (smpls, m) => do
  let (_, smpls) ← fillWindow channels smplPerChan ssize fd j smpls
  let (peek, _) ← peek m.m_peek (smpls.map (Option.map Prod.snd)) ssize
  let peeks ← m.peeks.store j peek
  return (smpls, ⟨0, peeks, m.inspected ++ [(j, smpls.take ssize.toInt.toNat)]⟩)

/-- The body of the loop over the frames. -/
def meterFrame (channels smplPerChan : UInt32) (ssize : Int32) (s : Window × Meter) (fd : FrameData) :
    Except Fault (Window × Meter) :=
  forLoop channels.toNat (meterChannel channels smplPerChan ssize fd) s

/-- `s->m_smplPerChan * size`, which is unsigned, as the `int` that `ssize` is. -/
def windowSize (smplPerChan : UInt32) (dbl : List FrameData) : UInt32 := smplPerChan * UInt32.ofNat dbl.length

/-- The loops over a batch of frames. -/
def meter (channels smplPerChan : UInt32) (dbl : List FrameData) (m : Meter) : Except Fault Meter := do
  let smpls ← Cells.alloc (windowSize smplPerChan dbl).toNat
  let ssize := (windowSize smplPerChan dbl).toInt32
  let (_, m) ← dbl.foldlM (meterFrame channels smplPerChan ssize) (smpls, { m with inspected := [] })
  return m

/-- A batch of frames, with the settings of the server at that time. -/
structure Batch where
  channels : UInt32
  smplPerChan : UInt32
  dbl : List FrameData

/-- The batches that were processed so far. -/
def meterAll (batches : List Batch) : Except Fault Meter :=
  batches.foldlM (fun m b => meter b.channels b.smplPerChan b.dbl m) .new

end Helper
end Recd2
