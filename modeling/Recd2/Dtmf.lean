import Recd2.Config
import Recd2.DtmfDetector
import Recd2.Text
import Recd2.Types

/-! The DTMF plugin (`DFT/dtmf.cpp`): its settings, and the thread that packs blocks of samples into frames for the
    detector. -/

namespace Recd2
open Checked

/-- Sample `j` of a block. What is behind the end of its array is some value, here 0. -/
def SampleData.sample (s : SampleData) (j : Nat) : Int16 := s.samples.getD j 0

namespace Dtmf

/-- `s_freq` and `s_frameSize`, from the attributes `freq` and `frameSize` that `p_main` looks up. -/
def settings (freq frmSz : Attrib) : Int32 × Int32 :=
  if freq.type1 = "" ∨ frmSz.type1 = "" then (102, 160)
  else ((QString.toInt freq.type2).getD 102, (QString.toInt frmSz.type2).getD 160)

/-! ### Packing -/

/-- The loop over the samples of a block, with the index `ii` of the frame. -/
def copyBlock (smpl : SampleData) : Nat × Cells Int16 → Except Fault (Nat × Cells Int16) :=
  forLoop smpl.size.toNat fun j (ii, dtmf) => do
    let dtmf ← dtmf.store ii (smpl.sample j)
    return (ii + 1, dtmf)

/-- The loop that fills a frame. -/
def fillFrame (fuel : Nat) (s_frameSize : Int32) (dbl : QList) (it : Nat) (dtmf : Cells Int16) :
    Except Fault (Nat × Cells Int16) :=
  whileLoop (fun (ii, _) => (ii : Int) < s_frameSize.toInt && !dbl.isEmpty) (fun s =>
    match dbl[it]? with
    | some smpl => copyBlock smpl s
    | none => .error .bounds) fuel (0, dtmf)

/-- The variables of the loop over the blocks. `frames` are those that `dtmfDetecting` was called with. -/
structure Packing where
  it : Nat
  dbl : QList
  dtmf : Cells Int16
  frames : List (List Int16)

/-- The body of the loop over the blocks. `dtmfDetecting` reads the whole frame. -/
def packFrame (fuel : Nat) (s_frameSize : Int32) (p : Packing) : Except Fault Packing := do
  let (_, dtmf) ← fillFrame fuel s_frameSize p.dbl p.it p.dtmf
  let frame ← (List.range s_frameSize.toInt.toNat).mapM fun (ii : Nat) => dtmf.load ii
  return { it := p.it + 1, dbl := [], dtmf := dtmf, frames := p.frames ++ [frame] }

/-- The frames that are passed for the blocks in `dbl`. -/
def pack (fuel : Nat) (s_frameSize : Int32) (dbl : QList) : Except Fault (List (List Int16)) := do
  let dtmf ← Cells.alloc s_frameSize.toInt
  let p ← whileLoop (fun p => p.it < p.dbl.length) (packFrame fuel s_frameSize) fuel ⟨0, dbl, dtmf, []⟩
  return p.frames

end Dtmf

/-! ### The thread -/

/-- Where `Dtmf::run` stands: in front of the count, of the move of so many blocks to `dbl`, or of the packing; or a
    fault ended the packing. -/
inductive DtmfAt where
  | count
  | move (buffSize : Nat)
  | pack
  | faulted (e : Fault)
  deriving DecidableEq

/-- `sampleBuffer` is the list in `m_sampleBuffer`. -/
structure Dtmf where
  sampleBuffer : QList
  dbl : QList
  runAt : DtmfAt

namespace Dtmf

def new : Dtmf := ⟨[], [], .count⟩

/-- `put_data` up to the call of the next plugin. -/
def putData (ls : QList) (d : Dtmf) : Dtmf := { d with sampleBuffer := d.sampleBuffer ++ ls }

/-- The next step of `Dtmf::run`, and the frames that it passes to `dtmfDetecting`. The packing gets a round more than a
    frame has samples; a loop with more rounds than that does not end. -/
def run (s_frameSize : Int32) (d : Dtmf) : Dtmf × List (List Int16) :=
  match d.runAt with
  | .count =>
    let buffSize := d.sampleBuffer.length
    if (buffSize : Int) < s_frameSize.toInt then (d, []) else ({ d with runAt := .move buffSize }, [])
  | .move buffSize =>
    let dbl := d.dbl ++ d.sampleBuffer.take buffSize
    ({ sampleBuffer := [], dbl := dbl, runAt := if dbl.isEmpty then .count else .pack }, [])
  | .pack =>
    match pack (s_frameSize.toInt.toNat + 1) s_frameSize d.dbl with
    | .ok frames => ({ d with dbl := [], runAt := .count }, frames)
    | .error e => ({ d with runAt := .faulted e }, [])
  | .faulted _ => (d, [])

inductive Act where
  | putData (ls : QList)
  | run
  deriving DecidableEq

def step (s_frameSize : Int32) (d : Dtmf) : Act → Dtmf × List (List Int16)
  | .putData ls => (d.putData ls, [])
  | .run => d.run s_frameSize

end Dtmf
end Recd2
