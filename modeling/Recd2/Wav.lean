import Recd2.Lib.Stream
import Recd2.Types

/-! The writer of wave files (`utils/wav-writer.cpp`) and the files that it makes.

    The pause flag and `m_requiresFlip` are left out: nothing reads them. -/

namespace Recd2

/-! ### Files -/

/-- A file made by `fopen(.., "wb")`, with the slot that it was opened for. -/
structure DiskFile where
  name : String
  slot : Nat
  stream : Stream
  deriving DecidableEq, Repr

/-- The files in the order they were made. Each `fopen` makes a file of its own, so the names are taken to be
    different. A `FILE*` is the place of its file. -/
abbrev Disk : Type := List DiskFile

def DiskFile.bytes (f : DiskFile) : List UInt8 := f.stream.bytes

def Disk.update (d : Disk) (file : Option Nat) (op : Stream → Stream) : Disk :=
  match file with
  | some k => d.modify k fun f => { f with stream := op f.stream }
  | none => d

/-! ### The header -/

/-- What `setupWave` takes; the recorder keeps the same numbers as `m_wavParams`. -/
structure WavParams where
  samplesPerSec : Int32
  bitsPerSec : Int32
  riffLen : Int32
  fmtLen : Int32
  audioFmt : Int16
  channCnt : Int16
  deriving DecidableEq, Repr

def WavParams.default : WavParams := ⟨8000, 16, 0, 16, 1, 1⟩

/-- `wav_hdr_t` without its tags, which are always the same when the header is written. -/
structure WavHdr where
  riffLen : Int32
  fmtLen : Int32
  audioFormat : Int16
  numChannels : Int16
  sampleRate : Int32
  byteRate : Int32
  blockAlign : Int16
  bitsPerSample : Int16
  dataLen : Int32
  deriving DecidableEq, Repr

def leInt (n : Int32) : List UInt8 := le32 n.toUInt32

def tag (s : String) : List UInt8 := s.toList.map fun c => UInt8.ofNat c.toNat

def WavHdr.toBytes (h : WavHdr) : List UInt8 :=
  tag "RIFF" ++ leInt h.riffLen ++ tag "WAVE" ++ tag "fmt " ++ leInt h.fmtLen ++ le16 h.audioFormat ++
    le16 h.numChannels ++ leInt h.sampleRate ++ leInt h.byteRate ++ le16 h.blockAlign ++ le16 h.bitsPerSample ++
    tag "data" ++ leInt h.dataLen

def sizeofWavHdr : Nat := 44

/-! ### `Wav` -/

structure Wav where
  file : Option Nat
  header : WavHdr
  filename : String
  isSetup : Bool
  isOpened : Bool
  maxSize : UInt64
  slot : Int32
  deriving DecidableEq, Repr

namespace Wav

/-- The constructor. The header is not set, and zero here; `strcpy` copies the whole name. -/
def new (fname : String) : Wav where
  file := none
  header := ⟨0, 0, 0, 0, 0, 0, 0, 0, 0⟩
  filename := fname
  isSetup := false
  isOpened := false
  maxSize := 0
  slot := -1

def setupWave (w : Wav) (p : WavParams) : Wav :=
  { w with
    header :=
      { riffLen := p.riffLen
        fmtLen := p.fmtLen
        audioFormat := p.audioFmt
        numChannels := p.channCnt
        sampleRate := p.samplesPerSec
        byteRate := p.samplesPerSec * (p.bitsPerSec / 8)
        blockAlign := (p.bitsPerSec / 8).toInt16
        bitsPerSample := p.bitsPerSec.toInt16
        dataLen := 0 }
    isSetup := true }

/-- `Wav::open`; `ok` is whether `fopen` succeeds. -/
def «open» (w : Wav) (ok : Bool) (disk : Disk) (slot : Nat) : Disk × Wav :=
  let w := { w with slot := Int32.ofNat slot }
  if !ok then (disk, { w with file := none })
  else
    let w := if !w.isSetup then w.setupWave .default else w
    (disk ++ [⟨w.filename, slot, Stream.fopen.fwrite w.header.toBytes⟩],
      { w with file := some disk.length, maxSize := w.maxSize + 44, isOpened := true })

/-- What `close` does to the stream: `data_len` goes to the end of the header, `riff_len` to offset 4. Both
    come from the position as an `int`. -/
def patchHeader (f : Stream) : Stream :=
  let fileLen := Int32.ofNat f.ftell
  let dataLen := fileLen - Int32.ofNat sizeofWavHdr
  let f := (f.fseek (sizeofWavHdr - 4)).fwrite (leInt dataLen)
  let riffLen := fileLen - 8
  (f.fseek 4).fwrite (leInt riffLen)

def close (w : Wav) (disk : Disk) : Disk × Wav :=
  if w.isOpened then (disk.update w.file patchHeader, { w with isOpened := false }) else (disk, w)

/-- `fwrite(data, sizeof(short), len, m_file)`. A count of 2^31 or more, which `int len` turns negative, is
    outside the model. -/
def write (w : Wav) (disk : Disk) (data : List Int16) (len : UInt32) : Disk × Wav :=
  (disk.update w.file (·.fwrite ((data.take len.toNat).flatMap le16)), { w with maxSize := w.maxSize + len.toUInt64 })

/-- `ftell(m_file)`. -/
def getFileSize (w : Wav) (disk : Disk) : Nat := ((w.file.bind (disk[·]?)).map (·.stream.ftell)).getD 0

end Wav
end Recd2
