import Recd2.Config
import Recd2.Lib.Run
import Recd2.Text
import Recd2.Wav

/-! The recorder (`recorder/recorder.cpp`): `Recorder::init`, `record` with its two ways to replace a file,
    the slots of the timer, and `deinit`.

    The thread that calls `record`, the memory of the blocks and the texts for the log server are outside
    this module. Where the source follows a null pointer, or leaves the array of slots, there is no result. -/

namespace Recd2

/-- What the recorder gets from outside, by the number of the file name that is formatted last: the text of
    `DateTime::getTimeString`, and the success of `fopen` for that name. -/
structure Env where
  timeString : Nat → String
  fopen : Nat → Bool

/-- `hotswap` is the interval of the timer, once it is started, and `digit` the static buffer of `is_digit`.
    `names` counts the file names, `dropped` holds the deleted `Wav`s. -/
structure Recorder where
  wavs : Vector (Option Wav) 128
  hotswap : Option Int32
  maxChans : Nat
  sizeBased : Bool
  maxFileSize : UInt32
  uid : UInt32
  wavParams : WavParams
  directory : String
  digit : List Char
  names : Nat
  disk : Disk
  dropped : List Wav

namespace Recorder

def new : Recorder where
  wavs := .replicate 128 none
  hotswap := none
  maxChans := 0
  sizeBased := false
  maxFileSize := 0
  uid := 0
  wavParams := ⟨0, 0, 0, 0, 0, 0⟩
  directory := ""
  digit := List.replicate 16 '\x00'
  names := 0
  disk := []
  dropped := []

/-- The `Wav` behind `m_wavs[i]`, if there is one. -/
def wav? (r : Recorder) (i : Nat) : Option Wav := r.wavs[i]?.join

def setWav (r : Recorder) (i : Nat) (w : Option Wav) : Recorder := { r with wavs := r.wavs.setIfInBounds i w }

/-! ### File names -/

/-- The name that `snprintf` writes into a buffer of 256 characters; `%d` shows `s_UID` as an `int`. -/
def fileName (directory : Option String) (slot : Nat) (uid : UInt32) (timeString : String) : String :=
  let folder := match directory with
    | some d => d ++ "/"
    | none => ""
  String.ofList ((folder ++ toString slot ++ "-" ++ toString uid.toInt32.toInt ++ "-" ++ timeString ++ ".wav").toList.take 255)

/-- `s_UID++` and the name for the slot. -/
def nextName (env : Env) (directory : Option String) (slot : Nat) (r : Recorder) : String :=
  fileName directory slot (r.uid + 1) (env.timeString r.names)

/-! ### `Recorder::init` -/

/-- The digits in front of the text go to the static buffer, which is not cleared. The result is read up to
    the first null character. -/
def isDigit (digit : List Char) (str : String) : List Char :=
  let digits := (str.toList.takeWhile Char.isDigit).take 16
  digits ++ digit.drop digits.length

def digitText (digit : List Char) : String := String.ofList (digit.takeWhile (· != '\x00'))

def initMaxChans (max : Attrib) : Nat :=
  if max.type1 = "" then 1
  else match QString.toInt max.type2 with
    | some n => if 127 < n ∨ n ≤ 0 then 1 else n.toInt.toNat
    | none => 1

def initWav (env : Env) (dir : Attrib) (r : Recorder) (i : Nat) : Recorder :=
  let directory := if dir.type1 ≠ "" then some dir.type2 else none
  { r with
    uid := r.uid + 1
    names := r.names + 1
    directory := directory.getD ""
    wavs := r.wavs.setIfInBounds i (some (Wav.new (nextName env directory i r))) }

def setupAttrib (p : WavParams) (it : Attrib) : WavParams :=
  if it.type1 = "samplesPerFrame" then { p with samplesPerSec := (QString.toInt it.type2).getD 8000 }
  else if it.type1 = "bitsPerSec" then { p with bitsPerSec := (QString.toInt it.type2).getD 16 }
  else if it.type1 = "fmtLength" then { p with fmtLen := (QString.toInt it.type2).getD 16 }
  else if it.type1 = "audioFormat" then { p with audioFmt := (QString.toShort it.type2).getD 1 }
  else if it.type1 = "channels" then { p with channCnt := (QString.toShort it.type2).getD 1 }
  else p

def setupSlot (p : WavParams) (r : Recorder) (i : Nat) : Recorder := r.setWav i ((r.wav? i).map (·.setupWave p))

def setupWavFiles (cfg : RecorderConfig) (r : Recorder) : Recorder :=
  let p := (cfg.getTagPairs "Wave").foldl setupAttrib ⟨0, 0, 0, 0, 0, 0⟩
  { (List.range r.maxChans).foldl (setupSlot p) r with wavParams := p }

/-- The time-based swap: the interval is `60000` times the number in front of the text, as an `int`. -/
def initTimer (interval : Attrib) (r : Recorder) : Recorder :=
  if interval.type1 ≠ "" then
    let digit := isDigit r.digit interval.type2
    let modifier := ((QString.toInt (digitText digit)).getD 1).toInt64.toUInt64
    { r with digit := digit, hotswap := some (60000 * modifier).toUInt32.toInt32 }
  else { r with hotswap := some 60000 }

/-- The size-based swap: the product of the number and its unit is an `unsigned long`, and is cut to 32 bits. -/
def initMaxSize (maxSize : Attrib) (r : Recorder) : Recorder :=
  if maxSize.type1 ≠ "" then
    let modifier : UInt64 :=
      if QString.containsCI maxSize.type2 "MB" || QString.containsCI maxSize.type2 "M" then 1000000
      else if QString.containsCI maxSize.type2 "GB" || QString.containsCI maxSize.type2 "G" then 1000000000
      else 1
    let digit := isDigit r.digit maxSize.type2
    let maxFileSize := match QString.toLong (digitText digit) with
      | some mfs => (mfs.toUInt64 * modifier).toUInt32
      | none => 30000000
    { r with digit := digit, maxFileSize := maxFileSize, sizeBased := true }
  else { r with sizeBased := true }

def initHotSwap (cfg : RecorderConfig) (r : Recorder) : Recorder :=
  let hotSwap := cfg.getAttribPairFromTag "HotSwap" "timeBased"
  if hotSwap.type1 ≠ "" then
    if hotSwap.type2 = "enabled" ∨ hotSwap.type2 = "true" then
      initTimer (cfg.getAttribPairFromTag "HotSwap" "interval") r
    else initMaxSize (cfg.getAttribPairFromTag "HotSwap" "maxSize") r
  else r

def init (env : Env) (cfg : RecorderConfig) (r : Recorder) : Recorder :=
  let dir := cfg.getAttribPairFromTag "Paths" "records"
  let r := { r with maxChans := initMaxChans (cfg.getAttribPairFromTag "Record" "files") }
  let r := (List.range r.maxChans).foldl (initWav env dir) r
  initHotSwap cfg (setupWavFiles cfg r)

/-! ### Replacing a file -/

/-- The sequence that `reopenWavFile`, `hotSwapFiles` and `pollHotSwap` share: a new name, and the `Wav` of
    the slot closed, deleted and replaced by a new one that is set up and opened. -/
def swapWav (env : Env) (slot : Nat) (w : Wav) (r : Recorder) : Recorder :=
  let directory := if r.directory ≠ "" then some r.directory else none
  let buff := nextName env directory slot r
  let (disk, w) := w.close r.disk
  let (disk, new) := ((Wav.new buff).setupWave r.wavParams).open (env.fopen r.names) disk slot
  { r with
    uid := r.uid + 1
    names := r.names + 1
    disk := disk
    dropped := r.dropped ++ [w]
    wavs := r.wavs.setIfInBounds slot (some new) }

def reopenWavFile (env : Env) (slot : Nat) (r : Recorder) : Recorder :=
  match r.wav? slot with
  | some w => if !w.isOpened then swapWav env slot w r else r
  | none => r

/-- The loop body of `hotSwapFiles`. -/
def hotSwapSlot (env : Env) (r : Recorder) (i : Nat) : Recorder :=
  match r.wav? i with
  | some w => if w.isOpened then swapWav env i w r else r
  | none => r

def hotSwapFiles (env : Env) (r : Recorder) : Recorder := (List.range r.maxChans).foldl (hotSwapSlot env) r

/-- The loop body of `pollHotSwap`. -/
def pollSlot (env : Env) (r : Recorder) (i : Nat) : Recorder :=
  match r.wav? i with
  | some w =>
    if w.isOpened then if r.maxFileSize.toNat < w.getFileSize r.disk then swapWav env i w r else r
    else r
  | none => r

def pollHotSwap (env : Env) (r : Recorder) : Recorder := (List.range r.maxChans).foldl (pollSlot env) r

/-! ### `Recorder::record` -/

def closeWav (slot : Nat) (w : Wav) (r : Recorder) : Recorder :=
  let (disk, w) := w.close r.disk
  { r.setWav slot (some w) with disk := disk }

def writeWav (slot : Nat) (w : Wav) (s : SampleData) (r : Recorder) : Recorder :=
  let (disk, w) := w.write r.disk s.samples s.size
  { r.setWav slot (some w) with disk := disk }

/-- The loop body of `record`. Only the branch for a zero signal byte looks for a null pointer. -/
def recordBlock (env : Env) (i : Nat) (s : SampleData) (r : Recorder) : Option Recorder :=
  match r.wavs[i]? with
  | none => none
  | some none => if s.signal = 0 then some r else none
  | some (some w) =>
    if s.signal = 0 then some (closeWav i w r)
    else if w.isOpened then some (writeWav i w s r)
    else some (reopenWavFile env i r)

/-- The loop over the list, from position `i` on. -/
def recordFrom (env : Env) : Nat → QList → Recorder → Option Recorder
  | _, [], r => some r
  | i, s :: sd, r => (recordBlock env i s r).bind (recordFrom env (i + 1) sd)

def record (env : Env) (sd : QList) (r : Recorder) : Option Recorder :=
  if sd.length ≤ 0 then some r
  else recordFrom env 0 sd (if r.sizeBased then pollHotSwap env r else r)

/-! ### `Recorder::deinit` -/

def deinitSlot (r : Recorder) (i : Nat) : Recorder :=
  match r.wav? i with
  | some w =>
    if w.isOpened then
      let (disk, w) := w.close r.disk
      { r.setWav i none with disk := disk, dropped := r.dropped ++ [w] }
    else r
  | none => r

/-- The loop of `deinit`, without the end of the thread. -/
def deinit (r : Recorder) : Recorder := (List.range 128).foldl deinitSlot r

/-! ### Runs -/

/-- What changes the recorder after `init`: a list is recorded, the timer fires, or the sizes are polled. -/
inductive Op where
  | record (sd : QList)
  | hotSwapFiles
  | pollHotSwap

def step (env : Env) (r : Recorder) : Op → Option Recorder
  | .record sd => record env sd r
  | .hotSwapFiles => some (hotSwapFiles env r)
  | .pollHotSwap => some (pollHotSwap env r)

end Recorder
end Recd2
