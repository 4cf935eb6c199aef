import Recd2.Lib.Codec
import Recd2.Theorems.Files

/-! A wave file from `open` to `close`, as a reader gets it: the header, and the samples behind it. -/

namespace Recd2
open Bytes

/-! ### Reading a file -/

/-- The four bytes of an `int`. -/
def int32Codec : Codec Int32 :=
  .width 4 leInt (fun bs => (ofLE32 bs).toInt32) length_leInt fun n => by rw [leInt, ofLE32_le32, Int32.toInt32_toUInt32]

/-- The two bytes of a `short`. -/
def int16Codec : Codec Int16 := .width 2 le16 ofLE16 length_le16 ofLE16_le16

/-- The header, field by field between its tags. -/
def wavHdrCodec : Codec WavHdr :=
  .imap (.behind (tag "RIFF") (int32Codec.pair (.behind (tag "WAVE" ++ tag "fmt ") (int32Codec.pair (int16Codec.pair
      (int16Codec.pair (int32Codec.pair (int32Codec.pair (int16Codec.pair (int16Codec.pair
        (.behind (tag "data") int32Codec)))))))))))
    (fun (riffLen, fmtLen, audioFormat, numChannels, sampleRate, byteRate, blockAlign, bitsPerSample, dataLen) =>
      ⟨riffLen, fmtLen, audioFormat, numChannels, sampleRate, byteRate, blockAlign, bitsPerSample, dataLen⟩)
    (fun h => (h.riffLen, h.fmtLen, h.audioFormat, h.numChannels, h.sampleRate, h.byteRate, h.blockAlign,
      h.bitsPerSample, h.dataLen))
    fun _ => rfl

theorem encode_wavHdrCodec (h : WavHdr) : wavHdrCodec.encode h = h.toBytes := by
  simp only [WavHdr.toBytes, List.append_assoc]
  rfl

/-- The header, and the samples in the `data_len` bytes behind it. -/
def readWave (bs : List UInt8) : Option (WavHdr × List Int16) :=
  (wavHdrCodec.decode bs).bind fun h =>
    (int16Codec.decodeMany (h.1.dataLen.toUInt32.toNat / 2) (h.2.take h.1.dataLen.toUInt32.toNat)).map fun d => (h.1, d.1)

theorem readWave_toBytes {h : WavHdr} {samples : List Int16} (hlen : h.dataLen.toUInt32.toNat = 2 * samples.length) :
    readWave (h.toBytes ++ samples.flatMap le16) = some (h, samples) := by
  have hbytes : (samples.flatMap le16).length = 2 * samples.length := length_flatMap_const length_le16 samples
  have hsamples := int16Codec.decodeMany_encode samples []
  rw [List.append_nil] at hsamples
  rw [readWave, ← encode_wavHdrCodec, wavHdrCodec.decode_encode, Option.bind_some, hlen,
    Nat.mul_div_cancel_left _ Nat.two_pos, List.take_of_length_le hbytes.le]
  exact congrArg (Option.map fun d => (h, d.1)) hsamples

/-! ### Writing a file -/

/-- `Wav::write` for each array, with its number of samples. -/
def writeAll (w : Wav) (disk : Disk) (writes : List (List Int16)) : Disk × Wav :=
  writes.foldl (fun s data => s.2.write s.1 data (UInt32.ofNat data.length)) (disk, w)

/-- A `Wav` with the header that was set up, if one was. -/
def setting (name : String) (p : Option WavParams) : Wav :=
  match p with
  | some p => (Wav.new name).setupWave p
  | none => Wav.new name

/-- From `open` to `close`. -/
def recordWave (name : String) (p : Option WavParams) (disk : Disk) (slot : Nat) (writes : List (List Int16)) : Disk :=
  let opened := (setting name p).open true disk slot
  let written := writeAll opened.2 opened.1 writes
  (written.2.close written.1).1

/-- The header as `open` writes it. -/
def openedHeader (p : Option WavParams) : WavHdr := ((Wav.new "").setupWave (p.getD .default)).header

theorem open_setting (name : String) (p : Option WavParams) (disk : Disk) (slot : Nat) :
    ((setting name p).open true disk slot).1 = disk ++ [⟨name, slot, Stream.fopen.fwrite (openedHeader p).toBytes⟩] ∧
      ((setting name p).open true disk slot).2.file = some disk.length ∧
      ((setting name p).open true disk slot).2.isOpened = true := by
  cases p <;> exact ⟨rfl, rfl, rfl⟩

theorem update_snoc (disk : Disk) (f : DiskFile) (op : Stream → Stream) :
    (disk ++ [f] : Disk).update (some disk.length) op = disk ++ [{ f with stream := op f.stream }] := by
  simp [Disk.update, List.modify_eq_set_getElem?]

section Writing
variable {disk : Disk} {f : DiskFile} {w : Wav} {hdr : WavHdr} {samples : List Int16}

/-- The open file of a `Wav` at the end of the disk, with its header and the samples so far. -/
structure Open (disk : Disk) (hdr : WavHdr) (samples : List Int16) (f : DiskFile) (s : Disk × Wav) : Prop where
  onDisk : s.1 = disk ++ [f]
  file : s.2.file = some disk.length
  isOpened : s.2.isOpened = true
  growing : f.Growing
  bytes : f.bytes = hdr.toBytes ++ samples.flatMap le16

theorem open_open (name : String) (p : Option WavParams) (disk : Disk) (slot : Nat) :
    Open disk (openedHeader p) [] ⟨name, slot, Stream.fopen.fwrite (openedHeader p).toBytes⟩
      ((setting name p).open true disk slot) := by
  obtain ⟨hdisk, hfile, hopened⟩ := open_setting name p disk slot
  exact ⟨hdisk, hfile, hopened, DiskFile.growing_new name slot _, by rw [DiskFile.bytes_new]; exact (List.append_nil _).symm⟩

theorem Open.write {s : Disk × Wav} (h : Open disk hdr samples f s) {data : List Int16} (hlen : data.length < 2 ^ 32) :
    Open disk hdr (samples ++ data) { f with stream := f.stream.fwrite (data.flatMap le16) }
      (s.2.write s.1 data (UInt32.ofNat data.length)) := by
  have hall : data.take (UInt32.ofNat data.length).toNat = data := by
    rw [UInt32.toNat_ofNat', Nat.mod_eq_of_lt hlen, List.take_length]
  refine ⟨?_, h.file, h.isOpened, h.growing.fwrite _, ?_⟩
  · rw [Wav.write, hall, h.file, h.onDisk, update_snoc]
  · rw [h.growing.bytes_fwrite, h.bytes, List.append_assoc, List.flatMap_append]

theorem Open.writeAll {s : Disk × Wav} (h : Open disk hdr samples f s) {writes : List (List Int16)}
    (hlen : ∀ data ∈ writes, data.length < 2 ^ 32) :
    ∃ f', f'.name = f.name ∧ f'.slot = f.slot ∧ Open disk hdr (samples ++ writes.flatten) f' (writeAll s.2 s.1 writes) := by
  induction writes generalizing s samples f with
  | nil => exact ⟨f, rfl, rfl, by rwa [List.flatten_nil, List.append_nil]⟩
  | cons data writes ih =>
    obtain ⟨f', hname, hslot, hopen⟩ := ih (h.write (hlen data List.mem_cons_self)) fun d hd =>
      hlen d (List.mem_cons_of_mem _ hd)
    refine ⟨f', hname, hslot, ?_⟩
    rw [List.flatten_cons, ← List.append_assoc]
    exact hopen

/-- What `close` patches, in the fields of the header. -/
theorem patch_header (hdr : WavHdr) (dataLen riffLen : Int32) (rest : List UInt8) :
    patch (patch (hdr.toBytes ++ rest) 40 (leInt dataLen)) 4 (leInt riffLen) =
      { hdr with riffLen, dataLen : WavHdr }.toBytes ++ rest := by
  obtain ⟨mid, hmid, hbytes⟩ : ∃ mid : List UInt8, (tag "RIFF" ++ (leInt hdr.riffLen ++ mid)).length = 40 ∧
      ∀ riffLen dataLen, { hdr with riffLen, dataLen : WavHdr }.toBytes =
        tag "RIFF" ++ (leInt riffLen ++ (mid ++ leInt dataLen)) := by
    refine ⟨tag "WAVE" ++ (tag "fmt " ++ (leInt hdr.fmtLen ++ (le16 hdr.audioFormat ++ (le16 hdr.numChannels ++
      (leInt hdr.sampleRate ++ (leInt hdr.byteRate ++ (le16 hdr.blockAlign ++ (le16 hdr.bitsPerSample ++
        tag "data")))))))), ?_, fun riffLen dataLen => ?_⟩
    · simp [tag, length_leInt]
    · simp only [WavHdr.toBytes, List.append_assoc]
  have hdata : hdr.toBytes ++ rest = (tag "RIFF" ++ (leInt hdr.riffLen ++ mid)) ++ (leInt hdr.dataLen ++ rest) := by
    rw [hbytes hdr.riffLen hdr.dataLen]
    simp only [List.append_assoc]
  have hlen : ∀ a b : Int32, (leInt a).length = (leInt b).length := fun a b => by rw [length_leInt, length_leInt]
  rw [hdata, ← hmid, patch_append (hlen _ _), hbytes]
  simp only [List.append_assoc]
  exact patch_append (hlen _ _) (tag "RIFF") _

theorem Open.close {s : Disk × Wav} (h : Open disk hdr samples f s) :
    ∃ stream dataLen riffLen, (s.2.close s.1).1 = disk ++ [{ f with stream }] ∧
      stream.bytes = { hdr with riffLen, dataLen : WavHdr }.toBytes ++ samples.flatMap le16 ∧
      dataLen.toUInt32.toNat = (f.size - 44) % 2 ^ 32 ∧ riffLen.toUInt32.toNat = (f.size - 8) % 2 ^ 32 := by
  obtain ⟨dataLen, riffLen, hdata, hriff, hbytes⟩ := h.growing.bytes_patchHeader
  refine ⟨Wav.patchHeader f.stream, dataLen, riffLen, ?_, ?_, hdata, hriff⟩
  · rw [Wav.close, if_pos h.isOpened, h.file, h.onDisk, update_snoc]
  · rw [h.bytes, patch_header] at hbytes
    exact hbytes

end Writing

theorem length_le_flatten {writes : List (List Int16)} {data : List Int16} (h : data ∈ writes) :
    data.length ≤ writes.flatten.length := (List.sublist_flatten_of_mem h).length_le

/-- With any header setting and any writes that keep the file below 2^32 bytes, the file gets the header that was set up
    with the lengths of the file and of the samples, and the samples behind it, and reads back as these. -/
theorem wave_round_trip (name : String) (p : Option WavParams) (disk : Disk) (slot : Nat) (writes : List (List Int16))
    (hsize : 44 + 2 * writes.flatten.length < 2 ^ 32) :
    ∃ stream riffLen dataLen, recordWave name p disk slot writes = disk ++ [⟨name, slot, stream⟩] ∧
      stream.bytes = { openedHeader p with riffLen, dataLen : WavHdr }.toBytes ++ writes.flatten.flatMap le16 ∧
      stream.bytes.length = 44 + 2 * writes.flatten.length ∧
      riffLen.toUInt32.toNat = stream.bytes.length - 8 ∧ dataLen.toUInt32.toNat = 2 * writes.flatten.length ∧
      readWave stream.bytes = some ({ openedHeader p with riffLen, dataLen : WavHdr }, writes.flatten) := by
  have hshort : ∀ data ∈ writes, data.length < 2 ^ 32 := fun data hdata => by
    have := length_le_flatten hdata
    omega
  obtain ⟨f, hname, hslot, hopen⟩ := (open_open name p disk slot).writeAll hshort
  rw [List.nil_append] at hopen
  obtain ⟨stream, dataLen, riffLen, hdisk, hbytes, hdata, hriff⟩ := hopen.close
  have hlen : ∀ h : WavHdr, (h.toBytes ++ writes.flatten.flatMap le16).length = 44 + 2 * writes.flatten.length := fun h => by
    rw [List.length_append, length_toBytes_wavHdr, length_flatMap_const length_le16]
    rfl
  have hfile : f.size = 44 + 2 * writes.flatten.length := by rw [DiskFile.size, hopen.bytes, hlen]
  rw [hfile, Nat.mod_eq_of_lt (by omega)] at hdata hriff
  rw [Nat.add_sub_cancel_left] at hdata
  refine ⟨stream, riffLen, dataLen, ?_, hbytes, by rw [hbytes, hlen], by rw [hbytes, hlen, hriff], hdata, ?_⟩
  · rw [recordWave, hdisk, hname, hslot]
  · rw [hbytes]
    exact readWave_toBytes hdata

theorem wave_round_trip_twoWrites :
    ∃ stream riffLen dataLen, recordWave "0-1-12:00:00.wav" none [] 0 [[1, 2], [3]] = [⟨"0-1-12:00:00.wav", 0, stream⟩] ∧
      stream.bytes = { openedHeader none with riffLen, dataLen : WavHdr }.toBytes ++ [1, 2, 3].flatMap le16 ∧
      stream.bytes.length = 44 + 2 * 3 ∧ riffLen.toUInt32.toNat = stream.bytes.length - 8 ∧
      dataLen.toUInt32.toNat = 2 * 3 ∧
      readWave stream.bytes = some ({ openedHeader none with riffLen, dataLen : WavHdr }, [1, 2, 3]) :=
  wave_round_trip "0-1-12:00:00.wav" none [] 0 [[1, 2], [3]] (by decide)

/-! ### The derived fields -/

/-- A reader steps through the data by blocks of one sample for each channel. -/
structure WavHdr.Consistent (h : WavHdr) : Prop where
  blockAlign : h.blockAlign.toInt = h.numChannels.toInt * h.bitsPerSample.toInt / 8
  byteRate : h.byteRate.toInt = h.sampleRate.toInt * h.blockAlign.toInt

/-- Positive numbers of whole bytes for which the fields have room. -/
structure WavParams.Fits (p : WavParams) : Prop where
  rate : 1 ≤ p.samplesPerSec.toInt
  bits : 8 ≤ p.bitsPerSec.toInt
  bytes : 8 ∣ p.bitsPerSec.toInt
  channels : 1 ≤ p.channCnt.toInt
  bitsPerSample : p.bitsPerSec.toInt < 2 ^ 15
  blockAlign : p.channCnt.toInt * p.bitsPerSec.toInt / 8 < 2 ^ 15
  byteRate : p.samplesPerSec.toInt * (p.channCnt.toInt * p.bitsPerSec.toInt / 8) < 2 ^ 31

section Derived
variable {p : WavParams}

theorem toInt_bytesPerSample (h : p.Fits) : (p.bitsPerSec / 8).toInt = p.bitsPerSec.toInt / 8 := by
  rw [Int32.toInt_div_of_ne_right _ _ (by decide), Int.tdiv_eq_ediv_of_nonneg (by have := h.bits; omega)]
  rfl

theorem WavParams.Fits.bytes_le (h : p.Fits) :
    p.samplesPerSec.toInt * (p.bitsPerSec.toInt / 8) ≤
      p.samplesPerSec.toInt * (p.channCnt.toInt * p.bitsPerSec.toInt / 8) := by
  have hbits : 1 * p.bitsPerSec.toInt ≤ p.channCnt.toInt * p.bitsPerSec.toInt :=
    Int.mul_le_mul_of_nonneg_right h.channels (by have := h.bits; omega)
  rw [Int.one_mul] at hbits
  exact Int.mul_le_mul_of_nonneg_left (Int.ediv_le_ediv (by decide) hbits) (by have := h.rate; omega)

/-- The fields that `setupWave` computes from the bits leave the channels out. -/
theorem toInt_setupWave (h : p.Fits) (w : Wav) :
    (w.setupWave p).header.bitsPerSample.toInt = p.bitsPerSec.toInt ∧
      (w.setupWave p).header.blockAlign.toInt = p.bitsPerSec.toInt / 8 ∧
      (w.setupWave p).header.byteRate.toInt = p.samplesPerSec.toInt * (p.bitsPerSec.toInt / 8) := by
  have hbits := h.bits
  have hshort := h.bitsPerSample
  have hrate := h.bytes_le.trans_lt h.byteRate
  have hpos : 0 ≤ p.samplesPerSec.toInt * (p.bitsPerSec.toInt / 8) :=
    Int.mul_nonneg (by have := h.rate; omega) (by omega)
  refine ⟨?_, ?_, ?_⟩
  · simp only [Wav.setupWave, Int32.toInt_toInt16]
    exact Int.bmod_eq_of_le (by omega) (by omega)
  · simp only [Wav.setupWave, Int32.toInt_toInt16, toInt_bytesPerSample h]
    exact Int.bmod_eq_of_le (by omega) (by omega)
  · simp only [Wav.setupWave, Int32.toInt_mul, toInt_bytesPerSample h]
    exact Int.bmod_eq_of_le (by omega) (by omega)

/-- The channels are missing in `block_align`, and with it in `byte_rate`. -/
theorem consistent_setupWave (h : p.Fits) (w : Wav) : (w.setupWave p).header.Consistent ↔ p.channCnt.toInt = 1 := by
  obtain ⟨hbits, halign, hrate⟩ := toInt_setupWave h w
  obtain ⟨bytes, hbytes⟩ := h.bytes
  have hpos : 0 < bytes := by have := h.bits; omega
  have hdiv : p.bitsPerSec.toInt / 8 = bytes := by omega
  have hall : p.channCnt.toInt * p.bitsPerSec.toInt / 8 = p.channCnt.toInt * bytes := by
    rw [hbytes, Int.mul_left_comm, Int.mul_ediv_cancel_left _ (by decide)]
  have hwant : (w.setupWave p).header.numChannels.toInt * (w.setupWave p).header.bitsPerSample.toInt / 8 =
      p.channCnt.toInt * bytes := by rw [hbits, ← hall]; rfl
  constructor
  · intro hc
    have hone := hc.blockAlign
    rw [hwant, halign, hdiv] at hone
    exact Int.eq_of_mul_eq_mul_right hpos.ne' (hone.symm.trans (Int.one_mul bytes).symm)
  · intro hone
    refine ⟨?_, ?_⟩
    · rw [hwant, halign, hdiv, hone, Int.one_mul]
    · rw [hrate, halign]
      rfl

end Derived

/-- For any sample rate, bit depth and channel count whose derived fields fit, a reader gets consistent fields from the
    header that `open` writes when there is one channel, and only then. -/
theorem header_consistent_iff (p : WavParams) (h : p.Fits) (name : String) (disk : Disk) (slot : Nat) :
    ∃ f hdr, ((setting name (some p)).open true disk slot).1 = disk ++ [f] ∧
      wavHdrCodec.decode f.bytes = some (hdr, []) ∧ (hdr.Consistent ↔ p.channCnt.toInt = 1) := by
  obtain ⟨hdisk, -, -⟩ := open_setting name (some p) disk slot
  refine ⟨_, _, hdisk, ?_, consistent_setupWave h (Wav.new "")⟩
  have hread := wavHdrCodec.decode_encode (openedHeader (some p)) []
  rwa [List.append_nil, encode_wavHdrCodec, ← DiskFile.bytes_new name slot] at hread

theorem header_consistent_iff_shipped :
    ∃ f hdr, ((setting "0-1-12:00:00.wav" (some .default)).open true [] 0).1 = [f] ∧
      wavHdrCodec.decode f.bytes = some (hdr, []) ∧ (hdr.Consistent ↔ WavParams.default.channCnt.toInt = 1) :=
  header_consistent_iff .default (by constructor <;> decide) "0-1-12:00:00.wav" [] 0

/-- Two channels: each sample of both takes 4 bytes, and `block_align` says 2. -/
theorem header_consistent_counterexample :
    ∃ (p : WavParams) (name : String) (disk : Disk) (slot : Nat), p.Fits ∧
      ¬ ∃ f hdr, ((setting name (some p)).open true disk slot).1 = disk ++ [f] ∧
        wavHdrCodec.decode f.bytes = some (hdr, []) ∧ hdr.Consistent := by
  have hfits : WavParams.Fits ⟨8000, 16, 0, 16, 1, 2⟩ := by constructor <;> decide
  refine ⟨⟨8000, 16, 0, 16, 1, 2⟩, "0-1-12:00:00.wav", [], 0, hfits, ?_⟩
  rintro ⟨f, hdr, hdisk, hread, hc⟩
  rw [(open_setting _ _ _ _).1] at hdisk
  obtain rfl := List.singleton_inj.mp hdisk
  have hopened := wavHdrCodec.decode_encode (openedHeader (some ⟨8000, 16, 0, 16, 1, 2⟩)) []
  rw [List.append_nil, encode_wavHdrCodec, ← DiskFile.bytes_new "0-1-12:00:00.wav" 0, hread] at hopened
  obtain rfl := congrArg Prod.fst (Option.some_inj.mp hopened)
  have hblock := hc.blockAlign
  revert hblock
  decide

end Recd2
