import Recd2.Wav

/-! The files of a slot on the disk, and what the operations of `Wav` do to them. A file that was closed has
    the lengths of its header patched, a file that is open is written at its end. -/

namespace Recd2
open Bytes

/-! ### One file -/

namespace DiskFile

/-- The sample data: what is behind the header. -/
def data (f : DiskFile) : List UInt8 := f.bytes.drop sizeofWavHdr

/-- The size of the file in bytes. -/
def size (f : DiskFile) : Nat := f.bytes.length

/-- `riff_len`, read as an unsigned number. -/
def riffLen (f : DiskFile) : Nat := ofLE (slice 4 4 f.bytes)

/-- `data_len`, read as an unsigned number. -/
def dataLen (f : DiskFile) : Nat := ofLE (slice 40 4 f.bytes)

/-- The header has the lengths that belong to the size, modulo 2^32. -/
structure Finalised (f : DiskFile) : Prop where
  header : sizeofWavHdr ≤ f.size
  riffLen : f.riffLen = (f.size - 8) % 2 ^ 32
  dataLen : f.dataLen = (f.size - 44) % 2 ^ 32

/-- The header is written, and the position is at the end. -/
structure Growing (f : DiskFile) : Prop where
  header : sizeofWavHdr ≤ f.size
  atEnd : f.stream.AtEnd

end DiskFile

theorem length_leInt (n : Int32) : (leInt n).length = 4 := length_le32 _

theorem ofLE_leInt (n : Int32) : ofLE (leInt n) = n.toUInt32.toNat :=
  ofLE_toLE_of_lt (show n.toUInt32.toNat < 256 ^ 4 from n.toUInt32.toNat_lt)

/-- The header lengths, which go through `int`, are the differences modulo 2^32. -/
theorem toNat_toUInt32_sub {n k : Nat} (h : k ≤ n) :
    (Int32.ofNat n - Int32.ofNat k).toUInt32.toNat = (n - k) % 2 ^ 32 := by
  have hsub : (Int32.ofNat n - Int32.ofNat k).toUInt32 = UInt32.ofNat n - UInt32.ofNat k := rfl
  rw [hsub, ← UInt32.ofNat_sub h]
  exact UInt32.toNat_ofNat'

theorem length_toBytes_wavHdr (h : WavHdr) : h.toBytes.length = sizeofWavHdr := by
  simp [WavHdr.toBytes, tag, length_leInt, sizeofWavHdr]

/-- The bytes that `open` writes into a new file. -/
theorem bytes_fopen_fwrite (bs : List UInt8) : (Stream.fopen.fwrite bs).bytes = bs := by
  rw [Stream.fwrite_of_atEnd Stream.fopen_atEnd]
  exact List.nil_append bs

namespace DiskFile
variable {f : DiskFile}

theorem bytes_new (name : String) (slot : Nat) (h : WavHdr) :
    bytes ⟨name, slot, Stream.fopen.fwrite h.toBytes⟩ = h.toBytes := bytes_fopen_fwrite _

theorem growing_new (name : String) (slot : Nat) (h : WavHdr) : Growing ⟨name, slot, Stream.fopen.fwrite h.toBytes⟩ where
  header := by rw [size, bytes_new, length_toBytes_wavHdr]
  atEnd := Stream.fwrite_atEnd Stream.fopen_atEnd

theorem data_new (name : String) (slot : Nat) (h : WavHdr) : data ⟨name, slot, Stream.fopen.fwrite h.toBytes⟩ = [] := by
  rw [data, bytes_new]
  exact List.drop_eq_nil_of_le (length_toBytes_wavHdr h).le

/-- What the operations do to the bytes: a write appends, closing patches the two lengths. -/
theorem Growing.bytes_fwrite (h : f.Growing) (bs : List UInt8) :
    bytes { f with stream := f.stream.fwrite bs } = f.bytes ++ bs := by
  rw [bytes, bytes, Stream.fwrite_of_atEnd h.atEnd]

theorem Growing.bytes_patchHeader (h : f.Growing) : ∃ dataLen riffLen : Int32,
    dataLen.toUInt32.toNat = (f.size - 44) % 2 ^ 32 ∧ riffLen.toUInt32.toNat = (f.size - 8) % 2 ^ 32 ∧
      bytes { f with stream := Wav.patchHeader f.stream } = patch (patch f.bytes 40 (leInt dataLen)) 4 (leInt riffLen) := by
  have hlen : 44 ≤ f.stream.bytes.length := h.header
  have hpos : f.stream.pos = f.stream.bytes.length := h.atEnd
  have hsize : f.size = f.stream.bytes.length := rfl
  refine ⟨Int32.ofNat f.stream.pos - Int32.ofNat 44, Int32.ofNat f.stream.pos - Int32.ofNat 8, ?_, ?_, ?_⟩
  · rw [hpos, hsize, toNat_toUInt32_sub hlen]
  · rw [hpos, hsize, toNat_toUInt32_sub (by omega)]
  · have hfirst : ((f.stream.fseek 40).fwrite (leInt (Int32.ofNat f.stream.pos - Int32.ofNat 44))).bytes =
        patch f.bytes 40 (leInt (Int32.ofNat f.stream.pos - Int32.ofNat 44)) :=
      Stream.bytes_fwrite_fseek (by omega)
    have hle : 4 ≤ ((f.stream.fseek 40).fwrite (leInt (Int32.ofNat f.stream.pos - Int32.ofNat 44))).bytes.length := by
      rw [hfirst, bytes, length_patch (by rw [length_leInt]; exact hlen)]
      exact Nat.le_trans (by decide) hlen
    rw [← hfirst]
    exact Stream.bytes_fwrite_fseek hle

theorem Growing.length_patch_dataLen (h : f.Growing) (dataLen : Int32) :
    (patch f.bytes 40 (leInt dataLen)).length = f.bytes.length := by
  have hlen : 44 ≤ f.bytes.length := h.header
  exact length_patch (by rwa [length_leInt])

theorem Growing.size_fwrite (h : f.Growing) (bs : List UInt8) :
    size { f with stream := f.stream.fwrite bs } = f.size + bs.length := by
  rw [size, h.bytes_fwrite, List.length_append, size]

theorem Growing.data_fwrite (h : f.Growing) (bs : List UInt8) :
    data { f with stream := f.stream.fwrite bs } = f.data ++ bs := by
  rw [data, h.bytes_fwrite]
  exact List.drop_append_of_le_length h.header

theorem Growing.fwrite (h : f.Growing) (bs : List UInt8) : Growing { f with stream := f.stream.fwrite bs } where
  header := by
    rw [h.size_fwrite]
    exact Nat.le_add_right_of_le h.header
  atEnd := Stream.fwrite_atEnd h.atEnd

theorem Growing.size_patchHeader (h : f.Growing) :
    size { f with stream := Wav.patchHeader f.stream } = f.size := by
  obtain ⟨dataLen, riffLen, -, -, hbytes⟩ := h.bytes_patchHeader
  have hlen : 44 ≤ f.bytes.length := h.header
  have hinner := h.length_patch_dataLen dataLen
  rw [size, size, hbytes, length_patch, hinner]
  rw [hinner, length_leInt]
  omega

/-- A closed file is as long as before, has the same samples, and its lengths are patched. -/
theorem Growing.patchHeader (h : f.Growing) :
    Finalised { f with stream := Wav.patchHeader f.stream } ∧
      data { f with stream := Wav.patchHeader f.stream } = f.data := by
  obtain ⟨dataLen, riffLen, hdata, hriff, hbytes⟩ := h.bytes_patchHeader
  have hlen : 44 ≤ f.bytes.length := h.header
  have hinner := h.length_patch_dataLen dataLen
  have hsize := h.size_patchHeader
  refine ⟨⟨by rw [hsize]; exact h.header, ?_, ?_⟩, ?_⟩
  · have hself : slice 4 (leInt riffLen).length (patch (patch f.bytes 40 (leInt dataLen)) 4 (leInt riffLen)) =
        leInt riffLen := slice_patch_self (by rw [hinner]; omega)
    rw [length_leInt] at hself
    rw [DiskFile.riffLen, hsize, hbytes, hself, ofLE_leInt, hriff]
  · have hself : slice 40 (leInt dataLen).length (patch f.bytes 40 (leInt dataLen)) = leInt dataLen :=
      slice_patch_self (by omega)
    have hbehind : slice 40 4 (patch (patch f.bytes 40 (leInt dataLen)) 4 (leInt riffLen)) =
        slice 40 4 (patch f.bytes 40 (leInt dataLen)) :=
      slice_patch_behind (by rw [length_leInt]; decide) (by rw [hinner]; omega)
    rw [length_leInt] at hself
    rw [DiskFile.dataLen, hsize, hbytes, hbehind, hself, ofLE_leInt, hdata]
  · rw [data, data, hbytes, drop_patch, drop_patch]
    · rw [length_leInt]
      rfl
    · omega
    · rw [length_leInt]
      decide
    · rw [hinner]
      omega

/-- The file has the header that `setupWave` makes of the parameters, apart from the two lengths. -/
structure HasHeader (p : WavParams) (f : DiskFile) : Prop where
  riff : slice 0 4 f.bytes = slice 0 4 ((Wav.new "").setupWave p).header.toBytes
  format : slice 8 32 f.bytes = slice 8 32 ((Wav.new "").setupWave p).header.toBytes

/-- The header as `open` writes it. -/
def HeaderAsOpened (p : WavParams) (f : DiskFile) : Prop := f.bytes.take 44 = ((Wav.new "").setupWave p).header.toBytes

section Header
variable {p : WavParams}

theorem HeaderAsOpened.hasHeader (h : f.HeaderAsOpened p) : f.HasHeader p := by
  have hslice : ∀ o n, o + n ≤ 44 → slice o n f.bytes = slice o n ((Wav.new "").setupWave p).header.toBytes := by
    intro o n hle
    rw [← h, slice, slice, List.drop_take, List.take_take, Nat.min_eq_left (by omega)]
  exact ⟨hslice 0 4 (by decide), hslice 8 32 (by decide)⟩

theorem headerAsOpened_new (name : String) (slot : Nat) (p : WavParams) :
    HeaderAsOpened p ⟨name, slot, Stream.fopen.fwrite ((Wav.new name).setupWave p).header.toBytes⟩ := by
  rw [HeaderAsOpened, bytes_new]
  exact List.take_of_length_le (length_toBytes_wavHdr _).le

theorem Growing.headerAsOpened_fwrite (h : f.Growing) (hp : f.HeaderAsOpened p) (bs : List UInt8) :
    HeaderAsOpened p { f with stream := f.stream.fwrite bs } := by
  have hlen : 44 ≤ f.bytes.length := h.header
  rw [HeaderAsOpened, h.bytes_fwrite, List.take_append_of_le_length hlen]
  exact hp

theorem Growing.hasHeader_fwrite (h : f.Growing) (hp : f.HasHeader p) (bs : List UInt8) :
    HasHeader p { f with stream := f.stream.fwrite bs } := by
  have hlen : 44 ≤ f.bytes.length := h.header
  constructor
  · rw [h.bytes_fwrite, slice_append_left 0 4 _ _ (by omega)]
    exact hp.riff
  · rw [h.bytes_fwrite, slice_append_left 8 32 _ _ (by omega)]
    exact hp.format

theorem Growing.hasHeader_patchHeader (h : f.Growing) (hp : f.HasHeader p) :
    HasHeader p { f with stream := Wav.patchHeader f.stream } := by
  obtain ⟨dataLen, riffLen, -, -, hbytes⟩ := h.bytes_patchHeader
  have hlen : 44 ≤ f.bytes.length := h.header
  have hinner := h.length_patch_dataLen dataLen
  constructor
  · rw [hbytes, slice_patch_before (by decide) (by omega), slice_patch_before (by decide) (by omega)]
    exact hp.riff
  · rw [hbytes, slice_patch_behind (by rw [length_leInt]) (by omega), slice_patch_before (by decide) (by omega)]
    exact hp.format

end Header
end DiskFile

/-! ### The files of a slot -/

namespace Disk

/-- The sample data of all files of a slot, in the order they were made. -/
def data (d : Disk) (slot : Nat) : List UInt8 := (d.filter (·.slot == slot)).flatMap DiskFile.data

/-- The files of a slot, each with its place on the disk. -/
def files (d : Disk) (slot : Nat) : List (DiskFile × Nat) := d.zipIdx.filter (·.1.slot == slot)

section
variable {d : Disk} {slot k : Nat} {x : DiskFile × Nat}

theorem mem_files : x ∈ d.files slot ↔ d[x.2]? = some x.1 ∧ x.1.slot = slot := by
  rw [files, List.mem_filter, List.mem_zipIdx_iff_getElem?, beq_iff_eq]

theorem map_fst_files : (d.files slot).map Prod.fst = d.filter (·.slot == slot) := by
  have hslot : (fun x : DiskFile × Nat => x.1.slot == slot) = (·.slot == slot) ∘ Prod.fst := rfl
  rw [files, hslot, ← List.filter_map, List.zipIdx_map_fst]

theorem data_eq_files : d.data slot = (d.files slot).flatMap (·.1.data) := by
  rw [data, ← map_fst_files, List.flatMap_map]

theorem nodup_files : ((d.files slot).map Prod.snd).Nodup := by
  have hall : (d.zipIdx.map Prod.snd).Nodup := by
    rw [List.zipIdx_map_snd]
    exact List.nodup_range'
  exact hall.sublist (List.filter_sublist.map Prod.snd)

theorem files_append (f : DiskFile) :
    (d ++ [f] : Disk).files slot = d.files slot ++ if f.slot = slot then [(f, d.length)] else [] := by
  rw [files, List.zipIdx_append, List.filter_append, Nat.zero_add, List.zipIdx_singleton]
  by_cases h : f.slot = slot
  · rw [if_pos h, List.filter_cons_of_pos (by simpa using h)]
    rfl
  · rw [if_neg h, List.filter_cons_of_neg (by simpa using h)]
    rfl

/-- Replaces the stream of the file at place `k`. -/
def edit (k : Nat) (op : Stream → Stream) (x : DiskFile × Nat) : DiskFile × Nat :=
  if x.2 = k then ({ x.1 with stream := op x.1.stream }, x.2) else x

theorem zipIdx_update (op : Stream → Stream) : (d.update (some k) op).zipIdx = d.zipIdx.map (edit k op) := by
  refine List.ext_getElem? fun n => ?_
  rw [update, List.getElem?_zipIdx, List.getElem?_modify, List.getElem?_map, List.getElem?_zipIdx]
  cases hd : d[n]? with
  | none => rfl
  | some f =>
    by_cases hk : k = n
    · simp [edit, hk]
    · simp [edit, hk, Ne.symm hk]

theorem slot_edit (op : Stream → Stream) : (edit k op x).1.slot = x.1.slot := by
  rw [edit]
  split <;> rfl

theorem files_update (op : Stream → Stream) :
    (d.update (some k) op).files slot = (d.files slot).map (edit k op) := by
  rw [files, zipIdx_update, List.filter_map, files]
  congr 1
  exact List.filter_congr fun x _ => by rw [Function.comp_apply, slot_edit]

theorem files_update_of_ne {f : DiskFile} (hk : d[k]? = some f) (h : f.slot ≠ slot) (op : Stream → Stream) :
    (d.update (some k) op).files slot = d.files slot := by
  rw [files_update]
  refine (List.map_congr_left fun x hx => ?_).trans (List.map_id _)
  obtain ⟨hget, hslot⟩ := mem_files.mp hx
  refine if_neg fun heq => h ?_
  rw [heq, hk] at hget
  rw [Option.some.inj hget, hslot]

/-- In its own slot, the last file is edited, and those before it are kept. -/
theorem files_update_last {fs : List (DiskFile × Nat)} {f : DiskFile} (h : d.files slot = fs ++ [(f, k)])
    (op : Stream → Stream) :
    (d.update (some k) op).files slot = fs ++ [({ f with stream := op f.stream }, k)] := by
  have hnodup : ((d.files slot).map Prod.snd).Nodup := nodup_files
  rw [h, List.map_append, List.nodup_append] at hnodup
  rw [files_update, h, List.map_append]
  congr 1
  · refine (List.map_congr_left fun x hx => ?_).trans (List.map_id _)
    exact if_neg (hnodup.2.2 x.2 (List.mem_map_of_mem hx) k (List.mem_singleton_self k))
  · exact congrArg (· :: []) (if_pos rfl)

end
end Disk
end Recd2
