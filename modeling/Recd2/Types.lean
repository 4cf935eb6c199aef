import Recd2.Lib.Bytes
import Recd2.Lib.Layout

/-! The data that crosses component borders (`utils/types.h`): the frame of the wire and the block of samples
    of one channel. -/

namespace Recd2
open Bytes

/-! ### `frame_data_t` -/

/-- The layout of `frame_data_t`, which is packed. -/
def frameDataLayout : Layout where
  fields := [.uint32, .array (32 * 16) .int16, .array 64 .uint8, .uint8]
  packed := true

@[ext] structure FrameData where
  counter : UInt32
  data : Vector Int16 512
  nullBytes : Vector UInt8 64
  checksum : UInt8

def FrameData.silent (counter : UInt32) : FrameData := ⟨counter, .replicate 512 0, .replicate 64 0, 0⟩

def sizeofFrameData : Nat := frameDataLayout.sizeof

theorem sizeofFrameData_eq : sizeofFrameData = 1093 := by decide

abbrev Datagram : Type := List UInt8

def le16 (s : Int16) : List UInt8 := toLE 2 s.toUInt16.toNat
def ofLE16 (bs : List UInt8) : Int16 := (UInt16.ofNat (ofLE bs)).toInt16
def le32 (n : UInt32) : List UInt8 := toLE 4 n.toNat
def ofLE32 (bs : List UInt8) : UInt32 := UInt32.ofNat (ofLE bs)

@[simp] theorem length_le16 (s : Int16) : (le16 s).length = 2 := length_toLE 2 _
@[simp] theorem length_le32 (n : UInt32) : (le32 n).length = 4 := length_toLE 4 _

@[simp] theorem ofLE16_le16 (s : Int16) : ofLE16 (le16 s) = s := by
  have hs : s.toUInt16.toNat < 256 ^ 2 := s.toUInt16.toNat_lt
  rw [ofLE16, le16, ofLE_toLE_of_lt hs, UInt16.ofNat_toNat]
  rfl

@[simp] theorem ofLE32_le32 (n : UInt32) : ofLE32 (le32 n) = n := by
  have hn : n.toNat < 256 ^ 4 := n.toNat_lt
  rw [ofLE32, le32, ofLE_toLE_of_lt hn, UInt32.ofNat_toNat]

namespace FrameData

/-- `*(frame_data_t*) buff.data()` on a little-endian machine. -/
def ofBytes (buff : Datagram) : FrameData where
  counter := ofLE32 (slice 0 4 buff)
  data := .ofFn fun k => ofLE16 (slice (4 + 2 * k.val) 2 buff)
  nullBytes := .ofFn fun k => buff.getD (4 + 1024 + k.val) 0
  checksum := buff.getD (4 + 1024 + 64) 0

def toBytes (f : FrameData) : Datagram :=
  le32 f.counter ++ f.data.toList.flatMap le16 ++ f.nullBytes.toList ++ [f.checksum]

theorem length_toBytes (f : FrameData) : f.toBytes.length = sizeofFrameData := by
  simp [toBytes, sizeofFrameData_eq, length_flatMap_const length_le16]

/-- The fields of `ofBytes` lie where the layout puts them. -/
theorem offsets_eq : frameDataLayout.offsets = [0, 4, 4 + 1024, 4 + 1024 + 64, 1093] := by decide

section RoundTrip
variable (f : FrameData)

theorem counter_ofBytes_toBytes : (ofBytes f.toBytes).counter = f.counter := by
  show ofLE32 (slice 0 4 f.toBytes) = f.counter
  rw [toBytes, List.append_assoc, List.append_assoc, slice_append_left 0 4 _ _ (by simp),
    ← length_le32 f.counter, slice_length, ofLE32_le32]

theorem data_ofBytes_toBytes : (ofBytes f.toBytes).data = f.data := by
  ext k hk
  have hdata : (f.data.toList.flatMap le16).length = 2 * 512 := by
    rw [length_flatMap_const length_le16, Vector.length_toList]
  have hoff : 4 + 2 * k = (le32 f.counter).length + 2 * k := by rw [length_le32]
  show (Vector.ofFn fun k : Fin 512 => ofLE16 (slice (4 + 2 * k.val) 2 f.toBytes))[k] = f.data[k]
  rw [Vector.getElem_ofFn, toBytes, List.append_assoc, List.append_assoc, hoff, slice_append_right,
    slice_append_left _ _ _ _ (by omega), slice_flatMap length_le16 _ _ (by simpa using hk), ofLE16_le16,
    Vector.getElem_toList]

theorem toBytes_getElem?_nullBytes {k : Nat} (hk : k < 64) :
    f.toBytes[4 + 1024 + k]? = some f.nullBytes[k] := by
  have hhead : (le32 f.counter ++ f.data.toList.flatMap le16).length = 4 + 1024 := by
    rw [List.length_append, length_flatMap_const length_le16, Vector.length_toList, length_le32]
  have hk' : k < f.nullBytes.toList.length := by rwa [Vector.length_toList]
  rw [toBytes, ← hhead, getElem?_append_mid _ _ _ hk', List.getElem?_eq_getElem hk', Vector.getElem_toList]

theorem nullBytes_ofBytes_toBytes : (ofBytes f.toBytes).nullBytes = f.nullBytes := by
  ext k hk
  have hget : (ofBytes f.toBytes).nullBytes[k] = f.toBytes.getD (4 + 1024 + k) 0 := Vector.getElem_ofFn _
  rw [hget, List.getD_eq_getElem?_getD, toBytes_getElem?_nullBytes f hk, Option.getD_some]

theorem checksum_ofBytes_toBytes : (ofBytes f.toBytes).checksum = f.checksum := by
  have hlen : (le32 f.counter ++ f.data.toList.flatMap le16 ++ f.nullBytes.toList).length = 4 + 1024 + 64 := by
    rw [List.length_append, List.length_append, length_flatMap_const length_le16, Vector.length_toList,
      Vector.length_toList, length_le32]
  show f.toBytes.getD (4 + 1024 + 64) 0 = f.checksum
  rw [toBytes, List.getD_eq_getElem?_getD, List.getElem?_append_right (by omega), hlen]
  simp

/-- Every frame is what the handler reads from some datagram of the right size. -/
theorem ofBytes_toBytes : ofBytes f.toBytes = f :=
  FrameData.ext (counter_ofBytes_toBytes f) (data_ofBytes_toBytes f) (nullBytes_ofBytes_toBytes f)
    (checksum_ofBytes_toBytes f)

end RoundTrip
end FrameData

/-! ### `sample_data_t` -/

/-- A block of samples of one channel. `samples` holds the cells of the array behind the pointer, `size` is
    the number of samples the block says it has. -/
structure SampleData where
  signal : UInt8
  samples : List Int16
  size : UInt32
  deriving DecidableEq, Repr

abbrev QList : Type := List SampleData

/-- The samples a reader of the block gets. -/
def SampleData.payload (s : SampleData) : List Int16 := s.samples.take s.size.toNat

end Recd2
