import Recd2.Lib.Bytes

/-! A stdio stream opened for writing: the bytes of the file and the position of the next write. -/

namespace Recd2

structure Stream where
  bytes : List UInt8
  pos : Nat
  deriving DecidableEq, Repr

namespace Stream
open Bytes

/-- The stream `fopen(.., "wb")` returns: the file is empty. -/
def fopen : Stream := ⟨[], 0⟩

/-- The bytes at the position are overwritten, and the file grows where they reach behind its end; a gap
    that `fseek` left is filled with zeros. -/
def fwrite (f : Stream) (new : List UInt8) : Stream :=
  ⟨patch (f.bytes ++ List.replicate (f.pos - f.bytes.length) 0) f.pos new, f.pos + new.length⟩

def fseek (f : Stream) (off : Nat) : Stream := { f with pos := off }

def ftell (f : Stream) : Nat := f.pos

/-- The position is behind the last byte, as `fwrite` without `fseek` leaves it. -/
def AtEnd (f : Stream) : Prop := f.pos = f.bytes.length

section
variable {f : Stream} {new : List UInt8}

theorem fopen_atEnd : fopen.AtEnd := rfl

theorem fwrite_of_atEnd (h : f.AtEnd) : f.fwrite new = ⟨f.bytes ++ new, (f.bytes ++ new).length⟩ := by
  have hpos : f.pos = f.bytes.length := h
  simp [fwrite, patch, hpos]

theorem fwrite_atEnd (h : f.AtEnd) : (f.fwrite new).AtEnd := by
  rw [fwrite_of_atEnd h]
  rfl

theorem bytes_fwrite_fseek {off : Nat} (h : off ≤ f.bytes.length) :
    ((f.fseek off).fwrite new).bytes = patch f.bytes off new := by
  simp [fwrite, fseek, Nat.sub_eq_zero_of_le h]

end
end Stream
end Recd2
