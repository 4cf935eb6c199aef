import Mathlib.Data.List.Basic

/-! Layout of C structures: where the fields of a structure start and how many bytes it takes, with the
    natural alignment of its fields or packed. -/

namespace Recd2.Layout

structure Field where
  size : Nat
  align : Nat

def Field.array (n : Nat) (f : Field) : Field := ⟨n * f.size, f.align⟩

def Field.uint8 : Field := ⟨1, 1⟩
def Field.int16 : Field := ⟨2, 2⟩
def Field.uint32 : Field := ⟨4, 4⟩

end Layout

structure Layout where
  fields : List Layout.Field
  packed : Bool

namespace Layout

/-- The first multiple of `a` from `n` on. -/
def roundUp (n a : Nat) : Nat := (n + (a - 1)) / a * a

def alignOf (l : Layout) (f : Field) : Nat := if l.packed then 1 else f.align

/-- The offset of each field of `fs`, when the first free byte is `n`, followed by the offset behind them. -/
def place (l : Layout) : Nat → List Field → List Nat
  | n, [] => [n]
  | n, f :: fs => roundUp n (l.alignOf f) :: l.place (roundUp n (l.alignOf f) + f.size) fs

def offsets (l : Layout) : List Nat := l.place 0 l.fields

def offsetof (l : Layout) (k : Nat) : Nat := l.offsets.getD k 0

/-- The alignment of the whole structure: the largest one of its fields. -/
def align (l : Layout) : Nat := (l.fields.map l.alignOf).foldr max 1

def sizeof (l : Layout) : Nat := roundUp (l.offsets.getLastD 0) l.align

theorem dvd_roundUp (n a : Nat) : a ∣ roundUp n a := Nat.dvd_mul_left a _

/-- Padding at its end makes the size of a structure a multiple of its alignment. -/
theorem align_dvd_sizeof (l : Layout) : l.align ∣ l.sizeof := dvd_roundUp _ _

end Layout
end Recd2
