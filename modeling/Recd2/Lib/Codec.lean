import Recd2.Lib.Bytes

/-! Encodings that can be read back, with any bytes behind them. -/

namespace Recd2

/-- `decode` gives the value at the front of the bytes, and the bytes behind it. -/
structure Codec (α : Type) where
  encode : α → List UInt8
  decode : List UInt8 → Option (α × List UInt8)
  decode_encode : ∀ x rest, decode (encode x ++ rest) = some (x, rest)

namespace Codec
variable {α β : Type}

/-- Values whose encodings all have one width. -/
def width (w : Nat) (encode : α → List UInt8) (value : List UInt8 → α) (length : ∀ x, (encode x).length = w)
    (value_encode : ∀ x, value (encode x) = x) : Codec α where
  encode := encode
  decode bs := if w ≤ bs.length then some (value (bs.take w), bs.drop w) else none
  decode_encode x rest := by
    have hlen := length x
    have hle : w ≤ (encode x ++ rest).length := by
      rw [List.length_append]
      omega
    rw [if_pos hle, List.take_left' hlen, List.drop_left' hlen, value_encode]

/-- A value behind bytes that are always the same. -/
def behind (tag : List UInt8) (c : Codec α) : Codec α where
  encode x := tag ++ c.encode x
  decode bs := if tag.isPrefixOf bs then c.decode (bs.drop tag.length) else none
  decode_encode x rest := by
    have hprefix : tag.isPrefixOf (tag ++ (c.encode x ++ rest)) = true :=
      List.isPrefixOf_iff_prefix.mpr (List.prefix_append _ _)
    rw [List.append_assoc, if_pos hprefix, List.drop_left, c.decode_encode]

def pair (c : Codec α) (d : Codec β) : Codec (α × β) where
  encode x := c.encode x.1 ++ d.encode x.2
  decode bs := (c.decode bs).bind fun x => (d.decode x.2).map fun y => ((x.1, y.1), y.2)
  decode_encode x rest := by
    rw [List.append_assoc, c.decode_encode, Option.bind_some, d.decode_encode]
    rfl

/-- The same bytes, seen as values of another type. -/
def imap (c : Codec α) (f : α → β) (g : β → α) (hfg : ∀ y, f (g y) = y) : Codec β where
  encode y := c.encode (g y)
  decode bs := (c.decode bs).map fun x => (f x.1, x.2)
  decode_encode y rest := by rw [c.decode_encode, Option.map_some, hfg]

/-- A number of values one behind the other. -/
def decodeMany (c : Codec α) : Nat → List UInt8 → Option (List α × List UInt8)
  | 0, bs => some ([], bs)
  | n + 1, bs => (c.decode bs).bind fun x => (c.decodeMany n x.2).map fun xs => (x.1 :: xs.1, xs.2)

theorem decodeMany_encode (c : Codec α) (xs : List α) (rest : List UInt8) :
    c.decodeMany xs.length (xs.flatMap c.encode ++ rest) = some (xs, rest) := by
  induction xs with
  | nil => rfl
  | cons x xs ih =>
    rw [List.flatMap_cons, List.append_assoc, List.length_cons, decodeMany, c.decode_encode, Option.bind_some, ih]
    rfl

end Codec
end Recd2
