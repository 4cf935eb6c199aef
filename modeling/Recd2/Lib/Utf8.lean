import Recd2.Lib.Decimal

/-! The bytes of a text. -/

namespace Recd2.Utf8

/-- The number of bytes of the characters. -/
def bytes : List Char → Nat
  | [] => 0
  | c :: cs => c.utf8Size + bytes cs

@[simp] theorem bytes_nil : bytes [] = 0 := rfl

@[simp] theorem bytes_cons (c : Char) (cs : List Char) : bytes (c :: cs) = c.utf8Size + bytes cs := rfl

@[simp] theorem bytes_append (cs ds : List Char) : bytes (cs ++ ds) = bytes cs + bytes ds := by
  induction cs with
  | nil => exact (Nat.zero_add _).symm
  | cons c cs ih => rw [List.cons_append, bytes_cons, ih, bytes_cons, Nat.add_assoc]

theorem utf8ByteSize_ofList (cs : List Char) : (String.ofList cs).utf8ByteSize = bytes cs := by
  induction cs with
  | nil => rfl
  | cons c cs ih =>
    have hcons : String.ofList (c :: cs) = String.singleton c ++ String.ofList cs := by
      rw [← String.toList_inj, String.toList_append, String.toList_ofList, String.toList_ofList,
        String.toList_singleton, List.singleton_append]
    rw [hcons, String.utf8ByteSize_append, String.utf8ByteSize_singleton, ih, bytes_cons]

theorem bytes_toList (s : String) : bytes s.toList = s.utf8ByteSize := by
  rw [← utf8ByteSize_ofList, String.ofList_toList]

theorem length_le_bytes (cs : List Char) : cs.length ≤ bytes cs := by
  induction cs with
  | nil => exact Nat.le_refl 0
  | cons c cs ih =>
    have hpos := Char.utf8Size_pos c
    rw [List.length_cons, bytes_cons]
    omega

/-- Characters of one byte. -/
def Ascii (cs : List Char) : Prop := ∀ c ∈ cs, c.toNat < 128

theorem bytes_of_ascii {cs : List Char} (h : Ascii cs) : bytes cs = cs.length := by
  induction cs with
  | nil => rfl
  | cons c cs ih =>
    have hc : c.toNat < 128 := h c List.mem_cons_self
    have hlow : c.val ≤ 0x7F := UInt32.le_iff_toNat_le.mpr (show c.toNat ≤ 127 by omega)
    have hone : c.utf8Size = 1 := if_pos hlow
    rw [bytes_cons, hone, ih fun d hd => h d (List.mem_cons_of_mem c hd), List.length_cons, Nat.add_comm]

theorem ascii_of_isDigit {cs : List Char} (h : ∀ c ∈ cs, c.isDigit = true) : Ascii cs := fun c hc =>
  Nat.lt_of_le_of_lt (Decimal.toNat_of_isDigit (h c hc)).2 (by decide)

end Recd2.Utf8
