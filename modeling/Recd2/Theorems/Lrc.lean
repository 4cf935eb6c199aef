import Mathlib.Algebra.BigOperators.Group.List.Basic
import Mathlib.Data.UInt
import Recd2.Checksum

/-! What the checksum detects. A frame carries the right checksum exactly when the bytes that the loops visit,
    the checksum among them, sum up to zero; the loops leave out the second half of the samples. -/

namespace Recd2
open Bytes

/-! ### The visited bytes -/

/-- The bytes that the three loops visit, and the checksum, in the order in which they lie in the frame. -/
def covered (mem : List UInt8) : List UInt8 := mem.take (4 + 512) ++ mem.drop (4 + 1024)

namespace FrameData
variable (f : FrameData)

theorem take_toBytes : f.toBytes.take (4 + 512) = le32 f.counter ++ (f.data.toList.flatMap le16).take 512 := by
  have hdata : (f.data.toList.flatMap le16).length = 2 * 512 := by
    rw [length_flatMap_const length_le16, Vector.length_toList]
  have hhead : (le32 f.counter ++ f.data.toList.flatMap le16).length = 4 + 2 * 512 := by
    rw [List.length_append, length_le32, hdata]
  have hcounter : 4 + 512 = (le32 f.counter).length + 512 := by rw [length_le32]
  rw [toBytes, List.append_assoc, List.take_append_of_le_length (by omega), hcounter, List.take_length_add_append]

theorem drop_toBytes : f.toBytes.drop (4 + 1024) = f.nullBytes.toList ++ [f.checksum] := by
  have hhead : (le32 f.counter ++ f.data.toList.flatMap le16).length = 4 + 1024 := by
    rw [List.length_append, length_le32, length_flatMap_const length_le16, Vector.length_toList]
  rw [toBytes, List.append_assoc, List.drop_left' hhead]

theorem sum_covered : (covered f.toBytes).sum = (lrcBytes f).sum + f.checksum := by
  rw [covered, take_toBytes, drop_toBytes, lrcBytes]
  simp only [List.sum_append, List.sum_singleton]
  grind

/-- The loops of the source walk over the packed structure: the counter, `null_bytes` and `data`. -/
theorem lrcBytes_eq_slices : lrcBytes f = slice 0 4 f.toBytes ++ slice (4 + 1024) 64 f.toBytes ++ slice 4 512 f.toBytes := by
  have hcounter : slice 0 4 f.toBytes = le32 f.counter := by
    rw [← List.take_append_drop (4 + 512) f.toBytes, take_toBytes, List.append_assoc, slice_append_left 0 4 _ _ (by simp),
      ← length_le32 f.counter, slice_length]
  have hnull : slice (4 + 1024) 64 f.toBytes = f.nullBytes.toList := by
    rw [slice, drop_toBytes, List.take_left' (Vector.length_toList)]
  have hdata : slice 4 512 f.toBytes = (f.data.toList.flatMap le16).take 512 := by
    rw [slice, List.take_drop, take_toBytes, List.drop_left' (length_le32 _)]
  rw [hcounter, hnull, hdata, lrcBytes]

end FrameData

/-! ### The law -/

/-- `checksum_lrc` returns the checksum that is stored in the frame. -/
def Verifies (f : FrameData) : Prop := checksumLrc f = f.checksum

theorem complement_add_one (x : UInt8) : (x ^^^ 0xff) + 1 = -x := by
  have hxor : x ^^^ 0xff = ~~~x := by rw [← UInt8.xor_neg_one]; rfl
  rw [hxor, UInt8.neg_eq_not_add]

theorem checksumLrc_eq (f : FrameData) : checksumLrc f = -(lrcBytes f).sum := by
  rw [checksumLrc, complement_add_one, List.sum_eq_foldl]

theorem verifies_iff (f : FrameData) : Verifies f ↔ (covered f.toBytes).sum = 0 := by
  rw [Verifies, checksumLrc_eq, FrameData.sum_covered]
  grind

theorem verifies_genChecksumLrc (f : FrameData) : Verifies (genChecksumLrc f) := rfl

/-! ### One wrong byte -/

/-- The frames differ in the byte at `p`, and in no other. -/
structure DiffersAt (f g : FrameData) (p : Nat) : Prop where
  differs : f.toBytes[p]? ≠ g.toBytes[p]?
  same : ∀ q, q ≠ p → f.toBytes[q]? = g.toBytes[q]?

/-- The loops visit the byte at `p`, or it is the checksum. -/
def Visited (p : Nat) : Prop := p < 4 + 512 ∨ 4 + 1024 ≤ p

theorem sum_set_eq_iff {l : List UInt8} {k : Nat} {v : UInt8} (hk : k < l.length) :
    (l.set k v).sum = l.sum ↔ v = l[k] := by
  rw [List.sum_set' l k v, dif_pos hk]
  grind

section Set
variable {mem : List UInt8} {p : Nat} {v : UInt8} (hp : p < mem.length)

theorem sum_covered_set_front (h : p < 4 + 512) : (covered (mem.set p v)).sum = (covered mem).sum ↔ v = mem[p] := by
  have hk : p < (mem.take (4 + 512)).length := by
    rw [List.length_take]
    omega
  rw [covered, covered, List.take_set, List.drop_set_of_lt (by omega), List.sum_append, List.sum_append, add_left_inj,
    sum_set_eq_iff hk, List.getElem_take]

theorem sum_covered_set_back (h : 4 + 1024 ≤ p) : (covered (mem.set p v)).sum = (covered mem).sum ↔ v = mem[p] := by
  have hk : p - (4 + 1024) < (mem.drop (4 + 1024)).length := by
    rw [List.length_drop]
    omega
  have hindex : 4 + 1024 + (p - (4 + 1024)) = p := by omega
  rw [covered, covered, List.take_set_of_le (by omega), List.drop_set, if_neg (by omega), List.sum_append, List.sum_append,
    add_right_inj, sum_set_eq_iff hk, List.getElem_drop]
  simp only [hindex]

theorem covered_set_between (h : ¬Visited p) : covered (mem.set p v) = covered mem := by
  rw [Visited, not_or] at h
  rw [covered, covered, List.take_set_of_le (by omega), List.drop_set_of_lt (by omega)]

theorem sum_covered_set (h : Visited p) : (covered (mem.set p v)).sum = (covered mem).sum ↔ v = mem[p] := by
  rcases h with h | h
  · exact sum_covered_set_front hp h
  · exact sum_covered_set_back hp h

end Set

section Detection
variable {f g : FrameData} {p : Nat}

/-- The wrong byte of the second frame overwrites a byte of the first. -/
theorem DiffersAt.exists_set (h : DiffersAt f g p) :
    ∃ hp : p < f.toBytes.length, ∃ v, v ≠ f.toBytes[p] ∧ g.toBytes = f.toBytes.set p v := by
  have hlen : g.toBytes.length = f.toBytes.length := by rw [g.length_toBytes, f.length_toBytes]
  have hp : p < f.toBytes.length := by
    by_contra hp
    refine h.differs ?_
    rw [List.getElem?_eq_none (by omega), List.getElem?_eq_none (by omega)]
  obtain ⟨v, hg⟩ : ∃ v, g.toBytes[p]? = some v := ⟨_, List.getElem?_eq_getElem (hlen ▸ hp)⟩
  refine ⟨hp, v, fun hv => h.differs ?_, List.ext_getElem? fun q => ?_⟩
  · rw [hg, hv, List.getElem?_eq_getElem hp]
  · rw [List.getElem?_set]
    by_cases hq : p = q
    · rw [if_pos hq, if_pos hp, ← hq, hg]
    · rw [if_neg hq, h.same q (Ne.symm hq)]

theorem DiffersAt.verifies_iff (h : DiffersAt f g p) (hf : Verifies f) : Verifies g ↔ ¬Visited p := by
  obtain ⟨hp, v, hv, hg⟩ := h.exists_set
  rw [Recd2.verifies_iff] at hf
  rw [Recd2.verifies_iff, hg, ← hf]
  by_cases hvis : Visited p
  · rw [sum_covered_set hp hvis]
    exact iff_of_false hv (not_not_intro hvis)
  · rw [covered_set_between hvis]
    exact iff_of_true rfl hvis

end Detection

/-- A stamped frame verifies, and one wrong byte behind that is noticed exactly when it is not in the second
    half of the samples. -/
theorem lrc_law_iff (f g : FrameData) (p : Nat) (h : DiffersAt (genChecksumLrc f) g p) :
    Verifies (genChecksumLrc f) ∧ (¬Verifies g ↔ p < 4 + 512 ∨ 4 + 1024 ≤ p) := by
  refine ⟨verifies_genChecksumLrc f, ?_⟩
  rw [h.verifies_iff (verifies_genChecksumLrc f), not_not]
  rfl

theorem differsAt_of_append {f g : FrameData} (as bs : List UInt8) {x y : UInt8} (hxy : x ≠ y)
    (hf : f.toBytes = as ++ x :: bs) (hg : g.toBytes = as ++ y :: bs) : DiffersAt f g as.length := by
  constructor
  · rw [hf, hg, List.getElem?_append_right (Nat.le_refl _), List.getElem?_append_right (Nat.le_refl _), Nat.sub_self]
    exact fun h => hxy (Option.some.inj h)
  · intro q hq
    rw [hf, hg]
    rcases Nat.lt_or_gt_of_ne hq with hlt | hgt
    · rw [List.getElem?_append_left hlt, List.getElem?_append_left hlt]
    · obtain ⟨n, hn⟩ : ∃ n, q - as.length = n + 1 := ⟨q - as.length - 1, by omega⟩
      rw [List.getElem?_append_right hgt.le, List.getElem?_append_right hgt.le, hn]
      rfl

/-- The stamped silent frame with another counter. -/
def otherCounter : FrameData := { genChecksumLrc (.silent 1) with counter := 0 }

/-- The stamped silent frame with a sample of the second half that is not zero. -/
def lateSample : FrameData := { genChecksumLrc (.silent 1) with data := (Vector.replicate 512 0).set 256 1 }

theorem differsAt_otherCounter : DiffersAt (genChecksumLrc (.silent 1)) otherCounter 0 :=
  differsAt_of_append [] (otherCounter.toBytes.drop 1) (show (1 : UInt8) ≠ 0 by decide) rfl rfl

theorem differsAt_lateSample : DiffersAt (genChecksumLrc (.silent 1)) lateSample (4 + 512) := by
  have hsplit : List.replicate 512 (0 : Int16) = List.replicate 256 0 ++ 0 :: List.replicate 255 0 := by
    rw [← List.replicate_succ, List.replicate_append_replicate]
  have hlen : (le32 1 ++ (List.replicate 256 (0 : Int16)).flatMap le16).length = 4 + 512 := by
    rw [List.length_append, length_le32, length_flatMap_const length_le16, List.length_replicate]
  rw [← hlen]
  refine differsAt_of_append _ (0 :: ((List.replicate 255 (0 : Int16)).flatMap le16 ++ ((Vector.replicate 64 0).toList ++
    [checksumLrc (.silent 1)]))) (show (0 : UInt8) ≠ 1 by decide) ?_ ?_
  · rw [FrameData.toBytes, genChecksumLrc, FrameData.silent, Vector.toList_replicate, hsplit, List.flatMap_append,
      List.flatMap_cons]
    simp only [List.append_assoc]
    rfl
  · rw [FrameData.toBytes, lateSample, Vector.toList_set, Vector.toList_replicate, hsplit,
      List.set_append_right _ _ (by rw [List.length_replicate]), List.length_replicate, List.flatMap_append]
    simp only [List.append_assoc]
    rfl

theorem lrc_law_iff_otherCounter :
    Verifies (genChecksumLrc (.silent 1)) ∧ (¬Verifies otherCounter ↔ 0 < 4 + 512 ∨ 4 + 1024 ≤ 0) :=
  lrc_law_iff (.silent 1) otherCounter 0 differsAt_otherCounter

theorem lrc_law_counterexample :
    ¬∀ (f g : FrameData) (p : Nat), DiffersAt (genChecksumLrc f) g p → Verifies (genChecksumLrc f) ∧ ¬Verifies g := by
  intro h
  have hmissed := (h _ _ _ differsAt_lateSample).2
  rw [differsAt_lateSample.verifies_iff (verifies_genChecksumLrc _), Visited] at hmissed
  exact absurd hmissed (by decide)

end Recd2
