import Mathlib.Data.List.Basic
import Recd2.Lib.Bytes
import Recd2.Lib.Run

/-! A stream that is cut into pieces of one length, and the assembly of the pieces from chunks, of which none
    reaches over the end of a piece. -/

namespace Recd2.Framing
open Bytes
variable {α : Type} {n : Nat} {acc chunk xs ys : List α} {chunks : List (List α)}

/-- The whole pieces of the stream, in order. -/
def pieces (n : Nat) (xs : List α) : List (List α) := (List.range (xs.length / n)).map fun k => slice (k * n) n xs

/-- What is behind the last whole piece. -/
def rest (n : Nat) (xs : List α) : List α := xs.drop (xs.length / n * n)

/-- What is assembled so far, and a chunk: a piece that is complete is emitted. -/
def feed (n : Nat) (acc chunk : List α) : List α × List (List α) :=
  if acc.length + chunk.length < n then (acc ++ chunk, []) else ([], [acc ++ chunk])

/-- No chunk is longer than what its piece lacks. -/
def Fits (n : Nat) : List α → List (List α) → Prop
  | _, [] => True
  | acc, chunk :: chunks => acc.length + chunk.length ≤ n ∧ Fits n (feed n acc chunk).1 chunks

theorem feed_of_lt (h : acc.length + chunk.length < n) : feed n acc chunk = (acc ++ chunk, []) := if_pos h

theorem feed_of_eq (h : acc.length + chunk.length = n) : feed n acc chunk = ([], [acc ++ chunk]) :=
  if_neg (by rw [h]; exact Nat.lt_irrefl n)

theorem pieces_of_lt (h : xs.length < n) : pieces n xs = [] := by
  rw [pieces, Nat.div_eq_of_lt h]
  rfl

theorem length_of_mem_pieces {piece : List α} (h : piece ∈ pieces n xs) : piece.length = n := by
  obtain ⟨k, hk, rfl⟩ := List.mem_map.mp h
  have hend : (k + 1) * n ≤ xs.length :=
    (Nat.mul_le_mul_right n (List.mem_range.mp hk)).trans (Nat.div_mul_le_self xs.length n)
  rw [slice, List.length_take, List.length_drop]
  rw [Nat.succ_mul] at hend
  omega

/-- The first piece, and those of the rest. -/
theorem pieces_append (hn : 0 < n) (hxs : xs.length = n) : pieces n (xs ++ ys) = xs :: pieces n ys := by
  have hcount : (xs ++ ys).length / n = ys.length / n + 1 := by
    rw [List.length_append, hxs, Nat.add_comm, Nat.add_div_right _ hn]
  rw [pieces, pieces, hcount, List.range_succ_eq_map, List.map_cons, List.map_map]
  congr 1
  · rw [Nat.zero_mul, slice_append_left 0 n xs ys (by omega), ← hxs, slice_length]
  · refine List.map_congr_left fun k _ => ?_
    have hoff : (k + 1) * n = xs.length + k * n := by
      rw [hxs]
      ring
    rw [Function.comp_apply, hoff, slice_append_right]

theorem rest_of_lt (h : xs.length < n) : rest n xs = xs := by
  rw [rest, Nat.div_eq_of_lt h, Nat.zero_mul, List.drop_zero]

theorem rest_append (hn : 0 < n) (hxs : xs.length = n) : rest n (xs ++ ys) = rest n ys := by
  have hoff : (xs ++ ys).length / n * n = xs.length + ys.length / n * n := by
    rw [List.length_append, hxs, Nat.add_div_left _ hn]
    ring
  rw [rest, hoff, List.drop_append, List.drop_eq_nil_of_le (Nat.le_add_right _ _), List.nil_append,
    Nat.add_sub_cancel_left]
  rfl

theorem length_rest_lt (hn : 0 < n) (xs : List α) : (rest n xs).length < n := by
  rw [rest, List.length_drop, ← Nat.mod_eq_sub_div_mul]
  exact Nat.mod_lt _ hn

/-- A stream is shorter than a piece, or a piece is in front of it. -/
theorem induct_pieces {P : List α → Prop} (hn : 0 < n) (short : ∀ xs, xs.length < n → P xs)
    (cut : ∀ xs ys, xs.length = n → P ys → P (xs ++ ys)) (xs : List α) : P xs := by
  induction hlen : xs.length / n generalizing xs with
  | zero => exact short xs ((Nat.div_eq_zero_iff.mp hlen).resolve_left (by omega))
  | succ k ih =>
    have hle : n ≤ xs.length := by
      by_contra hlt
      rw [Nat.div_eq_of_lt (by omega)] at hlen
      cases hlen
    have hdrop : (xs.drop n).length / n = k := by
      have hsub := Nat.sub_mul_div xs.length n 1
      rw [Nat.mul_one, hlen] at hsub
      rw [List.length_drop, hsub, Nat.add_sub_cancel]
    rw [← List.take_append_drop n xs]
    exact cut _ _ (by rw [List.length_take]; omega) (ih _ hdrop)

/-- The pieces of a stream, when those of its beginning were cut off before. -/
theorem pieces_append_rest (hn : 0 < n) (xs ys : List α) :
    pieces n (xs ++ ys) = pieces n xs ++ pieces n (rest n xs ++ ys) := by
  induction xs using induct_pieces hn with
  | short xs hlt => rw [pieces_of_lt hlt, rest_of_lt hlt, List.nil_append]
  | cut xs zs hxs ih =>
    rw [List.append_assoc, pieces_append hn hxs, pieces_append hn hxs, rest_append hn hxs, ih, List.cons_append]

theorem rest_append_rest (hn : 0 < n) (xs ys : List α) : rest n (xs ++ ys) = rest n (rest n xs ++ ys) := by
  induction xs using induct_pieces hn with
  | short xs hlt => rw [rest_of_lt hlt]
  | cut xs zs hxs ih => rw [List.append_assoc, rest_append hn hxs, rest_append hn hxs, ih]

theorem length_pieces (n : Nat) (xs : List α) : (pieces n xs).length = xs.length / n := by
  rw [pieces, List.length_map, List.length_range]

/-- A piece is a slice of the stream. -/
theorem exists_of_mem_pieces {piece : List α} (h : piece ∈ pieces n xs) :
    ∃ off, off + n ≤ xs.length ∧ piece = slice off n xs := by
  obtain ⟨k, hk, rfl⟩ := List.mem_map.mp h
  have hend : (k + 1) * n ≤ xs.length :=
    (Nat.mul_le_mul_right n (List.mem_range.mp hk)).trans (Nat.div_mul_le_self xs.length n)
  rw [Nat.succ_mul] at hend
  exact ⟨k * n, hend, rfl⟩

/-- What was left before and the front of a long part are at most one piece. -/
theorem exists_pieces_append (hxs : xs.length < n) (hys : n ≤ ys.length) :
    ∃ k < n, ∃ mixed : List (List α), mixed.length ≤ 1 ∧
      ∀ zs, pieces n (xs ++ (ys ++ zs)) = mixed ++ pieces n (ys.drop k ++ zs) := by
  rcases Nat.eq_zero_or_pos xs.length with hnil | hpos
  · obtain rfl := List.eq_nil_of_length_eq_zero hnil
    exact ⟨0, by omega, [], Nat.zero_le 1, fun zs => rfl⟩
  · have hlen : (xs ++ ys.take (n - xs.length)).length = n := by
      rw [List.length_append, List.length_take]
      omega
    refine ⟨n - xs.length, by omega, [xs ++ ys.take (n - xs.length)], Nat.le_refl 1, fun zs => ?_⟩
    have hsplit : xs ++ (ys ++ zs) = xs ++ ys.take (n - xs.length) ++ (ys.drop (n - xs.length) ++ zs) := by
      rw [List.append_assoc, ← List.append_assoc (ys.take _), List.take_append_drop]
    rw [hsplit, pieces_append (by omega) hlen]
    rfl

/-- A stream of whole pieces is cut without a rest. -/
theorem flatten_pieces (hn : 0 < n) (h : n ∣ xs.length) : (pieces n xs).flatten = xs := by
  obtain ⟨k, hk⟩ := h
  induction k generalizing xs with
  | zero =>
    rw [Nat.mul_zero] at hk
    rw [List.eq_nil_of_length_eq_zero hk, pieces_of_lt hn]
    rfl
  | succ k ih =>
    rw [Nat.mul_succ] at hk
    have htake : (xs.take n).length = n := by
      rw [List.length_take]
      omega
    have hdrop : (xs.drop n).length = n * k := by
      rw [List.length_drop]
      omega
    calc (pieces n xs).flatten = (pieces n (xs.take n ++ xs.drop n)).flatten := by rw [List.take_append_drop]
      _ = xs.take n ++ (pieces n (xs.drop n)).flatten := by rw [pieces_append hn htake, List.flatten_cons]
      _ = xs.take n ++ xs.drop n := by rw [ih hdrop]
      _ = xs := List.take_append_drop n xs

/-- However the stream is cut into chunks that fit, its pieces are emitted. -/
theorem emits_feed (hn : 0 < n) (hacc : acc.length < n) (h : Fits n acc chunks) :
    Run.emits (feed n) acc chunks = pieces n (acc ++ chunks.flatten) := by
  induction chunks generalizing acc with
  | nil =>
    rw [List.flatten_nil, List.append_nil, pieces_of_lt hacc]
    rfl
  | cons chunk chunks ih =>
    obtain ⟨hle, hfits⟩ := h
    rw [Run.emits_cons, List.flatten_cons, ← List.append_assoc]
    rcases Nat.lt_or_eq_of_le hle with hlt | heq
    · rw [feed_of_lt hlt] at hfits ⊢
      exact ih (by rwa [List.length_append]) hfits
    · rw [feed_of_eq heq] at hfits ⊢
      rw [pieces_append hn (by rw [List.length_append, heq]), @ih [] hn hfits]
      rfl

end Recd2.Framing
