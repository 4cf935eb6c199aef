import Mathlib.Data.List.Nodup
import Mathlib.Data.List.Perm.Basic
import Mathlib.Data.List.Range
import Mathlib.Tactic.Ring

/-! Rows of equal width that lie interleaved: element `j` of row `i` is at position `j * rows + i`. -/

namespace Recd2.Interleave

def pos (rows i j : Nat) : Nat := j * rows + i

/-- The positions of the elements, row by row. -/
def positions (rows width : Nat) : List (List Nat) :=
  (List.range rows).map fun i => (List.range width).map (pos rows i)

/-- The interleaved elements of given rows; `none` where a row has no element for its position. -/
def weave {α : Type} (rows width : Nat) (xss : List (List α)) : List (Option α) :=
  (List.range (rows * width)).map fun k => xss[k % rows]?.bind (·[k / rows]?)

section Positions
variable {rows width i j k : Nat}

theorem pos_lt (hi : i < rows) (hj : j < width) : pos rows i j < rows * width := by
  have hrow : (j + 1) * rows ≤ width * rows := Nat.mul_le_mul_right rows hj
  have hsucc : (j + 1) * rows = j * rows + rows := by ring
  rw [pos, Nat.mul_comm rows width]
  omega

theorem pos_mod (hi : i < rows) : pos rows i j % rows = i := by
  rw [pos, Nat.mul_add_mod_self_right, Nat.mod_eq_of_lt hi]

theorem pos_div (hi : i < rows) : pos rows i j / rows = j := by
  rw [pos, Nat.add_comm, Nat.add_mul_div_right _ _ (by omega), Nat.div_eq_of_lt hi, Nat.zero_add]

theorem pos_mod_div (rows k : Nat) : pos rows (k % rows) (k / rows) = k := Nat.div_add_mod' k rows

theorem mod_lt_of_lt (hk : k < rows * width) : k % rows < rows :=
  Nat.mod_lt _ (Nat.pos_of_mul_pos_right (Nat.zero_lt_of_lt hk))

theorem div_lt_of_lt (hk : k < rows * width) : k / rows < width := Nat.div_lt_of_lt_mul hk

theorem pos_inj {i' j' : Nat} (hi : i < rows) (hi' : i' < rows) (h : pos rows i j = pos rows i' j') :
    i = i' ∧ j = j' := by
  constructor
  · rw [← pos_mod (j := j) hi, h, pos_mod hi']
  · rw [← pos_div (j := j) hi, h, pos_div hi']

theorem mem_positions : k ∈ (positions rows width).flatten ↔ k < rows * width := by
  simp only [positions, List.mem_flatten, List.mem_map, List.mem_range]
  constructor
  · rintro ⟨_, ⟨i, hi, rfl⟩, hk⟩
    obtain ⟨j, hj, rfl⟩ := List.mem_map.mp hk
    exact pos_lt hi (List.mem_range.mp hj)
  · intro hk
    exact ⟨_, ⟨k % rows, mod_lt_of_lt hk, rfl⟩,
      List.mem_map.mpr ⟨k / rows, List.mem_range.mpr (div_lt_of_lt hk), pos_mod_div rows k⟩⟩

theorem nodup_positions (rows width : Nat) : (positions rows width).flatten.Nodup := by
  rw [positions, List.nodup_flatten, List.pairwise_map]
  constructor
  · intro row hrow
    obtain ⟨i, hi, rfl⟩ := List.mem_map.mp hrow
    refine (List.nodup_map_iff_inj_on List.nodup_range).mpr fun j _ j' _ h => ?_
    exact (pos_inj (List.mem_range.mp hi) (List.mem_range.mp hi) h).2
  · refine List.nodup_range.imp_of_mem fun {i i'} hi hi' hne k hk hk' => ?_
    obtain ⟨j, -, rfl⟩ := List.mem_map.mp hk
    obtain ⟨j', -, h⟩ := List.mem_map.mp hk'
    exact hne (pos_inj (List.mem_range.mp hi') (List.mem_range.mp hi) h).1.symm

/-- Every position is taken once. -/
theorem positions_perm (rows width : Nat) : (positions rows width).flatten.Perm (List.range (rows * width)) := by
  refine (List.perm_ext_iff_of_nodup (nodup_positions rows width) List.nodup_range).mpr fun k => ?_
  rw [mem_positions, List.mem_range]

end Positions

section Rows
variable {α : Type} (rows width : Nat) (f : Nat → α)

theorem getElem?_positions {i : Nat} (hi : i < rows) :
    ((positions rows width).map (List.map f))[i]? = some ((List.range width).map fun j => f (pos rows i j)) := by
  rw [positions, List.map_map, List.getElem?_map, List.getElem?_range hi, Option.map_some, Function.comp_apply,
    List.map_map]
  rfl

theorem weave_positions :
    weave rows width ((positions rows width).map (List.map f)) = (List.range (rows * width)).map fun k => some (f k) := by
  refine List.map_congr_left fun k hk => ?_
  have hk := List.mem_range.mp hk
  rw [getElem?_positions rows width f (mod_lt_of_lt hk), Option.bind_some, List.getElem?_map,
    List.getElem?_range (div_lt_of_lt hk), Option.map_some, pos_mod_div]

end Rows
end Recd2.Interleave
