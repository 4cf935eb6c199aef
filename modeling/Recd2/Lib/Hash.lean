import Mathlib.Tactic.SplitIfs

/-! A hash table. Its operator `[]` puts a default value in for a key that is not there, also where it is only read. -/

namespace Recd2

structure Hash (κ ν : Type) where
  value? : κ → Option ν

namespace Hash
variable {κ ν : Type}

def empty : Hash κ ν := ⟨fun _ => none⟩

section Values
variable [Inhabited ν]

/-- The value of a key, or the default. -/
def value (h : Hash κ ν) (k : κ) : ν := (h.value? k).getD default

@[simp] theorem value_empty (k : κ) : (empty : Hash κ ν).value k = default := rfl

variable [DecidableEq κ]

/-- The table behind a change of `h[k]`. -/
def modify (h : Hash κ ν) (k : κ) (f : ν → ν) : Hash κ ν where
  value? x := if x = k then some (f (h.value k)) else h.value? x

/-- The table behind a read of `h[k]`. -/
def touch (h : Hash κ ν) (k : κ) : Hash κ ν := h.modify k id

@[simp] theorem value_modify (h : Hash κ ν) (k : κ) (f : ν → ν) (x : κ) :
    (h.modify k f).value x = if x = k then f (h.value k) else h.value x := by
  show (if x = k then some (f (h.value k)) else h.value? x).getD default = _
  split_ifs
  · rfl
  · rfl

/-- A read changes no value. -/
@[simp] theorem value_touch (h : Hash κ ν) (k x : κ) : (h.touch k).value x = h.value x := by
  rw [touch, value_modify]
  split_ifs with hx
  · rw [hx, id]
  · rfl

end Values
end Hash
end Recd2
