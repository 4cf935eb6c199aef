import Mathlib.Data.List.Basic

/-! A gate in front of a log. An item that arrives at the open gate goes into the log; at the closed gate it
    opens the gate and is gone. Between the items the gate is closed again, any number of times. -/

namespace Recd2

structure Gate (α : Type) where
  isOpen : Bool
  passed : List α

namespace Gate
variable {α : Type}

/-- `none` closes the gate, `some xs` is an item. -/
def step (g : Gate α) : Option (List α) → Gate α
  | none => { g with isOpen := false }
  | some xs => if g.isOpen then { g with passed := g.passed ++ xs } else { g with isOpen := true }

def run (g : Gate α) (is : List (Option (List α))) : Gate α := is.foldl step g

def offered (is : List (Option (List α))) : List α := is.flatMap (·.getD [])

/-- What passes a gate that is open or closed at the start. -/
def gained : Bool → List (Option (List α)) → List α
  | _, [] => []
  | _, none :: is => gained false is
  | true, some xs :: is => xs ++ gained true is
  | false, some _ :: is => gained true is

/-- The items that arrive at the closed gate. -/
def openers : Bool → List (Option (List α)) → List (List α)
  | _, [] => []
  | _, none :: is => openers false is
  | true, some _ :: is => openers true is
  | false, some xs :: is => xs :: openers true is

@[simp] theorem run_cons (g : Gate α) (i : Option (List α)) (is : List (Option (List α))) :
    g.run (i :: is) = (g.step i).run is := rfl

theorem run_append (g : Gate α) (is js : List (Option (List α))) : g.run (is ++ js) = (g.run is).run js :=
  List.foldl_append

theorem passed_run (g : Gate α) (is : List (Option (List α))) :
    (g.run is).passed = g.passed ++ gained g.isOpen is := by
  induction is generalizing g with
  | nil => exact (List.append_nil _).symm
  | cons i is ih =>
    rw [run_cons, ih]
    rcases i with _ | xs
    · rcases hg : g.isOpen <;> rfl
    · rcases hg : g.isOpen
      · simp [step, hg, gained]
      · simp [step, hg, gained]

theorem gained_sublist (b : Bool) (is : List (Option (List α))) : (gained b is).Sublist (offered is) := by
  induction is generalizing b with
  | nil => exact List.Sublist.refl []
  | cons i is ih =>
    rcases i with _ | xs
    · cases b <;> exact ih false
    · cases b
      · exact (ih true).trans (List.sublist_append_right xs (offered is))
      · exact (List.Sublist.refl xs).append (ih true)

theorem gained_append (b : Bool) (is js : List (Option (List α))) :
    gained b (is ++ js) = gained b is ++ gained (is.getLast?.elim b Option.isSome) js := by
  induction is generalizing b with
  | nil => rfl
  | cons i is ih =>
    have hlast : ∀ c : Bool, (i :: is).getLast?.elim b Option.isSome = is.getLast?.elim i.isSome Option.isSome := by
      intro _
      rw [List.getLast?_cons]
      cases is.getLast? <;> rfl
    rw [List.cons_append, hlast b]
    rcases i with _ | xs
    · cases b <;> exact ih false
    · cases b
      · exact ih true
      · exact (congrArg (xs ++ ·) (ih true)).trans (List.append_assoc ..).symm

theorem gained_singleton (b : Bool) (i : Option (List α)) : gained b [i] = if b then i.getD [] else [] := by
  cases b
  · cases i <;> rfl
  · cases i with
    | none => rfl
    | some xs => exact List.append_nil xs

theorem gained_prefix (b : Bool) {is js : List (Option (List α))} (h : is <+: js) : gained b is <+: gained b js := by
  obtain ⟨rest, rfl⟩ := h
  rw [gained_append]
  exact List.prefix_append _ _

/-- What passes is what comes right behind another item. -/
theorem gained_cons (i : Option (List α)) (is : List (Option (List α))) :
    gained i.isSome is = ((i :: is).zip is).flatMap fun p => if p.1.isSome then p.2.getD [] else [] := by
  induction is generalizing i with
  | nil => cases i <;> rfl
  | cons j is ih =>
    rw [List.zip_cons_cons, List.flatMap_cons, ← ih]
    rcases j with _ | xs
    · cases i <;> rfl
    · cases i <;> rfl

theorem gained_of_closed (is : List (Option (List α))) :
    gained false is = (is.zip is.tail).flatMap fun p => if p.1.isSome then p.2.getD [] else [] := by
  cases is with
  | nil => rfl
  | cons i is =>
    rw [List.tail_cons, ← gained_cons]
    cases i <;> rfl

theorem gained_of_none (b : Bool) {is : List (Option (List α))} (h : ∀ i ∈ is, i = none) : gained b is = [] := by
  induction is generalizing b with
  | nil => rfl
  | cons i is ih =>
    rw [h i List.mem_cons_self]
    exact ih false fun j hj => h j (List.mem_cons_of_mem i hj)

/-- Everything passes exactly when the items that open the gate are empty. -/
theorem gained_eq_offered_iff (b : Bool) (is : List (Option (List α))) :
    gained b is = offered is ↔ ∀ xs ∈ openers b is, xs = [] := by
  induction is generalizing b with
  | nil => exact iff_of_true rfl fun _ h => absurd h List.not_mem_nil
  | cons i is ih =>
    rcases i with _ | xs
    · cases b <;> exact ih false
    · cases b with
      | true => exact (List.append_cancel_left_eq xs _ _).to_iff.trans (ih true)
      | false =>
        show gained true is = xs ++ offered is ↔ ∀ ys ∈ xs :: openers true is, ys = []
        rw [List.forall_mem_cons, ← ih true]
        constructor
        · intro h
          have hlen := (gained_sublist true is).length_le
          rw [h, List.length_append] at hlen
          have hxs : xs = [] := List.length_eq_zero_iff.mp (by omega)
          subst hxs
          exact ⟨rfl, h⟩
        · rintro ⟨rfl, h⟩
          exact h

end Gate
end Recd2
