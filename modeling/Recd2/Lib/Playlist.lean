import Mathlib.Data.List.Basic
import Recd2.Lib.Run

/-! A player that takes a list at a time and hands out its items, one for each request. While it has a list it takes no
    other one, and only the request behind the last item tells that it is idle again. -/

namespace Recd2.Playlist
open Run
variable {α : Type}

inductive Op (α : Type) where
  | load (items : Option (List α))
  | next
  | reset
  | idle

inductive Answer (α : Type) where
  | taken (b : Bool)
  | item (x : Option α)
  | done
  | idle (b : Bool)

/-- The player has no list, or it has the items that are left of one. A list may be taken without becoming the one played. -/
def step (s : Option (List α)) : Op α → Option (List α) × List (Answer α)
  | .load items =>
    match s with
    | some left => (some left, [.taken false])
    | none => (items, [.taken true])
  | .next =>
    match s with
    | some (x :: left) => (some left, [.item (some x)])
    | _ => (none, [.item none])
  | .reset => (none, [.done])
  | .idle => (s, [.idle s.isNone])

/-! ### Callers -/

section Answered
variable {ε ο : Type} (op : ε → Op α) (seen : ε → Answer α → List ο)

/-- The player behind calls, each of which is one request and tells what it sees of the answer. -/
def answered (s : Option (List α)) (e : ε) : Option (List α) × List ο :=
  ((step s (op e)).1, (step s (op e)).2.flatMap (seen e))

/-- As many requests as there are items get them in their order. -/
theorem emits_next {es : List ε} (hop : ∀ e ∈ es, op e = .next) {items : List α} (hlen : es.length = items.length)
    (rest : List α) :
    emits (answered op seen) (some (items ++ rest)) es = (es.zip items).flatMap (fun p => seen p.1 (.item (some p.2))) ∧
      state (answered op seen) (some (items ++ rest)) es = some rest := by
  induction es generalizing items with
  | nil =>
    obtain rfl := List.length_eq_zero_iff.mp hlen.symm
    exact ⟨rfl, rfl⟩
  | cons e es ih =>
    cases items with
    | nil => cases hlen
    | cons x items =>
      have hstep : answered op seen (some (x :: items ++ rest)) e = (some (items ++ rest), seen e (.item (some x))) := by
        rw [answered, hop e List.mem_cons_self]
        exact Prod.ext rfl (List.flatMap_singleton _ _)
      obtain ⟨hemits, hstate⟩ := ih (fun e he => hop e (List.mem_cons_of_mem _ he)) (Nat.succ.inj hlen)
      rw [emits_cons, state_cons, hstep]
      exact ⟨congrArg (seen e (.item (some x)) ++ ·) hemits, hstate⟩

/-- The requests behind a list that is taken get its items, and the request behind them finds the player idle. -/
theorem emits_load {e e' : ε} {es : List ε} {items : List α} (hload : op e = .load (some items))
    (hop : ∀ e ∈ es, op e = .next) (hlen : es.length = items.length) (hlast : op e' = .next) :
    emits (answered op seen) none (e :: es ++ [e']) =
        seen e (.taken true) ++ (es.zip items).flatMap (fun p => seen p.1 (.item (some p.2))) ++ seen e' (.item none) ∧
      state (answered op seen) none (e :: es ++ [e']) = none := by
  have hfirst : answered op seen none e = (some items, seen e (.taken true)) := by
    rw [answered, hload]
    exact Prod.ext rfl (List.flatMap_singleton _ _)
  have hend : answered op seen (some []) e' = (none, seen e' (.item none)) := by
    rw [answered, hlast]
    exact Prod.ext rfl (List.flatMap_singleton _ _)
  obtain ⟨hemits, hstate⟩ := emits_next op seen hop hlen []
  rw [List.append_nil] at hemits hstate
  rw [emits_snoc, state_snoc, emits_cons, state_cons, hfirst, hemits, hstate, hend]
  exact ⟨rfl, rfl⟩

end Answered
end Recd2.Playlist
