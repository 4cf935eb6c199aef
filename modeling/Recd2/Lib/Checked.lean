import Mathlib.Data.List.Basic
import Mathlib.Data.List.Infix
import Recd2.Lib.Run

/-! Programs over arrays whose accesses are checked. An access outside the array or to a cell that was not written, a
    division that has no result, and a loop that does not end are faults. -/

namespace Recd2

inductive Fault where
  | alloc
  | bounds
  | unset
  | zero
  | overflow
  | endless
  deriving DecidableEq, Repr

/-! ### Arrays -/

/-- An array. A cell has no value before it is written. -/
abbrev Cells (α : Type) : Type := List (Option α)

namespace Cells
variable {α : Type}

def alloc (n : Int) : Except Fault (Cells α) := if n < 0 then .error .alloc else .ok (.replicate n.toNat none)

def load (a : Cells α) (i : Int) : Except Fault α :=
  if i < 0 then .error .bounds
  else match a[i.toNat]? with
    | some (some x) => .ok x
    | some none => .error .unset
    | none => .error .bounds

def store (a : Cells α) (i : Int) (x : α) : Except Fault (Cells α) :=
  if 0 ≤ i ∧ i < a.length then .ok (a.set i.toNat (some x)) else .error .bounds

/-- The array begins with the values. -/
def Begins (a : Cells α) (xs : List α) : Prop := xs.map some <+: a

section Access
variable {a : Cells α} {xs : List α} {i : Nat} {x : α}

theorem load_of_getElem? (h : a[i]? = some (some x)) : a.load i = .ok x := by
  rw [load, if_neg (Int.not_lt.mpr (Int.natCast_nonneg i)), Int.toNat_natCast, h]

theorem store_of_lt (h : i < a.length) (x : α) : a.store i x = .ok (a.set i (some x)) := by
  rw [store, if_pos ⟨Int.natCast_nonneg i, Int.ofNat_lt.mpr h⟩, Int.toNat_natCast]

theorem Begins.nil (a : Cells α) : a.Begins [] := List.nil_prefix

theorem Begins.length_le (h : a.Begins xs) : xs.length ≤ a.length := by
  have hle := List.IsPrefix.length_le h
  rwa [List.length_map] at hle

theorem Begins.getElem? (h : a.Begins xs) (hi : xs[i]? = some x) : a[i]? = some (some x) := by
  obtain ⟨rest, rfl⟩ := h
  obtain ⟨hlt, -⟩ := List.getElem?_eq_some_iff.mp hi
  rw [List.getElem?_append_left (by rwa [List.length_map]), List.getElem?_map, hi, Option.map_some]

theorem Begins.load (h : a.Begins xs) (hi : xs[i]? = some x) : a.load i = .ok x :=
  load_of_getElem? (h.getElem? hi)

/-- A value written behind the first ones. -/
theorem Begins.snoc (h : a.Begins xs) (hlt : xs.length < a.length) (x : α) :
    Begins (a.set xs.length (some x)) (xs ++ [x]) := by
  obtain ⟨rest, rfl⟩ := h
  rw [List.length_append, List.length_map] at hlt
  cases rest with
  | nil => simp at hlt
  | cons y rest =>
    refine ⟨rest, ?_⟩
    rw [List.map_append, List.append_assoc, List.set_append_right _ _ (by rw [List.length_map]), List.length_map,
      Nat.sub_self]
    rfl

/-- What the values from an offset on are. -/
theorem Begins.mapM_load {as bs : List α} (h : a.Begins (as ++ xs ++ bs)) :
    (List.range xs.length).mapM (fun i => a.load (as.length + i : Nat)) = .ok xs := by
  induction xs using List.reverseRecOn generalizing bs with
  | nil => rfl
  | append_singleton xs x ih =>
    have hfirst : a.Begins (as ++ xs ++ ([x] ++ bs)) := by
      rwa [← List.append_assoc, List.append_assoc as]
    have hlast : a.load (as.length + xs.length : Nat) = .ok x := by
      refine h.load ?_
      rw [List.append_assoc, List.append_assoc, List.getElem?_append_right (Nat.le_add_right _ _), Nat.add_sub_cancel_left,
        List.getElem?_append_right (Nat.le_refl _), Nat.sub_self]
      rfl
    rw [List.length_append, List.length_singleton, List.range_succ, List.mapM_append, ih hfirst, List.mapM_cons, hlast]
    rfl

end Access
end Cells

namespace Checked
variable {α β σ : Type}

/-! ### Arithmetic -/

/-- The one quotient that does not fit. -/
def Overflows (a b : Int32) : Prop := a = Int32.minValue ∧ b = -1

instance (a b : Int32) : Decidable (Overflows a b) := inferInstanceAs (Decidable (_ ∧ _))

/-- A division instruction, which traps for a divisor of zero and for a quotient that does not fit. -/
def divide (a b : Int32) : Except Fault Int32 :=
  if b = 0 then .error .zero else if Overflows a b then .error .overflow else .ok (a / b)

/-- The same instruction gives the remainder. -/
def remainder (a b : Int32) : Except Fault Int32 :=
  if b = 0 then .error .zero else if Overflows a b then .error .overflow else .ok (a % b)

section Division
variable {a b : Int32}

theorem not_overflows_of_pos (a : Int32) (h : 0 < b.toInt) : ¬Overflows a b := by
  rintro ⟨-, rfl⟩
  exact absurd h (by decide)

theorem not_overflows_of_nonneg (h : 0 ≤ a.toInt) (b : Int32) : ¬Overflows a b := by
  rintro ⟨rfl, -⟩
  exact absurd h (by decide)

theorem divide_of_ne (h : b ≠ 0) (hfits : ¬Overflows a b) : divide a b = .ok (a / b) := by
  rw [divide, if_neg h, if_neg hfits]

theorem divide_of_pos (a : Int32) (h : 0 < b.toInt) : divide a b = .ok (a / b) := by
  refine divide_of_ne ?_ (not_overflows_of_pos a h)
  rintro rfl
  exact absurd h (by decide)

theorem divide_of_overflows (h : Overflows a b) : divide a b = .error .overflow := by
  obtain ⟨rfl, rfl⟩ := h
  rfl

theorem remainder_of_nonneg (ha : 0 ≤ a.toInt) (h : b ≠ 0) : remainder a b = .ok (a % b) := by
  rw [remainder, if_neg h, if_neg (not_overflows_of_nonneg ha b)]

end Division

/-! ### Rules for results -/

/-- The result has the property, or the fault is one of those that are allowed. -/
def Yields (E : Fault → Prop) (Q : α → Prop) : Except Fault α → Prop
  | .ok a => Q a
  | .error e => E e

section Yields
variable {E : Fault → Prop} {Q : α → Prop} {R : β → Prop} {x : Except Fault α} {f : α → Except Fault β}

theorem Yields.bind (hx : Yields E Q x) (hf : ∀ a, Q a → Yields E R (f a)) : Yields E R (x >>= f) := by
  cases x with
  | ok a => exact hf a hx
  | error e => exact hx

theorem Yields.mono {Q' : α → Prop} (hx : Yields E Q x) (h : ∀ a, Q a → Q' a) : Yields E Q' x := by
  cases x with
  | ok a => exact h a hx
  | error e => exact hx

theorem Yields.weaken {E' : Fault → Prop} (hx : Yields E Q x) (h : ∀ e, E e → E' e) : Yields E' Q x := by
  cases x with
  | ok a => exact hx
  | error e => exact h e hx

/-- Without a result there is a fault, which is not one of the others. -/
theorem Yields.not_yields {E' : Fault → Prop} {Q' : α → Prop} (hx : Yields E (fun _ => False) x) (h : ∀ e, E e → ¬E' e) :
    ¬Yields E' Q' x := by
  cases x with
  | ok a => exact hx.elim
  | error e => exact h e hx

/-- Where no fault is allowed there is a result. -/
theorem Yields.exists_ok (hx : Yields (fun _ => False) Q x) : ∃ a, x = .ok a ∧ Q a := by
  cases x with
  | ok a => exact ⟨a, rfl, hx⟩
  | error e => exact hx.elim

theorem Yields.ok {a : α} (hx : Yields E Q x) (h : x = .ok a) : Q a := by
  rw [h] at hx
  exact hx

theorem Yields.fault {e : Fault} (hx : Yields E Q x) (h : x = .error e) : E e := by
  rw [h] at hx
  exact hx

theorem divide_eq_of_ok {a b q : Int32} (h : divide a b = .ok q) : q = a / b := by
  rw [divide] at h
  split_ifs at h
  exact (Except.ok.inj h).symm

theorem store_yields {cells : Cells α} {i : Nat} (h : i < cells.length) (x : α) :
    Yields E (· = cells.set i (some x)) (cells.store i x) := by
  rw [Cells.store_of_lt h]
  rfl

theorem Yields.foldlM {Q : σ → Prop} {f : σ → β → Except Fault σ} {xs : List β}
    (hf : ∀ s, ∀ x ∈ xs, Q s → Yields E Q (f s x)) {s : σ} (hs : Q s) : Yields E Q (xs.foldlM f s) := by
  induction xs generalizing s with
  | nil => exact hs
  | cons x xs ih =>
    rw [List.foldlM_cons]
    exact (hf s x List.mem_cons_self hs).bind fun t ht => ih (fun s y hy => hf s y (List.mem_cons_of_mem x hy)) ht

/-- A loop over a list beside a fold over the same list. -/
theorem Yields.foldlM_foldl {τ : Type} {Q : σ → τ → Prop} {f : σ → β → Except Fault σ} {g : τ → β → τ} {xs : List β}
    (hf : ∀ s t, ∀ x ∈ xs, Q s t → Yields E (fun s' => Q s' (g t x)) (f s x)) {s : σ} {t : τ} (h : Q s t) :
    Yields E (fun s' => Q s' (xs.foldl g t)) (xs.foldlM f s) := by
  induction xs generalizing s t with
  | nil => exact h
  | cons x xs ih =>
    rw [List.foldlM_cons]
    exact (hf s t x List.mem_cons_self h).bind fun s' hs' => ih (fun s t y hy => hf s t y (List.mem_cons_of_mem x hy)) hs'

theorem Yields.mapM {xs : List β} {f : β → Except Fault α} (hf : ∀ x ∈ xs, Yields E Q (f x)) :
    Yields E (fun ys => ys.length = xs.length ∧ ∀ y ∈ ys, Q y) (xs.mapM f) := by
  induction xs with
  | nil => exact ⟨rfl, fun _ h => absurd h List.not_mem_nil⟩
  | cons x xs ih =>
    rw [List.mapM_cons]
    refine (hf x List.mem_cons_self).bind fun y hy => (ih fun z hz => hf z (List.mem_cons_of_mem x hz)).bind fun ys hys => ?_
    exact ⟨congrArg (· + 1) hys.1, List.forall_mem_cons.mpr ⟨hy, hys.2⟩⟩

theorem Yields.allM {xs : List β} {f : β → Except Fault Bool} (hf : ∀ x ∈ xs, Yields E (fun _ => True) (f x)) :
    Yields E (fun _ => True) (xs.allM f) := by
  induction xs with
  | nil => trivial
  | cons x xs ih =>
    rw [List.allM]
    refine (hf x List.mem_cons_self).bind fun b _ => ?_
    cases b with
    | false => trivial
    | true => exact ih fun z hz => hf z (List.mem_cons_of_mem x hz)

/-- There is no result. -/
def Fails (x : Except Fault α) : Prop := ∃ e, x = .error e

theorem Fails.bind (h : Fails x) (f : α → Except Fault β) : Fails (x >>= f) := by
  obtain ⟨e, rfl⟩ := h
  exact ⟨e, rfl⟩

theorem Fails.ne_ok (h : Fails x) (a : α) : x ≠ .ok a := by
  obtain ⟨e, rfl⟩ := h
  nofun

end Yields

/-- Two programs with the same fault, or with related results. -/
def Follows (R : α → β → Prop) : Except Fault α → Except Fault β → Prop
  | .ok a, .ok b => R a b
  | .error e, .error e' => e = e'
  | _, _ => False

section Follows
variable {γ δ : Type} {R : α → β → Prop} {S : γ → δ → Prop} {x : Except Fault α} {y : Except Fault β}

theorem Follows.bind {f : α → Except Fault γ} {g : β → Except Fault δ} (h : Follows R x y)
    (hfg : ∀ a b, R a b → Follows S (f a) (g b)) : Follows S (x >>= f) (y >>= g) := by
  cases x with
  | ok a =>
    cases y with
    | ok b => exact hfg a b h
    | error e => exact h.elim
  | error e =>
    cases y with
    | ok b => exact h.elim
    | error e' => exact h

theorem Follows.refl (x : Except Fault α) : Follows (· = ·) x x := by
  cases x <;> rfl

theorem Follows.mono {R' : α → β → Prop} (h : Follows R x y) (hR : ∀ a b, R a b → R' a b) : Follows R' x y := by
  cases x with
  | ok a =>
    cases y with
    | ok b => exact hR a b h
    | error e => exact h
  | error e =>
    cases y with
    | ok b => exact h
    | error e' => exact h

theorem Follows.error {e : Fault} (h : Follows R x (.error e)) : x = .error e := by
  cases x with
  | ok a => exact h.elim
  | error e' => exact congrArg Except.error h

/-- A program may do more than the one that it follows. -/
theorem Yields.follows {Q : γ → Prop} {z : Except Fault γ} {f : γ → Except Fault α} (hz : Yields (fun _ => False) Q z)
    (h : ∀ c, Q c → Follows R (f c) y) : Follows R (z >>= f) y := by
  obtain ⟨c, hc, hQ⟩ := hz.exists_ok
  rw [hc]
  exact h c hQ

theorem Follows.foldlM {xs : List γ} {f : α → γ → Except Fault α} {g : β → γ → Except Fault β}
    (hfg : ∀ a b, ∀ c ∈ xs, R a b → Follows R (f a c) (g b c)) {a : α} {b : β} (h : R a b) :
    Follows R (xs.foldlM f a) (xs.foldlM g b) := by
  induction xs generalizing a b with
  | nil => exact h
  | cons c xs ih =>
    rw [List.foldlM_cons, List.foldlM_cons]
    exact (hfg a b c List.mem_cons_self h).bind fun a b h' =>
      ih (fun a b d hd => hfg a b d (List.mem_cons_of_mem c hd)) h'

/-- What the followed program yields holds of the related results. -/
theorem Follows.yields {E : Fault → Prop} {Q : β → Prop} (h : Follows R x y) (hy : Yields E Q y) :
    Yields E (fun a => ∃ b, R a b ∧ Q b) x := by
  cases x with
  | ok a =>
    cases y with
    | ok b => exact ⟨b, h, hy⟩
    | error e => exact h.elim
  | error e =>
    cases y with
    | ok b => exact h.elim
    | error e' => exact h ▸ hy

/-- Programs that follow the same one agree on what the relations determine. -/
theorem Follows.map_eq {γ' : Type} {R' : γ → β → Prop} {x' : Except Fault γ} {v : α → γ'} {v' : γ → γ'}
    (h : Follows R x y) (h' : Follows R' x' y) (hv : ∀ a a' b, R a b → R' a' b → v a = v' a') :
    x.map v = x'.map v' := by
  cases y with
  | ok b =>
    cases x with
    | ok a =>
      cases x' with
      | ok a' => exact congrArg Except.ok (hv a a' b h h')
      | error e => exact h'.elim
    | error e => exact h.elim
  | error e =>
    cases x with
    | ok a => exact h.elim
    | error e' =>
      cases x' with
      | ok a' => exact h'.elim
      | error e'' => exact congrArg Except.error ((show e' = e from h).trans (show e'' = e from h').symm)

end Follows

/-! ### Loops -/

/-- `for (i = 0; i < n; i++)`. -/
def forLoop (n : Nat) (body : Nat → σ → Except Fault σ) (s : σ) : Except Fault σ :=
  (List.range n).foldlM (fun s i => body i s) s

/-- `while (cond)`, for `fuel` rounds at most. -/
def whileLoop (cond : σ → Bool) (body : σ → Except Fault σ) : Nat → σ → Except Fault σ
  | 0, s => if cond s then .error .endless else .ok s
  | fuel + 1, s => if cond s then body s >>= whileLoop cond body fuel else .ok s

section Loops
variable {E : Fault → Prop} {cond : σ → Bool} {s : σ} {fuel : Nat}

/-- A counting loop keeps a property that may depend on the rounds done so far. -/
theorem forLoop_yields {body : Nat → σ → Except Fault σ} {P : Nat → σ → Prop} {n : Nat} (start : P 0 s)
    (round : ∀ i s, i < n → P i s → Yields E (P (i + 1)) (body i s)) : Yields E (P n) (forLoop n body s) := by
  induction n with
  | zero => exact start
  | succ n ih =>
    rw [forLoop, List.range_succ, List.foldlM_append]
    refine (ih fun i s hi => round i s (Nat.lt_succ_of_lt hi)).bind fun t ht => ?_
    have hlast := round n t (Nat.lt_succ_self n) ht
    rw [List.foldlM_cons]
    exact hlast.bind fun u hu => hu

/-- A counting loop with a round that has no result has none. -/
theorem forLoop_fails {body : Nat → σ → Except Fault σ} {i n : Nat} (hi : i < n)
    (h : ∀ t, forLoop i body s = .ok t → Fails (body i t)) : Fails (forLoop n body s) := by
  obtain ⟨k, rfl⟩ := Nat.exists_eq_add_of_lt hi
  induction k with
  | zero =>
    rw [forLoop, Nat.add_zero, List.range_succ, List.foldlM_append]
    show Fails (forLoop i body s >>= _)
    cases hfirst : forLoop i body s with
    | error e => exact ⟨e, rfl⟩
    | ok t =>
      show Fails (List.foldlM (fun s i => body i s) t [i])
      rw [List.foldlM_cons]
      exact (h t hfirst).bind _
  | succ k ih =>
    rw [forLoop, ← Nat.add_assoc, List.range_succ, List.foldlM_append]
    exact (ih (by omega)).bind _

variable {body : σ → Except Fault σ}

theorem whileLoop_of_not (h : cond s = false) : whileLoop cond body fuel s = .ok s := by
  cases fuel with
  | zero => rw [whileLoop, h, if_neg Bool.false_ne_true]
  | succ fuel => rw [whileLoop, h, if_neg Bool.false_ne_true]

theorem whileLoop_succ (h : cond s = true) : whileLoop cond body (fuel + 1) s = body s >>= whileLoop cond body fuel := by
  rw [whileLoop, h, if_pos rfl]

theorem whileLoop_zero (h : cond s = true) : whileLoop cond body 0 s = .error .endless := by
  rw [whileLoop, h, if_pos rfl]

theorem whileLoop_yields_of_not {Q : σ → Prop} (h : cond s = false) (hs : Q s) : Yields E Q (whileLoop cond body fuel s) := by
  rw [whileLoop_of_not h]
  exact hs

theorem whileLoop_yields_succ {Q : σ → Prop} (h : cond s = true) (hbody : Yields E Q (body s >>= whileLoop cond body fuel)) :
    Yields E Q (whileLoop cond body (fuel + 1) s) := by
  rw [whileLoop_succ h]
  exact hbody

/-- A loop keeps its invariant, when it may fail to end. -/
theorem whileLoop_keeps {I : σ → Prop} (hendless : E .endless) (round : ∀ s, I s → cond s = true → Yields E I (body s))
    (h : I s) : Yields E (fun t => I t ∧ cond t = false) (whileLoop cond body fuel s) := by
  induction fuel generalizing s with
  | zero =>
    cases hcond : cond s with
    | false =>
      rw [whileLoop_of_not hcond]
      exact ⟨h, hcond⟩
    | true =>
      rw [whileLoop_zero hcond]
      exact hendless
  | succ fuel ih =>
    cases hcond : cond s with
    | false =>
      rw [whileLoop_of_not hcond]
      exact ⟨h, hcond⟩
    | true =>
      rw [whileLoop_succ hcond]
      exact (round s h hcond).bind fun t ht => ih ht

/-- A loop with a measure ends within as many rounds, and keeps its invariant. -/
theorem whileLoop_ends {I : σ → Prop} {measure : σ → Nat} (positive : ∀ s, I s → cond s = true → 0 < measure s)
    (round : ∀ s, I s → cond s = true → Yields E (fun t => I t ∧ measure t < measure s) (body s))
    (hfuel : measure s ≤ fuel) (h : I s) : Yields E (fun t => I t ∧ cond t = false) (whileLoop cond body fuel s) := by
  induction fuel generalizing s with
  | zero =>
    cases hcond : cond s with
    | false =>
      rw [whileLoop_of_not hcond]
      exact ⟨h, hcond⟩
    | true => exact absurd (positive s h hcond) (by omega)
  | succ fuel ih =>
    cases hcond : cond s with
    | false =>
      rw [whileLoop_of_not hcond]
      exact ⟨h, hcond⟩
    | true =>
      rw [whileLoop_succ hcond]
      exact (round s h hcond).bind fun t ht => ih (by omega) ht.1

/-- A loop follows another one, round by round, to its end. -/
theorem whileLoop_follows {τ : Type} {R : σ → τ → Prop} {cond' : τ → Bool} {body' : τ → Except Fault τ} {t : τ}
    (conds : ∀ s t, R s t → cond s = cond' t)
    (round : ∀ s t, R s t → cond' t = true → Follows R (body s) (body' t)) (h : R s t) :
    Follows (fun s t => R s t ∧ cond' t = false) (whileLoop cond body fuel s) (whileLoop cond' body' fuel t) := by
  have hconds := conds s t h
  induction fuel generalizing s t with
  | zero =>
    cases hcond : cond' t with
    | false =>
      rw [whileLoop_of_not (hconds.trans hcond), whileLoop_of_not hcond]
      exact ⟨h, hcond⟩
    | true =>
      rw [whileLoop_zero (hconds.trans hcond), whileLoop_zero hcond]
      rfl
  | succ fuel ih =>
    cases hcond : cond' t with
    | false =>
      rw [whileLoop_of_not (hconds.trans hcond), whileLoop_of_not hcond]
      exact ⟨h, hcond⟩
    | true =>
      rw [whileLoop_succ (hconds.trans hcond), whileLoop_succ hcond]
      exact (round s t h hcond).bind fun s' t' h' => ih h' (conds s' t' h')

/-- A loop whose first round has no result has none. -/
theorem whileLoop_fails (hend : E .endless) (hcond : cond s = true) (h : Yields E (fun _ => False) (body s)) :
    Yields E (fun _ => False) (whileLoop cond body fuel s) := by
  cases fuel with
  | zero =>
    rw [whileLoop_zero hcond]
    exact hend
  | succ fuel =>
    rw [whileLoop_succ hcond]
    exact h.bind fun _ => False.elim

/-- A loop whose condition stays true does not end. -/
theorem whileLoop_endless {I : σ → Prop} (round : ∀ s, I s → cond s = true ∧ Yields (fun _ => False) I (body s)) (h : I s) :
    whileLoop cond body fuel s = .error .endless := by
  induction fuel generalizing s with
  | zero => exact whileLoop_zero (round s h).1
  | succ fuel ih =>
    obtain ⟨hcond, hround⟩ := round s h
    obtain ⟨t, hbody, ht⟩ := hround.exists_ok
    rw [whileLoop_succ hcond, hbody]
    exact ih ht

end Loops

/-! ### Runs -/

section Runs
variable {ε ο τ : Type}

/-- The steps for a list of inputs, with what they emit. -/
def runs (step : σ → ε → Except Fault (σ × List ο)) : σ → List ε → Except Fault (σ × List ο)
  | s, [] => .ok (s, [])
  | s, e :: es => do
    let (t, os) ← step s e
    let (u, rest) ← runs step t es
    return (u, os ++ rest)

variable {step : σ → ε → Except Fault (σ × List ο)} {astep : τ → ε → τ × List ο} {R : σ → τ → Prop} {C : τ → ε → Prop}

/-- A run beside one of an abstract system, which tells what is emitted and whether a step has a result. -/
theorem runs_cases (hok : ∀ s a e, R s a → C a e → Yields (fun _ => False) (fun t => R t.1 (astep a e).1 ∧ t.2 = (astep a e).2) (step s e))
    (hfail : ∀ s a e, R s a → ¬C a e → Fails (step s e)) {s : σ} {a : τ} (h : R s a) (es : List ε) :
    Run.Along astep C a es ∧
        Yields (fun _ => False) (fun t => R t.1 (Run.state astep a es) ∧ t.2 = Run.emits astep a es) (runs step s es) ∨
      ¬Run.Along astep C a es ∧ Fails (runs step s es) := by
  induction es generalizing s a with
  | nil => exact .inl ⟨trivial, h, rfl⟩
  | cons e es ih =>
    by_cases hC : C a e
    · obtain ⟨⟨t, os⟩, hstep, ht, rfl⟩ := (hok s a e h hC).exists_ok
      have hrun : runs step s (e :: es) = runs step t es >>= fun (u, rest) => .ok (u, (astep a e).2 ++ rest) := by
        rw [runs, hstep]
        rfl
      rw [hrun]
      rcases ih ht with ⟨halong, hyields⟩ | ⟨halong, hfails⟩
      · refine .inl ⟨⟨hC, halong⟩, hyields.bind fun u hu => ⟨hu.1, ?_⟩⟩
        rw [Run.emits_cons, ← hu.2]
      · exact .inr ⟨fun hall => halong hall.2, hfails.bind _⟩
    · exact .inr ⟨fun hall => hC hall.1, (hfail s a e h hC).bind _⟩

end Runs
end Checked
end Recd2
