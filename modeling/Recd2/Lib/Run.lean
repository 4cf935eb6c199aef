import Mathlib.Data.List.Basic
import Mathlib.Data.List.Induction

/-! Loops, and runs of a step function over a list of inputs. A step either emits outputs (`state`, `emits`) or
    may fail (`exec`). -/

namespace Recd2.Run

/-! ### Counting loops -/

/-- A loop over `i < n` keeps a property that may depend on the rounds done so far. -/
theorem foldl_range {σ : Type} {f : σ → Nat → σ} {P : Nat → σ → Prop} {n : Nat} {s : σ} (start : P 0 s)
    (round : ∀ i s, i < n → P i s → P (i + 1) (f s i)) : P n ((List.range n).foldl f s) := by
  induction n with
  | zero => exact start
  | succ n ih =>
    rw [List.range_succ, List.foldl_append]
    exact round n _ (Nat.lt_succ_self n) (ih fun i s hi => round i s (Nat.lt_succ_of_lt hi))

/-- A loop whose rounds forget the rounds before ends as its last round alone. -/
theorem foldl_forgets {σ ε : Type} {f : σ → ε → σ} (forgets : ∀ s e e', f (f s e) e' = f s e') (s : σ) (es : List ε) :
    es.foldl f s = (es.getLast?.map (f s)).getD s := by
  rcases List.eq_nil_or_concat es with rfl | ⟨es', e, rfl⟩
  · rfl
  rw [List.concat_eq_append, List.foldl_append, List.getLast?_concat, Option.map_some, Option.getD_some, List.foldl_cons,
    List.foldl_nil]
  induction es' generalizing s with
  | nil => rfl
  | cons e' es' ih => rw [List.foldl_cons, ih, forgets]

/-- A part of the state that only the elements with `p` set holds what the last of them set. -/
theorem foldl_last {σ ε β : Type} {f : σ → ε → σ} {get : σ → β} {p : ε → Bool} {v : ε → β}
    (sets : ∀ s e, get (f s e) = if p e then v e else get s) (s : σ) (es : List ε) :
    get (es.foldl f s) = ((es.reverse.find? p).map v).getD (get s) := by
  induction es using List.reverseRecOn with
  | nil => rfl
  | append_singleton es e ih =>
    rw [List.foldl_append, List.foldl_cons, List.foldl_nil, sets, List.reverse_append, List.reverse_singleton,
      List.singleton_append, List.find?_cons]
    cases p e
    · exact ih
    · rfl

/-! ### The moments of a run -/

/-- A property holds at every moment of a run exactly when each input leaves it true. -/
theorem forall_prefix_iff {ε : Type} {P : List ε → Prop} {Q : List ε → ε → Prop} {es : List ε} (start : P [])
    (next : ∀ pre e, pre ++ [e] <+: es → P pre → (P (pre ++ [e]) ↔ Q pre e)) :
    (∀ pre, pre <+: es → P pre) ↔ ∀ pre e, pre ++ [e] <+: es → Q pre e := by
  constructor
  · intro h pre e hpre
    exact (next pre e hpre (h pre ((List.prefix_append _ _).trans hpre))).mp (h _ hpre)
  · intro h pre
    induction pre using List.reverseRecOn with
    | nil => exact fun _ => start
    | append_singleton pre e ih =>
      intro hpre
      exact (next pre e hpre (ih ((List.prefix_append _ _).trans hpre))).mpr (h pre e hpre)

theorem forall_prefix_snoc_iff {ε : Type} {Q : List ε → ε → Prop} {es : List ε} :
    (∀ pre e, pre ++ [e] <+: es → Q pre e) ↔ ∀ k (h : k < es.length), Q (es.take k) es[k] := by
  constructor
  · intro h k hk
    refine h _ _ ?_
    rw [List.take_append_getElem hk]
    exact List.take_prefix _ _
  · rintro h pre e ⟨rest, rfl⟩
    have hlast := h pre.length (by simp)
    simpa using hlast

/-! ### Steps that emit -/

section Emitting
variable {σ ε ο : Type} {step : σ → ε → σ × List ο}

def state (step : σ → ε → σ × List ο) (s : σ) (es : List ε) : σ := es.foldl (fun s e => (step s e).1) s

def emits (step : σ → ε → σ × List ο) : σ → List ε → List ο
  | _, [] => []
  | s, e :: es => (step s e).2 ++ emits step (step s e).1 es

@[simp] theorem state_nil (s : σ) : state step s [] = s := rfl

@[simp] theorem state_cons (s : σ) (e : ε) (es : List ε) :
    state step s (e :: es) = state step (step s e).1 es := rfl

@[simp] theorem emits_nil (s : σ) : emits step s [] = [] := rfl

@[simp] theorem emits_cons (s : σ) (e : ε) (es : List ε) :
    emits step s (e :: es) = (step s e).2 ++ emits step (step s e).1 es := rfl

theorem state_append (s : σ) (es fs : List ε) : state step s (es ++ fs) = state step (state step s es) fs :=
  List.foldl_append

theorem emits_append (s : σ) (es fs : List ε) :
    emits step s (es ++ fs) = emits step s es ++ emits step (state step s es) fs := by
  induction es generalizing s with
  | nil => rfl
  | cons e es ih => rw [List.cons_append, emits_cons, emits_cons, ih, state_cons, List.append_assoc]

theorem state_snoc (s : σ) (es : List ε) (e : ε) : state step s (es ++ [e]) = (step (state step s es) e).1 :=
  state_append s es [e]

theorem emits_snoc (s : σ) (es : List ε) (e : ε) :
    emits step s (es ++ [e]) = emits step s es ++ (step (state step s es) e).2 := by
  rw [emits_append, emits_cons, emits_nil, List.append_nil]

/-- A step that emits what an abstract one emits, as long as the abstract state stays in bounds, does so in
    whole runs. -/
theorem emits_refines {τ : Type} {R : σ → τ → Prop} {C : τ → Prop} {astep : τ → ε → τ × List ο}
    (hstep : ∀ s a e, R s a → C (astep a e).1 → R (step s e).1 (astep a e).1 ∧ (step s e).2 = (astep a e).2) :
    ∀ (es : List ε) (s : σ) (a : τ), R s a → (∀ k, C (state astep a (es.take k))) →
      R (state step s es) (state astep a es) ∧ emits step s es = emits astep a es
  | [], _, _, h, _ => ⟨h, rfl⟩
  | e :: es, s, a, h, hC => by
    obtain ⟨h', hemit⟩ := hstep s a e h (hC 1)
    obtain ⟨hR, hrest⟩ := emits_refines hstep es _ _ h' fun k => hC (k + 1)
    exact ⟨hR, by rw [emits_cons, emits_cons, hemit, hrest]⟩

/-- What is still to be taken loses exactly what a step takes, and so does a whole run. -/
theorem emits_append_left {α : Type} {left : σ → List α} {taken : ο → List α}
    (hstep : ∀ s e, (step s e).2.flatMap taken ++ left (step s e).1 = left s) (s : σ) (es : List ε) :
    (emits step s es).flatMap taken ++ left (state step s es) = left s := by
  induction es generalizing s with
  | nil => rfl
  | cons e es ih => rw [emits_cons, state_cons, List.flatMap_append, List.append_assoc, ih, hstep]

/-- What the steps take, with what is left, is what was there with what they put. -/
theorem emits_balanced {α : Type} {left : σ → List α} {put taken : ο → List α} {es : List ε}
    (hstep : ∀ s, ∀ e ∈ es, (step s e).2.flatMap taken ++ left (step s e).1 = left s ++ (step s e).2.flatMap put) (s : σ) :
    (emits step s es).flatMap taken ++ left (state step s es) = left s ++ (emits step s es).flatMap put := by
  induction es generalizing s with
  | nil => exact (List.append_nil _).symm
  | cons e es ih =>
    have hrest := ih (fun s f hf => hstep s f (List.mem_cons_of_mem e hf)) (step s e).1
    rw [emits_cons, state_cons, List.flatMap_append, List.append_assoc, hrest, ← List.append_assoc,
      hstep s e List.mem_cons_self, List.flatMap_append, List.append_assoc]

/-- What is emitted depends on the inputs alone, as far as each step does. -/
theorem flatMap_emits {α : Type} {put : ο → List α} {given : ε → List α} (hstep : ∀ s e, (step s e).2.flatMap put = given e)
    (s : σ) (es : List ε) : (emits step s es).flatMap put = es.flatMap given := by
  induction es generalizing s with
  | nil => rfl
  | cons e es ih => rw [emits_cons, List.flatMap_append, hstep, ih, List.flatMap_cons]

theorem state_keeps_of_mem {I : σ → Prop} {es : List ε} (hkeep : ∀ s, ∀ e ∈ es, I s → I (step s e).1) {s : σ} (h : I s) :
    I (state step s es) := by
  induction es generalizing s with
  | nil => exact h
  | cons e es ih =>
    exact ih (fun s f hf => hkeep s f (List.mem_cons_of_mem e hf)) (hkeep s e List.mem_cons_self h)

theorem state_keeps {I : σ → Prop} (hkeep : ∀ s e, I s → I (step s e).1) {s : σ} (h : I s) (es : List ε) :
    I (state step s es) := by
  induction es generalizing s with
  | nil => exact h
  | cons e es ih => exact ih (hkeep s e h)

/-- A run reaches its end when the inputs that count are as many as a measure that each of them lowers, whatever the
    other inputs between them. -/
theorem state_reaches {I : σ → Prop} (done : σ → Prop) (measure : σ → Nat) (counts : ε → Bool)
    (hkeep : ∀ s e, I s → I (step s e).1) (hdone : ∀ s e, I s → done s → done (step s e).1)
    (hzero : ∀ s, I s → measure s = 0 → done s)
    (hlower : ∀ s e, I s → counts e = true → done (step s e).1 ∨ measure (step s e).1 < measure s)
    (hother : ∀ s e, I s → counts e = false → measure (step s e).1 ≤ measure s) {s : σ} (h : I s) (es : List ε)
    (hcount : measure s ≤ es.countP counts) : done (state step s es) := by
  induction es generalizing s with
  | nil => exact hzero s h (Nat.le_zero.mp hcount)
  | cons e es ih =>
    rw [List.countP_cons] at hcount
    rw [state_cons]
    cases he : counts e with
    | true =>
      rw [if_pos he] at hcount
      rcases hlower s e h he with hend | hlt
      · exact (state_keeps (I := fun s => I s ∧ done s) (fun s e hs => ⟨hkeep s e hs.1, hdone s e hs.1 hs.2⟩)
          ⟨hkeep s e h, hend⟩ es).2
      · exact ih (hkeep s e h) (by omega)
    | false =>
      rw [he, if_neg Bool.false_ne_true, Nat.add_zero] at hcount
      exact ih (hkeep s e h) (Nat.le_trans (hother s e h he) hcount)

/-- Each step of the run has the property, which may depend on the state in front of it. -/
def Along (step : σ → ε → σ × List ο) (P : σ → ε → Prop) : σ → List ε → Prop
  | _, [] => True
  | s, e :: es => P s e ∧ Along step P (step s e).1 es

theorem along_of_forall {P : σ → ε → Prop} {es : List ε} (h : ∀ e ∈ es, ∀ s, P s e) (s : σ) : Along step P s es := by
  induction es generalizing s with
  | nil => trivial
  | cons e es ih => exact ⟨h e List.mem_cons_self s, ih (fun e he => h e (List.mem_cons_of_mem _ he)) _⟩

/-- Two properties hold along the same runs when they agree in states that one of them keeps. -/
theorem along_iff {I : σ → Prop} {P Q : σ → ε → Prop} (hstep : ∀ s e, I s → (P s e ↔ Q s e))
    (hkeep : ∀ s e, I s → Q s e → I (step s e).1) {s : σ} (h : I s) (es : List ε) :
    Along step P s es ↔ Along step Q s es := by
  induction es generalizing s with
  | nil => exact Iff.rfl
  | cons e es ih =>
    rw [Along, Along, hstep s e h]
    exact and_congr_right fun hq => ih (hkeep s e h hq)

end Emitting

/-! ### Steps that may fail -/

section Failing
variable {σ τ ε : Type} {step : σ → ε → Option σ}

/-- The state after the inputs, unless a step on the way fails. -/
def exec (step : σ → ε → Option σ) (s : σ) (es : List ε) : Option σ := es.foldlM step s

@[simp] theorem exec_cons (s : σ) (e : ε) (es : List ε) :
    exec step s (e :: es) = (step s e).bind fun t => exec step t es := rfl

theorem exec_append (s : σ) (es fs : List ε) : exec step s (es ++ fs) = (exec step s es).bind fun t => exec step t fs :=
  List.foldlM_append

theorem exec_snoc (s : σ) (es : List ε) (e : ε) : exec step s (es ++ [e]) = (exec step s es).bind fun t => step t e := by
  rw [exec_append]
  exact congrArg _ (funext fun t => Option.bind_fun_some (step t e))

/-- A run succeeds, and follows the steps of an abstract system, when each single step does. -/
theorem exec_refines {R : σ → τ → Prop} {Q : ε → Prop} {astep : τ → ε → τ}
    (hstep : ∀ s a e, Q e → R s a → ∃ t, step s e = some t ∧ R t (astep a e)) :
    ∀ (es : List ε) (s : σ) (a : τ), (∀ e ∈ es, Q e) → R s a →
      ∃ t, exec step s es = some t ∧ R t (es.foldl astep a)
  | [], s, _, _, h => ⟨s, rfl, h⟩
  | e :: es, s, a, hq, h => by
    obtain ⟨t, ht, h'⟩ := hstep s a e (hq e List.mem_cons_self) h
    obtain ⟨u, hu, h''⟩ := exec_refines hstep es t _ (fun x hx => hq x (List.mem_cons_of_mem e hx)) h'
    exact ⟨u, by rw [exec_cons, ht]; exact hu, h''⟩

/-- Each step of the run has the property, which may depend on the state in front of it. A step that fails ends the run. -/
def AlongExec (step : σ → ε → Option σ) (P : σ → ε → Prop) : σ → List ε → Prop
  | _, [] => True
  | s, e :: es => P s e ∧ ∀ t, step s e = some t → AlongExec step P t es

/-- Two properties hold along the same runs when they agree in states that one of them keeps. -/
theorem alongExec_iff {I : σ → Prop} {P Q : σ → ε → Prop} (hstep : ∀ s e, I s → (P s e ↔ Q s e))
    (hkeep : ∀ s e t, I s → Q s e → step s e = some t → I t) {s : σ} (h : I s) (es : List ε) :
    AlongExec step P s es ↔ AlongExec step Q s es := by
  induction es generalizing s with
  | nil => exact Iff.rfl
  | cons e es ih =>
    rw [AlongExec, AlongExec, hstep s e h]
    exact and_congr_right fun hq => forall_congr' fun t => forall_congr' fun ht => ih (hkeep s e t h hq ht)

end Failing
end Recd2.Run
