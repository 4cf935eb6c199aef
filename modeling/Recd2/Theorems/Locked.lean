import Recd2.Lib.Run
import Recd2.Thread

/-! What `PMutex::locked` says. A waiting thread sets the flag in front of the mutex, and the holder clears it in front of
    the handover, so that the next holder may find it cleared. -/

namespace Recd2.PMutex
variable {T : Type} [DecidableEq T] {m : PMutex T} {t u : T} {acts : List (Act T)}

/-- A `lock` of the thread has returned, and no `unlock` was called since. -/
def At.Holds (p : At) : Prop := p = .holding ∨ p = .relocking

/-- The mutex below is the thread's. -/
def At.HasMutex (p : At) : Prop := p.Holds ∨ p = .unlocking

/-- Whenever a thread holds the mutex, `locked` says so. -/
def Truthful (m : PMutex T) : Prop := ∀ t, (m.pos t).Holds → m.locked = true

/-- The step gives the mutex to the thread. -/
def Acquires (m : PMutex T) (a : Act T) (t : T) : Prop := a = .go t ∧ m.pos t = .locking ∧ m.mutex = none

section Run
variable (acts : List (Act T))

/-- The mutex behind the steps. -/
def after : PMutex T := Run.state step new acts

/-- What the flag was set to so far. -/
def assigned : List Bool := Run.emits step new acts

end Run

/-! ### Positions -/

@[simp] theorem pos_move_self (p : At) : (m.move t p).pos t = p := Function.update_self ..

@[simp] theorem pos_move_of_ne (h : u ≠ t) (p : At) : (m.move t p).pos u = m.pos u := Function.update_of_ne h ..

/-! ### Steps -/

/-- What a step can do: it sets the flag and no thread gets the mutex; the holder clears the flag; a thread gets the free
    mutex; the mutex gets free; or nothing changes. -/
theorem step_cases (m : PMutex T) (a : Act T) :
    (∃ t p, (¬p.HasMutex ∧ ¬(m.pos t).HasMutex ∨ p = .relocking ∧ m.pos t = .holding) ∧
        step m a = ({ m.move t p with isLocked := true }, [true]) ∧ ∀ u, ¬Acquires m a u) ∨
      (∃ t, m.pos t = .holding ∧ step m a = ({ m.move t .unlocking with isLocked := false }, [false]) ∧
        ∀ u, ¬Acquires m a u) ∨
      (∃ t, m.pos t = .locking ∧ m.mutex = none ∧ Acquires m a t ∧
        step m a = ({ m.move t .holding with mutex := some t }, [])) ∨
      (∃ t, m.pos t = .unlocking ∧ step m a = ({ m.move t .idle with mutex := none }, []) ∧ ∀ u, ¬Acquires m a u) ∨
      (step m a = (m, []) ∧ ∀ u, ¬Acquires m a u) := by
  cases a with
  | lock t =>
    rcases hp : m.pos t
    case idle =>
      refine Or.inl ⟨t, .locking, Or.inl ⟨by simp [At.HasMutex, At.Holds], by simp [hp, At.HasMutex, At.Holds]⟩, ?_, ?_⟩
      · simp [step, hp]
      · simp [Acquires]
    case holding =>
      refine Or.inl ⟨t, .relocking, Or.inr ⟨rfl, hp⟩, ?_, ?_⟩
      · simp [step, hp]
      · simp [Acquires]
    all_goals exact Or.inr (Or.inr (Or.inr (Or.inr ⟨by simp [step, hp], by simp [Acquires]⟩)))
  | unlock t =>
    rcases hp : m.pos t
    case holding => exact Or.inr (Or.inl ⟨t, hp, by simp [step, hp], by simp [Acquires]⟩)
    all_goals exact Or.inr (Or.inr (Or.inr (Or.inr ⟨by simp [step, hp], by simp [Acquires]⟩)))
  | go t =>
    rcases hp : m.pos t
    case locking =>
      rcases hm : m.mutex with _ | v
      · exact Or.inr (Or.inr (Or.inl ⟨t, hp, rfl, ⟨rfl, hp, hm⟩, by simp [step, hp, hm]⟩))
      · refine Or.inr (Or.inr (Or.inr (Or.inr ⟨by simp [step, hp, hm], ?_⟩)))
        rintro u ⟨-, -, hnone⟩
        rw [hm] at hnone
        cases hnone
    case unlocking =>
      refine Or.inr (Or.inr (Or.inr (Or.inl ⟨t, hp, by simp [step, hp], ?_⟩)))
      rintro u ⟨hu, hlocking, -⟩
      cases hu
      rw [hp] at hlocking
      cases hlocking
    all_goals
      refine Or.inr (Or.inr (Or.inr (Or.inr ⟨by simp [step, hp], ?_⟩)))
      rintro u ⟨hu, hlocking, -⟩
      cases hu
      rw [hp] at hlocking
      cases hlocking

/-! ### The invariant -/

/-- The mutex is with the thread that holds it, and the flag is what it was last set to. -/
structure Inv (m : PMutex T) (assigned : List Bool) : Prop where
  mutex : ∀ t, (m.pos t).HasMutex ↔ m.mutex = some t
  flag : m.isLocked = assigned.getLast?.getD false

omit [DecidableEq T] in
theorem Inv.eq_of_hasMutex {bs : List Bool} (h : Inv m bs) (ht : (m.pos t).HasMutex) (hu : (m.pos u).HasMutex) : u = t := by
  have ht := (h.mutex t).mp ht
  rw [(h.mutex u).mp hu] at ht
  exact Option.some.inj ht

omit [DecidableEq T] in
theorem inv_new : Inv (new : PMutex T) [] := ⟨fun t => by simp [new, At.HasMutex, At.Holds], rfl⟩

theorem step_inv {bs : List Bool} (h : Inv m bs) (a : Act T) : Inv (step m a).1 (bs ++ (step m a).2) := by
  obtain ⟨t, p, hp, heq, -⟩ | ⟨t, hp, heq, -⟩ | ⟨t, hp, hm, -, heq⟩ | ⟨t, hp, heq, -⟩ | ⟨heq, -⟩ := step_cases m a <;> rw [heq]
  · refine ⟨fun u => ?_, by simp⟩
    have hu := h.mutex u
    show ((m.move t p).pos u).HasMutex ↔ m.mutex = some u
    by_cases hut : u = t
    · subst hut
      rcases hp with ⟨hnew, hold⟩ | ⟨rfl, hold⟩
      · rw [pos_move_self, ← hu]
        exact iff_of_false hnew hold
      · rw [pos_move_self, ← hu]
        exact iff_of_true (Or.inl (Or.inr rfl)) (Or.inl (Or.inl hold))
    · rw [pos_move_of_ne hut, hu]
  · refine ⟨fun u => ?_, by simp⟩
    have hu := h.mutex u
    show ((m.move t .unlocking).pos u).HasMutex ↔ m.mutex = some u
    by_cases hut : u = t
    · subst hut
      rw [pos_move_self, ← hu]
      exact iff_of_true (Or.inr rfl) (Or.inl (Or.inl hp))
    · rw [pos_move_of_ne hut, hu]
  · refine ⟨fun u => ?_, by rw [List.append_nil]; exact h.flag⟩
    have hu := h.mutex u
    show ((m.move t .holding).pos u).HasMutex ↔ some t = some u
    by_cases hut : u = t
    · subst hut
      rw [pos_move_self]
      exact iff_of_true (Or.inl (Or.inl rfl)) rfl
    · rw [pos_move_of_ne hut, hu, hm]
      simp [Ne.symm hut]
  · refine ⟨fun u => ?_, by rw [List.append_nil]; exact h.flag⟩
    show ((m.move t .idle).pos u).HasMutex ↔ none = some u
    have ht : m.mutex = some t := (h.mutex t).mp (Or.inr hp)
    by_cases hut : u = t
    · subst hut
      rw [pos_move_self]
      simp [At.HasMutex, At.Holds]
    · rw [pos_move_of_ne hut, h.mutex u, ht]
      simp [Ne.symm hut]
  · exact ⟨h.mutex, by rw [List.append_nil]; exact h.flag⟩

theorem inv_after (acts : List (Act T)) : Inv (after acts) (assigned acts) := by
  induction acts using List.reverseRecOn with
  | nil => exact inv_new
  | append_singleton acts a ih =>
    rw [after, assigned, Run.state_snoc, Run.emits_snoc]
    exact step_inv ih a

/-- Of the steps, only one that gives the mutex to a thread can make `locked` wrong, and only with the flag cleared. -/
theorem truthful_step_iff {bs : List Bool} (h : Inv m bs) (htrue : Truthful m) (a : Act T) :
    Truthful (step m a).1 ↔ ∀ t, Acquires m a t → bs.getLast? = some true := by
  obtain ⟨t, p, -, heq, hnone⟩ | ⟨t, hp, heq, hnone⟩ | ⟨t, hp, hm, hacq, heq⟩ | ⟨t, hp, heq, hnone⟩ | ⟨heq, hnone⟩ :=
    step_cases m a <;> rw [heq]
  · exact iff_of_true (fun _ _ => rfl) fun u hu => absurd hu (hnone u)
  · refine iff_of_true (fun u hu => ?_) fun u hu => absurd hu (hnone u)
    -- No other thread holds the mutex than the one that is about to give it back.
    have hu : ((m.move t .unlocking).pos u).Holds := hu
    by_cases hut : u = t
    · subst hut
      rw [pos_move_self] at hu
      simp [At.Holds] at hu
    · rw [pos_move_of_ne hut] at hu
      exact absurd (h.eq_of_hasMutex (Or.inl (Or.inl hp)) (Or.inl hu)) hut
  · have hflag : bs.getLast? = some true ↔ m.isLocked = true := by
      rw [h.flag]
      cases bs.getLast? <;> simp
    rw [hflag]
    constructor
    · intro htrue' _ _
      exact htrue' t (by simp [At.Holds])
    · intro hset u _
      exact hset t hacq
  · refine iff_of_true (fun u hu => ?_) fun u hu => absurd hu (hnone u)
    have hu : ((m.move t .idle).pos u).Holds := hu
    by_cases hut : u = t
    · subst hut
      rw [pos_move_self] at hu
      simp [At.Holds] at hu
    · rw [pos_move_of_ne hut] at hu
      exact htrue u hu
  · exact iff_of_true htrue fun u hu => absurd hu (hnone u)

/-- `locked` is right at every moment of a run exactly when, whenever a thread gets the mutex, the last that the flag was
    set to was by a `lock`. -/
theorem truthful_iff (acts : List (Act T)) :
    (∀ pre, pre <+: acts → Truthful (after pre)) ↔
      ∀ pre a, pre ++ [a] <+: acts → ∀ t, Acquires (after pre) a t → (assigned pre).getLast? = some true := by
  refine Run.forall_prefix_iff (fun t h => ?_) fun pre a _ htrue => ?_
  · simp [after, new, At.Holds] at h
  · rw [after, Run.state_snoc]
    exact truthful_step_iff (inv_after pre) htrue a

/-- The second thread waits while the first one clears the flag and hands the mutex over. -/
theorem truthful_counterexample : ¬∀ (acts : List (Act Bool)) (pre : List (Act Bool)), pre <+: acts → Truthful (after pre) := by
  intro h
  have hheld := h [.lock false, .go false, .lock true, .unlock false, .go false, .go true] _ List.prefix_rfl true
  exact absurd (hheld (Or.inl rfl)) (by decide)

end Recd2.PMutex
