import Recd2.Theorems.Wakeup

/-! An increment without room for it loses a wake-up: from there on, the running calls can take their steps so that a waiter
    is left behind. -/

namespace Recd2.BSemaphore
open Threads Width
variable {T : Type} [DecidableEq T] [Fintype T] {s s' : BSemaphore T} {t u : T}

/-! ### The lock -/

/-- The positions between `lock` and `unlock` of the mutex below. -/
def At.HasLock : At → Prop
  | .testing _ | .posted | .counting | .counted _ => True
  | _ => False

theorem At.InWait.hasLock_or {p : At} (h : p.InWait) : p.HasLock ∨ p = .waiting ∨ p = .signalling := by
  rcases p with _ | _ | b | _ | _ | _ | _ | _ | prevVal | _
  case waiting => exact Or.inr (Or.inl rfl)
  case signalling => exact Or.inr (Or.inr rfl)
  case counting | counted => exact Or.inl trivial
  all_goals exact h.elim

/-- The lock is with the thread that is between `Lock` and `Unlock`. -/
def Locks (s : BSemaphore T) : Prop := ∀ t, (s.pos t).HasLock ↔ s.lock = some t

omit [Fintype T] in
/-- A thread moves, and keeps what it has of the lock, gets it free, or gives it back. -/
theorem Locks.of_update {p : At} (h : Locks s) (hpos : s'.pos = Function.update s.pos t p)
    (hlock : (s'.lock = s.lock ∧ ((s.pos t).HasLock ↔ p.HasLock)) ∨ (s.lock = none ∧ s'.lock = some t ∧ p.HasLock) ∨
      ((s.pos t).HasLock ∧ s'.lock = none ∧ ¬p.HasLock)) : Locks s' := by
  intro u
  have hu := h u
  rw [hpos]
  by_cases hut : u = t
  · subst hut
    rw [Function.update_self]
    rcases hlock with ⟨heq, hiff⟩ | ⟨-, hsome, hp⟩ | ⟨-, hnone, hp⟩
    · rw [heq, ← hu, hiff]
    · exact iff_of_true hp hsome
    · rw [hnone]
      exact iff_of_false hp nofun
  · rw [Function.update_of_ne hut, hu]
    rcases hlock with ⟨heq, -⟩ | ⟨hfree, hsome, -⟩ | ⟨ht, hnone, -⟩
    · rw [heq]
    · rw [hfree, hsome]
      simp [Ne.symm hut]
    · rw [(h t).mp ht, hnone]
      simp [Ne.symm hut]

omit [Fintype T] in
theorem Locks.acquire {p : At} (h : Locks s) (hp : p.HasLock) : Locks (s.acquire t p) := by
  rw [BSemaphore.acquire]
  split_ifs with hfree
  · exact h.of_update rfl (Or.inr (Or.inl ⟨hfree, rfl, hp⟩))
  · exact h

omit [Fintype T] in
theorem Locks.release {p : At} (h : Locks s) (ht : (s.pos t).HasLock) (hp : ¬p.HasLock) : Locks (s.release t p) :=
  h.of_update rfl (Or.inr (Or.inr ⟨ht, rfl, hp⟩))

omit [Fintype T] in
theorem Locks.move {p : At} (h : Locks s) (hp : (s.pos t).HasLock ↔ p.HasLock) : Locks (s.move t p) :=
  h.of_update rfl (Or.inl ⟨rfl, hp⟩)

omit [Fintype T] in
theorem locks_go (h : Locks s) (t : T) : Locks (s.go t) := by
  unfold go
  rcases hp : s.pos t with _ | _ | b | _ | _ | _ | _ | _ | prevVal | _
  case posting | woken | waiting => exact h.acquire trivial
  case testing =>
    dsimp only
    split_ifs
    · exact h.release (by rw [hp]; trivial) id
    · exact h.of_update rfl (Or.inl ⟨rfl, by rw [hp]; exact Iff.rfl⟩)
  case posted => exact h.release (by rw [hp]; trivial) id
  case counting => exact h.of_update rfl (Or.inl ⟨rfl, by rw [hp]; exact Iff.rfl⟩)
  case counted => exact h.release (by rw [hp]; trivial) (by split_ifs <;> exact id)
  all_goals exact h

theorem locks_step (h : Locks s) (a : Act T) : Locks (step s a) := by
  cases a with
  | go t => exact locks_go h t
  | post t | wait t | spurious t =>
    rw [step]
    split_ifs with hp
    · exact h.move (by rw [hp]; exact Iff.rfl)
    · exact h
  | signal t waiter =>
    cases waiter with
    | none =>
      rw [step]
      split_ifs with hp
      · exact h.move (by rw [hp.1]; exact Iff.rfl)
      · exact h
    | some u =>
      rw [step]
      split_ifs with hp
      · refine (h.move (by rw [hp.1]; exact Iff.rfl)).move ?_
        rw [pos_move, Function.update_of_ne (ne_of_signal hp.1 hp.2), hp.2]
        exact Iff.rfl
      · exact h

theorem locks_after (acts : List (Act T)) : Locks (after acts) := by
  induction acts using List.reverseRecOn with
  | nil => exact fun t => iff_of_false id nofun
  | append_singleton acts a ih =>
    rw [after, List.foldl_append]
    exact locks_step ih a

/-! ### Doomed states -/

/-- In `wait`, in front of the increment. -/
def At.Raising (p : At) : Prop := p = .waiting ∨ p = .counting

instance : DecidablePred At.Raising := fun _ => inferInstanceAs (Decidable (_ ∨ _))

/-- How many threads are about to increment. -/
def raising (s : BSemaphore T) : Nat := number At.Raising s.pos

/-- What a running call still has to do, where a signal has one more than the waiter that it wakes. -/
def At.rank : At → Nat
  | .idle | .posting | .blocked => 0
  | .posted => 1
  | .testing _ => 2
  | .woken => 3
  | .signalling => 4
  | .counted _ => 5
  | .counting => 6
  | .waiting => 7

/-- What all running calls still have to do. -/
def rank (s : BSemaphore T) : Nat := total At.rank s.pos

theorem At.HasLock.rank_pos {p : At} (h : p.HasLock) : 0 < p.rank := by
  cases p <;> simp [At.HasLock, At.rank] at h ⊢

/-- More threads are blocked than signals are to come, more is counted than the woken ones and the signals can take up, and
    nobody else is about to decrement. -/
structure Doomed (s : BSemaphore T) : Prop where
  locks : Locks s
  testing : ∀ t, s.pos t ≠ .testing false
  blocked : s.pending < s.blocked
  count : (s.woken + s.pending : Int) < s.count.toInt
  room : s.count.toInt + s.raising < 2 ^ 31

omit [DecidableEq T] in
theorem Doomed.count_pos (h : Doomed s) : 0 < s.count := by
  have hcount := h.count
  refine Int32.lt_iff_toInt_lt.mpr ?_
  show 0 < s.count.toInt
  omega

section Doomed
variable {p : At}

theorem raising_move (s : BSemaphore T) (t : T) (p : At) :
    (s.move t p).raising + (if (s.pos t).Raising then 1 else 0) = s.raising + if p.Raising then 1 else 0 :=
  number_update _ s.pos t p

theorem rank_move (s : BSemaphore T) (t : T) (p : At) : (s.move t p).rank + (s.pos t).rank = s.rank + p.rank :=
  total_update _ s.pos t p

/-- What a thread that is not blocked has to keep. -/
theorem Doomed.of_update (h : Doomed s) (hlocks : Locks s') (hpos : s'.pos = Function.update s.pos t p)
    (ht : s.pos t ≠ .blocked) (hp : p ≠ .blocked) (hfalse : p ≠ .testing false) (hpending : p.Pending → (s.pos t).Pending)
    (hcount : (if p.Woken then 1 else 0) + (if p.Pending then 1 else 0) + s.count.toInt ≤
      (if (s.pos t).Woken then 1 else 0) + (if (s.pos t).Pending then 1 else 0) + s'.count.toInt)
    (hroom : s'.count.toInt + (if p.Raising then 1 else 0) ≤ s.count.toInt + if (s.pos t).Raising then 1 else 0)
    (hrank : p.rank < (s.pos t).rank) : Doomed s' ∧ s'.rank < s.rank := by
  have hb : s'.blocked = s.blocked := by
    have hmove := blocked_move s t p
    rw [if_neg ht, if_neg hp] at hmove
    rw [BSemaphore.blocked, hpos]
    exact hmove
  have hw : s'.woken + (if (s.pos t).Woken then 1 else 0) = s.woken + if p.Woken then 1 else 0 := by
    rw [woken, hpos]
    exact woken_move s t p
  have hs : s'.pending + (if (s.pos t).Pending then 1 else 0) = s.pending + if p.Pending then 1 else 0 := by
    rw [pending, hpos]
    exact pending_move s t p
  have hr : s'.raising + (if (s.pos t).Raising then 1 else 0) = s.raising + if p.Raising then 1 else 0 := by
    rw [raising, hpos]
    exact raising_move s t p
  have hk : s'.rank + (s.pos t).rank = s.rank + p.rank := by
    rw [rank, hpos]
    exact rank_move s t p
  have hle : s'.pending ≤ s.pending := by
    by_cases hpend : p.Pending
    · rw [if_pos hpend, if_pos (hpending hpend)] at hs
      omega
    · rw [if_neg hpend] at hs
      omega
  obtain ⟨-, htesting, hblocked, hdoomed, hfree⟩ := h
  refine ⟨⟨hlocks, fun u => ?_, by omega, ?_, ?_⟩, by omega⟩
  · rw [hpos]
    by_cases hu : u = t
    · rw [hu, Function.update_self]
      exact hfalse
    · rw [Function.update_of_ne hu]
      exact htesting u
  · split_ifs at hcount hw hs <;> omega
  · split_ifs at hroom hr <;> omega

/-- A thread gets the free lock. -/
theorem Doomed.acquire (h : Doomed s) (hfree : s.lock = none) (hlock : p.HasLock) (ht : s.pos t ≠ .blocked)
    (hp : p ≠ .blocked) (hfalse : p ≠ .testing false) (hwoken : p.Woken ↔ (s.pos t).Woken)
    (hpending : p.Pending ↔ (s.pos t).Pending) (hraising : p.Raising ↔ (s.pos t).Raising) (hrank : p.rank < (s.pos t).rank) :
    Doomed (s.acquire t p) ∧ (s.acquire t p).rank < s.rank := by
  have hacquire : s.acquire t p = { s.move t p with lock := some t } := if_pos hfree
  refine h.of_update (h.locks.acquire hlock) (by rw [hacquire]; rfl) ht hp hfalse hpending.mp ?_ ?_ hrank
  · simp only [hacquire, hwoken, hpending]
    exact le_refl _
  · simp only [hacquire, hraising]
    exact le_refl _

theorem doomed_testing (h : Doomed s) (ht : s.pos t = .testing true) :
    Doomed { s.move t .posted with count := s.count - 1 } ∧
      rank { s.move t .posted with count := s.count - 1 } < s.rank := by
  have hsub := toInt_sub_one (Int32.lt_iff_toInt_lt.mp h.count_pos)
  refine h.of_update (h.locks.of_update rfl (Or.inl ⟨rfl, ?_⟩)) rfl ?_ ?_ ?_ ?_ ?_ ?_ ?_
  all_goals simp [ht, hsub, At.HasLock, At.Woken, At.Pending, At.Raising, At.rank]

theorem doomed_counting (h : Doomed s) (ht : s.pos t = .counting) :
    Doomed { s.move t (.counted s.count) with count := s.count + 1 } ∧
      rank { s.move t (.counted s.count) with count := s.count + 1 } < s.rank := by
  have hraising : 0 < s.raising := number_pos_iff.mpr ⟨t, by rw [ht]; exact Or.inr rfl⟩
  have hroom := h.room
  have hne : s.count ≠ 0 := (Int32.ne_of_lt h.count_pos).symm
  have hadd := toInt_add_one (a := s.count) (by omega)
  refine h.of_update (h.locks.of_update rfl (Or.inl ⟨rfl, ?_⟩)) rfl ?_ ?_ ?_ ?_ ?_ ?_ ?_
  all_goals simp [ht, hadd, hne, At.HasLock, At.Woken, At.Pending, At.Raising, At.rank]

/-- The threads that take steps of their own, with the lock or to get it when it is free. -/
theorem doomed_go (h : Doomed s) (hrank : 0 < (s.pos t).rank) (hsignalling : s.pos t ≠ .signalling)
    (hlock : (s.pos t).HasLock ∨ s.lock = none) : Doomed (s.go t) ∧ (s.go t).rank < s.rank := by
  unfold go
  rcases ht : s.pos t with _ | _ | b | _ | _ | _ | _ | _ | prevVal | _
  case idle | posting | blocked => exact absurd hrank (by rw [ht]; decide)
  case signalling => exact absurd ht hsignalling
  case testing =>
    cases b with
    | false => exact absurd ht (h.testing t)
    | true =>
      dsimp only
      rw [if_neg (Int32.not_le.mpr h.count_pos)]
      exact doomed_testing h ht
  case woken =>
    have hfree : s.lock = none := hlock.resolve_left (by rw [ht]; exact id)
    refine h.acquire hfree trivial ?_ ?_ ?_ ?_ ?_ ?_ ?_
    all_goals simp [ht, At.Woken, At.Pending, At.Raising, At.rank]
  case waiting =>
    have hfree : s.lock = none := hlock.resolve_left (by rw [ht]; exact id)
    refine h.acquire hfree trivial ?_ ?_ ?_ ?_ ?_ ?_ ?_
    all_goals simp [ht, At.Woken, At.Pending, At.Raising, At.rank]
  case posted =>
    refine h.of_update (h.locks.release (by rw [ht]; trivial) id) rfl ?_ ?_ ?_ ?_ ?_ ?_ ?_
    all_goals simp [ht, release, At.Woken, At.Pending, At.Raising, At.rank]
  case counting => exact doomed_counting h ht
  case counted =>
    dsimp only
    by_cases hprev : prevVal = 0
    · rw [if_pos hprev]
      refine h.of_update (h.locks.release (by rw [ht]; trivial) id) rfl ?_ ?_ ?_ ?_ ?_ ?_ ?_
      all_goals simp [ht, hprev, release, At.Woken, At.Pending, At.Raising, At.rank]
    · rw [if_neg hprev]
      refine h.of_update (h.locks.release (by rw [ht]; trivial) id) rfl ?_ ?_ ?_ ?_ ?_ ?_ ?_
      all_goals simp [ht, hprev, release, At.Woken, At.Pending, At.Raising, At.rank]

theorem doomed_signal (h : Doomed s) (ht : s.pos t = .signalling) (hu : s.pos u = .blocked) :
    Doomed (step s (.signal t (some u))) ∧ (step s (.signal t (some u))).rank < s.rank := by
  have hlocks := locks_step h.locks (.signal t (some u))
  have hu' : (s.move t .idle).pos u = .blocked := (Function.update_of_ne (ne_of_signal ht hu) ..).trans hu
  obtain ⟨hb, hw, hpend⟩ := signal_numbers ht hu
  have hr := raising_move s t .idle
  have hk := rank_move s t .idle
  have hr' := raising_move (s.move t .idle) u .woken
  have hk' := rank_move (s.move t .idle) u .woken
  simp [ht, At.Raising, At.rank] at hr hk
  simp only [hu'] at hr' hk'
  simp [At.Raising, At.rank] at hr' hk'
  obtain ⟨-, htesting, hblocked, hcount, hroom⟩ := h
  rw [step, if_pos ⟨ht, hu⟩] at hlocks ⊢
  refine ⟨⟨hlocks, fun v => ?_, by omega, ?_, ?_⟩, by omega⟩
  · rw [pos_move, pos_move]
    by_cases hvu : v = u
    · simp [hvu]
    · rw [Function.update_of_ne hvu]
      by_cases hvt : v = t
      · simp [hvt]
      · rw [Function.update_of_ne hvt]
        exact htesting v
  · rw [count_move, count_move]
    omega
  · rw [count_move, count_move]
    omega

end Doomed

/-! ### To the end -/

/-- Steps of calls that are running, without a waiter that wakes by itself. -/
def Act.Running : Act T → Prop
  | .go _ | .signal _ _ => True
  | _ => False

/-- The lock holder goes on, or else a signal is sent, or a thread gets the lock. -/
theorem doomed_step (h : Doomed s) : Lost s ∨ ∃ a : Act T, a.Running ∧ Doomed (step s a) ∧ (step s a).rank < s.rank := by
  rcases hlock : s.lock with _ | u
  · have hfree : ∀ t, ¬(s.pos t).HasLock := fun t ht => by
      rw [h.locks t, hlock] at ht
      cases ht
    have hblocked : ∃ t, s.pos t = .blocked := number_pos_iff.mp (Nat.zero_lt_of_lt h.blocked)
    by_cases hsignal : ∃ t, s.pos t = .signalling
    · obtain ⟨t, ht⟩ := hsignal
      obtain ⟨u, hu⟩ := hblocked
      exact Or.inr ⟨.signal t (some u), trivial, doomed_signal h ht hu⟩
    by_cases hgo : ∃ t, s.pos t = .woken ∨ s.pos t = .waiting
    · obtain ⟨t, ht⟩ := hgo
      refine Or.inr ⟨.go t, trivial, doomed_go h ?_ ?_ (Or.inr hlock)⟩
      · rcases ht with ht | ht <;> rw [ht] <;> decide
      · rcases ht with ht | ht <;> simp [ht]
    · left
      push Not at hsignal hgo
      refine ⟨hblocked, fun t ht => ?_, fun t ht => ?_, h.count_pos⟩
      · rcases ht with ht | ht
        · exact (hgo t).1 ht
        · exact hfree t (by rw [ht]; trivial)
      · rcases ht.hasLock_or with ht | ht | ht
        · exact hfree t ht
        · exact (hgo t).2 ht
        · exact hsignal t ht
  · have hu : (s.pos u).HasLock := (h.locks u).mpr hlock
    refine Or.inr ⟨.go u, trivial, doomed_go h ?_ ?_ (Or.inl hu)⟩
    · exact hu.rank_pos
    · intro hpos
      rw [hpos] at hu
      exact hu

/-- A doomed state loses a wake-up when the running calls go on. -/
theorem Doomed.lost (h : Doomed s) : ∃ acts : List (Act T), (∀ a ∈ acts, a.Running) ∧ Lost (acts.foldl step s) := by
  induction hn : s.rank using Nat.strong_induction_on generalizing s with
  | _ n ih =>
    rcases doomed_step h with hlost | ⟨a, ha, hdoomed, hrank⟩
    · exact ⟨[], nofun, hlost⟩
    · obtain ⟨acts, hacts, hlost⟩ := ih _ (hn ▸ hrank) hdoomed rfl
      exact ⟨a :: acts, List.forall_mem_cons.mpr ⟨ha, hacts⟩, hlost⟩

/-- The increment that leaves too few signals. -/
theorem doomed_increment {acts : List (Act T)} (hinc : Increments (after acts) (.go t)) (hspare : ¬Spare (after acts))
    (hroom : (after acts).count.toInt + (after acts).raising < 2 ^ 31) : Doomed (after (acts ++ [.go t])) := by
  obtain ⟨ht, hpos⟩ := hinc
  have hlocks := locks_after acts
  have hnext : after (acts ++ [.go t]) =
      { (after acts).move t (.counted (after acts).count) with count := (after acts).count + 1 } := by
    rw [after, List.foldl_append]
    show (after acts).go t = _
    rw [go, ht]
  have hlocks' := locks_after (acts ++ [.go t])
  rw [hnext] at hlocks' ⊢
  generalize after acts = s at *
  obtain ⟨hblocked, hcount⟩ := not_or.mp hspare
  have hne : s.count ≠ 0 := (Int32.ne_of_lt hpos).symm
  have hcountpos : 0 < s.count.toInt := Int32.lt_iff_toInt_lt.mp hpos
  have hraising : 0 < s.raising := number_pos_iff.mpr ⟨t, by rw [ht]; exact Or.inr rfl⟩
  have hadd := toInt_add_one (a := s.count) (by omega)
  have hb := blocked_move s t (.counted s.count)
  have hw := woken_move s t (.counted s.count)
  have hpend := pending_move s t (.counted s.count)
  have hr := raising_move s t (.counted s.count)
  simp [ht, hne, At.Woken, At.Pending, At.Raising] at hb hw hpend hr
  refine ⟨hlocks', fun u => ?_, ?_, ?_, ?_⟩
  · show Function.update s.pos t _ u ≠ _
    by_cases hu : u = t
    · simp [hu]
    · -- The lock is with the thread that increments.
      rw [Function.update_of_ne hu]
      intro htest
      have hlock := (hlocks u).mp (by rw [htest]; trivial)
      have hlock' := (hlocks t).mp (by rw [ht]; trivial)
      exact hu (Option.some.inj (hlock.symm.trans hlock'))
  · show (s.move t _).pending < (s.move t _).blocked
    omega
  · show ((s.move t _).woken + (s.move t _).pending : Int) < (s.count + 1).toInt
    omega
  · show (s.count + 1).toInt + (s.move t _).raising < 2 ^ 31
    omega

/-- Wherever an increment from above zero finds no room, the wake-up is lost in some continuation: so far as the count does
    not overflow, the condition of `wakeup_not_lost` cannot be weakened. -/
theorem lost_of_increment {acts : List (Act T)} (hinc : Increments (after acts) (.go t)) (hspare : ¬Spare (after acts))
    (hroom : (after acts).count.toInt + (after acts).raising < 2 ^ 31) :
    ∃ more : List (Act T), (∀ a ∈ more, a.Running) ∧ Lost (after (acts ++ [.go t] ++ more)) := by
  obtain ⟨more, hmore, hlost⟩ := (doomed_increment hinc hspare hroom).lost
  refine ⟨more, hmore, ?_⟩
  rw [after, List.foldl_append]
  exact hlost

end Recd2.BSemaphore
