import Recd2.Lib.Run
import Recd2.Lib.Threads
import Recd2.Lib.Width
import Recd2.Thread

/-! Lost wake-ups of the semaphore. A `wait` that finds the count above zero sends no signal, so that waiters may be left
    behind when the signals to come and the woken waiters are fewer than the count allows for. -/

namespace Recd2.BSemaphore
open Threads Width

/-! ### The count -/

/-- The sum wraps around to a small number, if at all. -/
theorem toInt_add_one_le (n : Int32) : (n + 1).toInt ≤ n.toInt + 1 := by
  have hle := n.le_toInt
  have hlt := n.toInt_lt
  rw [Int32.toInt_add]
  show (n.toInt + 1).bmod (2 ^ 32) ≤ _
  rw [Int.bmod_def]
  split_ifs <;> omega

/-! ### What is lost -/

variable {T : Type} [DecidableEq T] [Fintype T] {s : BSemaphore T} {t u : T}

/-- Woken, and not yet behind the decrement. -/
def At.Woken (p : At) : Prop := p = .woken ∨ p = .testing true

/-- In `wait`, with the signal still to come. -/
def At.Pending (p : At) : Prop := p = .counted 0 ∨ p = .signalling

/-- In `wait`, in front of the test. -/
def At.InWait : At → Prop
  | .waiting | .counting | .counted _ | .signalling => True
  | _ => False

instance : DecidablePred At.InWait
  | .waiting | .counting | .counted _ | .signalling => .isTrue trivial
  | .idle | .posting | .testing _ | .blocked | .woken | .posted => .isFalse id

instance : DecidablePred At.Woken := fun _ => inferInstanceAs (Decidable (_ ∨ _))

instance : DecidablePred At.Pending := fun _ => inferInstanceAs (Decidable (_ ∨ _))

/-- A thread is blocked although the count is above zero, and no other thread is about to change that. -/
structure Lost (s : BSemaphore T) : Prop where
  blocked : ∃ t, s.pos t = .blocked
  woken : ∀ t, ¬(s.pos t).Woken
  inWait : ∀ t, ¬(s.pos t).InWait
  count : 0 < s.count

/-- How many threads are blocked. -/
def blocked (s : BSemaphore T) : Nat := number (· = .blocked) s.pos

/-- How many threads are woken and have not decremented yet. -/
def woken (s : BSemaphore T) : Nat := number At.Woken s.pos

/-- How many threads have a signal still to send. -/
def pending (s : BSemaphore T) : Nat := number At.Pending s.pos

/-- Signals are to come for all who are blocked, or the count is taken up by those who are woken or will be. -/
def Safe (s : BSemaphore T) : Prop := s.blocked ≤ s.pending ∨ s.count.toInt ≤ s.woken + s.pending

/-- The same, with room for one increment without a signal. -/
def Spare (s : BSemaphore T) : Prop := s.blocked ≤ s.pending ∨ s.count.toInt < s.woken + s.pending

/-- The step increments the count from above zero. -/
def Increments (s : BSemaphore T) : Act T → Prop
  | .go t => s.pos t = .counting ∧ 0 < s.count
  | _ => False

instance (s : BSemaphore T) (a : Act T) : Decidable (Increments s a) :=
  match a with
  | .go _ => inferInstanceAs (Decidable (_ ∧ _))
  | .post _ | .wait _ | .signal _ _ | .spurious _ => .isFalse id

instance (s : BSemaphore T) : Decidable (Spare s) := inferInstanceAs (Decidable (_ ∨ _))

/-- The semaphore behind the steps. -/
def after (acts : List (Act T)) : BSemaphore T := acts.foldl step new

/-! ### Positions -/

section Moves
variable (s : BSemaphore T) (t : T) (p : At)

omit [Fintype T] in
@[simp] theorem count_move : (s.move t p).count = s.count := rfl

omit [Fintype T] in
@[simp] theorem pos_move : (s.move t p).pos = Function.update s.pos t p := rfl

theorem blocked_move : (s.move t p).blocked + (if s.pos t = .blocked then 1 else 0) =
    s.blocked + if p = .blocked then 1 else 0 := number_update _ s.pos t p

theorem woken_move : (s.move t p).woken + (if (s.pos t).Woken then 1 else 0) = s.woken + if p.Woken then 1 else 0 :=
  number_update _ s.pos t p

theorem pending_move : (s.move t p).pending + (if (s.pos t).Pending then 1 else 0) =
    s.pending + if p.Pending then 1 else 0 := number_update _ s.pos t p

end Moves

/-! ### One step -/

omit [DecidableEq T] in
theorem safe_of_nonpos (h : s.count ≤ 0) : Safe s := by
  have hcount : s.count.toInt ≤ 0 := Int32.le_iff_toInt_le.mp h
  exact Or.inr (by omega)

/-- A move between positions of the same kind, which does not raise the count. -/
theorem Safe.of_move {s' : BSemaphore T} {p : At} (h : Safe s) (hpos : s'.pos = Function.update s.pos t p)
    (hcount : s'.count.toInt ≤ s.count.toInt) (hblocked : s.pos t = .blocked ↔ p = .blocked)
    (hwoken : (s.pos t).Woken ↔ p.Woken) (hpending : (s.pos t).Pending ↔ p.Pending) : Safe s' := by
  have hb : s'.blocked = s.blocked := by
    have hmove := blocked_move s t p
    rw [blocked, hpos]
    simp only [hblocked] at hmove
    exact Nat.add_right_cancel hmove
  have hw : s'.woken = s.woken := by
    have hmove := woken_move s t p
    rw [woken, hpos]
    simp only [hwoken] at hmove
    exact Nat.add_right_cancel hmove
  have hp : s'.pending = s.pending := by
    have hmove := pending_move s t p
    rw [pending, hpos]
    simp only [hpending] at hmove
    exact Nat.add_right_cancel hmove
  rw [Safe] at h ⊢
  omega

theorem Safe.acquire {p : At} (h : Safe s) (hblocked : s.pos t = .blocked ↔ p = .blocked)
    (hwoken : (s.pos t).Woken ↔ p.Woken) (hpending : (s.pos t).Pending ↔ p.Pending) : Safe (s.acquire t p) := by
  rw [BSemaphore.acquire]
  split_ifs
  · exact h.of_move rfl (le_refl _) hblocked hwoken hpending
  · exact h

theorem safe_testing {b : Bool} (h : Safe s) (hp : s.pos t = .testing b) :
    Safe (if s.count ≤ 0 then s.release t .blocked else { s.move t .posted with count := s.count - 1 }) := by
  split_ifs with hcount
  · exact safe_of_nonpos hcount
  · have hsub := toInt_sub_one (Int32.lt_iff_toInt_lt.mp (Int32.not_le.mp hcount))
    cases b with
    | false => exact h.of_move rfl (by show (s.count - 1).toInt ≤ _; omega) (by simp [hp]) (by simp [hp, At.Woken]) (by simp [hp, At.Pending])
    | true =>
      -- One that was woken takes one off the count.
      have hb := blocked_move s t .posted
      have hw := woken_move s t .posted
      have hpend := pending_move s t .posted
      simp [hp, At.Woken, At.Pending] at hb hw hpend
      show Safe { s.move t .posted with count := s.count - 1 }
      rw [Safe] at h ⊢
      show (s.move t .posted).blocked ≤ (s.move t .posted).pending ∨
        (s.count - 1).toInt ≤ (s.move t .posted).woken + (s.move t .posted).pending
      omega

/-- An increment from zero adds the signal that it needs, and one from below zero needs none. -/
theorem safe_counting (hp : s.pos t = .counting) (hspare : 0 < s.count → Spare s) :
    Safe { s.move t (.counted s.count) with count := s.count + 1 } := by
  have hadd := toInt_add_one_le s.count
  have hb := blocked_move s t (.counted s.count)
  have hw := woken_move s t (.counted s.count)
  have hpend := pending_move s t (.counted s.count)
  simp [hp, At.Woken, At.Pending] at hb hw hpend
  show (s.move t (.counted s.count)).blocked ≤ (s.move t (.counted s.count)).pending ∨
    (s.count + 1).toInt ≤ (s.move t (.counted s.count)).woken + (s.move t (.counted s.count)).pending
  rcases lt_trichotomy s.count.toInt 0 with hneg | hzero | hpos
  · omega
  · rw [if_pos (Int32.toInt_inj.mp hzero)] at hpend
    omega
  · have hne : s.count ≠ 0 := by
      rintro hzero
      rw [hzero] at hpos
      exact absurd hpos (by decide)
    rw [if_neg hne] at hpend
    rcases hspare (Int32.lt_iff_toInt_lt.mpr hpos) with hall | hroom
    · omega
    · omega

theorem safe_go (h : Safe s) (hspare : s.pos t = .counting → 0 < s.count → Spare s) : Safe (s.go t) := by
  unfold go
  rcases hp : s.pos t with _ | _ | b | _ | _ | _ | _ | _ | prevVal | _
  case posting => exact h.acquire (by simp [hp]) (by simp [hp, At.Woken]) (by simp [hp, At.Pending])
  case testing => exact safe_testing h hp
  case woken => exact h.acquire (by simp [hp]) (by simp [hp, At.Woken]) (by simp [hp, At.Pending])
  case posted => exact h.of_move rfl (le_refl _) (by simp [hp]) (by simp [hp, At.Woken]) (by simp [hp, At.Pending])
  case waiting => exact h.acquire (by simp [hp]) (by simp [hp, At.Woken]) (by simp [hp, At.Pending])
  case counting => exact safe_counting hp (hspare hp)
  case counted =>
    by_cases hprev : prevVal = 0
    · exact h.of_move rfl (le_refl _) (by simp [hp, hprev]) (by simp [hp, hprev, At.Woken]) (by simp [hp, hprev, At.Pending])
    · exact h.of_move rfl (le_refl _) (by simp [hp, hprev]) (by simp [hp, hprev, At.Woken]) (by simp [hp, hprev, At.Pending])
  all_goals exact h

theorem safe_spurious (h : Safe s) (ht : s.pos t = .blocked) : Safe (s.move t .woken) := by
  have hb := blocked_move s t .woken
  have hw := woken_move s t .woken
  have hpend := pending_move s t .woken
  simp [ht, At.Woken, At.Pending] at hb hw hpend
  rw [Safe] at h ⊢
  rw [count_move]
  omega

/-- Without waiters there is nobody to lose. -/
theorem safe_signal_none (hnone : ∀ u, s.pos u ≠ .blocked) : Safe (s.move t .idle) := by
  have hblocked : (s.move t .idle).blocked = 0 := by
    refine number_eq_zero_iff.mpr fun u hu => ?_
    have hu : Function.update s.pos t .idle u = .blocked := hu
    by_cases hut : u = t
    · subst hut
      rw [Function.update_self] at hu
      cases hu
    · rw [Function.update_of_ne hut] at hu
      exact hnone u hu
  exact Or.inl (by omega)

omit [DecidableEq T] [Fintype T] in
theorem ne_of_signal (ht : s.pos t = .signalling) (hu : s.pos u = .blocked) : u ≠ t := by
  rintro rfl
  rw [ht] at hu
  cases hu

/-- A signal wakes one of the waiters. -/
theorem signal_numbers (ht : s.pos t = .signalling) (hu : s.pos u = .blocked) :
    ((s.move t .idle).move u .woken).blocked + 1 = s.blocked ∧
      ((s.move t .idle).move u .woken).woken = s.woken + 1 ∧
      ((s.move t .idle).move u .woken).pending + 1 = s.pending := by
  have hu' : (s.move t .idle).pos u = .blocked := (Function.update_of_ne (ne_of_signal ht hu) ..).trans hu
  have hb := blocked_move s t .idle
  have hw := woken_move s t .idle
  have hpend := pending_move s t .idle
  have hb' := blocked_move (s.move t .idle) u .woken
  have hw' := woken_move (s.move t .idle) u .woken
  have hpend' := pending_move (s.move t .idle) u .woken
  simp [ht, At.Woken, At.Pending] at hb hw hpend
  simp only [hu'] at hb' hw' hpend'
  simp [At.Woken, At.Pending] at hb' hw' hpend'
  omega

theorem safe_signal (h : Safe s) (ht : s.pos t = .signalling) (hu : s.pos u = .blocked) :
    Safe ((s.move t .idle).move u .woken) := by
  obtain ⟨hb, hw, hpend⟩ := signal_numbers ht hu
  rw [Safe] at h ⊢
  rw [count_move, count_move]
  omega

/-- Of the steps, only an increment from above zero can leave too few signals. -/
theorem safe_step (h : Safe s) {a : Act T} (hspare : Increments s a → Spare s) : Safe (step s a) := by
  cases a with
  | go t => exact safe_go h fun hp hcount => hspare ⟨hp, hcount⟩
  | post t =>
    rw [step]
    split_ifs with hp
    · exact h.of_move rfl (le_refl _) (by simp [hp]) (by simp [hp, At.Woken]) (by simp [hp, At.Pending])
    · exact h
  | wait t =>
    rw [step]
    split_ifs with hp
    · exact h.of_move rfl (le_refl _) (by simp [hp]) (by simp [hp, At.Woken]) (by simp [hp, At.Pending])
    · exact h
  | spurious t =>
    rw [step]
    split_ifs with hp
    · exact safe_spurious h hp
    · exact h
  | signal t waiter =>
    cases waiter with
    | none =>
      rw [step]
      split_ifs with hp
      · exact safe_signal_none hp.2
      · exact h
    | some u =>
      rw [step]
      split_ifs with hp
      · exact safe_signal h hp.1 hp.2
      · exact h

/-! ### Runs -/

omit [DecidableEq T] in
theorem Safe.not_lost (h : Safe s) : ¬Lost s := by
  rintro ⟨hblocked, hwoken, hinWait, hcount⟩
  have hb : 0 < s.blocked := number_pos_iff.mpr hblocked
  have hw : s.woken = 0 := number_eq_zero_iff.mpr hwoken
  have hp : s.pending = 0 := by
    refine number_eq_zero_iff.mpr fun t ht => hinWait t ?_
    rcases ht with ht | ht <;> rw [ht] <;> trivial
  have hcount : 0 < s.count.toInt := Int32.lt_iff_toInt_lt.mp hcount
  rcases h with h | h <;> omega

omit [DecidableEq T] in
theorem safe_new : Safe (new : BSemaphore T) := safe_of_nonpos (Int32.le_refl _)

/-- In a run that increments the count from above zero only where there is room for it, no wake-up is ever lost. -/
theorem wakeup_not_lost {acts : List (Act T)}
    (hspare : ∀ pre a, pre ++ [a] <+: acts → Increments (after pre) a → Spare (after pre)) :
    ∀ pre, pre <+: acts → ¬Lost (after pre) := by
  suffices hsafe : ∀ pre, pre <+: acts → Safe (after pre) from fun pre hpre => (hsafe pre hpre).not_lost
  intro pre
  induction pre using List.reverseRecOn with
  | nil => exact fun _ => safe_new
  | append_singleton pre a ih =>
    intro hpre
    rw [after, List.foldl_append]
    exact safe_step (ih ((List.prefix_append _ _).trans hpre)) (hspare pre a hpre)

/-- Two threads are blocked, and one of them wakes without a signal. Of the two increments that follow, the second one is from
    above zero, and the signal goes to the thread that is still blocked. -/
theorem wakeup_not_lost_two :
    let acts : List (Act (Fin 4)) := [.post 0, .go 0, .go 0, .post 1, .go 1, .go 1, .spurious 1, .wait 2, .go 2, .go 2, .go 2,
      .wait 3, .go 3, .go 3, .go 3, .signal 2 (some 0), .go 0, .go 0, .go 0, .go 1, .go 1, .go 1]
    (∀ pre, pre <+: acts → ¬Lost (after pre)) ∧ (∃ pre a, pre ++ [a] <+: acts ∧ Increments (after pre) a) ∧
      (after acts).count = 0 := by
  intro acts
  refine ⟨wakeup_not_lost (Run.forall_prefix_snoc_iff.mpr (by decide)), ⟨acts.take 13, .go 3, ?_, by decide⟩, by decide⟩
  exact List.take_prefix 14 acts

/-- Two threads wait, and two increments come before the one signal: the second waiter stays behind with the count at 1. -/
theorem wakeup_counterexample : ¬∀ (acts pre : List (Act (Fin 4))), pre <+: acts → ¬Lost (after pre) := by
  intro h
  refine h [.post 0, .go 0, .go 0, .post 1, .go 1, .go 1, .wait 2, .go 2, .go 2, .go 2, .wait 3, .go 3, .go 3, .go 3,
    .signal 2 (some 0), .go 0, .go 0, .go 0] _ List.prefix_rfl ?_
  exact ⟨⟨1, rfl⟩, by decide, by decide, by decide⟩

end Recd2.BSemaphore
