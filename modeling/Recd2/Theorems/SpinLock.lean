import Mathlib.Algebra.Group.Nat.Defs
import Recd2.Lib.Run
import Recd2.Thread

/-! The spin lock excludes. Only the thread whose id is in `threadId` passes the guards, also between the write of a zero
    count and the release of the id, so that the count belongs to it although its steps are not atomic. -/

namespace Recd2.SpinLock
variable {T : Type} [DecidableEq T]

/-! ### What a run says -/

/-- The number of successful `tryLock` calls of the thread that no `unlock` was begun for. -/
def nesting (events : List (Event T)) (t : T) : Nat :=
  events.foldl (fun depth e =>
    match e with
    | .locked u true => if u = t then depth + 1 else depth
    | .unlocking u => if u = t then depth - 1 else depth
    | _ => depth) 0

section Meaning
variable (ids : ThreadIds T) (acts : List (Act T))

/-- The lock behind the steps. -/
def after : SpinLock T := Run.state (step ids) new acts

/-- What happened in the steps. -/
def events : List (Event T) := Run.emits (step ids) new acts

/-- The thread has read the count and not yet written it. -/
def At.Updating : At → Prop
  | .lockWrite _ | .unlockWrite _ => True
  | _ => False

/-- What holds at the end of a run. The `unlock` of a thread that does not hold the lock is followed from its call over any
    steps of the others. -/
structure Sound : Prop where
  exclusive : ∀ t u, 0 < nesting (events ids acts) t → 0 < nesting (events ids acts) u → t = u
  undisturbed : ∀ t u, ((after ids acts).pos t).Updating → ((after ids acts).pos u).Updating → t = u
  quiet : (∀ t, (after ids acts).pos t = .idle) →
    ((after ids acts).threadId = 0 ∧ (after ids acts).lckCount = 0 ∧ ∀ t, nesting (events ids acts) t = 0) ∨
      ∃ t, 0 < nesting (events ids acts) t ∧ (after ids acts).threadId = ids.currentThread t ∧
        (after ids acts).lckCount.toNat = nesting (events ids acts) t
  foreign : ∀ t others, (after ids acts).pos t = .idle → nesting (events ids acts) t = 0 → (∀ a ∈ others, a.thread ≠ t) →
    step ids (after ids (acts ++ .unlock t :: others)) (.go t) =
      ((after ids (acts ++ .unlock t :: others)).move t .idle, [.unlocked t false])

end Meaning

section Lemmas
variable {ids : ThreadIds T} {l : SpinLock T} {es : List (Event T)} {t u : T}

/-! ### Nesting and positions -/

@[simp] theorem nesting_nil (t : T) : nesting [] t = 0 := rfl

@[simp] theorem nesting_locked (es : List (Event T)) (u t : T) :
    nesting (es ++ [.locked u true]) t = if u = t then nesting es t + 1 else nesting es t := by
  simp [nesting]

@[simp] theorem nesting_unlocking (es : List (Event T)) (u t : T) :
    nesting (es ++ [.unlocking u]) t = if u = t then nesting es t - 1 else nesting es t := by
  simp [nesting]

@[simp] theorem nesting_failed (es : List (Event T)) (u t : T) : nesting (es ++ [.locked u false]) t = nesting es t := by
  simp [nesting]

@[simp] theorem nesting_unlocked (es : List (Event T)) (u t : T) (b : Bool) :
    nesting (es ++ [.unlocked u b]) t = nesting es t := by
  simp [nesting]

@[simp] theorem pos_move_self (p : At) : (l.move t p).pos t = p := Function.update_self ..

@[simp] theorem pos_move_of_ne (h : u ≠ t) (p : At) : (l.move t p).pos u = l.pos u := Function.update_of_ne h ..

@[simp] theorem threadId_move (p : At) : (l.move t p).threadId = l.threadId := rfl

@[simp] theorem lckCount_move (p : At) : (l.move t p).lckCount = l.lckCount := rfl

/-! ### The invariant -/

/-- The lock is the thread's, with this count. -/
def Owns (l : SpinLock T) (id : UInt64) (n : Nat) : Prop := l.threadId = id ∧ l.lckCount.toNat = n

/-- What a thread that holds the lock `depth` times may rely on at its position. -/
def Local (l : SpinLock T) (id : UInt64) (depth : Nat) : At → Prop
  | .idle | .lockTest => (Owns l id depth ∧ 0 < depth) ∨ (l.threadId ≠ id ∧ depth = 0)
  | .lockSwap => l.threadId ≠ id ∧ depth = 0
  | .lockRead => Owns l id depth
  | .lockWrite lckCount => Owns l id depth ∧ lckCount = l.lckCount
  | .unlockTest => Owns l id (depth + 1) ∨ (l.threadId ≠ id ∧ depth = 0)
  | .unlockRead => Owns l id (depth + 1)
  | .unlockWrite lckCount => Owns l id (depth + 1) ∧ lckCount = l.lckCount
  | .unlockReread => Owns l id depth
  | .unlockSwap => Owns l id 0 ∧ depth = 0

/-- Each thread may rely on what its position says, and the lock is free or of a thread. -/
structure Inv (ids : ThreadIds T) (l : SpinLock T) (es : List (Event T)) : Prop where
  threads : ∀ t, Local l (ids.currentThread t) (nesting es t) (l.pos t)
  free : l.threadId = 0 → l.lckCount = 0
  known : l.threadId = 0 ∨ ∃ t, l.threadId = ids.currentThread t

theorem inv_new : Inv ids new [] :=
  ⟨fun t => Or.inr ⟨(ids.ne_zero t).symm, rfl⟩, fun _ => rfl, Or.inl rfl⟩

/-! ### One step -/

omit [DecidableEq T] in
/-- A thread may still rely on the same where the fields are the same, or where the lock is not its own. -/
theorem Local.frame {l' : SpinLock T} {id : UInt64} {depth : Nat} {p : At} (h : Local l id depth p)
    (hl : (l'.threadId = l.threadId ∧ l'.lckCount = l.lckCount) ∨ (l.threadId ≠ id ∧ l'.threadId ≠ id)) :
    Local l' id depth p := by
  rcases hl with ⟨hid, hcount⟩ | ⟨hid, hid'⟩
  · cases p <;> simpa [Local, Owns, hid, hcount] using h
  · cases p <;> simp_all [Local, Owns]

/-- A step of a thread keeps the invariant where the thread itself may rely on it and the fields are as before, or are its
    own to change. -/
theorem Inv.of_step (h : Inv ids l es) {l' : SpinLock T} {es' : List (Event T)} {p : At}
    (hpos : l'.pos = Function.update l.pos t p) (hlocal : Local l' (ids.currentThread t) (nesting es' t) p)
    (hes : ∀ u, u ≠ t → nesting es' u = nesting es u)
    (hl : (l'.threadId = l.threadId ∧ l'.lckCount = l.lckCount) ∨
      ((l.threadId = ids.currentThread t ∨ l.threadId = 0) ∧ (l'.threadId = ids.currentThread t ∨ l'.threadId = 0)))
    (hfree : l'.threadId = 0 → l'.lckCount = 0) : Inv ids l' es' := by
  refine ⟨fun u => ?_, hfree, ?_⟩
  · rw [hpos]
    by_cases hut : u = t
    · subst hut
      rwa [Function.update_self]
    · rw [Function.update_of_ne hut, hes u hut]
      refine (h.threads u).frame (hl.imp_right fun ⟨hold, hnew⟩ => ?_)
      have hne : ids.currentThread u ≠ ids.currentThread t := fun heq => hut (ids.injective heq)
      have hzero := ids.ne_zero u
      constructor
      · rcases hold with hold | hold <;> rw [hold]
        exacts [hne.symm, hzero.symm]
      · rcases hnew with hnew | hnew <;> rw [hnew]
        exacts [hne.symm, hzero.symm]
  · rcases hl with ⟨hid, -⟩ | ⟨-, hid | hid⟩
    · rw [hid]
      exact h.known
    · exact Or.inr ⟨t, hid⟩
    · exact Or.inl hid

/-- A step that leaves the fields as they are. -/
theorem Inv.of_move (h : Inv ids l es) {es' : List (Event T)} {p : At}
    (hlocal : Local l (ids.currentThread t) (nesting es' t) p) (hes : ∀ u, u ≠ t → nesting es' u = nesting es u) :
    Inv ids (l.move t p) es' :=
  h.of_step rfl (hlocal.frame (Or.inl ⟨rfl, rfl⟩)) hes (Or.inl ⟨rfl, rfl⟩) h.free

section Changes
variable (h : Inv ids l es)
include h

/-- A free lock is taken. -/
theorem Inv.take (hfree : l.threadId = 0) (hdepth : nesting es t = 0) :
    Inv ids { l.move t .lockRead with threadId := ids.currentThread t } es := by
  refine h.of_step rfl ⟨rfl, ?_⟩ (fun _ _ => rfl) (Or.inr ⟨Or.inr hfree, Or.inl rfl⟩) fun hzero => absurd hzero (ids.ne_zero t)
  show l.lckCount.toNat = _
  rw [h.free hfree, hdepth]
  rfl

theorem Inv.count_up (howns : Owns l (ids.currentThread t) (nesting es t)) (hdepth : nesting es t + 1 < 2 ^ 32) :
    Inv ids { l.move t .idle with lckCount := l.lckCount + 1 } (es ++ [.locked t true]) := by
  obtain ⟨hid, hcount⟩ := howns
  refine h.of_step rfl ?_ (fun u hu => by simp [hu.symm]) (Or.inr ⟨Or.inl hid, Or.inl hid⟩) fun hzero => ?_
  · rw [nesting_locked, if_pos rfl]
    refine Or.inl ⟨⟨hid, ?_⟩, Nat.succ_pos _⟩
    show (l.lckCount + 1).toNat = _
    rw [UInt32.toNat_add, hcount]
    exact Nat.mod_eq_of_lt hdepth
  · exact absurd (hid.symm.trans hzero) (ids.ne_zero t)

theorem Inv.count_down (howns : Owns l (ids.currentThread t) (nesting es t + 1)) :
    Inv ids { l.move t .unlockReread with lckCount := l.lckCount - 1 } es := by
  obtain ⟨hid, hcount⟩ := howns
  refine h.of_step rfl ⟨hid, ?_⟩ (fun _ _ => rfl) (Or.inr ⟨Or.inl hid, Or.inl hid⟩) fun hzero => ?_
  · show (l.lckCount - 1).toNat = _
    rw [UInt32.toNat_sub_of_le _ _ (UInt32.le_iff_toNat_le.mpr (by rw [hcount]; exact Nat.succ_pos _)), hcount]
    rfl
  · exact absurd (hid.symm.trans hzero) (ids.ne_zero t)

/-- The lock is given back. -/
theorem Inv.release (howns : Owns l (ids.currentThread t) 0) (hdepth : nesting es t = 0) :
    Inv ids { l.move t .idle with threadId := 0 } (es ++ [.unlocked t true]) := by
  obtain ⟨hid, hcount⟩ := howns
  refine h.of_step rfl (Or.inr ⟨(ids.ne_zero t).symm, ?_⟩) (fun u _ => by simp) (Or.inr ⟨Or.inl hid, Or.inr rfl⟩) fun _ => ?_
  · rw [nesting_unlocked, hdepth]
  · exact UInt32.toNat_inj.mp hcount

end Changes

theorem inv_go (h : Inv ids l es) (hnesting : ∀ u, nesting (es ++ (l.go ids t).2) u < 2 ^ 32) :
    Inv ids (l.go ids t).1 (es ++ (l.go ids t).2) := by
  have hlocal := h.threads t
  unfold go at hnesting ⊢
  rcases hp : l.pos t with _ | _ | _ | _ | n | _ | _ | n | _ | _ <;> simp only [hp] at hlocal hnesting ⊢
  case idle =>
    rw [List.append_nil]
    exact h
  case lockTest =>
    rw [List.append_nil]
    refine h.of_move ?_ fun _ _ => rfl
    split_ifs with hid
    · rcases hlocal with ⟨howns, -⟩ | ⟨hne, -⟩
      · exact howns
      · exact absurd hid hne
    · rcases hlocal with ⟨howns, -⟩ | hforeign
      · exact absurd howns.1 hid
      · exact hforeign
  case lockSwap =>
    split_ifs with hid
    · rw [List.append_nil]
      exact h.take hid hlocal.2
    · refine h.of_move ?_ fun u _ => by simp
      rw [nesting_failed]
      exact Or.inr hlocal
  case lockRead =>
    rw [List.append_nil]
    exact h.of_move ⟨hlocal, rfl⟩ fun _ _ => rfl
  case lockWrite =>
    obtain ⟨howns, rfl⟩ := hlocal
    have hdepth := hnesting t
    rw [nesting_locked, if_pos rfl] at hdepth
    exact h.count_up howns hdepth
  case unlockTest =>
    split_ifs with hid
    · rw [List.append_nil]
      refine h.of_move ?_ fun _ _ => rfl
      rcases hlocal with howns | ⟨hne, -⟩
      · exact howns
      · exact absurd hid hne
    · refine h.of_move ?_ fun u _ => by simp
      rw [nesting_unlocked]
      rcases hlocal with howns | hforeign
      · exact absurd howns.1 hid
      · exact Or.inr hforeign
  case unlockRead =>
    rw [List.append_nil]
    exact h.of_move ⟨hlocal, rfl⟩ fun _ _ => rfl
  case unlockWrite =>
    obtain ⟨howns, rfl⟩ := hlocal
    rw [List.append_nil]
    exact h.count_down howns
  case unlockReread =>
    have hcount : l.lckCount = 0 ↔ nesting es t = 0 := by
      rw [← hlocal.2, ← UInt32.toNat_inj]
      rfl
    split_ifs with hzero
    · refine h.of_move ?_ fun u _ => by simp
      rw [nesting_unlocked]
      exact Or.inl ⟨hlocal, Nat.pos_of_ne_zero fun hdepth => hzero (hcount.mpr hdepth)⟩
    · rw [List.append_nil]
      have hdepth := hcount.mp (not_not.mp hzero)
      refine h.of_move ⟨?_, hdepth⟩ fun _ _ => rfl
      rw [← hdepth]
      exact hlocal
  case unlockSwap =>
    obtain ⟨howns, hdepth⟩ := hlocal
    rw [if_pos howns.1]
    exact h.release howns hdepth

theorem inv_step (h : Inv ids l es) (a : Act T) (hnesting : ∀ u, nesting (es ++ (step ids l a).2) u < 2 ^ 32) :
    Inv ids (step ids l a).1 (es ++ (step ids l a).2) := by
  cases a with
  | go t => exact inv_go h hnesting
  | tryLock t =>
    have hlocal := h.threads t
    rw [step]
    split_ifs with hp
    · rw [List.append_nil]
      rw [hp] at hlocal
      exact h.of_move hlocal fun _ _ => rfl
    · rw [List.append_nil]
      exact h
  | unlock t =>
    have hlocal := h.threads t
    rw [step]
    split_ifs with hp
    · rw [hp] at hlocal
      refine h.of_move ?_ fun u hu => by simp [hu.symm]
      rw [nesting_unlocking, if_pos rfl]
      rcases hlocal with ⟨howns, hpos⟩ | ⟨hne, hdepth⟩
      · left
        rwa [Nat.sub_add_cancel hpos]
      · right
        exact ⟨hne, by rw [hdepth]⟩
    · rw [List.append_nil]
      exact h

/-! ### What a step leaves as it is -/

/-- Of the positions, a step changes that of its thread only, and it sets `threadId` to the id of its thread or to zero. -/
theorem go_fields (ids : ThreadIds T) (l : SpinLock T) (t : T) :
    (∀ u, u ≠ t → (l.go ids t).1.pos u = l.pos u) ∧
      ((l.go ids t).1.threadId = l.threadId ∨ (l.go ids t).1.threadId = ids.currentThread t ∨
        (l.go ids t).1.threadId = 0) := by
  have hmove : ∀ p u, u ≠ t → (l.move t p).pos u = l.pos u := fun p u hu => pos_move_of_ne hu p
  unfold go
  rcases l.pos t with _ | _ | _ | _ | n | _ | _ | n | _ | _
  case idle => exact ⟨fun _ _ => rfl, Or.inl rfl⟩
  case lockSwap =>
    dsimp only
    split_ifs
    · exact ⟨hmove _, Or.inr (Or.inl rfl)⟩
    · exact ⟨hmove _, Or.inl rfl⟩
  case unlockSwap =>
    dsimp only
    split_ifs
    · exact ⟨hmove _, Or.inr (Or.inr rfl)⟩
    · exact ⟨hmove _, Or.inl rfl⟩
  case unlockTest | unlockReread =>
    dsimp only
    split_ifs <;> exact ⟨hmove _, Or.inl rfl⟩
  all_goals exact ⟨hmove _, Or.inl rfl⟩

theorem length_events_go (ids : ThreadIds T) (l : SpinLock T) (t : T) : (l.go ids t).2.length ≤ 1 := by
  unfold go
  split <;> (try split_ifs) <;> simp

theorem length_events_step (ids : ThreadIds T) (l : SpinLock T) (a : Act T) : (step ids l a).2.length ≤ 1 := by
  cases a with
  | go t => exact length_events_go ids l t
  | tryLock t => rw [step]; split_ifs <;> simp
  | unlock t => rw [step]; split_ifs <;> simp

/-- A step of another thread does not give the lock to this one. -/
theorem foreign_step {a : Act T} (ha : a.thread ≠ t) (hid : l.threadId ≠ ids.currentThread t) :
    (step ids l a).1.threadId ≠ ids.currentThread t ∧ (step ids l a).1.pos t = l.pos t := by
  have hother : ids.currentThread a.thread ≠ ids.currentThread t := fun heq => ha (ids.injective heq)
  cases a with
  | go u =>
    obtain ⟨hpos, hfield⟩ := go_fields ids l u
    refine ⟨?_, hpos t ha.symm⟩
    show (l.go ids u).1.threadId ≠ _
    rcases hfield with heq | heq | heq <;> rw [heq]
    exacts [hid, hother, (ids.ne_zero t).symm]
  | tryLock u =>
    rw [step]
    split_ifs
    · exact ⟨hid, pos_move_of_ne ha.symm _⟩
    · exact ⟨hid, rfl⟩
  | unlock u =>
    rw [step]
    split_ifs
    · exact ⟨hid, pos_move_of_ne ha.symm _⟩
    · exact ⟨hid, rfl⟩

theorem foreign_state {others : List (Act T)} (hothers : ∀ a ∈ others, a.thread ≠ t)
    (hid : l.threadId ≠ ids.currentThread t) :
    (Run.state (step ids) l others).threadId ≠ ids.currentThread t ∧ (Run.state (step ids) l others).pos t = l.pos t := by
  induction others generalizing l with
  | nil => exact ⟨hid, rfl⟩
  | cons a others ih =>
    obtain ⟨ha, hrest⟩ := List.forall_mem_cons.mp hothers
    obtain ⟨hid', hpos⟩ := foreign_step ha hid
    obtain ⟨hid'', hpos'⟩ := ih hrest hid'
    exact ⟨hid'', hpos'.trans hpos⟩

/-! ### Runs -/

theorem inv_after {acts : List (Act T)} (hnesting : ∀ pre, pre <+: acts → ∀ t, nesting (events ids pre) t < 2 ^ 32) :
    Inv ids (after ids acts) (events ids acts) := by
  induction acts using List.reverseRecOn with
  | nil => exact inv_new
  | append_singleton acts a ih =>
    have hlast := hnesting _ List.prefix_rfl
    rw [events, Run.emits_snoc] at hlast
    rw [after, events, Run.state_snoc, Run.emits_snoc]
    exact inv_step (ih fun pre hpre => hnesting pre (hpre.trans (List.prefix_append _ _))) a hlast

theorem nesting_le_length (es : List (Event T)) (t : T) : nesting es t ≤ es.length := by
  induction es using List.reverseRecOn with
  | nil => exact Nat.le_refl 0
  | append_singleton es e ih =>
    rw [List.length_append, List.length_singleton]
    rcases e with ⟨u, _ | _⟩ | u | ⟨u, b⟩
    · rw [nesting_failed]
      omega
    · rw [nesting_locked]
      split_ifs <;> omega
    · rw [nesting_unlocking]
      split_ifs <;> omega
    · rw [nesting_unlocked]
      omega

/-- No thread can be nested more deeply than there were steps. -/
theorem nesting_events_le (ids : ThreadIds T) (acts : List (Act T)) (t : T) :
    nesting (events ids acts) t ≤ acts.length := by
  refine (nesting_le_length _ t).trans ?_
  induction acts using List.reverseRecOn with
  | nil => exact Nat.le_refl 0
  | append_singleton acts a ih =>
    have hlast := length_events_step ids (Run.state (step ids) new acts) a
    rw [events] at ih
    rw [events, Run.emits_snoc, List.length_append, List.length_append, List.length_singleton]
    omega

theorem Inv.threadId_of_nesting (h : Inv ids l es) (ht : 0 < nesting es t) : l.threadId = ids.currentThread t := by
  have hlocal := h.threads t
  by_contra hid
  cases hp : l.pos t <;> simp [hp, Local, Owns, hid] at hlocal <;> omega

theorem Inv.threadId_of_updating (h : Inv ids l es) (ht : (l.pos t).Updating) : l.threadId = ids.currentThread t := by
  have hlocal := h.threads t
  cases hp : l.pos t <;> simp [hp, At.Updating] at ht <;> simp only [hp, Local, Owns] at hlocal <;> exact hlocal.1.1

/-- The lock excludes, its count is only ever updated by one thread at a time, it is what it says between the calls, and it
    refuses an `unlock` of a thread that does not hold it. -/
theorem spinLock_sound {acts : List (Act T)} (hnesting : ∀ pre, pre <+: acts → ∀ t, nesting (events ids pre) t < 2 ^ 32) :
    Sound ids acts := by
  have h := inv_after hnesting
  refine ⟨fun t u ht hu => ?_, fun t u ht hu => ?_, fun hidle => ?_, fun t others hidle hdepth hothers => ?_⟩
  · exact ids.injective ((h.threadId_of_nesting ht).symm.trans (h.threadId_of_nesting hu))
  · exact ids.injective ((h.threadId_of_updating ht).symm.trans (h.threadId_of_updating hu))
  · have hlocal : ∀ t, (Owns (after ids acts) (ids.currentThread t) (nesting (events ids acts) t) ∧
        0 < nesting (events ids acts) t) ∨
        ((after ids acts).threadId ≠ ids.currentThread t ∧ nesting (events ids acts) t = 0) := by
      intro t
      have ht := h.threads t
      rwa [hidle t] at ht
    rcases h.known with hzero | ⟨t, hid⟩
    · refine Or.inl ⟨hzero, h.free hzero, fun t => ?_⟩
      rcases hlocal t with ⟨howns, -⟩ | ⟨-, hdepth⟩
      · exact absurd (howns.1.symm.trans hzero) (ids.ne_zero t)
      · exact hdepth
    · rcases hlocal t with ⟨howns, hpos⟩ | ⟨hne, -⟩
      · exact Or.inr ⟨t, hpos, howns⟩
      · exact absurd hid hne
  · have hid : (after ids acts).threadId ≠ ids.currentThread t := by
      have ht := h.threads t
      rw [hidle] at ht
      rcases ht with ⟨-, hpos⟩ | ⟨hne, -⟩
      · omega
      · exact hne
    have hcall : step ids (after ids acts) (.unlock t) = ((after ids acts).move t .unlockTest, [.unlocking t]) := if_pos hidle
    have hlast : after ids (acts ++ .unlock t :: others) =
        Run.state (step ids) ((after ids acts).move t .unlockTest) others := by
      rw [after, Run.state_append, Run.state_cons]
      show Run.state (step ids) (step ids (after ids acts) (.unlock t)).1 others = _
      rw [hcall]
    obtain ⟨hid', hpos⟩ := @foreign_state T _ ids ((after ids acts).move t .unlockTest) t others hothers hid
    rw [hlast]
    show (Run.state (step ids) ((after ids acts).move t .unlockTest) others).go ids t = _
    unfold go
    rw [hpos, pos_move_self]
    exact if_neg hid'

end Lemmas

/-- The ids 1 and 2. -/
def twoIds : ThreadIds Bool where
  currentThread t := if t then 2 else 1
  injective := by decide
  ne_zero := by decide

/-- One thread takes the lock twice and gives it back once, while another one fails to get it. -/
theorem spinLock_sound_two : Sound twoIds [.tryLock false, .go false, .tryLock true, .go false, .go true, .go false, .go true,
    .go false, .tryLock false, .go false, .go false, .go false, .unlock false, .go false] := by
  refine spinLock_sound fun pre hpre t => ?_
  have hlen := nesting_events_le twoIds pre t
  have hle : pre.length ≤ 14 := hpre.length_le
  omega

end Recd2.SpinLock
