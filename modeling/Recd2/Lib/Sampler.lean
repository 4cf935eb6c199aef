import Recd2.Lib.Run

/-! A thread that waits until so many elements are queued, takes the queue and uses its first element only. Other threads put
    elements into the queue, also between the two looks that the thread takes at it. -/

namespace Recd2

/-- Where the thread stands: in front of the count, of the move of so many elements, or of the use of one. -/
inductive SamplerAt (α : Type) where
  | count
  | move (k : Nat)
  | use (x : α)

structure Sampler (α : Type) where
  queue : List α
  runAt : SamplerAt α

namespace Sampler
variable {α : Type}

inductive Act (α : Type) where
  | put (xs : List α)
  | run

def new : Sampler α := ⟨[], .count⟩

/-- The move empties the queue, and with it what was put there behind the count. -/
def run (n : Nat) (s : Sampler α) : Sampler α × List α :=
  match s.runAt with
  | .count => if s.queue.length < n then (s, []) else ({ s with runAt := .move s.queue.length }, [])
  | .move k =>
    match (s.queue.take k).head? with
    | some x => (⟨[], .use x⟩, [])
    | none => (⟨[], .count⟩, [])
  | .use x => ({ s with runAt := .count }, [x])

def step (n : Nat) (s : Sampler α) : Act α → Sampler α × List α
  | .put xs => ({ s with queue := s.queue ++ xs }, [])
  | .run => s.run n

/-- The elements that were put into the queue. -/
def puts (acts : List (Act α)) : List α :=
  acts.flatMap fun
    | .put xs => xs
    | .run => []

/-- The lists in which they were put. -/
def lists (acts : List (Act α)) : List (List α) :=
  acts.flatMap fun
    | .put xs => [xs]
    | .run => []

/-- The element that was taken and is not used yet. -/
def pending (s : Sampler α) : List α :=
  match s.runAt with
  | .use x => [x]
  | _ => []

/-! ### The places of the elements that are used -/

/-- What was put so far, the places of the elements that were taken first, and how much of it was taken. -/
structure Marks (n : Nat) (xs : List α) (places : List Nat) (taken : Nat) (s : Sampler α) : Prop where
  taken_le : taken ≤ xs.length
  queue : s.queue = xs.drop taken
  first : places = [] → taken = 0
  starts : ∀ p ∈ places.head?, p = 0
  spaced : places.Pairwise fun p q => p + n ≤ q
  within : ∀ p ∈ places, p + n ≤ taken
  moving : ∀ k, s.runAt = .move k → n ≤ k ∧ k ≤ s.queue.length

section Marks
variable {n : Nat} {xs : List α} {places : List Nat} {taken : Nat} {s : Sampler α}

theorem marks_new : Marks n ([] : List α) [] 0 new where
  taken_le := Nat.le_refl 0
  queue := rfl
  first _ := rfl
  starts := nofun
  spaced := .nil
  within := nofun
  moving := nofun

theorem Marks.put (h : Marks n xs places taken s) (ys : List α) :
    Marks n (xs ++ ys) places taken { s with queue := s.queue ++ ys } where
  taken_le := by
    rw [List.length_append]
    exact Nat.le_add_right_of_le h.taken_le
  queue := by
    show s.queue ++ ys = _
    rw [List.drop_append_of_le_length h.taken_le, h.queue]
  first := h.first
  starts := h.starts
  spaced := h.spaced
  within := h.within
  moving k hk := by
    obtain ⟨hn, hle⟩ := h.moving k hk
    refine ⟨hn, ?_⟩
    show k ≤ (s.queue ++ ys).length
    rw [List.length_append]
    exact Nat.le_add_right_of_le hle

/-- The elements that are taken begin where the ones before ended. -/
theorem Marks.take (h : Marks n xs places taken s) (hn : n ≤ s.queue.length) (runAt : SamplerAt α)
    (hat : ∀ k, runAt ≠ .move k) : Marks n xs (places ++ [taken]) xs.length ⟨[], runAt⟩ where
  taken_le := Nat.le_refl _
  queue := List.drop_length.symm
  first hnil := absurd hnil (List.append_ne_nil_of_right_ne_nil _ (List.cons_ne_nil _ _))
  starts p hp := by
    cases places with
    | nil =>
      rw [List.nil_append, List.head?_cons] at hp
      exact (Option.some.inj hp).symm.trans (h.first rfl)
    | cons q places => exact h.starts p hp
  spaced := List.pairwise_append.mpr ⟨h.spaced, List.pairwise_singleton _ _, fun p hp q hq => by
    rw [List.mem_singleton.mp hq]
    exact h.within p hp⟩
  within p hp := by
    have hlen := congrArg List.length h.queue
    have hle := h.taken_le
    rw [List.length_drop] at hlen
    rcases List.mem_append.mp hp with hp | hp
    · have hwithin := h.within p hp
      omega
    · rw [List.mem_singleton.mp hp]
      omega
  moving k hk := absurd hk (hat k)

/-- A step of the thread uses what was taken, or takes the next element, or neither. -/
theorem Marks.run (hpos : 0 < n) (h : Marks n xs places taken s) :
    Marks n xs places taken (s.run n).1 ∧ (s.run n).2 ++ (s.run n).1.pending = s.pending ∨
      Marks n xs (places ++ [taken]) xs.length (s.run n).1 ∧ s.pending = [] ∧ (s.run n).2 = [] ∧
        (s.run n).1.pending.map some = [xs[taken]?] := by
  obtain ⟨queue, runAt⟩ := s
  cases runAt with
  | count =>
    left
    rw [Sampler.run]
    dsimp only
    split_ifs with hlt
    · exact ⟨h, rfl⟩
    · refine ⟨⟨h.taken_le, h.queue, h.first, h.starts, h.spaced, h.within, ?_⟩, rfl⟩
      rintro k hk
      cases hk
      exact ⟨Nat.le_of_not_lt hlt, Nat.le_refl _⟩
  | move k =>
    right
    obtain ⟨hnk, hk⟩ := h.moving k rfl
    obtain ⟨j, rfl⟩ := Nat.exists_eq_succ_of_ne_zero (show k ≠ 0 by omega)
    cases queue with
    | nil => exact absurd hk (Nat.not_succ_le_zero j)
    | cons x queue =>
      have hx : xs[taken]? = some x := by
        have hqueue : x :: queue = xs.drop taken := h.queue
        rw [← List.head?_drop, ← hqueue]
        rfl
      exact ⟨h.take (Nat.le_trans hnk hk) (.use x) nofun, rfl, rfl, by rw [hx]; rfl⟩
  | use x => exact Or.inl ⟨⟨h.taken_le, h.queue, h.first, h.starts, h.spaced, h.within, nofun⟩, rfl⟩

end Marks

/-! ### Runs -/

section Runs
variable {n : Nat} (hpos : 0 < n)
include hpos

/-- What is used, and what is taken and not used yet, stands at places of what was put. -/
theorem marks_state (acts : List (Act α)) :
    ∃ places taken, Marks n (puts acts) places taken (Run.state (step n) new acts) ∧
      (Run.emits (step n) new acts ++ (Run.state (step n) new acts).pending).map some =
        places.map fun p => (puts acts)[p]? := by
  induction acts using List.reverseRecOn with
  | nil => exact ⟨[], 0, marks_new, rfl⟩
  | append_singleton acts act ih =>
    obtain ⟨places, taken, hmarks, hplaces⟩ := ih
    have hputs : puts (acts ++ [act]) = puts acts ++ puts [act] := List.flatMap_append
    rw [Run.state_snoc, Run.emits_snoc, hputs]
    generalize Run.state (step n) new acts = s at *
    generalize Run.emits (step n) new acts = out at *
    cases act with
    | put ys =>
      rw [show puts [Act.put ys] = ys from List.append_nil ys, show (step n s (.put ys)).2 = [] from rfl, List.append_nil]
      refine ⟨places, taken, hmarks.put ys, Eq.trans hplaces (List.map_congr_left fun p hp => ?_)⟩
      have hwithin := hmarks.within p hp
      have hle := hmarks.taken_le
      rw [List.getElem?_append_left (by omega)]
    | run =>
      rw [show puts [(Act.run : Act α)] = [] from rfl, List.append_nil]
      show ∃ places taken, Marks n (puts acts) places taken (s.run n).1 ∧
        (out ++ (s.run n).2 ++ (s.run n).1.pending).map some = _
      rcases hmarks.run hpos with ⟨hnext, hsame⟩ | ⟨hnext, hnone, hout, hmore⟩
      · rw [List.append_assoc, hsame]
        exact ⟨places, taken, hnext, hplaces⟩
      · refine ⟨places ++ [taken], _, hnext, ?_⟩
        rw [hnone, List.append_nil] at hplaces
        rw [hout, List.append_nil, List.map_append, hplaces, hmore, List.map_append]
        rfl

/-- The first element is used first, and behind an element that is used the next ones, fewer by one than are waited for, are
    not used. -/
theorem emits_spaced (acts : List (Act α)) :
    ∃ places : List Nat, (∀ p ∈ places.head?, p = 0) ∧ (places.Pairwise fun p q => p + n ≤ q) ∧
      (∀ p ∈ places, p + n ≤ (puts acts).length) ∧
      (Run.emits (step n) new acts).map some = places.map fun p => (puts acts)[p]? := by
  obtain ⟨places, taken, hmarks, hplaces⟩ := marks_state hpos acts
  have hsub := List.take_sublist (Run.emits (step n) new acts).length places
  refine ⟨places.take (Run.emits (step n) new acts).length, fun p hp => ?_, hmarks.spaced.sublist hsub, fun p hp => ?_, ?_⟩
  · rw [List.head?_take] at hp
    split at hp
    · cases hp
    · exact hmarks.starts p hp
  · exact Nat.le_trans (hmarks.within p (hsub.subset hp)) hmarks.taken_le
  · rw [List.map_take, ← hplaces, List.map_append, List.take_left' (List.length_map _)]

omit hpos in
/-- So many elements were put for each one that is used. -/
theorem length_mul_le {places : List Nat} (hspaced : places.Pairwise fun p q => p + n ≤ q) {m : Nat}
    (hwithin : ∀ p ∈ places, p + n ≤ m) : places.length * n ≤ m := by
  induction places using List.reverseRecOn generalizing m with
  | nil =>
    rw [List.length_nil, Nat.zero_mul]
    exact Nat.zero_le m
  | append_singleton places q ih =>
    obtain ⟨hbefore, -, hlast⟩ := List.pairwise_append.mp hspaced
    have hle := ih hbefore fun p hp => hlast p hp q (List.mem_singleton_self q)
    have hq := hwithin q (List.mem_append_right _ (List.mem_singleton_self q))
    rw [List.length_append, List.length_singleton, Nat.succ_mul]
    omega

omit hpos in
theorem sublist_take_of_places {places : List Nat} {xs ys : List α} (hspaced : places.Pairwise fun p q => p < q)
    (h : xs.map some = places.map fun p => ys[p]?) {m : Nat} (hm : ∀ p ∈ places, p < m) : xs.Sublist (ys.take m) := by
  induction places using List.reverseRecOn generalizing xs m with
  | nil =>
    rw [List.map_nil, List.map_eq_nil_iff] at h
    rw [h]
    exact List.nil_sublist _
  | append_singleton places q ih =>
    obtain ⟨hbefore, -, hlast⟩ := List.pairwise_append.mp hspaced
    rw [List.map_append, List.map_singleton] at h
    obtain ⟨xs, x', rfl, hxs, hx⟩ := List.map_eq_append_iff.mp h
    obtain ⟨x, hx', hget⟩ := List.map_eq_singleton_iff.mp hx
    obtain rfl : x' = [x] := hx'
    obtain ⟨hlt, hget⟩ := List.getElem?_eq_some_iff.mp hget.symm
    have htake : (ys.take (q + 1)).Sublist (ys.take m) :=
      (List.take_prefix_take_left (hm q (List.mem_append_right _ (List.mem_singleton_self q)))).sublist
    refine List.Sublist.trans ?_ htake
    rw [List.take_succ_eq_append_getElem hlt, hget]
    exact (ih hbefore hxs fun p hp => hlast p hp q (List.mem_singleton_self q)).append (List.Sublist.refl _)

/-- What is used comes in the order in which it was put. -/
theorem emits_sublist (acts : List (Act α)) : (Run.emits (step n) new acts).Sublist (puts acts) := by
  obtain ⟨places, -, hspaced, hwithin, hplaces⟩ := emits_spaced hpos acts
  have hsub := sublist_take_of_places (hspaced.imp fun h => by omega) hplaces (m := (puts acts).length)
    fun p hp => by
      have hle := hwithin p hp
      omega
  rwa [List.take_length] at hsub

omit hpos in
theorem flatten_lists (acts : List (Act α)) : (lists acts).flatten = puts acts := by
  induction acts with
  | nil => rfl
  | cons act acts ih =>
    cases act with
    | put xs => exact congrArg (xs ++ ·) ih
    | run => exact ih

omit hpos in
theorem heads_state (n : Nat) (acts : List (Act α)) : ∃ done left, lists acts = done ++ left ∧
    (Run.state (step n) new acts).queue = left.flatten ∧
    (Run.emits (step n) new acts ++ (Run.state (step n) new acts).pending).Sublist (done.filterMap List.head?) := by
  induction acts using List.reverseRecOn with
  | nil => exact ⟨[], [], rfl, rfl, List.Sublist.refl []⟩
  | append_singleton acts act ih =>
    obtain ⟨done, left, hlists, hqueue, hsub⟩ := ih
    have hsnoc : lists (acts ++ [act]) = lists acts ++ lists [act] := List.flatMap_append
    rw [Run.state_snoc, Run.emits_snoc, hsnoc, hlists]
    generalize Run.state (step n) new acts = s at *
    generalize Run.emits (step n) new acts = out at *
    obtain ⟨queue, runAt⟩ := s
    obtain rfl : queue = left.flatten := hqueue
    cases act with
    | put ys =>
      rw [show (step n ⟨left.flatten, runAt⟩ (.put ys)).2 = [] from rfl, List.append_nil]
      refine ⟨done, left ++ [ys], List.append_assoc _ _ _, ?_, hsub⟩
      show left.flatten ++ ys = _
      rw [List.flatten_append, List.flatten_singleton]
    | run =>
      rw [show lists [(Act.run : Act α)] = [] from rfl, List.append_nil]
      cases runAt with
      | count =>
        refine ⟨done, left, rfl, ?_⟩
        rw [step, Sampler.run]
        dsimp only
        split_ifs
        · exact ⟨rfl, by rwa [List.append_nil]⟩
        · exact ⟨rfl, by rwa [List.append_nil]⟩
      | move k =>
        -- What is taken begins with the first element of the first list that has one.
        refine ⟨done ++ left, [], (List.append_nil _).symm, ?_⟩
        rw [show pending ⟨left.flatten, .move k⟩ = [] from rfl, List.append_nil] at hsub
        rw [step, Sampler.run, List.filterMap_append]
        dsimp only
        cases htaken : (left.flatten.take k).head? with
        | none =>
          refine ⟨rfl, ?_⟩
          show (out ++ [] ++ []).Sublist _
          rw [List.append_nil, List.append_nil]
          exact hsub.trans (List.sublist_append_left _ _)
        | some x =>
          have hhead : (left.filterMap List.head?).head? = some x := by
            rw [List.head?_take] at htaken
            split_ifs at htaken
            rw [List.head?_filterMap, ← List.head?_flatten, htaken]
          refine ⟨rfl, ?_⟩
          rw [List.append_nil]
          exact hsub.append (List.singleton_sublist.mpr (List.mem_of_head? hhead))
      | use x =>
        refine ⟨done, left, rfl, rfl, ?_⟩
        show (out ++ [x] ++ []).Sublist _
        rw [List.append_nil]
        exact hsub

omit hpos in
/-- What is used are first elements of lists, in their order. -/
theorem emits_heads (n : Nat) (acts : List (Act α)) :
    (Run.emits (step n) new acts).Sublist ((lists acts).filterMap List.head?) := by
  obtain ⟨done, left, hlists, -, hsub⟩ := heads_state n acts
  rw [hlists, List.filterMap_append]
  exact ((List.sublist_append_left _ _).trans hsub).trans (List.sublist_append_left _ _)

end Runs
end Sampler
end Recd2
