import Recd2.Theorems.Chain

/-! The list of interfaces when libraries are loaded again. Each load clears the link of its interface and
    then links it behind the interface loaded before, so that the link of an interface says what was loaded right
    behind its last load. -/

namespace Recd2
variable {α : Type}

/-! ### Walks along links -/

section Walk
variable {next : α → Option α} {p : α} {ps : List α} {start : Option α}

theorem linked_cons : Linked next (p :: ps) ↔ next p = ps.head? ∧ Linked next ps := by
  cases ps with
  | nil =>
    refine ⟨fun h => ⟨h.last p rfl, .nil, fun _ hq => by cases hq⟩, fun h => ⟨List.isChain_singleton p, ?_⟩⟩
    rintro q hq
    cases hq
    exact h.1
  | cons q ps =>
    constructor
    · rintro ⟨hlinks, hlast⟩
      rw [List.isChain_cons_cons] at hlinks
      rw [List.getLast?_cons_cons] at hlast
      exact ⟨hlinks.1, hlinks.2, hlast⟩
    · rintro ⟨hp, hlinks, hlast⟩
      rw [← List.getLast?_cons_cons (a := p)] at hlast
      exact ⟨List.isChain_cons_cons.mpr ⟨hp, hlinks⟩, hlast⟩

theorem linked_of_walk {fuel : Nat} (h : InterfaceList.walk next fuel start = some ps) :
    ps.head? = start ∧ Linked next ps := by
  induction fuel generalizing start ps with
  | zero =>
    cases start with
    | none =>
      obtain rfl := Option.some.inj h
      exact ⟨rfl, .nil, fun _ hp => by cases hp⟩
    | some p => cases h
  | succ fuel ih =>
    cases start with
    | none =>
      obtain rfl := Option.some.inj h
      exact ⟨rfl, .nil, fun _ hp => by cases hp⟩
    | some p =>
      obtain ⟨qs, hqs, rfl⟩ := Option.map_eq_some_iff.mp h
      obtain ⟨hhead, hlinked⟩ := ih hqs
      exact ⟨rfl, linked_cons.mpr ⟨hhead.symm, hlinked⟩⟩

theorem walk_of_linked (h : Linked next ps) : InterfaceList.walk next ps.length ps.head? = some ps := by
  induction ps with
  | nil => rfl
  | cons p ps ih =>
    obtain ⟨hp, hps⟩ := linked_cons.mp h
    rw [List.head?_cons, List.length_cons, InterfaceList.walk, hp, ih hps, Option.map_some]

/-- A walk ends and visits given interfaces exactly when it starts at the first of them and the links lead on. -/
theorem walk_eq_some_iff :
    (∃ fuel, InterfaceList.walk next fuel start = some ps) ↔ ps.head? = start ∧ Linked next ps := by
  constructor
  · rintro ⟨fuel, h⟩
    exact linked_of_walk h
  · rintro ⟨rfl, h⟩
    exact ⟨_, walk_of_linked h⟩

end Walk

theorem getLast?_of_isChain {R : α → α → Prop} {ps : List α} {t : α} (h : ps.IsChain R) (ht : t ∈ ps)
    (hend : ∀ q, ¬R t q) : ps.getLast? = some t := by
  induction ps with
  | nil => cases ht
  | cons p ps ih =>
    cases ps with
    | nil => rw [List.mem_singleton.mp ht, List.getLast?_singleton]
    | cons q ps =>
      rw [List.isChain_cons_cons] at h
      rw [List.getLast?_cons_cons]
      rcases List.mem_cons.mp ht with rfl | ht
      · exact absurd h.1 (hend q)
      · exact ih h.2 ht

/-! ### What the links say -/

section Reload
variable {p t x : α} {ps : List α} {l : InterfaceList α}

theorem twice_snoc_iff : [x, x] <:+ ps ++ [p] ↔ x = p ∧ ps.getLast? = some x := by
  rw [List.suffix_concat_iff]
  constructor
  · rintro (h | ⟨t, ht, hsuffix⟩)
    · cases h
    · obtain ⟨rfl, hx⟩ := List.append_inj' (show [x] ++ [x] = t ++ [p] from ht) rfl
      exact ⟨List.singleton_inj.mp hx, List.singleton_suffix_iff_getLast?_eq_some.mp hsuffix⟩
  · rintro ⟨rfl, hlast⟩
    exact Or.inr ⟨[x], rfl, List.singleton_suffix_iff_getLast?_eq_some.mpr hlast⟩

theorem getLast?_of_twice (h : [x, x] <:+ ps) : ps.getLast? = some x := by
  obtain ⟨qs, rfl⟩ := h
  exact List.getLast?_append_cons qs x [x]

variable [DecidableEq α]

/-- What was loaded right behind the last load of `x`. -/
def loadedBehind (x : α) (ps : List α) : Option α := (ps.reverse.takeWhile (· ≠ x)).getLast?

theorem loadedBehind_snoc_self : loadedBehind p (ps ++ [p]) = none := by
  rw [loadedBehind, List.reverse_append]
  simp

theorem loadedBehind_snoc_of_ne (h : x ≠ p) : loadedBehind x (ps ++ [p]) = some ((loadedBehind x ps).getD p) := by
  rw [loadedBehind, List.reverse_append, List.reverse_singleton, List.singleton_append,
    List.takeWhile_cons_of_pos (by simpa using h.symm), List.getLast?_cons]
  rfl

theorem loadedBehind_last (h : ps.getLast? = some t) : loadedBehind t ps = none := by
  obtain ⟨qs, rfl⟩ := List.getLast?_eq_some_iff.mp h
  exact loadedBehind_snoc_self

/-- The state behind the loads. A library that was loaded twice at the end links to itself. -/
structure InterfaceList.Loaded (l : InterfaceList α) (ps : List α) : Prop where
  head : l.head = ps.head?
  tail : l.tail = ps.getLast?
  twice : ∀ x, [x, x] <:+ ps → l.nextPlugin x = some x
  next : ∀ x ∈ ps, ¬[x, x] <:+ ps → l.nextPlugin x = loadedBehind x ps

namespace InterfaceList

theorem Loaded.empty : (InterfaceList.empty : InterfaceList α).Loaded [] := by
  refine ⟨rfl, rfl, fun x h => ?_, fun x h => ?_⟩
  · cases List.suffix_nil.mp h
  · cases h

theorem Loaded.loadLibrary_nil (h : l.Loaded []) : (l.loadLibrary p).Loaded [p] := by
  rw [loadLibrary_of_nil h.head]
  refine ⟨rfl, rfl, fun x htwice => ?_, fun x hx _ => ?_⟩
  · cases ((@twice_snoc_iff α p x []).mp htwice).2
  · obtain rfl := List.mem_singleton.mp hx
    rw [show loadedBehind x [x] = none from loadedBehind_last rfl]
    exact if_pos rfl

theorem Loaded.loadLibrary (h : l.Loaded ps) : (l.loadLibrary p).Loaded (ps ++ [p]) := by
  rcases List.eq_nil_or_concat' ps with rfl | ⟨qs, t, rfl⟩
  · exact h.loadLibrary_nil
  have htail : l.tail = some t := by rw [h.tail, List.getLast?_concat]
  have hhead : l.head = (qs ++ [t] ++ [p]).head? := by
    rw [h.head, List.head?_append_of_ne_nil (qs ++ [t]) (by simp)]
  obtain ⟨y, hy⟩ : ∃ y, l.head = some y := by
    rw [h.head]
    cases qs <;> exact ⟨_, rfl⟩
  rw [loadLibrary_of_tail hy htail]
  refine ⟨hhead, List.getLast?_concat.symm, fun x htwice => ?_, fun x hx htwice => ?_⟩
  · obtain ⟨rfl, hlast⟩ := twice_snoc_iff.mp htwice
    rw [List.getLast?_concat] at hlast
    exact if_pos (Option.some.inj hlast).symm
  · show (if x = t then some p else if x = p then none else l.nextPlugin x) = _
    rw [twice_snoc_iff, List.getLast?_concat] at htwice
    by_cases hxt : x = t
    · have hxp : x ≠ p := fun hxp => htwice ⟨hxp, congrArg some hxt.symm⟩
      rw [if_pos hxt, loadedBehind_snoc_of_ne hxp, hxt, loadedBehind_snoc_self]
      rfl
    · rw [if_neg hxt]
      by_cases hxp : x = p
      · rw [if_pos hxp, hxp, loadedBehind_snoc_self]
      · have hmem : x ∈ qs ++ [t] := by
          rcases List.mem_append.mp hx with hx | hx
          · exact hx
          · exact absurd (List.mem_singleton.mp hx) hxp
        have hold : ¬[x, x] <:+ qs ++ [t] := fun h => hxt (twice_snoc_iff.mp h).1
        rw [if_neg hxp, h.next x hmem hold, loadedBehind_snoc_of_ne hxp, loadedBehind_snoc_of_ne hxt]
        rfl

theorem loaded (ps : List α) : (ps.foldl InterfaceList.loadLibrary empty).Loaded ps := by
  induction ps using List.reverseRecOn with
  | nil => exact .empty
  | append_singleton ps p ih =>
    rw [List.foldl_append]
    exact ih.loadLibrary

end InterfaceList

/-! ### Integrity -/

/-- The traversal ends, visits each library once, in the order of their first loads, and stops at the tail. -/
def InterfaceList.Intact (l : InterfaceList α) (ps : List α) : Prop :=
  (∃ fuel, walk l.nextPlugin fuel l.head = some ps.eraseDups) ∧ ps.eraseDups.getLast? = l.tail

/-- Behind its last load, each library but the last is followed by the library that was first loaded next, and
    the last two loads are not of the same library. -/
structure InOrder (ps : List α) : Prop where
  links : ps.eraseDups.IsChain fun p q => loadedBehind p ps = some q
  last : ∀ p, ¬[p, p] <:+ ps

theorem head?_eraseDups (ps : List α) : ps.eraseDups.head? = ps.head? := by
  cases ps with
  | nil => rfl
  | cons p ps => rw [List.eraseDups_cons]; rfl

theorem InOrder.getLast? (h : InOrder ps) : ps.eraseDups.getLast? = ps.getLast? := by
  cases hlast : ps.getLast? with
  | none =>
    obtain rfl := List.getLast?_eq_none_iff.mp hlast
    rfl
  | some t =>
    refine getLast?_of_isChain h.links (List.mem_eraseDups.mpr (List.mem_of_getLast? hlast)) fun q hq => ?_
    rw [loadedBehind_last hlast] at hq
    cases hq

theorem InterfaceList.Loaded.intact_iff (h : l.Loaded ps) : l.Intact ps ↔ InOrder ps := by
  rw [Intact, walk_eq_some_iff, h.head, h.tail]
  constructor
  · rintro ⟨⟨-, hlinked⟩, htail⟩
    have hlast : ∀ p, ¬[p, p] <:+ ps := by
      intro p htwice
      have hend := hlinked.last p (by rw [htail, getLast?_of_twice htwice]; rfl)
      rw [h.twice p htwice] at hend
      cases hend
    refine ⟨hlinked.links.imp_of_mem_imp fun p q hp _ hpq => ?_, hlast⟩
    rw [← hpq, h.next p (List.mem_eraseDups.mp hp) (hlast p)]
  · intro hin
    have hnext : ∀ p ∈ ps, l.nextPlugin p = loadedBehind p ps := fun p hp => h.next p hp (hin.last p)
    refine ⟨⟨head?_eraseDups ps, hin.links.imp_of_mem_imp fun p q hp _ hpq => ?_, fun p hp => ?_⟩, hin.getLast?⟩
    · rw [hnext p (List.mem_eraseDups.mp hp), hpq]
    · rw [hin.getLast?] at hp
      rw [hnext p (List.mem_of_getLast? hp), loadedBehind_last hp]

/-- Behind any sequence of loads. -/
theorem reload_intact_iff (ps : List α) : (ps.foldl InterfaceList.loadLibrary .empty).Intact ps ↔ InOrder ps :=
  (InterfaceList.loaded ps).intact_iff

theorem eraseDups_of_nodup (h : ps.Nodup) : ps.eraseDups = ps := by
  induction ps with
  | nil => rfl
  | cons p ps ih =>
    obtain ⟨hp, hps⟩ := List.nodup_cons.mp h
    have hfilter : ps.filter (fun q => !q == p) = ps := by
      refine List.filter_eq_self.mpr fun q hq => ?_
      have hne : q ≠ p := fun hqp => hp (hqp ▸ hq)
      simpa using hne
    rw [List.eraseDups_cons, hfilter, ih hps]

theorem inOrder_of_nodup (h : ps.Nodup) : InOrder ps := by
  have hholds := InterfaceList.load_holds h
  rw [← (InterfaceList.loaded ps).intact_iff, InterfaceList.Intact, walk_eq_some_iff, eraseDups_of_nodup h]
  exact ⟨⟨hholds.head.symm, hholds.linked⟩, hholds.tail.symm⟩

theorem not_inOrder_snoc (hp : p ∈ ps) (hps : ps.Nodup) : ¬InOrder (ps ++ [p]) := by
  intro h
  have hnew : ([p].removeAll ps).eraseDups = [] := by simp [List.removeAll, hp]
  have hlast := h.getLast?
  rw [List.eraseDups_append, hnew, List.append_nil, eraseDups_of_nodup hps, List.getLast?_concat] at hlast
  exact h.last p (twice_snoc_iff.mpr ⟨rfl, hlast⟩)

/-- The list stays intact from one load to the next exactly when no library is loaded again. -/
theorem intact_always_iff (ps : List α) :
    (∀ k, ((ps.take k).foldl InterfaceList.loadLibrary .empty).Intact (ps.take k)) ↔ ps.Nodup := by
  constructor
  · intro h
    induction ps using List.reverseRecOn with
    | nil => exact List.nodup_nil
    | append_singleton ps p ih =>
      have hps : ps.Nodup := ih fun k => by
        have hk := h (min k ps.length)
        rwa [List.take_append_of_le_length (Nat.min_le_right _ _), List.take_eq_take_min.symm] at hk
      have hall := h (ps ++ [p]).length
      rw [List.take_length, (InterfaceList.loaded (ps ++ [p])).intact_iff] at hall
      rw [List.nodup_append]
      refine ⟨hps, by simp, fun q hq r hr => ?_⟩
      rintro rfl
      rw [List.mem_singleton] at hr
      exact not_inOrder_snoc (hr ▸ hq) hps hall
  · intro h k
    rw [(InterfaceList.loaded (ps.take k)).intact_iff]
    exact inOrder_of_nodup (h.sublist (List.take_sublist k ps))

end Reload

/-- A library that is loaded twice in a row links to itself. -/
theorem reload_counterexample :
    ¬∀ ps : List Plugin, (ps.foldl InterfaceList.loadLibrary .empty).Intact ps := by
  intro h
  have hin := (InterfaceList.loaded [Plugin.server, .server]).intact_iff.mp (h [.server, .server])
  exact hin.last .server List.suffix_rfl

end Recd2
