import Recd2.Plugins
import Recd2.Udp
import Mathlib.Data.List.Chain

/-! Delivery along the chain of plugins. A plugin other than the MD5 generator hands the list on as it is, so a
    chain runs through unless the MD5 generator has a plugin behind it, which makes it call itself. -/

namespace Recd2

/-! ### Loading -/

section Loading
variable {α : Type} {ps : List α} {p t : α}

/-- The links form the chain: each plugin points to the one behind it, and the last one to none. -/
structure Linked (next : α → Option α) (ps : List α) : Prop where
  links : ps.IsChain fun p q => next p = some q
  last : ∀ p ∈ ps.getLast?, next p = none

/-- The list holds the chain, and its ends are the ends of the chain. -/
structure InterfaceList.Holds (l : InterfaceList α) (ps : List α) : Prop where
  head : l.head = ps.head?
  tail : l.tail = ps.getLast?
  linked : Linked l.nextPlugin ps

theorem InterfaceList.empty_holds : (empty : InterfaceList α).Holds [] := ⟨rfl, rfl, .nil, fun _ h => by cases h⟩

variable [DecidableEq α]

/-- A new plugin gets behind the last one: of the links, only that of the last one changes. -/
theorem Linked.snoc {next : α → Option α} (h : Linked next (ps ++ [t])) (hnodup : (ps ++ [t]).Nodup)
    (hp : p ∉ ps ++ [t]) :
    Linked (fun x => if x = t then some p else if x = p then none else next x) (ps ++ [t] ++ [p]) := by
  have hold : ∀ x ∈ ps, (if x = t then some p else if x = p then none else next x) = next x := by
    intro x hx
    have hxt : x ≠ t := (List.nodup_append.mp hnodup).2.2 x hx t (List.mem_singleton_self t)
    have hxp : x ≠ p := by
      rintro rfl
      exact hp (List.mem_append_left [t] hx)
    rw [if_neg hxt, if_neg hxp]
  obtain ⟨hps, -, hlink⟩ := List.isChain_append.mp h.links
  refine ⟨List.isChain_append.mpr ⟨?_, List.isChain_singleton p, ?_⟩, ?_⟩
  · refine List.isChain_append.mpr ⟨?_, List.isChain_singleton t, fun x hx y hy => ?_⟩
    · exact hps.imp_of_mem_imp fun x y hx _ hxy => (hold x hx).trans hxy
    · exact (hold x (List.mem_of_getLast? hx)).trans (hlink x hx y hy)
  · intro x hx y hy
    rw [List.getLast?_concat] at hx
    cases hx
    cases hy
    exact if_pos rfl
  · intro x hx
    rw [List.getLast?_concat] at hx
    cases hx
    have hpt : p ≠ t := by
      rintro rfl
      exact hp (List.mem_append_right ps (List.mem_singleton_self p))
    rw [if_neg hpt, if_pos rfl]

namespace InterfaceList
variable {l : InterfaceList α}

theorem loadLibrary_of_nil (h : l.head = none) :
    l.loadLibrary p = { l.setNext p none with head := some p, tail := some p } := by
  rw [loadLibrary, put, show (l.setNext p none).head = none from h]

theorem loadLibrary_of_tail {x : α} (hx : l.head = some x) (ht : l.tail = some t) :
    l.loadLibrary p = { (l.setNext p none).setNext t (some p) with tail := some p } := by
  rw [loadLibrary, put, show (l.setNext p none).head = some x from hx, show (l.setNext p none).tail = some t from ht]

theorem Holds.loadLibrary (h : l.Holds ps) (hnodup : ps.Nodup) (hp : p ∉ ps) : (l.loadLibrary p).Holds (ps ++ [p]) := by
  rcases List.eq_nil_or_concat' ps with rfl | ⟨qs, t, rfl⟩
  · rw [loadLibrary_of_nil h.head]
    refine ⟨rfl, rfl, List.isChain_singleton p, fun x hx => ?_⟩
    cases hx
    exact if_pos rfl
  · have htail : l.tail = some t := by rw [h.tail, List.getLast?_concat]
    have hhead : l.head = (qs ++ [t] ++ [p]).head? := by
      rw [h.head, List.head?_append_of_ne_nil (qs ++ [t]) (by simp)]
    obtain ⟨x, hx⟩ : ∃ x, l.head = some x := by
      rw [h.head]
      cases qs
      · exact ⟨t, rfl⟩
      · exact ⟨_, rfl⟩
    rw [loadLibrary_of_tail hx htail]
    exact ⟨hhead, List.getLast?_concat.symm, h.linked.snoc hnodup hp⟩

/-- Loading distinct plugins from the empty list links them in the order they are loaded in. -/
theorem load_holds {ps : List α} (hnodup : ps.Nodup) : (ps.foldl InterfaceList.loadLibrary empty).Holds ps := by
  induction ps using List.reverseRecOn with
  | nil => exact empty_holds
  | append_singleton ps p ih =>
    obtain ⟨hps, -, hdisj⟩ := List.nodup_append.mp hnodup
    have hp : p ∉ ps := fun hp => hdisj p hp p (List.mem_singleton_self p) rfl
    rw [List.foldl_append]
    exact (ih hps).loadLibrary hps hp

end InterfaceList
end Loading

/-! ### One plugin -/

namespace Plugin

/-- What `put_data` of a plugin keeps of the list in a buffer of its own. -/
def keep : Plugin → World → World
  | .recorder, w => { w with recorderBuffer := w.recorderBuffer ++ [w.list] }
  | .dtmf, w => { w with dtmfBuffer := w.dtmfBuffer ++ w.list }
  | _, w => w

/-- At the end of the chain, the recorder and the DTMF plugin leave the list as it is. -/
def leaves : Plugin → Bool
  | .recorder => true
  | .dtmf => true
  | _ => false

/-- The last plugin clears the list, or leaves it. -/
def finish (p : Plugin) (w : World) : World := if p.leaves then w else { w with list := [] }

/-- The call of `put_data`, with the list it is given. -/
def enter (p : Plugin) (w : World) : World := { w with calls := w.calls ++ [(p, w.list)] }

variable {p q : Plugin} {ps : List Plugin} {w : World} {call : Call} {fuel : Nat}

@[simp] theorem nextPlugin_keep : (p.keep w).nextPlugin = w.nextPlugin := by cases p <;> rfl

@[simp] theorem list_keep : (p.keep w).list = w.list := by cases p <;> rfl

@[simp] theorem calls_keep : (p.keep w).calls = w.calls := by cases p <;> rfl

@[simp] theorem calls_finish : (p.finish w).calls = w.calls := by
  rw [finish]
  split <;> rfl

theorem list_finish : (p.finish w).list = if p.leaves then w.list else [] := by
  rw [finish]
  split <;> rfl

theorem body_next (hp : p ≠ .md5) (h : w.nextPlugin p = some q) : p.body call w = call q (p.keep w) := by
  cases p with
  | md5 => exact absurd rfl hp
  | recorder => simp [body, Recorder.putData, forwardOrKeep, h, keep]
  | dtmf => simp [body, Dtmf.putData, forwardOrKeep, h, keep]
  | server => simp [body, Server.putData, forwardOrClear, h, keep]
  | null => simp [body, Null.putData, forwardOrClear, h, keep]
  | consumer => simp [body, Consumer.putData, forwardOrClear, h, keep]
  | producer => simp [body, Producer.putData, forwardOrClear, h, keep]
  | qcap => simp [body, QCapDevice.putData, forwardOrClear, h, keep]

theorem body_md5_next (h : w.nextPlugin .md5 = some q) : md5.body call w = call .md5 w := by
  simp [body, MD5Generator.putData, h]

theorem body_last (h : w.nextPlugin p = none) : p.body call w = some (p.finish (p.keep w)) := by
  cases p with
  | recorder => simp [body, Recorder.putData, forwardOrKeep, h, keep, finish, leaves]
  | dtmf => simp [body, Dtmf.putData, forwardOrKeep, h, keep, finish, leaves]
  | md5 => simp [body, MD5Generator.putData, h, keep, finish, leaves]
  | server => simp [body, Server.putData, forwardOrClear, h, keep, finish, leaves]
  | null => simp [body, Null.putData, forwardOrClear, h, keep, finish, leaves]
  | consumer => simp [body, Consumer.putData, forwardOrClear, h, keep, finish, leaves]
  | producer => simp [body, Producer.putData, forwardOrClear, h, keep, finish, leaves]
  | qcap => simp [body, QCapDevice.putData, forwardOrClear, h, keep, finish, leaves]

theorem putData_next (hp : p ≠ .md5) (h : w.nextPlugin p = some q) :
    putData (fuel + 1) p w = putData fuel q (p.keep (p.enter w)) :=
  body_next (w := p.enter w) hp h

theorem putData_last (h : w.nextPlugin p = none) : putData (fuel + 1) p w = some (p.finish (p.keep (p.enter w))) :=
  body_last (w := p.enter w) h

/-- The MD5 generator with a plugin behind it never returns. -/
theorem putData_md5_next (h : w.nextPlugin .md5 = some q) : putData fuel .md5 w = none := by
  induction fuel generalizing w with
  | zero => rfl
  | succ fuel ih => exact (body_md5_next (w := md5.enter w) h).trans (ih h)

/-! ### The whole chain -/

/-- A chain that hands the list from each plugin to the one behind it. -/
def deliver : List Plugin → World → World
  | [], w => w
  | [p], w => p.finish (p.keep (p.enter w))
  | p :: q :: ps, w => deliver (q :: ps) (p.keep (p.enter w))

theorem linked_cons (h : Linked w.nextPlugin (p :: q :: ps)) :
    w.nextPlugin p = some q ∧ Linked w.nextPlugin (q :: ps) := by
  obtain ⟨hpq, hps⟩ := List.isChain_cons_cons.mp h.links
  exact ⟨hpq, hps, fun t ht => h.last t (by rwa [List.getLast?_cons_cons])⟩

theorem putData_eq_deliver (h : Linked w.nextPlugin (p :: ps)) (hmd5 : Plugin.md5 ∉ (p :: ps).dropLast)
    (hfuel : ps.length < fuel) : putData fuel p w = some (deliver (p :: ps) w) := by
  induction ps generalizing p w fuel with
  | nil =>
    obtain ⟨n, rfl⟩ := Nat.exists_eq_add_of_lt hfuel
    exact putData_last (h.last p rfl)
  | cons q ps ih =>
    obtain ⟨n, rfl⟩ := Nat.exists_eq_add_of_lt hfuel
    obtain ⟨hpq, hps⟩ := linked_cons h
    rw [List.dropLast_cons_cons, List.mem_cons, not_or] at hmd5
    rw [putData_next (Ne.symm hmd5.1) hpq]
    exact ih (by rwa [nextPlugin_keep]) hmd5.2 (by rw [List.length_cons]; omega)

theorem putData_eq_none (h : Linked w.nextPlugin (p :: ps)) (hmd5 : Plugin.md5 ∈ (p :: ps).dropLast) :
    putData fuel p w = none := by
  induction ps generalizing p w fuel with
  | nil => cases hmd5
  | cons q ps ih =>
    obtain ⟨hpq, hps⟩ := linked_cons h
    by_cases hp : p = .md5
    · subst hp
      exact putData_md5_next hpq
    · rw [List.dropLast_cons_cons, List.mem_cons] at hmd5
      cases fuel with
      | zero => rfl
      | succ fuel =>
        rw [putData_next hp hpq]
        exact ih (by rwa [nextPlugin_keep]) (hmd5.resolve_left (Ne.symm hp))

theorem calls_deliver : (deliver ps w).calls = w.calls ++ ps.map fun p => (p, w.list) := by
  induction ps generalizing w with
  | nil => exact (List.append_nil _).symm
  | cons p ps ih =>
    cases ps with
    | nil => rw [deliver, calls_finish, calls_keep]; rfl
    | cons q ps =>
      rw [deliver, ih, calls_keep, list_keep, enter, List.append_assoc]
      rfl

theorem list_deliver : (deliver ps w).list = if ps.getLast?.all leaves then w.list else [] := by
  induction ps generalizing w with
  | nil => rfl
  | cons p ps ih =>
    cases ps with
    | nil => rw [deliver, list_finish, list_keep]; rfl
    | cons q ps =>
      rw [deliver, ih, list_keep, List.getLast?_cons_cons]
      rfl

/-- The plugins behind the server, as the handler sees them: what is left of a list that is handed to them. -/
def nextOf : List Plugin → Recd2.Server.Next
  | [] => none
  | p :: ps => some fun ls => if (p :: ps).getLast?.all leaves then ls else []

/-- What the handler's `put_data` leaves of the list is what the chain behind the server does. -/
theorem list_deliver_server : (deliver (.server :: ps) w).list = Recd2.Server.putData (nextOf ps) w.list := by
  rw [list_deliver]
  cases ps with
  | nil => rfl
  | cons p ps => rw [List.getLast?_cons_cons]; rfl

/-- From some depth of calls on, `put_data` returns, and has run each plugin of the chain once and in order,
    each with the list on its entry. -/
def Delivers (w : World) (p : Plugin) (ps : List Plugin) : Prop :=
  ∃ w' depth, (∀ fuel, depth ≤ fuel → putData fuel p w = some w') ∧
    w'.calls = w.calls ++ (p :: ps).map fun q => (q, w.list)

/-- A chain delivers exactly when the MD5 generator has no plugin behind it. -/
theorem delivers_iff (w : World) (p : Plugin) (ps : List Plugin) (h : Linked w.nextPlugin (p :: ps)) :
    Delivers w p ps ↔ Plugin.md5 ∉ (p :: ps).dropLast := by
  constructor
  · rintro ⟨w', depth, hreturns, -⟩ hmd5
    have hreturn := hreturns depth (Nat.le_refl depth)
    rw [putData_eq_none h hmd5] at hreturn
    cases hreturn
  · exact fun hmd5 => ⟨deliver (p :: ps) w, ps.length + 1, fun fuel hfuel => putData_eq_deliver h hmd5 hfuel, calls_deliver⟩

/-- The world behind the loads, with empty buffers and no call yet. -/
def loaded (ps : List Plugin) : World where
  nextPlugin := (ps.foldl InterfaceList.loadLibrary .empty).nextPlugin
  list := []
  recorderBuffer := []
  dtmfBuffer := []
  calls := []

theorem linked_loaded (hnodup : ps.Nodup) : Linked (loaded ps).nextPlugin ps := (InterfaceList.load_holds hnodup).linked

/-- Four plugins, with the MD5 generator at the end, and in front of the recorder. -/
theorem delivers_iff_four :
    Delivers (loaded [.server, .dtmf, .recorder, .md5]) .server [.dtmf, .recorder, .md5] ∧
      ¬Delivers (loaded [.server, .dtmf, .md5, .recorder]) .server [.dtmf, .md5, .recorder] := by
  have hlast := delivers_iff (loaded [.server, .dtmf, .recorder, .md5]) .server _ (linked_loaded (by decide))
  have hinside := delivers_iff (loaded [.server, .dtmf, .md5, .recorder]) .server _ (linked_loaded (by decide))
  exact ⟨hlast.mpr (by decide), mt hinside.mp (by decide)⟩

/-- With the recorder behind it, the MD5 generator calls itself for ever. -/
theorem delivers_counterexample :
    ¬∀ (w : World) (p : Plugin) (ps : List Plugin), (p :: ps).Nodup → Linked w.nextPlugin (p :: ps) → Delivers w p ps := by
  intro h
  have hlinked : Linked (loaded [.md5, .recorder]).nextPlugin [.md5, .recorder] := linked_loaded (by decide)
  obtain ⟨w', depth, hreturns, -⟩ := h _ _ _ (by decide) hlinked
  have hreturn := hreturns depth (Nat.le_refl depth)
  rw [putData_eq_none hlinked (by decide)] at hreturn
  cases hreturn

end Plugin
end Recd2
