import Recd2.Lib.Run
import Recd2.UserServer

/-! Which client the user server works for. All slots work on the socket of the client that connected last, so the
    clients are kept apart as long as only that client sends lines or disconnects. -/

namespace Recd2

/-! ### The menu -/

/-- The lines up to the first `quit`. -/
def addressed (ls : List String) : List String := ls.takeWhile (!isQuit ·) ++ (ls.dropWhile (!isQuit ·)).take 1

theorem serve_fst (ls : List String) : (serve ls).1 = (addressed ls).map response := by
  induction ls with
  | nil => rfl
  | cons l ls ih =>
    rw [serve, addressed]
    cases hl : isQuit l with
    | true => simp [hl]
    | false =>
      rw [addressed] at ih
      simp [hl, ih]

theorem serve_quits (ls : List String) : (serve ls).2.2 = ls.any isQuit := by
  induction ls with
  | nil => rfl
  | cons l ls ih =>
    rw [serve, List.any_cons]
    cases isQuit l <;> simp [ih]

/-- Without `quit`, no line is left unread. -/
theorem serve_rest {ls : List String} (h : ls.any isQuit = false) : (serve ls).2.1 = [] := by
  induction ls with
  | nil => rfl
  | cons l ls ih =>
    rw [List.any_cons, Bool.or_eq_false_iff] at h
    rw [serve, h.1]
    exact ih h.2

theorem addressed_ne_nil {ls : List String} (h : ls ≠ []) : addressed ls ≠ [] := by
  cases ls with
  | nil => exact absurd rfl h
  | cons l ls => cases hl : isQuit l <;> simp [addressed, hl]

/-! ### What a step must do -/

/-- The answer that an event writes, with the socket it is written to. -/
def UserEvent.write? : UserEvent → Option (Nat × String)
  | .write i resp => some (i, resp)
  | .deleteLater _ => none

namespace UserServer

/-- The answers that an act calls for, with the connections they belong on. -/
def due (s : UserServer) : Act → List (Nat × String)
  | .lines i ls => if s.isConnected i then (addressed ls).map fun l => (i, response l) else []
  | _ => []

/-- The client is the one that disconnects with the act. -/
def Leaves (s : UserServer) : Act → Nat → Prop
  | .lines i ls, j => s.isConnected i = true ∧ ls.any isQuit = true ∧ j = i
  | .disconnect i, j => s.isConnected i = true ∧ j = i
  | _, _ => False

/-- The clients are kept apart: the lines are answered on the connection they came from, no line of a connected
    client is left, and only the socket of a client that disconnects is deleted. -/
structure Apart (s : UserServer) (a : Act) : Prop where
  answers : (s.step a).2.filterMap UserEvent.write? = s.due a
  unread : ∀ k ∈ (s.step a).1.sockets, k.connected = true → k.lines = []
  deletes : ∀ j, .deleteLater j ∈ (s.step a).2 → s.Leaves a j
  crashed : (s.step a).1.crashed = false

/-- Lines and disconnects come from the client that connected last. -/
def FromLast (s : UserServer) : Act → Prop
  | .lines i ls => s.isConnected i = true → ls ≠ [] → s.conn = some i
  | .disconnect i => s.isConnected i = true → s.conn = some i
  | _ => True

/-! ### The socket behind `p_conn` -/

section WithConn
variable {s : UserServer} {c i : Nat} {k : Socket} {f : Nat → Socket → Socket × List UserEvent}

theorem withConn_of_alive (hc : s.conn = some c) (hk : s.sockets[c]? = some k) (hdel : k.deleted = false) :
    s.withConn f = ({ s with sockets := s.sockets.set c (f c k).1 }, (f c k).2) := by
  simp [withConn, hc, hk, hdel]

theorem withConn_of_deleted (hc : s.conn = some c) (hk : s.sockets[c]? = some k) (hdel : k.deleted = true) :
    s.withConn f = ({ s with crashed := true }, []) := by
  simp [withConn, hc, hk, hdel]

theorem isConnected_iff : s.isConnected i = true ↔ ∃ k, s.sockets[i]? = some k ∧ k.connected = true := by
  cases h : s.sockets[i]? <;> simp [isConnected, h]

theorem isScheduled_iff :
    s.isScheduled i = true ↔ ∃ k, s.sockets[i]? = some k ∧ k.scheduled = true ∧ k.deleted = false := by
  cases h : s.sockets[i]? <;> simp [isScheduled, h]

theorem modify_of_getElem? {l : List Socket} (hk : l[i]? = some k) (g : Socket → Socket) :
    l.modify i g = l.set i (g k) := by
  rw [List.modify_eq_set_getElem?, hk]
  rfl

/-- A call on a socket that was just written. -/
theorem withConn_set (hc : s.conn = some i) (hk : s.sockets[i]? = some k) (k' : Socket) (hdel : k'.deleted = false) :
    withConn { s with sockets := s.sockets.set i k' } f =
      ({ s with sockets := s.sockets.set i (f i k').1 }, (f i k').2) := by
  obtain ⟨hlt, -⟩ := List.getElem?_eq_some_iff.mp hk
  have hk' : (s.sockets.set i k')[i]? = some k' := List.getElem?_set_self hlt
  rw [@withConn_of_alive { s with sockets := s.sockets.set i k' } i k' f hc hk' hdel]
  simp only [List.set_set]

/-- The slot works for the socket behind `p_conn` only. -/
theorem hConnection_events {e : UserEvent} (he : e ∈ s.hConnection.2) (hc : s.conn = some c) :
    e = .deleteLater c ∨ ∃ resp, e = .write c resp := by
  rw [hConnection, withConn, hc, Option.bind_some] at he
  cases hk : s.sockets[c]? with
  | none =>
    rw [hk] at he
    cases he
  | some k =>
    rw [hk, Option.map_some] at he
    cases hdel : k.deleted with
    | true => simp [hdel] at he
    | false =>
      simp only [hdel, Bool.false_eq_true, if_false] at he
      split at he
      · rcases List.mem_append.mp he with he | he
        · obtain ⟨resp, -, rfl⟩ := List.mem_map.mp he
          exact Or.inr ⟨resp, rfl⟩
        · split at he
          · exact Or.inl (List.mem_singleton.mp he)
          · cases he
      · cases he

theorem disconnected_deletes (hc : s.conn = some c) (hk : s.sockets[c]? = some k) :
    s.disconnected.1.crashed = true ∨ .deleteLater c ∈ s.disconnected.2 := by
  cases hdel : k.deleted with
  | true =>
    rw [disconnected, withConn_of_deleted hc hk hdel]
    exact Or.inl rfl
  | false =>
    rw [disconnected, withConn_of_alive hc hk hdel]
    exact Or.inr List.mem_cons_self

end WithConn

/-! ### States without a fault -/

/-- No unread lines, and neither `deleteLater` nor the destructor was called, unless the client has left. -/
def Idle (k : Socket) : Prop := k.connected = true → k.lines = [] ∧ k.scheduled = false ∧ k.deleted = false

/-- Between two commands nothing is pending, and the last connection is one of the sockets. -/
structure Clean (s : UserServer) : Prop where
  crashed : s.crashed = false
  idle : ∀ k ∈ s.sockets, Idle k
  conn : s.sockets ≠ [] → ∃ c k, s.conn = some c ∧ s.sockets[c]? = some k

theorem new_clean : new.Clean where
  crashed := rfl
  idle _ hk := by cases hk
  conn h := absurd rfl h

section Steps
variable {s : UserServer} {c i : Nat} {k : Socket} {ls : List String}

theorem Clean.idle_of_getElem? (h : s.Clean) (hk : s.sockets[i]? = some k) : Idle k := h.idle k (List.mem_of_getElem? hk)

theorem Clean.set (h : s.Clean) {k' : Socket} (hk' : Idle k') : Clean { s with sockets := s.sockets.set i k' } where
  crashed := h.crashed
  idle k hk := by
    rcases List.mem_or_eq_of_mem_set hk with hk | rfl
    · exact h.idle k hk
    · exact hk'
  conn hne := by
    have hne' : s.sockets ≠ [] := fun hnil => hne (by rw [hnil]; rfl)
    obtain ⟨c, k, hc, hk⟩ := h.conn hne'
    obtain ⟨hlt, -⟩ := List.getElem?_eq_some_iff.mp hk
    have hlt' : c < (s.sockets.set i k').length := by rwa [List.length_set]
    exact ⟨c, _, hc, List.getElem?_eq_getElem hlt'⟩

theorem step_connect (s : UserServer) (ok : Bool) :
    s.step (.connect ok) =
      ({ s with sockets := s.sockets ++ [⟨ok, [], false, false⟩], conn := some s.sockets.length }, []) := by
  have hk : (s.sockets ++ [⟨ok, [], false, false⟩])[s.sockets.length]? = some ⟨ok, [], false, false⟩ := by simp
  rw [step, incomingConnection, hConnection, withConn_of_alive rfl hk rfl]
  simp [serve]

theorem Clean.connect (h : s.Clean) (ok : Bool) : (s.step (.connect ok)).1.Clean := by
  rw [step_connect]
  refine ⟨h.crashed, fun k hk => ?_, fun _ => ⟨s.sockets.length, ⟨ok, [], false, false⟩, rfl, by simp⟩⟩
  rcases List.mem_append.mp hk with hk | hk
  · exact h.idle k hk
  · rw [List.mem_singleton.mp hk]
    exact fun _ => ⟨rfl, rfl, rfl⟩

/-- Lines of the client behind `p_conn`. -/
theorem step_lines (hc : s.conn = some i) (hk : s.sockets[i]? = some k) (hconn : k.connected = true) (hidle : Idle k)
    (hls : ls ≠ []) :
    s.step (.lines i ls) =
      ({ s with sockets := s.sockets.set i ⟨!ls.any isQuit, (serve ls).2.1, ls.any isQuit, false⟩ },
        ((addressed ls).map fun l => .write i (response l)) ++ if ls.any isQuit then [.deleteLater i] else []) := by
  obtain ⟨hlines, hsched, hdel⟩ := hidle hconn
  have hcond : s.isConnected i ∧ ls ≠ [] := ⟨isConnected_iff.mpr ⟨k, hk, hconn⟩, hls⟩
  rw [step, if_pos hcond, hConnection, modify_of_getElem? hk,
    withConn_set hc hk { k with lines := k.lines ++ ls } hdel]
  simp only [hlines, List.nil_append, hconn, Bool.true_and, hsched, Bool.false_or, hdel, if_true, serve_quits,
    serve_fst, List.map_map]
  rfl

/-- The client behind `p_conn` disconnects. -/
theorem step_disconnect (hc : s.conn = some i) (hk : s.sockets[i]? = some k) (hconn : k.connected = true)
    (hidle : Idle k) :
    s.step (.disconnect i) =
      ({ s with sockets := s.sockets.set i ⟨false, [], true, false⟩ }, [.deleteLater i]) := by
  obtain ⟨hlines, -, hdel⟩ := hidle hconn
  rw [step, if_pos (isConnected_iff.mpr ⟨k, hk, hconn⟩), disconnected, modify_of_getElem? hk,
    withConn_set hc hk { k with connected := false } hdel, hlines, hdel]

/-- Only a socket whose client has left is scheduled, so that its destructor emits nothing. -/
theorem Clean.deferredDelete (h : s.Clean) (i : Nat) :
    (s.step (.deferredDelete i)).1.Clean ∧ (s.step (.deferredDelete i)).2 = [] := by
  rw [step]
  split_ifs with hsched hconn
  · obtain ⟨k, hk, hkconn⟩ := isConnected_iff.mp hconn
    simp [isScheduled, hk, (h.idle_of_getElem? hk hkconn).2.1] at hsched
  · obtain ⟨k, hk, -⟩ := isScheduled_iff.mp hsched
    refine ⟨?_, rfl⟩
    have hleft : Idle { k with connected := false, deleted := true } := fun hcontra => nomatch hcontra
    simp only [List.modify_modify_eq]
    rw [modify_of_getElem? hk]
    exact h.set hleft
  · exact ⟨h, rfl⟩

/-- An act is silent, or the client that connected last sends lines or disconnects. -/
theorem Clean.step_cases {a : Act} (h : s.Clean) (hlast : s.FromLast a) :
    ((s.step a).2 = [] ∧ s.due a = [] ∧ (s.step a).1.Clean) ∨
    (∃ i ls, a = .lines i ls ∧ s.isConnected i = true ∧ s.step a =
      ({ s with sockets := s.sockets.set i ⟨!ls.any isQuit, (serve ls).2.1, ls.any isQuit, false⟩ },
        ((addressed ls).map fun l => .write i (response l)) ++ if ls.any isQuit then [.deleteLater i] else [])) ∨
    (∃ i, a = .disconnect i ∧ s.isConnected i = true ∧ s.step a =
      ({ s with sockets := s.sockets.set i ⟨false, [], true, false⟩ }, [.deleteLater i])) := by
  cases a with
  | connect ok =>
    have hclean := h.connect ok
    rw [step_connect] at hclean ⊢
    exact Or.inl ⟨rfl, rfl, hclean⟩
  | lines i ls =>
    by_cases hcond : s.isConnected i ∧ ls ≠ []
    · obtain ⟨k, hk, hconn⟩ := isConnected_iff.mp hcond.1
      have hstep := step_lines (hlast hcond.1 hcond.2) hk hconn (h.idle_of_getElem? hk) hcond.2
      exact Or.inr (Or.inl ⟨i, ls, rfl, hcond.1, hstep⟩)
    · rw [step, if_neg hcond]
      refine Or.inl ⟨rfl, ?_, h⟩
      rw [due]
      split_ifs with hi
      · have hls : ls = [] := not_not.mp fun hls => hcond ⟨hi, hls⟩
        rw [hls]
        rfl
      · rfl
  | disconnect i =>
    by_cases hi : s.isConnected i
    · obtain ⟨k, hk, hconn⟩ := isConnected_iff.mp hi
      exact Or.inr (Or.inr ⟨i, rfl, hi, step_disconnect (hlast hi) hk hconn (h.idle_of_getElem? hk)⟩)
    · rw [step, if_neg hi]
      exact Or.inl ⟨rfl, rfl, h⟩
  | deferredDelete i =>
    obtain ⟨hclean, hsilent⟩ := h.deferredDelete i
    exact Or.inl ⟨hsilent, rfl, hclean⟩

theorem Clean.step {a : Act} (h : s.Clean) (hlast : s.FromLast a) : (s.step a).1.Clean := by
  rcases h.step_cases hlast with ⟨-, -, hclean⟩ | ⟨i, ls, -, -, hstep⟩ | ⟨i, -, -, hstep⟩
  · exact hclean
  · rw [hstep]
    refine h.set fun hstay => ?_
    have hquit : ls.any isQuit = false := by simpa using hstay
    exact ⟨serve_rest hquit, hquit, rfl⟩
  · rw [hstep]
    exact h.set fun hstay => nomatch hstay

/-! ### The clients are kept apart -/

theorem filterMap_write? (i : Nat) (ls : List String) :
    (ls.map fun l => UserEvent.write i (response l)).filterMap UserEvent.write? =
      ls.map fun l => (i, response l) := by
  rw [List.filterMap_map]
  exact congrFun List.filterMap_eq_map ls

theorem Clean.apart {a : Act} (h : s.Clean) (hlast : s.FromLast a) : s.Apart a where
  answers := by
    rcases h.step_cases hlast with ⟨hsilent, hdue, -⟩ | ⟨i, ls, rfl, hi, hstep⟩ | ⟨i, rfl, -, hstep⟩
    · rw [hsilent, hdue]
      rfl
    · have hleave : (if ls.any isQuit then [UserEvent.deleteLater i] else []).filterMap UserEvent.write? = [] := by
        split_ifs <;> rfl
      rw [hstep, due, if_pos hi, List.filterMap_append, filterMap_write?, hleave, List.append_nil]
    · rw [hstep]
      rfl
  unread k hk hconn := ((h.step hlast).idle k hk hconn).1
  deletes j hj := by
    rcases h.step_cases hlast with ⟨hsilent, -, -⟩ | ⟨i, ls, rfl, hi, hstep⟩ | ⟨i, rfl, hi, hstep⟩
    · rw [hsilent] at hj
      cases hj
    · rw [hstep] at hj
      rcases List.mem_append.mp hj with hj | hj
      · obtain ⟨l, -, heq⟩ := List.mem_map.mp hj
        cases heq
      · split_ifs at hj with hquit
        · cases List.mem_singleton.mp hj
          exact ⟨hi, hquit, rfl⟩
        · cases hj
    · rw [hstep] at hj
      cases List.mem_singleton.mp hj
      exact ⟨hi, rfl⟩
  crashed := (h.step hlast).crashed

theorem ne_nil_of_isConnected (h : s.isConnected i = true) : s.sockets ≠ [] := by
  obtain ⟨k, hk, -⟩ := isConnected_iff.mp h
  exact List.ne_nil_of_mem (List.mem_of_getElem? hk)

theorem Clean.fromLast {a : Act} (h : s.Clean) (hapart : s.Apart a) : s.FromLast a := by
  cases a with
  | connect ok => trivial
  | lines i ls =>
    intro hi hls
    obtain ⟨c, k, hc, -⟩ := h.conn (ne_nil_of_isConnected hi)
    obtain ⟨l, hl⟩ := List.exists_mem_of_ne_nil _ (addressed_ne_nil hls)
    have hdue : (i, response l) ∈ s.due (.lines i ls) := by
      rw [due, if_pos hi]
      exact List.mem_map_of_mem hl
    rw [← hapart.answers, UserServer.step, if_pos ⟨hi, hls⟩] at hdue
    -- The answer on the client's own connection comes from the socket behind `p_conn`.
    obtain ⟨e, he, hwrite⟩ := List.mem_filterMap.mp hdue
    rcases hConnection_events he hc with rfl | ⟨resp, rfl⟩
    · cases hwrite
    · cases hwrite
      exact hc
  | disconnect i =>
    intro hi
    obtain ⟨c, k, hc, hk⟩ := h.conn (ne_nil_of_isConnected hi)
    by_cases hci : i = c
    · rw [hci, hc]
    let left : UserServer := { s with sockets := s.sockets.modify i fun k => { k with connected := false } }
    have hother : left.sockets[c]? = some k := (List.getElem?_modify_ne _ _ hci).trans hk
    have hcrashed := hapart.crashed
    have hdeletes := hapart.deletes c
    rw [UserServer.step, if_pos hi] at hcrashed hdeletes
    rcases @disconnected_deletes left c k hc hother with hcrash | hdelete
    · cases hcrash.symm.trans hcrashed
    · exact absurd (hdeletes hdelete).2.symm hci
  | deferredDelete i => trivial

end Steps

/-- In any order of connects, lines and disconnects, the clients are kept apart exactly as long as every line and
    every disconnect comes from the client that connected last. -/
theorem apart_iff (acts : List Act) : Run.Along step Apart new acts ↔ Run.Along step FromLast new acts :=
  Run.along_iff (fun _ _ h => ⟨h.fromLast, h.apart⟩) (fun _ _ h hlast => h.step hlast) new_clean acts

/-- The first of two clients asks for help and is left without an answer. -/
theorem apart_counterexample : ¬ ∀ acts, Run.Along step Apart new acts := by
  intro h
  obtain ⟨-, -, hlines, -⟩ := h [.connect true, .connect true, .lines 0 ["help\n"]]
  exact absurd hlines.answers (by decide)

end UserServer
end Recd2
