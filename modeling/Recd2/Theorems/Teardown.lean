import Recd2.Daemon
import Recd2.Theorems.Reload

/-! The calls of `deinit` at the end of the process. The traversal of the application leaves the list as it is, so that
    the destructor of the list begins with the same plugins once more. -/

namespace Recd2.InterfaceList
variable {α : Type} {deleteReturns : α → Bool} {next : α → Option α} {fuel : Nat} {p : α} {ps calls : List α}

theorem mem_clear (h : clear deleteReturns next fuel (some p) = some calls) : p ∈ calls := by
  cases fuel with
  | zero => cases h
  | succ fuel =>
    rw [clear] at h
    split_ifs at h
    · obtain ⟨rest, -, rfl⟩ := Option.map_eq_some_iff.mp h
      exact List.mem_cons_self
    · obtain rfl := Option.some.inj h
      exact List.mem_cons_self

/-- Where each `delete` returns, `clear` walks along the links. -/
theorem clear_eq_walk (hreturns : ∀ p, deleteReturns p = true) (start : Option α) :
    clear deleteReturns next fuel start = walk next fuel start := by
  induction fuel generalizing start with
  | zero => cases start <;> rfl
  | succ fuel ih =>
    cases start with
    | none => rfl
    | some p => rw [clear, walk, hreturns p, if_pos rfl, ih]

theorem testSig_eq_some_iff {l : InterfaceList α} : testSig deleteReturns fuel l = some calls ↔
    ∃ first second, l.deinit fuel = some first ∧ clear deleteReturns l.nextPlugin fuel l.head = some second ∧
      first ++ second = calls := by
  simp [testSig, Option.bind_eq_some_iff]

variable [DecidableEq α]

/-- The first plugin is called by both, in whatever way its `delete` ends. -/
theorem two_le_count {l : InterfaceList α} (hhead : l.head = some p) (h : testSig deleteReturns fuel l = some calls) :
    2 ≤ calls.count p := by
  obtain ⟨first, second, hfirst, hsecond, rfl⟩ := testSig_eq_some_iff.mp h
  have hone : p ∈ first := by
    rw [deinit, hhead] at hfirst
    exact List.mem_of_mem_head? (linked_of_walk hfirst).1
  have htwo : p ∈ second := by
    rw [hhead] at hsecond
    exact mem_clear hsecond
  have hfirst := List.count_pos_iff.mpr hone
  have hsecond := List.count_pos_iff.mpr htwo
  rw [List.count_append]
  omega

/-- Distinct plugins are torn down in order, and then again, unless the program ends before. -/
theorem testSig_of_nodup (hnodup : ps.Nodup) (hreturns : ∀ p, deleteReturns p = true) :
    testSig deleteReturns ps.length (ps.foldl loadLibrary empty) = some (ps ++ ps) := by
  have hholds := load_holds hnodup
  have hwalk := walk_of_linked hholds.linked
  rw [← hholds.head] at hwalk
  exact testSig_eq_some_iff.mpr ⟨ps, ps, hwalk, (clear_eq_walk hreturns _).trans hwalk, rfl⟩

/-- Whatever was loaded, each plugin's `deinit` is called once exactly when nothing was. -/
theorem torn_down_once_iff (deleteReturns : α → Bool) (ps : List α) :
    (∃ fuel calls, testSig deleteReturns fuel (ps.foldl loadLibrary empty) = some calls ∧ ∀ p ∈ ps, calls.count p = 1) ↔
      ps = [] := by
  constructor
  · rintro ⟨fuel, calls, hcalls, hone⟩
    cases ps with
    | nil => rfl
    | cons p ps =>
      have hhead : ((p :: ps).foldl loadLibrary empty).head = some p := (loaded (p :: ps)).head
      have htwo := two_le_count hhead hcalls
      have hcount := hone p List.mem_cons_self
      omega
  · rintro rfl
    exact ⟨0, [], rfl, fun _ h => absurd h List.not_mem_nil⟩

/-- One plugin, with a `delete` that returns. -/
theorem torn_down_counterexample : ¬∀ (deleteReturns : Plugin → Bool) (ps : List Plugin), ∃ fuel calls,
    testSig deleteReturns fuel (ps.foldl loadLibrary empty) = some calls ∧ ∀ p ∈ ps, calls.count p = 1 := by
  intro h
  obtain ⟨fuel, calls, hcalls, hone⟩ := h (fun _ => true) [.recorder]
  have htwo := two_le_count rfl hcalls
  have hcount := hone .recorder List.mem_cons_self
  omega

end Recd2.InterfaceList
