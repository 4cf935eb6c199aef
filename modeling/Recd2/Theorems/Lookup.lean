import Recd2.PluginManager
import Recd2.Theorems.Reload

/-! The lookups by name. The walk asks every plugin in front of the match for its name, so that it ends well when none of
    these is the DTMF plugin, whose `getName` calls itself, and all their names fit into their buffers. -/

namespace Recd2
open Plugin

/-! ### The name of one plugin -/

section Name
variable {p q : Plugin} {name : String} {w : Names} {fuel : Nat}

theorem setName_eq (p : Plugin) : p.setName = storeName p := by
  cases p <;> rfl

theorem getName_dtmf (fuel : Nat) (w : Names) : getName fuel .dtmf w = none := by
  induction fuel with
  | zero => rfl
  | succ fuel ih => exact ih

theorem getName_of_ne (hp : p ≠ .dtmf) (fuel : Nat) (w : Names) : getName (fuel + 1) p w = w p := by
  cases p with
  | dtmf => exact absurd rfl hp
  | _ => rfl

/-- Whatever `getName` gives is what is in the buffer of another plugin than the DTMF one. -/
theorem getName_eq_some (h : getName fuel p w = some name) : p ≠ .dtmf ∧ w p = some name := by
  have hp : p ≠ .dtmf := by
    rintro rfl
    rw [getName_dtmf] at h
    cases h
  cases fuel with
  | zero => cases h
  | succ fuel => exact ⟨hp, (getName_of_ne hp fuel w).symm.trans h⟩

end Name

/-! ### The names of a chain -/

/-- The loads in their order, each a plugin with its name. -/
abbrev Loads : Type := List (Plugin × String)

/-- The manager behind the loads. -/
def RecPluginMngr.loaded (loads : Loads) : RecPluginMngr := loads.foldl loadLibrary new

theorem pluginLinks_foldl (loads : Loads) (m : RecPluginMngr) :
    (loads.foldl RecPluginMngr.loadLibrary m).pluginLinks =
      (loads.map Prod.fst).foldl InterfaceList.loadLibrary m.pluginLinks := by
  induction loads generalizing m with
  | nil => rfl
  | cons load loads ih => exact ih (m.loadLibrary load)

theorem names_foldl_of_not_mem {loads : Loads} {p : Plugin} (hp : p ∉ loads.map Prod.fst) (m : RecPluginMngr) :
    (loads.foldl RecPluginMngr.loadLibrary m).names p = m.names p := by
  induction loads generalizing m with
  | nil => rfl
  | cons load loads ih =>
    rw [List.map_cons, List.mem_cons, not_or] at hp
    rw [List.foldl_cons, ih hp.2, RecPluginMngr.loadLibrary, setName_eq]
    exact if_neg hp.1

/-- Each plugin of a chain of distinct plugins holds the name it was loaded under. -/
theorem names_loaded {loads : Loads} (hnodup : (loads.map Prod.fst).Nodup) (m : RecPluginMngr) :
    ∀ load ∈ loads, (loads.foldl RecPluginMngr.loadLibrary m).names load.1 = strncpy 256 load.2 := by
  induction loads generalizing m with
  | nil => simp
  | cons load loads ih =>
    rw [List.map_cons, List.nodup_cons] at hnodup
    rintro other hmem
    rcases List.mem_cons.mp hmem with rfl | hmem
    · rw [List.foldl_cons, names_foldl_of_not_mem hnodup.1, RecPluginMngr.loadLibrary, setName_eq]
      exact if_pos rfl
    · exact ih hnodup.2 (m.loadLibrary load) other hmem

/-! ### The walk -/

/-- What the walk comes to, along the loads: no result where it does not end well. -/
def visit (result : Plugin → Option Plugin) (x : String) : Loads → Option (Option Plugin)
  | [] => some none
  | (p, name) :: loads =>
    if p = .dtmf then none
    else (strncpy 256 name).bind fun found => if found = x then some (result p) else visit result x loads

/-- The links and the names of a manager go along the loads. -/
structure RecPluginMngr.Along (m : RecPluginMngr) (loads : Loads) : Prop where
  linked : Linked m.pluginLinks.nextPlugin (loads.map Prod.fst)
  names : ∀ load ∈ loads, m.names load.1 = strncpy 256 load.2

section Walk
variable {m : RecPluginMngr} {loads : Loads} {result : Plugin → Option Plugin} {x : String}

theorem RecPluginMngr.Along.tail {load : Plugin × String} (h : m.Along (load :: loads)) :
    m.pluginLinks.nextPlugin load.1 = (loads.map Prod.fst).head? ∧ m.names load.1 = strncpy 256 load.2 ∧ m.Along loads := by
  obtain ⟨hnext, hlinked⟩ := linked_cons.mp h.linked
  exact ⟨hnext, h.names load List.mem_cons_self, hlinked, fun other hmem => h.names other (List.mem_cons_of_mem load hmem)⟩

theorem visit_of_lookup (h : m.Along loads) {fuel : Nat} {found : Option Plugin}
    (hlookup : m.lookup result x fuel (loads.map Prod.fst).head? = some found) : visit result x loads = some found := by
  induction loads generalizing fuel with
  | nil =>
    cases fuel <;> exact hlookup
  | cons load loads ih =>
    obtain ⟨p, name⟩ := load
    obtain ⟨hnext, hname, hrest⟩ := h.tail
    cases fuel with
    | zero => cases hlookup
    | succ fuel =>
      obtain ⟨text, htext, hlookup⟩ := Option.bind_eq_some_iff.mp hlookup
      obtain ⟨hp, htext⟩ := getName_eq_some htext
      rw [visit, if_neg hp, ← hname, htext, Option.bind_some]
      split_ifs at hlookup ⊢ with heq
      · exact hlookup
      · rw [hnext] at hlookup
        exact ih hrest hlookup

theorem lookup_of_visit (h : m.Along loads) {found : Option Plugin} (hvisit : visit result x loads = some found)
    {fuel : Nat} (hfuel : loads.length < fuel) : m.lookup result x fuel (loads.map Prod.fst).head? = some found := by
  induction loads generalizing fuel with
  | nil =>
    cases fuel <;> exact hvisit
  | cons load loads ih =>
    obtain ⟨p, name⟩ := load
    obtain ⟨hnext, hname, hrest⟩ := h.tail
    obtain ⟨fuel, rfl⟩ : ∃ k, fuel = k + 2 := ⟨fuel - 2, by rw [List.length_cons] at hfuel; omega⟩
    rw [visit] at hvisit
    split_ifs at hvisit with hp
    obtain ⟨text, htext, hvisit⟩ := Option.bind_eq_some_iff.mp hvisit
    have hget : getName (fuel + 1) p m.names = some text := by rw [getName_of_ne hp, hname, htext]
    rw [List.map_cons, List.head?_cons, RecPluginMngr.lookup, hget, Option.bind_some]
    split_ifs at hvisit ⊢ with heq
    · exact hvisit
    · rw [hnext]
      exact ih hrest hvisit (by rw [List.length_cons] at hfuel; omega)

end Walk

/-! ### The match -/

/-- The plugin that was loaded first under a name. -/
def firstLoaded (x : String) (loads : Loads) : Option Plugin := (loads.find? (·.2 = x)).map Prod.fst

/-- The loads up to the first one under the name, or all of them, are no DTMF plugin, and have names of less than 256 bytes
    in which no null character hides or makes the name that is looked for. -/
def Findable (x : String) : Loads → Prop
  | [] => True
  | (p, name) :: loads =>
    p ≠ .dtmf ∧ Utf8.bytes (name.toList.takeWhile (· ≠ '\x00')) < 256 ∧
      (String.ofList (name.toList.takeWhile (· ≠ '\x00')) = x ↔ name = x) ∧ (name ≠ x → Findable x loads)

section Match
variable {loads : Loads} {x : String}

theorem visit_of_findable (result : Plugin → Option Plugin) (h : Findable x loads) :
    visit result x loads = some ((firstLoaded x loads).bind result) := by
  induction loads with
  | nil => rfl
  | cons load loads ih =>
    obtain ⟨p, name⟩ := load
    obtain ⟨hp, hbytes, hname, hrest⟩ := h
    rw [visit, if_neg hp, strncpy, if_pos hbytes, Option.bind_some, firstLoaded, List.find?_cons]
    by_cases heq : name = x
    · rw [if_pos (hname.mpr heq)]
      simp [heq]
    · rw [if_neg (hname.not.mpr heq), ih (hrest heq)]
      simp [heq, firstLoaded]

theorem mem_of_firstLoaded {q : Plugin} (h : firstLoaded x loads = some q) : q ∈ loads.map Prod.fst := by
  obtain ⟨load, hfind, rfl⟩ := Option.map_eq_some_iff.mp h
  exact List.mem_map.mpr ⟨load, List.mem_of_find?_eq_some hfind, rfl⟩

theorem mem_of_visit {q : Plugin} (h : visit some x loads = some (some q)) : q ∈ loads.map Prod.fst := by
  induction loads with
  | nil => cases h
  | cons load loads ih =>
    obtain ⟨p, name⟩ := load
    rw [visit] at h
    split_ifs at h
    obtain ⟨text, -, h⟩ := Option.bind_eq_some_iff.mp h
    split_ifs at h
    · obtain rfl : p = q := by simpa using h
      exact List.mem_cons_self
    · exact List.mem_cons_of_mem p (ih h)

theorem firstLoaded_cons (p : Plugin) (name : String) :
    firstLoaded x ((p, name) :: loads) = if name = x then some p else firstLoaded x loads := by
  rw [firstLoaded, List.find?_cons]
  by_cases heq : name = x
  · simp [heq]
  · simp [heq, firstLoaded]

/-- A walk that stops at another place than the first load of the name gives another plugin, as these are distinct. -/
theorem findable_of_visit (hnodup : (loads.map Prod.fst).Nodup) (h : visit some x loads = some (firstLoaded x loads)) :
    Findable x loads := by
  induction loads with
  | nil => trivial
  | cons load loads ih =>
    obtain ⟨p, name⟩ := load
    rw [List.map_cons, List.nodup_cons] at hnodup
    rw [visit] at h
    split_ifs at h with hp
    obtain ⟨text, htext, h⟩ := Option.bind_eq_some_iff.mp h
    rw [strncpy] at htext
    split_ifs at htext with hbytes
    obtain rfl := Option.some_inj.mp htext
    rw [firstLoaded_cons] at h
    refine ⟨hp, hbytes, ?_, fun hne => ?_⟩
    · constructor
      · intro hfound
        by_contra hne
        rw [if_pos hfound, if_neg hne, Option.some_inj] at h
        exact hnodup.1 (mem_of_firstLoaded h.symm)
      · intro hname
        by_contra hne
        rw [if_neg hne, if_pos hname] at h
        exact hnodup.1 (mem_of_visit h)
    · have hlost : ¬String.ofList (name.toList.takeWhile (· ≠ '\x00')) = x := fun hfound => by
        rw [if_pos hfound, if_neg hne, Option.some_inj] at h
        exact hnodup.1 (mem_of_firstLoaded h.symm)
      rw [if_neg hlost, if_neg hne] at h
      exact ih hnodup.2 h

end Match

/-! ### Lookups in a chain -/

theorem along_loaded {loads : Loads} (hnodup : (loads.map Prod.fst).Nodup) :
    (RecPluginMngr.loaded loads).Along loads ∧
      (RecPluginMngr.loaded loads).pluginLinks.head = (loads.map Prod.fst).head? := by
  have hholds := InterfaceList.load_holds hnodup
  rw [RecPluginMngr.loaded]
  refine ⟨⟨?_, names_loaded hnodup .new⟩, ?_⟩
  · rw [pluginLinks_foldl]
    exact hholds.linked
  · rw [pluginLinks_foldl]
    exact hholds.head

/-- The lookup by name ends with the plugin that was loaded first under it, or with null, and `get_data` is asked of the
    same plugin. -/
structure Finds (loads : Loads) (x : String) : Prop where
  getInterface : ∃ fuel, (RecPluginMngr.loaded loads).getInterface x fuel = some (firstLoaded x loads)
  getPluginByName : '\x00' ∉ x.toList →
    ∃ fuel, (RecPluginMngr.loaded loads).getPluginByName x fuel = some ((firstLoaded x loads).bind getData)

theorem finds_iff_findable {loads : Loads} (hnodup : (loads.map Prod.fst).Nodup) (x : String) :
    Finds loads x ↔ Findable x loads := by
  obtain ⟨halong, hhead⟩ := along_loaded hnodup
  constructor
  · rintro ⟨⟨fuel, hfuel⟩, -⟩
    rw [RecPluginMngr.getInterface, hhead] at hfuel
    exact findable_of_visit hnodup (visit_of_lookup halong hfuel)
  · intro h
    refine ⟨⟨loads.length + 1, ?_⟩, fun _ => ⟨loads.length + 1, ?_⟩⟩
    · rw [RecPluginMngr.getInterface, hhead]
      have hvisit := visit_of_findable some h
      rw [Option.bind_fun_some] at hvisit
      exact lookup_of_visit halong hvisit (Nat.lt_succ_self _)
    · rw [RecPluginMngr.getPluginByName, hhead]
      exact lookup_of_visit halong (visit_of_findable getData h) (Nat.lt_succ_self _)

/-- For any chain of distinct plugins, loaded under any names, and any name: the lookups find the first plugin of the name
    when the loads up to it are findable, and only then. -/
theorem lookup_iff (loads : Loads) (hnodup : (loads.map Prod.fst).Nodup) (x : String) :
    Finds loads x ↔ Findable x loads :=
  finds_iff_findable hnodup x

theorem lookup_iff_recorder :
    Finds [(.producer, "producer"), (.recorder, "rec")] "rec" ↔ Findable "rec" [(.producer, "producer"), (.recorder, "rec")] :=
  lookup_iff [(.producer, "producer"), (.recorder, "rec")] (by decide) "rec"

/-- The recorder behind the DTMF plugin. -/
theorem lookup_counterexample :
    ∃ (loads : Loads) (x : String), (loads.map Prod.fst).Nodup ∧ ¬Finds loads x := by
  refine ⟨[(.dtmf, "dtmf"), (.recorder, "rec")], "rec", by decide, ?_⟩
  rw [finds_iff_findable (by decide)]
  rintro ⟨hp, -⟩
  exact hp rfl

end Recd2
