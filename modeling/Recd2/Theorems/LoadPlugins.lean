import Mathlib.Data.List.Nodup
import Recd2.Application
import Recd2.Theorems.CommandLine

/-! The calls of `loadPlugins`. Its list holds the attributes of all `Plugin` elements one behind the other, and the path
    is taken three places behind the name. Where the elements are laid out like this, each name is loaded with its own
    path. -/

namespace Recd2.SApplication
open RecorderConfig

/-! ### The list from a place on -/

/-- The calls for a pair, from the pairs behind it. -/
def callAt (it : Attrib) (behind : PairList) : Option (List LoadCall) :=
  if it.type1 = "name" ∧ it.type2 ≠ "" then
    if behind.length < 2 then some [] else behind[2]?.map fun path => [⟨path.type2, it.type2⟩]
  else some []

/-- The calls for the rest of the list, none if an index is out of range at one of its elements. -/
def callsFrom : PairList → Option (List LoadCall)
  | [] => some []
  | it :: behind => (callAt it behind).bind fun calls => (callsFrom behind).map (calls ++ ·)

theorem loadPlugin_eq_callAt (front behind : PairList) (it : Attrib) :
    loadPlugin (front ++ it :: behind) it front.length = callAt it behind := by
  have hget : (front ++ it :: behind)[front.length + 3]? = behind[2]? := by
    rw [List.getElem?_append_right (by omega), Nat.add_sub_cancel_left, List.getElem?_cons_succ]
  have hlen : (front ++ it :: behind).length < front.length + 3 ↔ behind.length < 2 := by
    rw [List.length_append, List.length_cons]
    omega
  simp only [loadPlugin, callAt, hget, hlen]

theorem mapM_loadPlugin (front l : PairList) :
    ((l.zipIdx front.length).mapM fun x => loadPlugin (front ++ l) x.1 x.2).map List.flatten = callsFrom l := by
  induction l generalizing front with
  | nil => rfl
  | cons it l ih =>
    have hrest := ih (front ++ [it])
    rw [List.append_assoc, List.singleton_append, List.length_append, List.length_singleton] at hrest
    rw [List.zipIdx_cons, List.mapM_cons, loadPlugin_eq_callAt, callsFrom, ← hrest]
    cases callAt it l with
    | none => rfl
    | some calls => cases (l.zipIdx (front.length + 1)).mapM fun x => loadPlugin (front ++ it :: l) x.1 x.2 <;> rfl

theorem loadPlugins_eq (c : RecorderConfig) : loadPlugins c = callsFrom (c.getTagPairs "Plugin") :=
  mapM_loadPlugin [] (c.getTagPairs "Plugin")

/-! ### The end of the list -/

/-- No name that is not empty has exactly two pairs behind it. There the test of the bound lets the place behind the end
    through. -/
def InRange (list : PairList) : Prop :=
  ∀ k (_ : k < list.length), list[k].type1 = "name" → list[k].type2 ≠ "" → k + 3 ≠ list.length

instance (list : PairList) : Decidable (InRange list) :=
  inferInstanceAs (Decidable (∀ k (_ : k < list.length), list[k].type1 = "name" → list[k].type2 ≠ "" → k + 3 ≠ list.length))

theorem InRange.tail {it : Attrib} {list : PairList} (h : InRange (it :: list)) : InRange list := fun k hk hname hne hend =>
  h (k + 1) (by rw [List.length_cons]; omega) hname hne (by rw [List.length_cons]; omega)

theorem exists_callsFrom {list : PairList} (h : InRange list) : ∃ calls, callsFrom list = some calls := by
  induction list with
  | nil => exact ⟨[], rfl⟩
  | cons it list ih =>
    obtain ⟨rest, hrest⟩ := ih h.tail
    have hfirst := h 0 (Nat.succ_pos _)
    obtain ⟨calls, hcalls⟩ : ∃ calls, callAt it list = some calls := by
      rw [callAt]
      split_ifs with hname hshort
      · exact ⟨[], rfl⟩
      · have hlen : 2 < list.length := by
          have hend := hfirst hname.1 hname.2
          rw [List.length_cons] at hend
          omega
        rw [List.getElem?_eq_getElem hlen]
        exact ⟨_, rfl⟩
      · exact ⟨[], rfl⟩
    exact ⟨calls ++ rest, by rw [callsFrom, hcalls, hrest]; rfl⟩

/-! ### One element -/

/-- The text of an attribute of one element. -/
def value? (l : PairList) (name : String) : Option String := (l.find? (·.type1 == name)).map (·.type2)

/-- The call that an element asks for: it has a name that is not empty, and a path. -/
def ownCall (l : PairList) : Option LoadCall :=
  match value? l "name", value? l "path" with
  | some name, some path => if name ≠ "" then some ⟨path, name⟩ else none
  | _, _ => none

/-- The layout that `loadPlugins` takes for granted, for an element with `rest` behind it: the path stands three places
    behind the name, in the same element. An element without a path ends the list at its name, or one place behind. -/
def Laid (l rest : PairList) : Prop :=
  ∀ j (_ : j < l.length), l[j].type1 = "name" → l[j].type2 ≠ "" →
    l[j + 3]?.map (·.type1) = some "path" ∨ (value? l "path" = none ∧ (l ++ rest).length < j + 3)

instance (l rest : PairList) : Decidable (Laid l rest) :=
  inferInstanceAs (Decidable (∀ j (_ : j < l.length), l[j].type1 = "name" → l[j].type2 ≠ "" → _))

section Element
variable {l rest : PairList}

/-- Pairs that name no plugin are passed over. -/
theorem callsFrom_append_of_unnamed (h : ∀ a ∈ l, ¬(a.type1 = "name" ∧ a.type2 ≠ "")) :
    callsFrom (l ++ rest) = callsFrom rest := by
  induction l with
  | nil => rfl
  | cons a l ih =>
    rw [List.cons_append, callsFrom, callAt, if_neg (h a List.mem_cons_self), Option.bind_some,
      ih fun b hb => h b (List.mem_cons_of_mem a hb)]
    cases callsFrom rest <;> rfl

theorem value?_of_mem (hnodup : (l.map (·.type1)).Nodup) {name text : String} (h : ⟨name, text⟩ ∈ l) :
    value? l name = some text := by
  induction l with
  | nil => cases h
  | cons a l ih =>
    rw [List.map_cons, List.nodup_cons] at hnodup
    rw [value?, List.find?_cons]
    rcases List.mem_cons.mp h with rfl | hmem
    · simp
    · have hne : (a.type1 == name) = false := by
        rw [beq_eq_false_iff_ne]
        rintro rfl
        exact hnodup.1 (List.mem_map.mpr ⟨_, hmem, rfl⟩)
      rw [hne]
      exact ih hnodup.2 hmem

theorem exists_mem_of_value? {name text : String} (h : value? l name = some text) : (⟨name, text⟩ : Attrib) ∈ l := by
  obtain ⟨a, hfind, rfl⟩ := Option.map_eq_some_iff.mp h
  have hkey := List.find?_some hfind
  simp only [beq_iff_eq] at hkey
  subst hkey
  exact List.mem_of_find?_eq_some hfind

theorem ownCall_of_unnamed (h : ∀ a ∈ l, ¬(a.type1 = "name" ∧ a.type2 ≠ "")) : ownCall l = none := by
  rw [ownCall]
  split
  · rename_i name path hname hpath
    exact if_neg fun hne => h _ (exists_mem_of_value? hname) ⟨rfl, hne⟩
  · rfl

theorem ownCall_of_name {name : String} (h : value? l "name" = some name) (hname : name ≠ "") :
    ownCall l = (value? l "path").map fun path => ⟨path, name⟩ := by
  rw [ownCall, h]
  cases value? l "path" with
  | none => rfl
  | some path => exact if_pos hname

/-- What the loop does with the pairs of one element is the call that the element asks for. -/
theorem callsFrom_element (hnodup : (l.map (·.type1)).Nodup) (hlaid : Laid l rest) :
    callsFrom (l ++ rest) = (callsFrom rest).map ((ownCall l).toList ++ ·) := by
  by_cases hnamed : ∃ a ∈ l, a.type1 = "name" ∧ a.type2 ≠ ""
  · obtain ⟨⟨_, name⟩, hmem, rfl, hname⟩ := hnamed
    have hvalue := value?_of_mem hnodup hmem
    obtain ⟨front, behind, hl⟩ := List.mem_iff_append.mp hmem
    have hother : ∀ a ∈ front ++ behind, ¬(a.type1 = "name" ∧ a.type2 ≠ "") := fun a ha h => by
      rw [hl, List.map_append, List.map_cons, List.nodup_middle, List.nodup_cons, ← List.map_append] at hnodup
      exact hnodup.1 (List.mem_map.mpr ⟨a, ha, h.1⟩)
    have hfront := fun a (ha : a ∈ front) => hother a (List.mem_append_left _ ha)
    have hbehind := fun a (ha : a ∈ behind) => hother a (List.mem_append_right _ ha)
    have hcalls : callsFrom (l ++ rest) =
        (callAt ⟨"name", name⟩ (behind ++ rest)).bind fun calls => (callsFrom rest).map (calls ++ ·) := by
      rw [hl, List.append_assoc, callsFrom_append_of_unnamed hfront, List.cons_append, callsFrom,
        callsFrom_append_of_unnamed hbehind]
    rw [hcalls, ownCall_of_name hvalue hname, callAt, if_pos ⟨rfl, hname⟩]
    have hplace : front.length < l.length := by rw [hl, List.length_append, List.length_cons]; omega
    have hhere : l[front.length] = ⟨"name", name⟩ := by simp [hl]
    have hthree : l[front.length + 3]? = behind[2]? := by
      rw [hl, List.getElem?_append_right (by omega), Nat.add_sub_cancel_left, List.getElem?_cons_succ]
    have hlen : (l ++ rest).length = front.length + 1 + (behind ++ rest).length := by
      simp only [hl, List.length_append, List.length_cons]
      omega
    rcases hlaid front.length hplace (by rw [hhere]) (by rw [hhere]; exact hname) with hpath | ⟨hpath, hshort⟩
    · obtain ⟨⟨_, path⟩, hget, rfl⟩ := Option.map_eq_some_iff.mp hpath
      have hmem := List.mem_of_getElem? hget
      rw [hthree] at hget
      have hbound : 2 < behind.length := (List.getElem?_eq_some_iff.mp hget).1
      rw [value?_of_mem hnodup hmem, if_neg (by rw [List.length_append]; omega), List.getElem?_append_left hbound, hget]
      rfl
    · rw [hpath, if_pos (by omega)]
      rfl
  · have hnone : ∀ a ∈ l, ¬(a.type1 = "name" ∧ a.type2 ≠ "") := fun a ha h => hnamed ⟨a, ha, h⟩
    rw [callsFrom_append_of_unnamed hnone, ownCall_of_unnamed hnone]
    cases callsFrom rest <;> rfl

end Element

/-! ### The document -/

/-- A list of elements with attributes of different names, each laid out for `loadPlugins`. -/
def LaidOut : List PairList → Prop
  | [] => True
  | l :: es => (l.map (·.type1)).Nodup ∧ Laid l es.flatten ∧ LaidOut es

instance decidableLaidOut : (es : List PairList) → Decidable (LaidOut es)
  | [] => inferInstanceAs (Decidable True)
  | l :: es =>
    have := decidableLaidOut es
    inferInstanceAs (Decidable ((l.map (·.type1)).Nodup ∧ Laid l es.flatten ∧ LaidOut es))

theorem callsFrom_document {es : List PairList} (h : LaidOut es) : callsFrom es.flatten = some (es.filterMap ownCall) := by
  induction es with
  | nil => rfl
  | cons l es ih =>
    obtain ⟨hnodup, hlaid, hrest⟩ := h
    rw [List.flatten_cons, callsFrom_element hnodup hlaid, ih hrest, List.filterMap_cons, Option.map_some]
    cases ownCall l <;> rfl

/-- The attributes of the `Plugin` elements, in the order of the document. -/
def plugins (elements : List StartElement) : List PairList :=
  (elements.filter (·.name == "Plugin")).map StartElement.attributes

theorem getTagPairs_fastLoadFile {files : Files} {fname : String} {elements : List StartElement} (hname : fname ≠ "")
    (hread : files fname = some elements) (c : RecorderConfig) :
    (c.fastLoadFile files fname).1.getTagPairs "Plugin" = (plugins elements).flatten := by
  rw [fastLoadFile_of_ne files c fname hname, getTagPairs, loaded, hread, Option.getD_some, tags_foldl_append, plugins,
    ← List.flatMap_def]
  rfl

/-- For any document without a name at that place: `loadPlugins` stays in its list. For any document laid out for it, it calls
    `loadLibrary` once for each element with a name and a path, with these two, in the order of the document. -/
theorem loadPlugins_laidOut (files : Files) (c : RecorderConfig) (fname : String) (elements : List StartElement)
    (hname : fname ≠ "") (hread : files fname = some elements) :
    (InRange (plugins elements).flatten → ∃ calls, loadPlugins (c.fastLoadFile files fname).1 = some calls) ∧
      (LaidOut (plugins elements) →
        loadPlugins (c.fastLoadFile files fname).1 = some ((plugins elements).filterMap ownCall)) := by
  rw [loadPlugins_eq, getTagPairs_fastLoadFile hname hread]
  exact ⟨exists_callsFrom, callsFrom_document⟩

/-- Two plugins as they are shipped, one with the file of its settings and one without. -/
def twoPlugins : List StartElement :=
  [⟨"Plugin", [⟨"name", "dtmf"⟩, ⟨"order", "1"⟩, ⟨"enabled", "true"⟩, ⟨"path", "libDFT.so"⟩, ⟨"conf", "dft-config.xml"⟩]⟩,
    ⟨"Plugin", [⟨"name", "md5-checksum"⟩, ⟨"order", "1"⟩, ⟨"enabled", "true"⟩, ⟨"path", "libMD5Generator.so"⟩]⟩]

theorem loadPlugins_laidOut_twoPlugins :
    loadPlugins (RecorderConfig.new.fastLoadFile (fun _ => some twoPlugins) "recorder-config.xml").1 =
      some [⟨"libDFT.so", "dtmf"⟩, ⟨"libMD5Generator.so", "md5-checksum"⟩] :=
  (loadPlugins_laidOut (fun _ => some twoPlugins) .new "recorder-config.xml" twoPlugins (by decide) rfl).2 (by decide)

/-- The path right behind the name: what is loaded is the text of `enabled`. -/
theorem loadPlugins_counterexample :
    ¬∀ (files : Files) (c : RecorderConfig) (fname : String) (elements : List StartElement), fname ≠ "" →
      files fname = some elements → (∀ l ∈ plugins elements, (l.map (·.type1)).Nodup) →
      loadPlugins (c.fastLoadFile files fname).1 = some ((plugins elements).filterMap ownCall) := by
  intro h
  have hcalls := h (fun _ => some [⟨"Plugin", [⟨"name", "dtmf"⟩, ⟨"path", "libDFT.so"⟩, ⟨"order", "1"⟩, ⟨"enabled", "true"⟩]⟩])
    .new "recorder-config.xml" _ (by decide) rfl (by decide)
  revert hcalls
  decide

end Recd2.SApplication
