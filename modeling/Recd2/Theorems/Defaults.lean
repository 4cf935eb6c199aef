import Recd2.Application
import Recd2.Theorems.CommandLine

/-! What the settings answer after the options are read. A file clears the settings and the defaults go behind what is
    there, so the defaults answer for what the file leaves out when a `-d` stands behind the file, and not before it. -/

namespace Recd2.SApplication
open RecorderConfig

/-! ### Elements behind each other -/

/-- The pair that elements hold for a query: the first attribute of the name, in the elements of the tag. -/
def found (elements : List StartElement) (tag attrib : String) : Option Attrib :=
  ((elements.filter (·.name == tag)).flatMap StartElement.attributes).find? (·.type1 == attrib)

section Found
variable (tag attrib : String)

theorem found_append (es es' : List StartElement) :
    found (es ++ es') tag attrib = (found es tag attrib).or (found es' tag attrib) := by
  rw [found, List.filter_append, List.flatMap_append, List.find?_append, found, found]

theorem getAttribPairFromTag_append (c : RecorderConfig) (es : List StartElement) :
    (es.foldl append c.clear).getAttribPairFromTag tag attrib = (found es tag attrib).getD ⟨"", c.notFound⟩ := by
  rw [getAttribPairFromTag, getTagPairs, tags_foldl_append, notFound_foldl_append]
  rfl

end Found

/-! ### The loop -/

/-- The options that name a configuration file. -/
def IsConfig (arg : String) : Prop := arg = "-c" ∨ arg = "--config"

/-- The options that load the defaults. -/
def IsDaemon (arg : String) : Prop := arg = "-d" ∨ arg = "--daemon"

instance (arg : String) : Decidable (IsConfig arg) := inferInstanceAs (Decidable (_ ∨ _))
instance (arg : String) : Decidable (IsDaemon arg) := inferInstanceAs (Decidable (_ ∨ _))

/-- The elements that the arguments without `-c` load. -/
def daemonElements (args : List String) : List StartElement := args.flatMap fun arg => if IsDaemon arg then defaults else []

theorem daemonElements_cons (arg : String) (args : List String) :
    daemonElements (arg :: args) = (if IsDaemon arg then defaults else []) ++ daemonElements args := List.flatMap_cons

/-- Defaults that are loaded again answer nothing new. -/
theorem found_daemonElements (args : List String) (tag attrib : String) :
    found (daemonElements args) tag attrib = if ∃ arg ∈ args, IsDaemon arg then found defaults tag attrib else none := by
  induction args with
  | nil => rfl
  | cons arg args ih =>
    rw [daemonElements_cons, found_append, ih]
    simp only [List.mem_cons, exists_eq_or_imp]
    by_cases harg : IsDaemon arg
    · rw [if_pos harg, if_pos (Or.inl harg)]
      split_ifs
      · exact Option.or_self
      · exact Option.or_none
    · rw [if_neg harg]
      simp only [harg, false_or]
      exact Option.none_or

section Loop
variable {files : Files} {path opt : String} {elements : List StartElement}

theorem argLoop_append (pre rest : List String) (hpre : ∀ arg ∈ pre, ¬IsConfig arg) (c : RecorderConfig) :
    argLoop files (pre ++ rest) c = argLoop files rest ((daemonElements pre).foldl append c) := by
  induction pre generalizing c with
  | nil => rfl
  | cons arg pre ih =>
    have harg : ¬(arg = "-c" ∨ arg = "--config") := hpre arg List.mem_cons_self
    rw [List.cons_append, argLoop, if_neg harg, ih fun a ha => hpre a (List.mem_cons_of_mem arg ha),
      daemonElements_cons, List.foldl_append]
    by_cases hdaemon : arg = "-d" ∨ arg = "--daemon"
    · rw [if_pos hdaemon, if_pos (show IsDaemon arg from hdaemon)]
      rfl
    · rw [if_neg hdaemon, if_neg (show ¬IsDaemon arg from hdaemon)]
      rfl

theorem clear_foldl_append (es : List StartElement) (c : RecorderConfig) : (es.foldl append c).clear = c.clear := by
  rw [clear, notFound_foldl_append]
  rfl

/-- The settings after the loop: those of the file, and the defaults behind them for each `-d` behind the file. -/
theorem argLoop_option {pre post : List String} (hopt : IsConfig opt)
    (hone : ∀ arg ∈ pre ++ path :: post, ¬IsConfig arg) (hpath : path ≠ "") (hread : files path = some elements)
    (c : RecorderConfig) :
    argLoop files (pre ++ opt :: path :: post) c =
      (elements ++ daemonElements (path :: post)).foldl append c.clear := by
  have hpre := fun arg harg => hone arg (List.mem_append_left (path :: post) harg)
  have hpost := fun arg harg => hone arg (List.mem_append_right pre harg)
  have hload : ∀ c' : RecorderConfig, loadFile files (path :: post) c' = elements.foldl append c'.clear := fun c' => by
    rw [loadFile, List.head?_cons]
    simp only [fastLoadFile, if_neg hpath, hread]
    rfl
  have hrest := @argLoop_append files (path :: post) [] hpost
  rw [List.append_nil] at hrest
  rw [argLoop_append pre _ hpre, argLoop, if_pos (show opt = "-c" ∨ opt = "--config" from hopt), hrest, hload,
    clear_foldl_append, List.foldl_append]
  rfl

/-- The pair that the README promises for an attribute: the file's, or the default where the file leaves it out. -/
def wanted (elements : List StartElement) (c : RecorderConfig) (tag attrib : String) : Attrib :=
  ((found elements tag attrib).or (found defaults tag attrib)).getD ⟨"", c.notFound⟩

/-- A default stands behind each attribute that the file leaves out, or it leaves none out. -/
def Covered (elements : List StartElement) (path : String) (post : List String) : Prop :=
  (∃ arg ∈ path :: post, IsDaemon arg) ∨ ∀ e ∈ defaults, ∀ a ∈ e.attributes, (found elements e.name a.type1).isSome

theorem found_defaults {tag attrib : String} {a : Attrib} (h : found defaults tag attrib = some a) :
    ∃ e ∈ defaults, a ∈ e.attributes ∧ e.name = tag ∧ a.type1 = attrib := by
  have hmem := List.mem_of_find?_eq_some h
  have hkey := List.find?_some h
  obtain ⟨e, he, ha⟩ := List.mem_flatMap.mp hmem
  obtain ⟨he, hname⟩ := List.mem_filter.mp he
  exact ⟨e, he, ha, beq_iff_eq.mp hname, beq_iff_eq.mp hkey⟩

theorem exists_found_defaults {e : StartElement} (he : e ∈ defaults) {a : Attrib} (ha : a ∈ e.attributes) :
    ∃ b, found defaults e.name a.type1 = some b := by
  rw [← Option.isSome_iff_exists, found, List.find?_isSome]
  exact ⟨a, List.mem_flatMap.mpr ⟨e, List.mem_filter.mpr ⟨he, beq_self_eq_true _⟩, ha⟩, beq_self_eq_true _⟩

theorem type1_defaults_ne : ∀ e ∈ defaults, ∀ a ∈ e.attributes, a.type1 ≠ "" := by decide

/-- The settings after the loop answer with the file's pair or else the default exactly when these are covered. -/
theorem argLoop_wanted_iff {pre post : List String} (hopt : IsConfig opt)
    (hone : ∀ arg ∈ pre ++ path :: post, ¬IsConfig arg) (hpath : path ≠ "") (hread : files path = some elements)
    (c : RecorderConfig) :
    (∀ tag attrib, (argLoop files (pre ++ opt :: path :: post) c).getAttribPairFromTag tag attrib =
      wanted elements c tag attrib) ↔ Covered elements path post := by
  have hanswer : ∀ tag attrib, (argLoop files (pre ++ opt :: path :: post) c).getAttribPairFromTag tag attrib =
      ((found elements tag attrib).or
        (if ∃ arg ∈ path :: post, IsDaemon arg then found defaults tag attrib else none)).getD ⟨"", c.notFound⟩ := by
    intro tag attrib
    rw [argLoop_option hopt hone hpath hread, getAttribPairFromTag_append, found_append, found_daemonElements]
  simp only [hanswer, wanted, Covered]
  by_cases hdaemon : ∃ arg ∈ path :: post, IsDaemon arg
  · simp only [hdaemon, if_true, true_or, implies_true]
  · simp only [hdaemon, if_false, false_or, Option.or_none]
    constructor
    · intro h e he a ha
      by_contra hnone
      rw [Option.not_isSome_iff_eq_none] at hnone
      obtain ⟨b, hb⟩ := exists_found_defaults he ha
      obtain ⟨-, -, -, -, hkey⟩ := found_defaults hb
      have heq := h e.name a.type1
      rw [hnone, hb, Option.none_or, Option.getD_none, Option.getD_some] at heq
      rw [← heq] at hkey
      exact type1_defaults_ne e he a ha hkey.symm
    · intro h tag attrib
      cases hfound : found elements tag attrib with
      | some a => rfl
      | none =>
        cases hdefault : found defaults tag attrib with
        | none => rfl
        | some a =>
          obtain ⟨e, he, ha, rfl, rfl⟩ := found_defaults hdefault
          have hsome := h e he a ha
          rw [hfound] at hsome
          cases hsome

end Loop

/-! ### Two argument vectors -/

/-- The name of the program, one `-c` with a path, and one `-d` or more, of which those in `post` stand behind the path. -/
def IsArgv (path : String) (post argv : List String) : Prop :=
  ∃ prog pre opt, argv = prog :: pre ++ opt :: path :: post ∧ ¬IsConfig prog ∧ IsConfig opt ∧
    (∀ arg ∈ pre ++ post, IsDaemon arg) ∧ pre ++ post ≠ []

theorem not_isConfig_of_isDaemon {arg : String} (h : IsDaemon arg) : ¬IsConfig arg := by
  rcases h with rfl | rfl <;> rintro (h | h) <;> exact absurd h (by decide)

theorem setup_wanted_iff {files : Files} {path : String} {elements : List StartElement} {post argv : List String}
    (hpath : path ≠ "") (hone : ¬IsConfig path) (hread : files path = some elements) (h : IsArgv path post argv)
    (c : RecorderConfig) :
    (∀ tag attrib, (setup files argv c).getAttribPairFromTag tag attrib = wanted elements c tag attrib) ↔
      Covered elements path post := by
  obtain ⟨prog, pre, opt, rfl, hprog, hopt, hdaemons, -⟩ := h
  have hlen : ¬(prog :: pre ++ opt :: path :: post).length = 1 := by
    simp only [List.length_append, List.length_cons]
    omega
  rw [setup, if_neg hlen]
  refine argLoop_wanted_iff hopt (fun arg harg => ?_) hpath hread c
  rcases List.mem_append.mp harg with harg | harg
  · rcases List.mem_cons.mp harg with rfl | harg
    · exact hprog
    · exact not_isConfig_of_isDaemon (hdaemons arg (List.mem_append_left post harg))
  · rcases List.mem_cons.mp harg with rfl | harg
    · exact hone
    · exact not_isConfig_of_isDaemon (hdaemons arg (List.mem_append_right pre harg))

/-- For any file that can be read and any two such argument vectors: both give the same answers, the file's or else the
    default, exactly when the defaults are covered for both. -/
theorem setup_agree_iff (files : Files) (c : RecorderConfig) (path : String) (elements : List StartElement)
    (hpath : path ≠ "") (hone : ¬IsConfig path) (hread : files path = some elements) (post post' argv argv' : List String)
    (h : IsArgv path post argv) (h' : IsArgv path post' argv') :
    (∀ tag attrib, (setup files argv c).getAttribPairFromTag tag attrib = wanted elements c tag attrib ∧
        (setup files argv' c).getAttribPairFromTag tag attrib = wanted elements c tag attrib) ↔
      Covered elements path post ∧ Covered elements path post' := by
  rw [← setup_wanted_iff hpath hone hread h c, ← setup_wanted_iff hpath hone hread h' c, ← forall_and]
  exact forall_congr' fun tag => forall_and

theorem setup_agree_iff_oneFile :
    (∀ tag attrib, (setup oneFile ["recd2", "-c", "recorder-config.xml", "-d"] .new).getAttribPairFromTag tag attrib =
          wanted [⟨"Network", [⟨"port", "5000"⟩]⟩] .new tag attrib ∧
        (setup oneFile ["recd2", "-d", "-c", "recorder-config.xml"] .new).getAttribPairFromTag tag attrib =
          wanted [⟨"Network", [⟨"port", "5000"⟩]⟩] .new tag attrib) ↔
      Covered [⟨"Network", [⟨"port", "5000"⟩]⟩] "recorder-config.xml" ["-d"] ∧
        Covered [⟨"Network", [⟨"port", "5000"⟩]⟩] "recorder-config.xml" [] :=
  setup_agree_iff oneFile .new "recorder-config.xml" _ (by decide) (by decide) rfl
    ["-d"] [] _ _
    ⟨"recd2", [], "-c", rfl, by decide, Or.inl rfl, by decide, by decide⟩
    ⟨"recd2", ["-d"], "-c", rfl, by decide, Or.inl rfl, by decide, by decide⟩

/-- The documented order, with a file that leaves out the interval of the hot swap. -/
theorem setup_agree_counterexample :
    ∃ (files : Files) (path : String) (elements : List StartElement) (post argv : List String), files path = some elements ∧
      IsArgv path post argv ∧
      ¬∀ tag attrib, (setup files argv .new).getAttribPairFromTag tag attrib = wanted elements .new tag attrib := by
  refine ⟨oneFile, "recorder-config.xml", _, [], ["recd2", "-d", "-c", "recorder-config.xml"], rfl,
    ⟨"recd2", ["-d"], "-c", rfl, by decide, Or.inl rfl, by decide, by decide⟩,
    fun h => ?_⟩
  have hinterval := h "HotSwap" "interval"
  revert hinterval
  decide

end Recd2.SApplication
