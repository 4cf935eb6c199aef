import Mathlib.Tactic.Common
import Recd2.CommandLine
import Recd2.Lib.Run

/-! Which file answers after the options are read. The loop of the server stops at the option and loads its
    argument; the loop of the recorder loads every argument that does not stand behind `--config`, and the last
    of them answers. -/

namespace Recd2
open RecorderConfig

/-- The settings when the last load was that of the file. -/
def RecorderConfig.loaded (files : Files) (c : RecorderConfig) (fname : String) : RecorderConfig :=
  ((files fname).getD []).foldl append c.clear

section Load
variable (files : Files) (c : RecorderConfig) (fname : String)

theorem notFound_foldl_append (es : List StartElement) : (es.foldl append c).notFound = c.notFound := by
  induction es generalizing c with
  | nil => rfl
  | cons e es ih => rw [List.foldl_cons, ih, append]

theorem clear_loaded : (c.loaded files fname).clear = c.clear := by
  rw [clear, loaded, notFound_foldl_append]
  rfl

/-- A load leaves nothing of the settings before. -/
theorem loaded_loaded (fname' : String) : (c.loaded files fname).loaded files fname' = c.loaded files fname' := by
  rw [loaded, clear_loaded, ← loaded]

theorem fastLoadFile_of_ne (h : fname ≠ "") : (c.fastLoadFile files fname).1 = c.loaded files fname := by
  rw [fastLoadFile, if_neg h, loaded]
  cases files fname <;> rfl

theorem tags_foldl_append (es : List StartElement) (tag : String) :
    (es.foldl append c).tags tag = c.tags tag ++ (es.filter (·.name == tag)).flatMap StartElement.attributes := by
  induction es generalizing c with
  | nil => exact (List.append_nil _).symm
  | cons e es ih =>
    rw [List.foldl_cons, ih, append, List.filter_cons]
    by_cases htag : tag = e.name
    · simp [htag]
    · simp [htag, Ne.symm htag]

/-- The answer that a file holds for a query: the first attribute of the name, in the elements of the tag. -/
def RecorderConfig.Files.answer (notFound tag attrib : String) : Attrib :=
  (((((files fname).getD []).filter (·.name == tag)).flatMap StartElement.attributes).find? (·.type1 == attrib)).getD
    ⟨"", notFound⟩

theorem getAttribPairFromTag_loaded (tag attrib : String) :
    (c.loaded files fname).getAttribPairFromTag tag attrib = files.answer fname c.notFound tag attrib := by
  rw [getAttribPairFromTag, getTagPairs, loaded, tags_foldl_append, notFound_foldl_append]
  rfl

end Load

/-! ### The loop of the server -/

section ServerLoop
variable (files : Files) (c : RecorderConfig) {opt path : String} (hopt : opt = "-c" ∨ opt = "--config") (hpath : path ≠ "")
include hopt hpath

theorem mainLoop_option (pre post : List String) (hpre : ∀ arg ∈ pre, arg ≠ "-c" ∧ arg ≠ "--config") :
    Server.mainLoop files (pre ++ opt :: path :: post) c = c.loaded files path := by
  induction pre with
  | nil =>
    rw [List.nil_append, Server.mainLoop, if_pos ⟨hopt, List.cons_ne_nil _ _⟩]
    exact fastLoadFile_of_ne files c path hpath
  | cons arg pre ih =>
    have harg := hpre arg List.mem_cons_self
    rw [List.cons_append, Server.mainLoop, if_neg fun h => h.1.elim harg.1 harg.2]
    exact ih fun a ha => hpre a (List.mem_cons_of_mem arg ha)

theorem pMain_option (pre post : List String) (hpre : ∀ arg ∈ pre, arg ≠ "-c" ∧ arg ≠ "--config") :
    Server.pMain files (pre ++ opt :: path :: post) c = (c.loaded files path, 0) := by
  have hargc : ¬(pre ++ opt :: path :: post).length < 2 := by
    simp only [List.length_append, List.length_cons]
    omega
  rw [Server.pMain, if_neg hargc, mainLoop_option files c hopt hpath pre post hpre]

end ServerLoop

/-! ### The loop of the recorder -/

/-- The arguments that the loop of the recorder loads: those behind another argument than `--config`, without the
    empty ones. -/
def loads : List String → List String
  | arg :: fname :: rest => (if arg ≠ "--config" ∧ fname ≠ "" then [fname] else []) ++ loads (fname :: rest)
  | _ => []

theorem proxyLoop_eq_foldl (files : Files) :
    ∀ (argv : List String) (c : RecorderConfig),
      Recorder.proxyLoop files argv c = (loads argv).foldl (RecorderConfig.loaded files) c
  | [], c => rfl
  | [arg], c => by
    rw [Recorder.proxyLoop, Recorder.proxyLoop]
    exact ite_self _
  | arg :: fname :: rest, c => by
    rw [Recorder.proxyLoop, proxyLoop_eq_foldl files (fname :: rest), loads, List.foldl_append]
    congr 1
    by_cases harg : arg = "--config"
    · simp [harg]
    · by_cases hname : fname = ""
      · simp [loadNext, fastLoadFile, hname]
      · simp [loadNext, harg, hname, fastLoadFile_of_ne files c fname hname]

theorem mainProxy_eq (files : Files) (argv : List String) (c : RecorderConfig) (h : 2 ≤ argv.length) :
    Recorder.mainProxy files argv c = (((loads argv).getLast?.map (c.loaded files)).getD c, 0) := by
  rw [Recorder.mainProxy, if_neg (Nat.not_lt.mpr h), proxyLoop_eq_foldl,
    Run.foldl_forgets (fun c f f' => loaded_loaded files c f f')]

section Loads
variable {arg : String} {args : List String}

theorem loads_cons (harg : arg ≠ "--config") (hargs : ∀ a ∈ args, a ≠ "--config") :
    loads (arg :: args) = args.filter (· ≠ "") := by
  induction args generalizing arg with
  | nil => rfl
  | cons a args ih =>
    rw [loads, ih (hargs a List.mem_cons_self) fun b hb => hargs b (List.mem_cons_of_mem a hb), List.filter_cons]
    by_cases ha : a = ""
    · simp [ha]
    · simp [ha, harg]

theorem loads_cons_append (harg : arg ≠ "--config") (hargs : ∀ a ∈ args, a ≠ "--config") {opt : String} (hopt : opt ≠ "")
    (rest : List String) :
    loads (arg :: (args ++ opt :: rest)) = args.filter (· ≠ "") ++ opt :: loads (opt :: rest) := by
  induction args generalizing arg with
  | nil => simp [loads, harg, hopt]
  | cons a args ih =>
    rw [List.cons_append, loads, ih (hargs a List.mem_cons_self) fun b hb => hargs b (List.mem_cons_of_mem a hb),
      List.filter_cons]
    by_cases ha : a = ""
    · simp [ha]
    · simp [ha, harg]

end Loads

/-! ### One option -/

/-- The argument that is loaded last, where the option with its path stands between `pre` and `post`. -/
def lastLoaded (pre : List String) (opt path : String) (post : List String) : Option String :=
  match (post.filter (· ≠ "")).getLast? with
  | some fname => some fname
  | none => if opt = "-c" then some path else if pre = [] then none else some "--config"

section OneOption
variable {pre post : List String} {opt path : String} (hopt : opt = "-c" ∨ opt = "--config")
  (hone : ∀ arg ∈ pre ++ path :: post, arg ≠ "-c" ∧ arg ≠ "--config") (hpath : path ≠ "")
include hopt hone hpath

theorem loads_option :
    loads (opt :: path :: post) = (if opt = "-c" then [path] else []) ++ post.filter (· ≠ "") := by
  have hpost : loads (path :: post) = post.filter (· ≠ "") :=
    loads_cons (hone path (by simp)).2 fun a ha => (hone a (by simp [ha])).2
  rw [loads, hpost]
  rcases hopt with rfl | rfl
  · simp [hpath]
  · simp

theorem getLast?_loads : (loads (pre ++ opt :: path :: post)).getLast? = lastLoaded pre opt path post := by
  have hne : opt ≠ "" := by
    rcases hopt with rfl | rfl <;> decide
  cases pre with
  | nil =>
    rw [List.nil_append, loads_option hopt hone hpath, List.getLast?_append, lastLoaded]
    cases (post.filter (· ≠ "")).getLast? with
    | some fname => rfl
    | none => by_cases hc : opt = "-c" <;> simp [hc]
  | cons arg pre =>
    have hpre : ∀ a ∈ pre, a ≠ "--config" := fun a ha => (hone a (by simp [ha])).2
    have hrest : ∀ a ∈ path :: post, a ≠ "-c" ∧ a ≠ "--config" := fun a ha => hone a (List.mem_append_right _ ha)
    rw [List.cons_append, loads_cons_append (hone arg (by simp)).2 hpre hne,
      @loads_option [] post opt path hopt hrest hpath, List.getLast?_append, List.getLast?_cons, List.getLast?_append,
      lastLoaded]
    cases (post.filter (· ≠ "")).getLast? with
    | some fname => rfl
    | none => rcases hopt with rfl | rfl <;> simp

/-- The settings that answer after the loop of the recorder. -/
theorem mainProxy_option (files : Files) (c : RecorderConfig) :
    Recorder.mainProxy files (pre ++ opt :: path :: post) c =
      (((lastLoaded pre opt path post).map (c.loaded files)).getD c, 0) := by
  have hargc : 2 ≤ (pre ++ opt :: path :: post).length := by
    simp only [List.length_append, List.length_cons]
    omega
  rw [mainProxy_eq files _ c hargc, getLast?_loads hopt hone hpath]

end OneOption

/-- The answer to a query after the loop of the recorder. -/
def lastAnswer (files : Files) (c : RecorderConfig) (tag attrib : String) : Option String → Attrib
  | some fname => files.answer fname c.notFound tag attrib
  | none => c.getAttribPairFromTag tag attrib

/-- The server answers from the file behind the option; the recorder does exactly when what it loads last, or else
    its settings before, gives the same answers. -/
theorem mainProxy_answers_iff (files : Files) (c : RecorderConfig) (pre post : List String) (opt path : String)
    (hopt : opt = "-c" ∨ opt = "--config") (hone : ∀ arg ∈ pre ++ path :: post, arg ≠ "-c" ∧ arg ≠ "--config")
    (hpath : path ≠ "") (_hread : (files path).isSome) :
    (∀ tag attrib, (Server.pMain files (pre ++ opt :: path :: post) c).1.getAttribPairFromTag tag attrib =
        files.answer path c.notFound tag attrib) ∧
      ((∀ tag attrib, (Recorder.mainProxy files (pre ++ opt :: path :: post) c).1.getAttribPairFromTag tag attrib =
          files.answer path c.notFound tag attrib) ↔
        ∀ tag attrib, lastAnswer files c tag attrib (lastLoaded pre opt path post) =
          files.answer path c.notFound tag attrib) := by
  have hpre : ∀ arg ∈ pre, arg ≠ "-c" ∧ arg ≠ "--config" := fun arg harg => hone arg (List.mem_append_left _ harg)
  rw [pMain_option files c hopt hpath pre post hpre, mainProxy_option hopt hone hpath]
  refine ⟨getAttribPairFromTag_loaded files c path, ?_⟩
  cases lastLoaded pre opt path post with
  | some fname => simp only [Option.map_some, Option.getD_some, getAttribPairFromTag_loaded, lastAnswer]
  | none => exact Iff.rfl

/-- The documented order, with nothing behind the path, works. -/
theorem mainProxy_documented (files : Files) (c : RecorderConfig) (pre : List String) (path : String)
    (hone : ∀ arg ∈ pre ++ [path], arg ≠ "-c" ∧ arg ≠ "--config") (hpath : path ≠ "") :
    (Recorder.mainProxy files (pre ++ ["-c", path]) c).1 = (Server.pMain files (pre ++ ["-c", path]) c).1 := by
  have hpre : ∀ arg ∈ pre, arg ≠ "-c" ∧ arg ≠ "--config" := fun arg harg => hone arg (List.mem_append_left _ harg)
  rw [mainProxy_option (Or.inl rfl) hone hpath, pMain_option files c (Or.inl rfl) hpath pre [] hpre]
  rfl

/-- One configuration file. -/
def oneFile : Files := fun fname =>
  if fname = "recorder-config.xml" then some [⟨"Network", [⟨"port", "5000"⟩]⟩] else none

theorem mainProxy_answers_iff_oneFile :
    (∀ tag attrib, (Server.pMain oneFile ["recd2", "-d", "-c", "recorder-config.xml"] .new).1.getAttribPairFromTag tag
        attrib = oneFile.answer "recorder-config.xml" "" tag attrib) ∧
      ((∀ tag attrib, (Recorder.mainProxy oneFile ["recd2", "-d", "-c", "recorder-config.xml"] .new).1.getAttribPairFromTag
          tag attrib = oneFile.answer "recorder-config.xml" "" tag attrib) ↔
        ∀ tag attrib, lastAnswer oneFile .new tag attrib (lastLoaded ["recd2", "-d"] "-c" "recorder-config.xml" []) =
          oneFile.answer "recorder-config.xml" "" tag attrib) :=
  mainProxy_answers_iff oneFile .new ["recd2", "-d"] [] "-c" "recorder-config.xml" (Or.inl rfl) (by decide) (by decide) rfl

theorem mainProxy_counterexample :
    ¬∀ (files : Files) (c : RecorderConfig) (pre post : List String) (opt path : String),
      (opt = "-c" ∨ opt = "--config") → (∀ arg ∈ pre ++ path :: post, arg ≠ "-c" ∧ arg ≠ "--config") → path ≠ "" →
      (files path).isSome →
      ∀ tag attrib, (Recorder.mainProxy files (pre ++ opt :: path :: post) c).1.getAttribPairFromTag tag attrib =
        files.answer path c.notFound tag attrib := by
  intro h
  have hport := h oneFile .new ["recd2"] [] "--config" "recorder-config.xml" (Or.inr rfl) (by decide) (by decide) rfl
    "Network" "port"
  revert hport
  decide

end Recd2
