import Recd2.ConfigHash
import Recd2.Theorems.Defaults

/-! What the configuration answers after a load. A load that succeeds leaves nothing of the tags before, and the text of
    the shared not-found pair as it was. A file that cannot be opened is found out when the tags are gone already. -/

namespace Recd2.Content
open RecorderConfig SApplication

/-! ### Documents -/

/-- The first attribute of a name in the order of the document, among the elements of the tag at any depth. -/
def first (tag attrib : String) : Content → Option Attrib
  | nothing => none
  | element name attributes content behind =>
    (if name = tag then attributes.find? (·.type1 == attrib) else none).or
      ((content.first tag attrib).or (behind.first tag attrib))

theorem found_startElements (doc : Content) (tag attrib : String) :
    found doc.startElements tag attrib = doc.first tag attrib := by
  induction doc with
  | nothing => rfl
  | element name attributes content behind ihContent ihBehind =>
    have hhead : found [⟨name, attributes⟩] tag attrib =
        if name = tag then attributes.find? (·.type1 == attrib) else none := by
      rw [found, List.filter_cons, List.filter_nil]
      simp only [beq_iff_eq]
      split_ifs
      · rw [List.flatMap_singleton]
      · rfl
    rw [startElements, ← List.singleton_append, found_append, found_append, hhead, ihContent, ihBehind, first]

/-- Every document leaves some tag out. -/
theorem exists_first_eq_none (doc : Content) : ∃ tag, ∀ attrib, doc.first tag attrib = none := by
  have hlong : ∃ n, ∀ tag : String, n ≤ tag.length → ∀ attrib, doc.first tag attrib = none := by
    induction doc with
    | nothing => exact ⟨0, fun _ _ _ => rfl⟩
    | element name attributes content behind ihContent ihBehind =>
      obtain ⟨n, hn⟩ := ihContent
      obtain ⟨m, hm⟩ := ihBehind
      refine ⟨name.length + 1 + n + m, fun tag htag attrib => ?_⟩
      have hname : name ≠ tag := by
        rintro rfl
        omega
      rw [first, if_neg hname, hn tag (by omega), hm tag (by omega)]
      rfl
  obtain ⟨n, hn⟩ := hlong
  exact ⟨String.ofList (List.replicate n 'a'), hn _ (Nat.le_of_eq (by rw [String.length_ofList, List.length_replicate]))⟩

end Recd2.Content

namespace Recd2.ConfigHash
open RecorderConfig SApplication

/-! ### The hash and the configuration -/

section View
variable (c : ConfigHash)

theorem answer_eq (tag attrib : String) :
    (c.getAttribPairFromTag tag attrib).1 = c.view.getAttribPairFromTag tag attrib := rfl

/-- The empty list that a query puts in is what the next query would have put in. -/
theorem view_getTagPairs (tag : String) : (c.getTagPairs tag).2.view = c.view := by
  have htags : (c.tags.touch tag).value = c.tags.value := funext fun x => Hash.value_touch c.tags tag x
  rw [getTagPairs, view, htags, view]

theorem view_lookups (queries : List (String × String)) : (c.lookups queries).view = c.view := by
  induction queries generalizing c with
  | nil => rfl
  | cons q queries ih => exact (ih _).trans (view_getTagPairs c q.1)

theorem view_append (e : StartElement) : (c.append e).view = c.view.append e := by
  obtain ⟨name, attributes⟩ := e
  induction attributes generalizing c with
  | nil =>
    show c.view = _
    simp only [RecorderConfig.append, List.append_nil, ite_self]
  | cons a attributes ih =>
    have hrest := ih { c with tags := c.tags.modify name (· ++ [a]) }
    have hfirst : ({ c with tags := c.tags.modify name (· ++ [a]) } : ConfigHash).view =
        c.view.append ⟨name, [a]⟩ := by
      simp only [view, RecorderConfig.append, RecorderConfig.mk.injEq, and_true]
      funext tag
      rw [Hash.value_modify]
      split_ifs with htag
      · rw [htag]
      · rfl
    rw [hfirst] at hrest
    refine hrest.trans ?_
    simp only [RecorderConfig.append, RecorderConfig.mk.injEq, and_true]
    funext tag
    split_ifs
    · rw [List.append_assoc, List.singleton_append]
    · rfl

theorem view_foldl_append (es : List StartElement) : (es.foldl append c).view = es.foldl RecorderConfig.append c.view := by
  induction es generalizing c with
  | nil => rfl
  | cons e es ih => rw [List.foldl_cons, ih, view_append, List.foldl_cons]

theorem view_fastLoadFile (files : Files) (fname : String) :
    ((c.fastLoadFile files fname).1.view, (c.fastLoadFile files fname).2) = c.view.fastLoadFile files fname := by
  rw [fastLoadFile, RecorderConfig.fastLoadFile]
  split_ifs
  · rfl
  · cases files fname with
    | none => rfl
    | some elements => exact congrArg (·, true) (view_foldl_append c.clear elements)

theorem view_loadDefaults : c.loadDefaults.view = c.view.loadDefaults := view_foldl_append c defaults

/-- The elements of other names are left out. -/
theorem view_loadFile {files : Files} {fname : String} {elements : List StartElement} (hread : files fname = some elements) :
    (c.loadFile files fname).1.view = (elements.filter (·.name ∈ safeTags)).foldl RecorderConfig.append c.view := by
  rw [loadFile, hread, ← view_foldl_append, List.foldl_filter]
  simp only [decide_eq_true_eq]

end View

/-! ### A load that succeeds -/

section Loaded
variable {files : Files} {fname : String} {doc : Content}

theorem answer_fastLoadFile (c : ConfigHash) (hname : fname ≠ "") (hread : files fname = some doc.startElements)
    (tag attrib : String) :
    (c.fastLoadFile files fname).1.view.getAttribPairFromTag tag attrib =
      (doc.first tag attrib).getD ⟨"", c.notFound⟩ := by
  have hview : (c.fastLoadFile files fname).1.view = doc.startElements.foldl RecorderConfig.append c.view.clear := by
    rw [fastLoadFile, if_neg hname, hread]
    exact view_foldl_append c.clear _
  rw [hview, getAttribPairFromTag_append, Content.found_startElements]
  rfl

/-- After a load, and any queries behind it, the first attribute of the document answers. What is not found is answered
    with two empty texts exactly when the text of the shared pair was empty before. -/
theorem queries_after_load_iff (c : ConfigHash) (hname : fname ≠ "") (hread : files fname = some doc.startElements) :
    (∀ queries tag attrib, (((c.fastLoadFile files fname).1.lookups queries).getAttribPairFromTag tag attrib).1 =
        (doc.first tag attrib).getD ⟨"", c.notFound⟩) ∧
      ((∀ queries tag attrib, (((c.fastLoadFile files fname).1.lookups queries).getAttribPairFromTag tag attrib).1 =
        (doc.first tag attrib).getD ⟨"", ""⟩) ↔ c.notFound = "") := by
  have hanswer : ∀ queries tag attrib,
      (((c.fastLoadFile files fname).1.lookups queries).getAttribPairFromTag tag attrib).1 =
        (doc.first tag attrib).getD ⟨"", c.notFound⟩ := fun queries tag attrib => by
    rw [answer_eq, view_lookups, answer_fastLoadFile c hname hread]
  refine ⟨hanswer, fun h => ?_, fun h queries tag attrib => ?_⟩
  · obtain ⟨tag, htag⟩ := doc.exists_first_eq_none
    have hnone := h [] tag ""
    rw [hanswer, htag, Option.getD_none, Option.getD_none, MPair.mk.injEq] at hnone
    exact hnone.2
  · rw [hanswer, h]

end Loaded

/-- A file with a network element inside the root. -/
def networkDoc : Content :=
  .element "Config" [⟨"version", "1.0"⟩] (.element "Network" [⟨"transport", "udp"⟩] .nothing .nothing) .nothing

/-- A disk with that document only. -/
def networkFile : Files := fun fname => if fname = "recorder-config.xml" then some networkDoc.startElements else none

/-- A configuration with one pair. -/
def portOnly : ConfigHash := ⟨Hash.empty.modify "Network" fun _ => [⟨"port", "5000"⟩], ""⟩

theorem queries_after_load_iff_network :
    (∀ queries tag attrib,
        (((portOnly.fastLoadFile networkFile "recorder-config.xml").1.lookups queries).getAttribPairFromTag tag attrib).1 =
          (networkDoc.first tag attrib).getD ⟨"", portOnly.notFound⟩) ∧
      ((∀ queries tag attrib,
        (((portOnly.fastLoadFile networkFile "recorder-config.xml").1.lookups queries).getAttribPairFromTag tag attrib).1 =
          (networkDoc.first tag attrib).getD ⟨"", ""⟩) ↔ portOnly.notFound = "") :=
  queries_after_load_iff portOnly (by decide) rfl

/-- The text that a server left in the not-found pair answers for what the next file leaves out. -/
theorem queries_after_load_counterexample :
    ¬∀ (files : Files) (fname : String) (doc : Content) (c : ConfigHash), fname ≠ "" → files fname = some doc.startElements →
      ∀ tag attrib, ((c.fastLoadFile files fname).1.getAttribPairFromTag tag attrib).1 =
        (doc.first tag attrib).getD ⟨"", ""⟩ := by
  intro h
  have hspoiled := h networkFile "recorder-config.xml" networkDoc ⟨.empty, "1234"⟩ (by decide) rfl "Paths" "records"
  revert hspoiled
  decide

/-! ### A load that fails -/

/-- A load that fails keeps every answer when it has no name to open, or when there was no pair to lose. -/
theorem failed_load_keeps_iff (files : Files) (c : ConfigHash) (fname : String)
    (hfail : (c.fastLoadFile files fname).2 = false) :
    ((∀ tag, ((c.fastLoadFile files fname).1.getTagPairs tag).1 = (c.getTagPairs tag).1) ∧
        ∀ tag attrib, ((c.fastLoadFile files fname).1.getAttribPairFromTag tag attrib).1 =
          (c.getAttribPairFromTag tag attrib).1) ↔
      fname = "" ∨ ∀ tag, c.view.tags tag = [] := by
  by_cases hname : fname = ""
  · rw [fastLoadFile, if_pos hname]
    exact iff_of_true ⟨fun _ => rfl, fun _ _ => rfl⟩ (Or.inl hname)
  · have hclear : (c.fastLoadFile files fname).1 = c.clear := by
      rw [fastLoadFile, if_neg hname] at hfail ⊢
      cases hread : files fname with
      | none => rfl
      | some elements =>
        rw [hread] at hfail
        cases hfail
    rw [hclear, or_iff_right hname]
    constructor
    · rintro ⟨htags, -⟩ tag
      exact (htags tag).symm
    · intro hempty
      have hview : c.clear.view = c.view := by
        show RecorderConfig.mk (fun _ => []) c.notFound = ⟨c.view.tags, c.notFound⟩
        rw [funext hempty]
      refine ⟨fun tag => (hempty tag).symm, fun tag attrib => ?_⟩
      rw [answer_eq, answer_eq, hview]

theorem failed_load_keeps_iff_missing :
    ((∀ tag, ((portOnly.fastLoadFile networkFile "missing.xml").1.getTagPairs tag).1 = (portOnly.getTagPairs tag).1) ∧
        ∀ tag attrib, ((portOnly.fastLoadFile networkFile "missing.xml").1.getAttribPairFromTag tag attrib).1 =
          (portOnly.getAttribPairFromTag tag attrib).1) ↔
      "missing.xml" = "" ∨ ∀ tag, portOnly.view.tags tag = [] :=
  failed_load_keeps_iff networkFile portOnly "missing.xml" rfl

theorem failed_load_counterexample :
    ¬∀ (files : Files) (c : ConfigHash) (fname : String), (c.fastLoadFile files fname).2 = false →
      ∀ tag, ((c.fastLoadFile files fname).1.getTagPairs tag).1 = (c.getTagPairs tag).1 := by
  intro h
  have hport := h networkFile portOnly "missing.xml" rfl "Network"
  revert hport
  decide

/-! ### The two loaders -/

/-- The tags that the program asks for. -/
def queriedTags : List String := safeTags ++ ["Paths", "Peek", "Plugin", "QAudioCapture"]

/-- What must hold of the configuration before for the loaders to agree: under the tags that `loadFile` appends to, the
    document repeats each first pair that was there before, and under the others it answers as before. -/
structure Agrees (c : ConfigHash) (doc : Content) : Prop where
  safe : ∀ tag ∈ safeTags, ∀ attrib a, (c.view.tags tag).find? (·.type1 == attrib) = some a →
    (doc.first tag attrib).getD ⟨"", c.notFound⟩ = a
  rest : ∀ tag ∈ ["Paths", "Peek", "Plugin", "QAudioCapture"], ∀ attrib,
    (doc.first tag attrib).getD ⟨"", c.notFound⟩ = c.view.getAttribPairFromTag tag attrib

section Loaders
variable {files : Files} {fname : String} {doc : Content} (c : ConfigHash)

theorem tags_loadFile (hread : files fname = some doc.startElements) (tag : String) :
    (c.loadFile files fname).1.view.tags tag =
      c.view.tags tag ++ if tag ∈ safeTags then (doc.startElements.filter (·.name == tag)).flatMap StartElement.attributes
        else [] := by
  rw [view_loadFile c hread, tags_foldl_append, List.filter_filter]
  split_ifs with htag
  · congr 2
    refine List.filter_congr fun e _ => ?_
    by_cases he : e.name = tag
    · simp [he, htag]
    · simp [he]
  · congr 1
    rw [List.flatMap_eq_nil_iff]
    intro e he
    obtain ⟨-, hname⟩ := List.mem_filter.mp he
    rw [Bool.and_eq_true, beq_iff_eq, decide_eq_true_eq] at hname
    exact absurd (hname.1 ▸ hname.2) htag

theorem answer_loadFile_safe (hread : files fname = some doc.startElements) {tag : String} (htag : tag ∈ safeTags)
    (attrib : String) :
    (c.loadFile files fname).1.view.getAttribPairFromTag tag attrib =
      (((c.view.tags tag).find? (·.type1 == attrib)).or (doc.first tag attrib)).getD ⟨"", c.notFound⟩ := by
  rw [RecorderConfig.getAttribPairFromTag, RecorderConfig.getTagPairs, tags_loadFile c hread, if_pos htag,
    List.find?_append, ← found, Content.found_startElements, view_loadFile c hread, notFound_foldl_append]
  rfl

theorem answer_loadFile_rest (hread : files fname = some doc.startElements) {tag : String} (htag : tag ∉ safeTags)
    (attrib : String) :
    (c.loadFile files fname).1.view.getAttribPairFromTag tag attrib = c.view.getAttribPairFromTag tag attrib := by
  rw [RecorderConfig.getAttribPairFromTag, RecorderConfig.getTagPairs, tags_loadFile c hread, if_neg htag,
    List.append_nil, view_loadFile c hread, notFound_foldl_append]
  rfl

end Loaders

/-- Both loaders answer every query that the program makes alike exactly when the configuration before agrees with the
    document. -/
theorem loaders_agree_iff (files : Files) (c : ConfigHash) (fname : String) (doc : Content) (hname : fname ≠ "")
    (hread : files fname = some doc.startElements) :
    (∀ tag ∈ queriedTags, ∀ attrib, ((c.fastLoadFile files fname).1.getAttribPairFromTag tag attrib).1 =
        ((c.loadFile files fname).1.getAttribPairFromTag tag attrib).1) ↔ Agrees c doc := by
  have hsafe : ∀ tag ∈ safeTags, ∀ attrib,
      (((c.fastLoadFile files fname).1.getAttribPairFromTag tag attrib).1 =
          ((c.loadFile files fname).1.getAttribPairFromTag tag attrib).1 ↔
        ∀ a, (c.view.tags tag).find? (·.type1 == attrib) = some a →
          (doc.first tag attrib).getD ⟨"", c.notFound⟩ = a) := fun tag htag attrib => by
    rw [answer_eq, answer_eq, answer_fastLoadFile c hname hread, answer_loadFile_safe c hread htag]
    cases (c.view.tags tag).find? (·.type1 == attrib) with
    | none => simp
    | some a => simp
  have hrest : ∀ tag ∈ ["Paths", "Peek", "Plugin", "QAudioCapture"], ∀ attrib,
      (((c.fastLoadFile files fname).1.getAttribPairFromTag tag attrib).1 =
          ((c.loadFile files fname).1.getAttribPairFromTag tag attrib).1 ↔
        (doc.first tag attrib).getD ⟨"", c.notFound⟩ = c.view.getAttribPairFromTag tag attrib) := fun tag htag attrib => by
    have hne : tag ∉ safeTags := by
      revert tag
      decide
    rw [answer_eq, answer_eq, answer_fastLoadFile c hname hread, answer_loadFile_rest c hread hne]
  constructor
  · intro h
    exact ⟨fun tag htag attrib => (hsafe tag htag attrib).mp (h tag (List.mem_append_left _ htag) attrib),
      fun tag htag attrib => (hrest tag htag attrib).mp (h tag (List.mem_append_right _ htag) attrib)⟩
  · rintro ⟨h, h'⟩ tag htag attrib
    rcases List.mem_append.mp htag with htag | htag
    · exact (hsafe tag htag attrib).mpr (h tag htag attrib)
    · exact (hrest tag htag attrib).mpr (h' tag htag attrib)

theorem loaders_agree_iff_network :
    (∀ tag ∈ queriedTags, ∀ attrib,
        ((portOnly.fastLoadFile networkFile "recorder-config.xml").1.getAttribPairFromTag tag attrib).1 =
          ((portOnly.loadFile networkFile "recorder-config.xml").1.getAttribPairFromTag tag attrib).1) ↔
      Agrees portOnly networkDoc :=
  loaders_agree_iff networkFile portOnly "recorder-config.xml" networkDoc (by decide) rfl

/-- A file with a directory for the records, read by both loaders into an empty configuration. -/
theorem loaders_counterexample :
    ¬∀ (files : Files) (c : ConfigHash) (fname : String) (doc : Content), fname ≠ "" →
      files fname = some doc.startElements → ∀ tag ∈ queriedTags, ∀ attrib,
        ((c.fastLoadFile files fname).1.getAttribPairFromTag tag attrib).1 =
          ((c.loadFile files fname).1.getAttribPairFromTag tag attrib).1 := by
  intro h
  have hpaths := h (fun _ => some [⟨"Paths", [⟨"records", "records"⟩]⟩]) ⟨.empty, ""⟩ "recorder-config.xml"
    (.element "Paths" [⟨"records", "records"⟩] .nothing .nothing) (by decide) rfl "Paths" (by decide) "records"
  revert hpaths
  decide

end Recd2.ConfigHash
