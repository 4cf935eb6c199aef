import Recd2.Lib.Decimal
import Recd2.Theorems.Moves
import Recd2.Theorems.Finalised

/-! The names of the files. Every `Wav` that the recorder makes gets a name with its own `s_UID`, and while the counter
    has not come round, the names that fit into the buffer of `Wav` are different. -/

namespace Recd2.Recorder

/-! ### The name as a text -/

/-- A text like `12:00:00`. -/
def IsTimeString (t : String) : Prop :=
  ∃ h₁ h₂ m₁ m₂ s₁ s₂ : Char, t.toList = [h₁, h₂, ':', m₁, m₂, ':', s₁, s₂]

theorem IsTimeString.length {t : String} (h : IsTimeString t) : t.toList.length = 8 := by
  obtain ⟨h₁, h₂, m₁, m₂, s₁, s₂, ht⟩ := h
  rw [ht]
  rfl

/-- The folder in front of a name, with its slash. -/
def folderText : Option String → List Char
  | some d => d.toList ++ "/".toList
  | none => []

/-- The name before it is cut to the buffer of `snprintf`. -/
def nameText (directory : Option String) (slot : Nat) (uid : UInt32) (t : String) : List Char :=
  folderText directory ++ (toString slot).toList ++ '-' :: (toString uid.toInt32.toInt).toList ++
    '-' :: (t.toList ++ ".wav".toList)

theorem toList_fileName (directory : Option String) (slot : Nat) (uid : UInt32) (t : String) :
    (fileName directory slot uid t).toList = (nameText directory slot uid t).take 255 := by
  have hdash : "-".toList = ['-'] := rfl
  cases directory with
  | none => simp only [fileName, nameText, folderText, String.toList_ofList, String.toList_append, hdash,
      String.toList_empty, List.append_assoc, List.cons_append, List.nil_append]
  | some d => simp only [fileName, nameText, folderText, String.toList_ofList, String.toList_append, hdash,
      List.append_assoc, List.cons_append, List.nil_append]

/-- A name that is not cut off: behind the slot, which ends in a digit, come `s_UID` and the time. -/
theorem exists_toList_fileName {directory : Option String} {slot : Nat} {uid : UInt32} {t : String}
    (h : (fileName directory slot uid t).length ≤ 63) :
    ∃ (xs : List Char) (c : Char), c ≠ '-' ∧ (fileName directory slot uid t).toList =
      (xs ++ [c] ++ '-' :: (toString uid.toInt32.toInt).toList) ++ '-' :: (t.toList ++ ".wav".toList) := by
  have hwhole : (fileName directory slot uid t).toList = nameText directory slot uid t := by
    rw [← String.length_toList, toList_fileName, List.length_take] at h
    rw [toList_fileName, List.take_of_length_le (by omega)]
  obtain ⟨ds, c, hdigits⟩ := (List.eq_nil_or_concat (Nat.toDigits 10 slot)).resolve_left Nat.toDigits_ne_nil
  rw [List.concat_eq_append] at hdigits
  have hslot : (toString slot).toList = ds ++ [c] := by rw [Nat.toString_eq_repr, Nat.toList_repr, hdigits]
  refine ⟨folderText directory ++ ds, c, ?_, ?_⟩
  · rintro rfl
    have hdash : '-' ∈ Nat.toDigits 10 slot := by
      rw [hdigits]
      exact List.mem_append_right ds (List.mem_singleton_self _)
    exact absurd (Decimal.isDigit_of_mem_toDigits hdash) (by decide)
  · rw [hwhole, nameText, hslot, List.append_assoc _ ds [c]]

/-- Two names that are not cut off and have the same length of the time show the same `s_UID`. -/
theorem uid_eq_of_fileName {dir dir' : Option String} {slot slot' : Nat} {uid uid' : UInt32} {t t' : String}
    (ht : IsTimeString t) (ht' : IsTimeString t') (h : (fileName dir slot uid t).length ≤ 63)
    (heq : fileName dir slot uid t = fileName dir' slot' uid' t') : uid = uid' := by
  obtain ⟨xs, c, hc, htext⟩ := exists_toList_fileName h
  obtain ⟨ys, d, hd, htext'⟩ := exists_toList_fileName (heq ▸ h)
  have htail : ('-' :: (t.toList ++ ".wav".toList)).length = ('-' :: (t'.toList ++ ".wav".toList)).length := by
    rw [List.length_cons, List.length_cons, List.length_append, List.length_append, ht.length, ht'.length]
  rw [heq, htext'] at htext
  have hnumber := Decimal.int_eq_of_append hd hc (List.append_inj_left' htext htail.symm)
  have huid := congrArg Int32.toUInt32 (Int32.toInt_inj.mp hnumber)
  rw [UInt32.toUInt32_toInt32, UInt32.toUInt32_toInt32] at huid
  exact huid.symm

/-! ### The names of a run -/

/-- The name of the `Wav` that a step on one slot makes, if it makes one. -/
def newNames (slot : Nat) (r r' : Recorder) : List String :=
  if r'.names = r.names then [] else ((r'.wav? slot).map (·.filename)).toList

/-- A step on one slot with the names that it gives. -/
def withNames (body : Recorder → Nat → Recorder) (r : Recorder) (slot : Nat) : Recorder × List String :=
  (body r slot, newNames slot r (body r slot))

/-- What makes `Wav`s, and what `record` and `deinit` do in between. `recordBlock` is a round of the loop of `record`;
    a round that follows a null pointer is left out of the run. -/
inductive Call where
  | init (cfg : RecorderConfig)
  | reopenWavFile (slot : Nat)
  | hotSwapFiles
  | pollHotSwap
  | recordBlock (slot : Nat) (s : SampleData)
  | deinit

/-- One call, with the names of the `Wav`s that it makes. -/
def call (env : Env) (r : Recorder) : Call → Recorder × List String
  | .init cfg =>
    let n := initMaxChans (cfg.getAttribPairFromTag "Record" "files")
    let round := withNames (initWav env (cfg.getAttribPairFromTag "Paths" "records"))
    (init env cfg r, Run.emits round { r with maxChans := n } (List.range n))
  | .reopenWavFile slot => withNames (fun r i => reopenWavFile env i r) r slot
  | .hotSwapFiles => (hotSwapFiles env r, Run.emits (withNames (hotSwapSlot env)) r (List.range r.maxChans))
  | .pollHotSwap => (pollHotSwap env r, Run.emits (withNames (pollSlot env)) r (List.range r.maxChans))
  | .recordBlock slot s => withNames (fun r i => (recordBlock env i s r).getD r) r slot
  | .deinit => (deinit r, [])

/-- The names given to `Wav`s in a run from the start of the program. -/
def given (env : Env) (calls : List Call) : List String := Run.emits (call env) new calls

/-- A part of a run gives names by the counters, and the files that it makes have some of them. -/
structure Naming (env : Env) (r : Recorder) (given : List String) (r' : Recorder) : Prop where
  names : r'.names = r.names + given.length
  uid : r'.uid = r.uid + UInt32.ofNat given.length
  each : ∀ k name, given[k]? = some name → ∃ directory slot,
    name = fileName directory slot (r.uid + UInt32.ofNat (k + 1)) (env.timeString (r.names + k))
  files : ∃ made, r'.disk.map (·.name) = r.disk.map (·.name) ++ made ∧ made.Sublist given

section Naming
variable {env : Env} {r r' r'' : Recorder} {given given' : List String} {i : Nat} {w : Wav}

/-- Steps that make no `Wav` and open no file. -/
theorem Naming.of_eq (hnames : r'.names = r.names) (huid : r'.uid = r.uid)
    (hdisk : r'.disk.map (·.name) = r.disk.map (·.name)) : Naming env r [] r' where
  names := hnames
  uid := huid.trans (UInt32.add_zero r.uid).symm
  each k name h := by cases h
  files := ⟨[], by rw [hdisk, List.append_nil], List.Sublist.refl []⟩

/-- A step that makes one `Wav`. -/
theorem Naming.one {directory : Option String} (hnames : r'.names = r.names + 1) (huid : r'.uid = r.uid + 1)
    (hfiles : ∃ made, r'.disk.map (·.name) = r.disk.map (·.name) ++ made ∧ made.Sublist [nextName env directory i r]) :
    Naming env r [nextName env directory i r] r' where
  names := hnames
  uid := huid
  each k name h := by
    cases k with
    | zero => exact ⟨directory, i, (Option.some.inj h).symm⟩
    | succ k => cases h
  files := hfiles

theorem Naming.trans (h : Naming env r given r') (h' : Naming env r' given' r'') :
    Naming env r (given ++ given') r'' where
  names := by rw [h'.names, h.names, List.length_append, Nat.add_assoc]
  uid := by rw [h'.uid, h.uid, List.length_append, UInt32.ofNat_add, UInt32.add_assoc]
  each k name hk := by
    by_cases hlt : k < given.length
    · rw [List.getElem?_append_left hlt] at hk
      exact h.each k name hk
    · rw [List.getElem?_append_right (Nat.not_lt.mp hlt)] at hk
      obtain ⟨directory, slot, hname⟩ := h'.each _ name hk
      have hk' : given.length + (k - given.length) = k := by omega
      rw [h.uid, h.names, UInt32.add_assoc, ← UInt32.ofNat_add, Nat.add_assoc, ← Nat.add_assoc _ _ 1, hk'] at hname
      exact ⟨directory, slot, hname⟩
  files := by
    obtain ⟨made, hdisk, hsub⟩ := h.files
    obtain ⟨made', hdisk', hsub'⟩ := h'.files
    exact ⟨made ++ made', by rw [hdisk', hdisk, List.append_assoc], hsub.append hsub'⟩

theorem Naming.emits {ε : Type} (step : Recorder → ε → Recorder × List String) :
    ∀ (es : List ε) (r : Recorder), (∀ r, ∀ e ∈ es, Naming env r (step r e).2 (step r e).1) →
      Naming env r (Run.emits step r es) (Run.state step r es)
  | [], _, _ => .of_eq rfl rfl rfl
  | e :: es, r, hstep =>
    (hstep r e List.mem_cons_self).trans (Naming.emits step es (step r e).1 fun r e he => hstep r e (List.mem_cons_of_mem _ he))

/-! ### What each step gives -/

theorem names_update (d : Disk) (file : Option Nat) (op : Stream → Stream) :
    (d.update file op).map (·.name) = d.map (·.name) := by
  cases file with
  | none => rfl
  | some k =>
    refine List.ext_getElem? fun j => ?_
    rw [Disk.update, List.getElem?_map, List.getElem?_map, List.getElem?_modify]
    by_cases hk : k = j
    · cases d[j]? <;> simp [hk]
    · cases d[j]? <;> simp [hk]

theorem names_close (w : Wav) (d : Disk) : (w.close d).1.map (·.name) = d.map (·.name) := by
  rw [Wav.close]
  split
  · exact names_update d w.file _
  · rfl

theorem filename_swapOpened : (swapOpened env i w r).2.filename = swapName env i r := by
  rw [swapOpened]
  cases env.fopen r.names <;> rfl

theorem names_swapWav :
    (swapWav env i w r).disk.map (·.name) =
      r.disk.map (·.name) ++ if env.fopen r.names then [swapName env i r] else [] := by
  rw [disk_swapWav, swapOpened]
  cases env.fopen r.names with
  | false => exact (names_close w r.disk).trans (List.append_nil _).symm
  | true =>
    rw [Wav.open, Bool.not_true]
    exact List.map_append.trans (congrArg (· ++ [swapName env i r]) (names_close w r.disk))

theorem swapWav_naming (w : Wav) : Naming env r [swapName env i r] (swapWav env i w r) := by
  refine .one rfl rfl ⟨_, names_swapWav, ?_⟩
  split
  · exact List.Sublist.refl _
  · exact List.nil_sublist _

theorem newNames_of_eq (h : r'.names = r.names) : newNames i r r' = [] := if_pos h

theorem newNames_swapWav (hw : r.wav? i = some w) : newNames i r (swapWav env i w r) = [swapName env i r] := by
  have hnames : (swapWav env i w r).names ≠ r.names := Nat.succ_ne_self r.names
  rw [newNames, if_neg hnames, wav?_swapWav_self hw, Option.map_some, filename_swapOpened]
  rfl

/-- A round of a loop that swaps. -/
theorem swap_naming (h : r' = r ∨ ∃ w, r.wav? i = some w ∧ r' = swapWav env i w r) :
    Naming env r (newNames i r r') r' := by
  rcases h with rfl | ⟨w, hw, rfl⟩
  · rw [newNames_of_eq rfl]
    exact .of_eq rfl rfl rfl
  · rw [newNames_swapWav hw]
    exact swapWav_naming w

theorem Swaps.naming {body : Recorder → Nat → Recorder} (h : Swaps env body) (r : Recorder) (n : Nat) :
    Naming env r (Run.emits (withNames body) r (List.range n)) ((List.range n).foldl body r) :=
  Naming.emits (withNames body) (List.range n) r fun r i _ => swap_naming <| by
    rcases h r i with heq | ⟨w, hw, -, heq⟩
    · exact Or.inl heq
    · exact Or.inr ⟨w, hw, heq⟩

theorem reopenWavFile_naming (env : Env) (r : Recorder) (i : Nat) :
    Naming env r (newNames i r (reopenWavFile env i r)) (reopenWavFile env i r) := by
  refine swap_naming ?_
  rw [reopenWavFile]
  cases hw : r.wav? i with
  | none => exact Or.inl rfl
  | some w =>
    by_cases hopen : w.isOpened = true
    · exact Or.inl (by simp [hopen])
    · exact Or.inr ⟨w, rfl, by simp [hopen]⟩

theorem recordBlock_naming (env : Env) (s : SampleData) (r : Recorder) (i : Nat) :
    Naming env r (newNames i r ((recordBlock env i s r).getD r)) ((recordBlock env i s r).getD r) := by
  cases hblock : recordBlock env i s r with
  | none => exact swap_naming (Or.inl rfl)
  | some r' =>
    rw [Option.getD_some]
    cases recordBlock_cases hblock with
    | none => exact swap_naming (Or.inl rfl)
    | @close w =>
      have hnames : (closeWav i w r).names = r.names := rfl
      rw [newNames_of_eq hnames]
      exact .of_eq hnames rfl (names_close w r.disk)
    | @write w =>
      have hnames : (writeWav i w s r).names = r.names := rfl
      rw [newNames_of_eq hnames]
      exact .of_eq hnames rfl (names_update r.disk w.file (·.fwrite ((s.samples.take s.size.toNat).flatMap le16)))
    | reopen hw => exact swap_naming (Or.inr ⟨_, hw, rfl⟩)

theorem initWav_naming (env : Env) (dir : Attrib) (r : Recorder) (hi : i < 128) :
    Naming env r (newNames i r (initWav env dir r i)) (initWav env dir r i) := by
  have hnew : newNames i r (initWav env dir r i) =
      [nextName env (if dir.type1 ≠ "" then some dir.type2 else none) i r] := by
    have hnames : (initWav env dir r i).names ≠ r.names := Nat.succ_ne_self r.names
    have hself : (initWav env dir r i).wav? i = some (Wav.new (nextName env (if dir.type1 ≠ "" then some dir.type2 else none) i r)) :=
      wav?_setWav_self (r := r) hi
    rw [newNames, if_neg hnames, hself]
    rfl
  rw [hnew]
  exact .one rfl rfl ⟨[], (List.append_nil _).symm, List.nil_sublist _⟩

theorem setupWavFiles_naming (env : Env) (cfg : RecorderConfig) (r : Recorder) :
    Naming env r [] (setupWavFiles cfg r) := by
  obtain ⟨hnames, huid, hdisk⟩ : (setupWavFiles cfg r).names = r.names ∧ (setupWavFiles cfg r).uid = r.uid ∧
      (setupWavFiles cfg r).disk = r.disk :=
    Run.foldl_range (P := fun _ (s : Recorder) => s.names = r.names ∧ s.uid = r.uid ∧ s.disk = r.disk) ⟨rfl, rfl, rfl⟩
      fun _ _ _ hs => hs
  exact .of_eq hnames huid (by rw [hdisk])

theorem initHotSwap_naming (env : Env) (cfg : RecorderConfig) (r : Recorder) :
    Naming env r [] (initHotSwap cfg r) := by
  obtain ⟨_, _, _, _, hswap⟩ := exists_initHotSwap cfg r
  rw [hswap]
  exact .of_eq rfl rfl rfl

theorem init_naming (env : Env) (cfg : RecorderConfig) (r : Recorder) :
    Naming env r (call env r (.init cfg)).2 (init env cfg r) := by
  have hbounds := initMaxChans_bounds (cfg.getAttribPairFromTag "Record" "files")
  have hwavs := Naming.emits (withNames (initWav env (cfg.getAttribPairFromTag "Paths" "records")))
    (List.range (initMaxChans (cfg.getAttribPairFromTag "Record" "files")))
    { r with maxChans := initMaxChans (cfg.getAttribPairFromTag "Record" "files") } fun r i hi =>
      initWav_naming env _ r (Nat.lt_trans (List.mem_range.mp hi) hbounds.2)
  have hstart : Naming env r [] { r with maxChans := initMaxChans (cfg.getAttribPairFromTag "Record" "files") } :=
    .of_eq rfl rfl rfl
  have hinit := ((hstart.trans hwavs).trans (setupWavFiles_naming env cfg _)).trans (initHotSwap_naming env cfg _)
  rwa [List.nil_append, List.append_nil, List.append_nil] at hinit

theorem deinit_naming (env : Env) (r : Recorder) : Naming env r [] (deinit r) := by
  obtain ⟨hnames, huid, hdisk⟩ : (deinit r).names = r.names ∧ (deinit r).uid = r.uid ∧
      (deinit r).disk.map (·.name) = r.disk.map (·.name) := by
    refine Run.foldl_range (P := fun _ (s : Recorder) => s.names = r.names ∧ s.uid = r.uid ∧
      s.disk.map (·.name) = r.disk.map (·.name)) ⟨rfl, rfl, rfl⟩ fun i s _ hs => ?_
    by_cases hclosed : ∀ w ∈ s.wav? i, w.isOpened = false
    · rwa [deinitSlot_of_not_open hclosed]
    · obtain ⟨w, hw, hopen⟩ : ∃ w, s.wav? i = some w ∧ w.isOpened = true := by simpa using hclosed
      rw [deinitSlot_of_open hw hopen]
      exact ⟨hs.1, hs.2.1, (names_close w s.disk).trans hs.2.2⟩
  exact .of_eq hnames huid hdisk

theorem call_naming (env : Env) (r : Recorder) (c : Call) : Naming env r (call env r c).2 (call env r c).1 := by
  cases c with
  | init cfg => exact init_naming env cfg r
  | reopenWavFile slot => exact reopenWavFile_naming env r slot
  | hotSwapFiles => exact (hotSwapSlot_swaps env).naming r r.maxChans
  | pollHotSwap => exact (pollSlot_swaps env).naming r r.maxChans
  | recordBlock slot s => exact recordBlock_naming env s r slot
  | deinit =>
    simp only [call]
    exact deinit_naming env r

/-- While the counter does not come round, and the names are not cut off, they are different. -/
theorem Naming.nodup (h : Naming env r given r') (htime : ∀ n, IsTimeString (env.timeString n))
    (hfew : given.length < 2 ^ 32) (hshort : ∀ s ∈ given, s.length ≤ 63) : given.Nodup := by
  rw [List.nodup_iff_pairwise_ne, List.pairwise_iff_getElem]
  intro i j hi hj hij heq
  obtain ⟨dir, slot, hname⟩ := h.each i _ (List.getElem?_eq_getElem hi)
  obtain ⟨dir', slot', hname'⟩ := h.each j _ (List.getElem?_eq_getElem hj)
  have huid := uid_eq_of_fileName (htime _) (htime _) (hname ▸ hshort _ (List.getElem_mem hi))
    (hname.symm.trans (heq.trans hname'))
  have hcount := congrArg UInt32.toNat ((UInt32.add_right_inj r.uid).mp huid)
  rw [UInt32.toNat_ofNat', UInt32.toNat_ofNat', Nat.mod_eq_of_lt (by omega), Nat.mod_eq_of_lt (by omega)] at hcount
  omega

end Naming

/-- As long as fewer than 2^32 names are given and each fits into the buffer of `Wav`, they are different, for any
    times, and so are the names of the files that were made. -/
theorem names_distinct (env : Env) (htime : ∀ n, IsTimeString (env.timeString n)) (calls : List Call)
    (hfew : (given env calls).length < 2 ^ 32) (hshort : ∀ s ∈ given env calls, s.length ≤ 63) :
    (given env calls).Nodup ∧ ((Run.state (call env) new calls).disk.map (·.name)).Nodup := by
  have hrun : Naming env new (given env calls) (Run.state (call env) new calls) :=
    Naming.emits (call env) calls new fun r c _ => call_naming env r c
  have hnodup := hrun.nodup htime hfew hshort
  obtain ⟨made, hdisk, hsub⟩ := hrun.files
  refine ⟨hnodup, ?_⟩
  rw [hdisk]
  exact hnodup.sublist hsub

theorem isTimeString_calm (n : Nat) : IsTimeString (calm.timeString n) := ⟨'1', '2', '0', '0', '0', '0', by simp [calm]⟩

theorem names_distinct_calm :
    (given calm [.init .new, .reopenWavFile 0, .hotSwapFiles]).Nodup ∧
      ((Run.state (call calm) new [.init .new, .reopenWavFile 0, .hotSwapFiles]).disk.map (·.name)).Nodup :=
  names_distinct calm isTimeString_calm [.init .new, .reopenWavFile 0, .hotSwapFiles] (by decide +kernel) (by decide +kernel)

end Recd2.Recorder
