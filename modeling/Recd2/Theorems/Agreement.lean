import Recd2.Theorems.Records
import Recd2.Theorems.Shape

/-! The streamer and the recorder read the configuration on their own: the number of blocks of a list comes from
    `FrameData/channels` and the single-file flag, the number of slots from `Record/files`. A list with more
    blocks than slots makes `record` follow a null pointer. -/

namespace Recd2

/-! ### The attributes as numbers -/

/-- The number that the text of an attribute shows, if it is there and an `int` holds it. -/
def attribNumber (a : Attrib) : Option Int := if a.type1 = "" then none else QString.toIntegral 32 a.type2

/-- The number, when it is one of 1 to 127, and 1 otherwise. -/
def slotNumber (a : Attrib) : Nat :=
  match attribNumber a with
  | some n => if 1 ≤ n ∧ n ≤ 127 then n.toNat else 1
  | none => 1

theorem toIntegral_bounds {s : String} {n : Int} (h : QString.toIntegral 32 s = some n) : -2 ^ 31 ≤ n ∧ n < 2 ^ 31 := by
  rw [QString.toIntegral, Option.filter_eq_some_iff] at h
  exact of_decide_eq_true h.2

theorem toNat_toUInt32_ofInt (n : Int) : (Int32.ofInt n).toUInt32.toNat = (n % 2 ^ 32).toNat := BitVec.toNat_ofInt n

theorem initMaxChans_eq (a : Attrib) : Recorder.initMaxChans a = slotNumber a := by
  rw [Recorder.initMaxChans, slotNumber, attribNumber]
  by_cases ha : a.type1 = ""
  · rw [if_pos ha, if_pos ha]
  · rw [if_neg ha, if_neg ha, QString.toInt]
    cases hn : QString.toIntegral 32 a.type2 with
    | none => rfl
    | some n =>
      obtain ⟨h1, h2⟩ := toIntegral_bounds hn
      have hint : (Int32.ofInt n).toInt = n := Int32.toInt_ofInt_of_le h1 h2
      have h127 : (127 : Int32) < Int32.ofInt n ↔ 127 < n := by rw [Int32.lt_iff_toInt_lt, hint]; rfl
      have h0 : Int32.ofInt n ≤ 0 ↔ n ≤ 0 := by rw [Int32.le_iff_toInt_le, hint]; rfl
      simp only [Option.map_some, h127, h0, hint]
      split <;> split <;> first | rfl | omega

theorem initChannels_eq (a : Attrib) : (Server.initChannels a).toNat = slotNumber a := by
  rw [Server.initChannels, slotNumber, attribNumber]
  by_cases ha : a.type1 = ""
  · rw [if_pos ha, if_pos ha]
    rfl
  · rw [if_neg ha, if_neg ha, QString.toInt]
    cases hn : QString.toIntegral 32 a.type2 with
    | none => rfl
    | some n =>
      obtain ⟨h1, h2⟩ := toIntegral_bounds hn
      have hnat := toNat_toUInt32_ofInt n
      have h127 : (127 : UInt32) < (Int32.ofInt n).toUInt32 ↔ 127 < (n % 2 ^ 32).toNat := by
        rw [UInt32.lt_iff_toNat_lt, hnat]
        rfl
      have h0 : (Int32.ofInt n).toUInt32 ≤ 0 ↔ (n % 2 ^ 32).toNat ≤ 0 := by
        rw [UInt32.le_iff_toNat_le, hnat]
        rfl
      simp only [Option.map_some, h127, h0]
      split
      · split
        · omega
        · rfl
      · split
        · rw [hnat]
          omega
        · omega

theorem initSingleFile_iff (a : Attrib) :
    Server.initSingleFile a = true ↔ a.type1 = "" ∨ attribNumber a = some 1 := by
  rw [Server.initSingleFile, attribNumber]
  by_cases ha : a.type1 = ""
  · simp [ha]
  · rw [if_neg ha, if_neg ha, QString.toInt, or_iff_right ha, decide_eq_true_iff]
    cases hn : QString.toIntegral 32 a.type2 with
    | none => exact iff_of_false (by decide) (by simp)
    | some n =>
      obtain ⟨h1, h2⟩ := toIntegral_bounds hn
      have hint : (Int32.ofInt n).toInt = n := Int32.toInt_ofInt_of_le h1 h2
      rw [Option.map_some, Option.getD_some, ← Int32.toInt_inj, hint, Option.some.injEq]
      rfl

/-! ### What `init` sets -/

namespace Server

theorem init_spec {bind : UInt16 → Bool} {cfg cfg' : RecorderConfig} {s₀ s : Server}
    (h : init bind cfg s₀ = some (s, cfg')) :
    s.singleFile = initSingleFile (cfg.getAttribPairFromTag "Record" "files") ∧
      s.channels = initChannels (cfg.getAttribPairFromTag "FrameData" "channels") ∧
      s.smplPerChan = initSmplPerChan (cfg.getAttribPairFromTag "FrameData" "samplesPerChan") ∧
      cfg'.tags = cfg.tags := by
  have htags : (failsafePort cfg).tags = cfg.tags := by
    rw [failsafePort]
    split <;> rfl
  have hcases : (s = s₀.configure cfg ∨ s = (s₀.configure cfg).disconnected) ∧ cfg' = failsafePort cfg := by
    rw [init] at h
    split at h
    · obtain ⟨hs, hcfg⟩ := Prod.mk.inj (Option.some.inj h)
      refine ⟨?_, hcfg.symm⟩
      rw [← hs]
      split
      · exact Or.inl rfl
      · exact Or.inr rfl
    · split at h
      · obtain ⟨hs, hcfg⟩ := Prod.mk.inj (Option.some.inj h)
        exact ⟨Or.inl hs.symm, hcfg.symm⟩
      · cases h
  obtain ⟨hs, rfl⟩ := hcases
  rcases hs with rfl | rfl <;> exact ⟨rfl, rfl, rfl, htags⟩

theorem init_of_udp (bind : UInt16 → Bool) (cfg : RecorderConfig) (s₀ : Server)
    (h : ((failsafePort cfg).getAttribPairFromTag "Network" "transport").type2 = "udp") :
    ∃ s cfg', init bind cfg s₀ = some (s, cfg') := ⟨_, _, if_pos h⟩

end Server

section Congr
variable {cfg cfg' : RecorderConfig} {tag : String}

theorem attribNumber_congr (h : cfg'.tags tag = cfg.tags tag) (attrib : String) :
    attribNumber (cfg'.getAttribPairFromTag tag attrib) = attribNumber (cfg.getAttribPairFromTag tag attrib) := by
  rw [RecorderConfig.getAttribPairFromTag, RecorderConfig.getAttribPairFromTag, RecorderConfig.getTagPairs,
    RecorderConfig.getTagPairs, h]
  cases (cfg.tags tag).find? (·.type1 == attrib) <;> rfl

theorem slotNumber_congr (h : cfg'.tags tag = cfg.tags tag) (attrib : String) :
    slotNumber (cfg'.getAttribPairFromTag tag attrib) = slotNumber (cfg.getAttribPairFromTag tag attrib) := by
  rw [slotNumber, slotNumber, attribNumber_congr h]

end Congr

/-! ### Frames in sequence -/

/-- Each of the counters is the successor of the one before, the first one's being `p`. -/
def InSequence : UInt32 → List UInt32 → Prop
  | _, [] => True
  | p, c :: cs => c = p + 1 ∧ InSequence c cs

theorem calls_inSequence {next : Server.Next} {s : Server} {fs : List FrameData}
    (h : InSequence s.connInfo.paketCounter (fs.map (·.counter))) : s.calls next fs = fs.map s.frameList := by
  induction fs generalizing s with
  | nil => rfl
  | cons f fs ih =>
    obtain ⟨hf, hfs⟩ := h
    have hcounter : (s.after [f]).connInfo.paketCounter = f.counter := ConnInfo.paketCounter_receive s.connInfo f.counter
    have hrest := ih (s := s.after [f]) (by rw [hcounter]; exact hfs)
    rw [Server.calls, Server.sends, if_neg (not_not_intro hf), hrest]
    rfl

theorem putDataCalls_inSequence (next : Server.Next) {s : Server} {groups : List (List Datagram)}
    (hgroups : ∀ g ∈ groups, g ≠ [])
    (hseq : InSequence s.connInfo.paketCounter ((frames groups.flatten).map (·.counter))) :
    putDataCalls (Run.emits (Server.step next) s (groups.map .readyRead)) = (frames groups.flatten).map s.frameList := by
  rw [Server.putDataCalls_readyRead s groups hgroups, calls_inSequence hseq]

/-! ### A list with more blocks than slots -/

namespace Recorder
variable {r : Recorder}

theorem recordBlock_null (env : Env) (h : r.Good) {s : SampleData} (hs : s.signal ≠ 0) :
    recordBlock env r.maxChans s r = none := by
  have hnull : r.wavs[r.maxChans]? = some none := by
    have hlt : r.maxChans < 128 := h.ready.chans
    have hnone : r.wav? r.maxChans = none := by
      cases hw : r.wav? r.maxChans with
      | none => rfl
      | some w => exact absurd (h.ready.lt hw) (Nat.lt_irrefl _)
    rw [wav?, Vector.getElem?_eq_getElem hlt] at hnone
    rw [Vector.getElem?_eq_getElem hlt]
    exact congrArg some hnone
  simp only [recordBlock, hnull, hs, if_false]

theorem recordFrom_fails (env : Env) (h : r.Good) {sd : QList} {i : Nat} (hs : ∀ s ∈ sd, s.signal ≠ 0)
    (hi : i ≤ r.maxChans) (hlen : r.maxChans < i + sd.length) : recordFrom env i sd r = none := by
  induction sd generalizing i r with
  | nil =>
    rw [List.length_nil] at hlen
    omega
  | cons s sd ih =>
    rw [List.length_cons] at hlen
    by_cases heq : i = r.maxChans
    · rw [recordFrom, heq, recordBlock_null env h (hs s List.mem_cons_self)]
      rfl
    · obtain ⟨r', hblock, hr'⟩ := recordBlock_spec (i := i) env h (by omega) s
      rw [recordFrom, hblock]
      exact ih hr'.good (fun t ht => hs t (List.mem_cons_of_mem s ht)) (by rw [hr'.maxChans]; omega)
        (by rw [hr'.maxChans]; omega)

theorem record_fails (env : Env) (h : r.Good) {sd : QList} (hs : ∀ s ∈ sd, s.signal ≠ 0) (hlen : r.maxChans < sd.length) :
    record env sd r = none := by
  have hpolled : Becomes env r (if r.sizeBased then pollHotSwap env r else r) r.view := by
    split
    · exact swaps_spec (pollSlot_swaps env) h r.maxChans
    · exact ⟨h, rfl, fun _ _ => rfl⟩
  rw [record, if_neg (by omega)]
  exact recordFrom_fails env hpolled.good hs (Nat.zero_le _) (by rw [hpolled.maxChans]; omega)

end Recorder

/-! ### Streamer and recorder -/

/-- In any run of the recorder that records the lists of frames in sequence, with swaps between them, no null
    pointer is followed. -/
def Agree (env : Env) (s : Server) (r : Recorder) : Prop :=
  ∀ (next : Server.Next) (groups : List (List Datagram)) (ops : List Recorder.Op), (∀ g ∈ groups, g ≠ []) →
    InSequence s.connInfo.paketCounter ((frames groups.flatten).map (·.counter)) →
    Recorder.lists ops = putDataCalls (Run.emits (Server.step next) s (groups.map .readyRead)) →
    ∃ r', Run.exec (Recorder.step env) r ops = some r'

theorem agree_of_slots (env : Env) {s : Server} {r : Recorder} (h : r.Good) (hslots : s.slotCount ≤ r.maxChans) :
    Agree env s r := by
  intro next groups ops hgroups hseq hops
  rw [putDataCalls_inSequence next hgroups hseq] at hops
  have hfits : ∀ op ∈ ops, op.Fits r.maxChans := by
    intro op hop sd hsd
    have hmem : sd ∈ Recorder.lists ops := List.mem_flatMap.mpr ⟨op, hop, hsd⟩
    rw [hops] at hmem
    obtain ⟨f, -, rfl⟩ := List.mem_map.mp hmem
    rw [s.length_frameList]
    exact hslots
  obtain ⟨r', hrun, -⟩ := Recorder.exec_spec env h hfits
  exact ⟨r', hrun⟩

/-- The next frame in sequence, silent, with every signal byte set. -/
def fullFrame (s : Server) : FrameData :=
  { FrameData.silent (s.connInfo.paketCounter + 1) with nullBytes := .replicate 64 1 }

theorem signal_fullFrame {s : Server} (h64 : s.channels.toNat ≤ 64) :
    ∀ b ∈ s.frameList (fullFrame s), b.signal ≠ 0 := by
  intro b hb
  rw [Server.frameList] at hb
  split at hb
  · obtain ⟨i, hi, rfl⟩ := List.mem_map.mp hb
    have hlt : i < 64 := Nat.lt_of_lt_of_le (List.mem_range.mp hi) h64
    have hone : (fullFrame s).nullByte i = 1 := by
      rw [FrameData.nullByte, fullFrame, Vector.getElem?_replicate, if_pos hlt]
      rfl
    show (fullFrame s).nullByte i ≠ 0
    rw [hone]
    decide
  · rw [List.mem_singleton.mp hb]
    show (1 : UInt8) ≠ 0
    decide

theorem not_agree_of_slots (env : Env) {s : Server} {r : Recorder} (h : r.Good) (h64 : s.channels.toNat ≤ 64)
    (hslots : r.maxChans < s.slotCount) : ¬Agree env s r := by
  intro hagree
  obtain ⟨d, hd⟩ : ∃ d, frame? d = some (fullFrame s) :=
    ⟨(fullFrame s).toBytes, by rw [frame?, if_pos (fullFrame s).length_toBytes, FrameData.ofBytes_toBytes]⟩
  have hgroups : ∀ g ∈ [[d]], g ≠ [] := by simp
  have hframes : frames [[d]].flatten = [fullFrame s] := frames_cons_some hd []
  have hseq : InSequence s.connInfo.paketCounter ((frames [[d]].flatten).map (·.counter)) := by
    rw [hframes]
    exact ⟨rfl, trivial⟩
  have hlists := putDataCalls_inSequence none hgroups hseq
  rw [hframes] at hlists
  obtain ⟨r', hrun⟩ := hagree none [[d]] [.record (s.frameList (fullFrame s))] hgroups hseq hlists.symm
  have hfails : Recorder.record env (s.frameList (fullFrame s)) r = none :=
    Recorder.record_fails env h (signal_fullFrame h64) (by rw [s.length_frameList]; exact hslots)
  rw [Run.exec_cons, Recorder.step, hfails] at hrun
  cases hrun

/-- `Record/files` is absent or 1, or the number of channels is not above the number of files. -/
def Compatible (cfg : RecorderConfig) : Prop :=
  let files := cfg.getAttribPairFromTag "Record" "files"
  files.type1 = "" ∨ attribNumber files = some 1 ∨
    slotNumber (cfg.getAttribPairFromTag "FrameData" "channels") ≤ slotNumber files

theorem compatible_iff {bind : UInt16 → Bool} {cfg cfg' : RecorderConfig} {s₀ s : Server} (env : Env)
    (hinit : Server.init bind cfg s₀ = some (s, cfg')) :
    s.slotCount ≤ (Recorder.init env cfg' .new).maxChans ↔ Compatible cfg := by
  obtain ⟨hsingle, hchannels, -, htags⟩ := Server.init_spec hinit
  have hmax : (Recorder.init env cfg' .new).maxChans = slotNumber (cfg.getAttribPairFromTag "Record" "files") := by
    rw [(Recorder.fresh_init env cfg').2, initMaxChans_eq, slotNumber_congr (congrFun htags _)]
  have hpos : 1 ≤ slotNumber (cfg.getAttribPairFromTag "Record" "files") := by
    rw [← initMaxChans_eq]
    exact (Recorder.initMaxChans_bounds _).1
  rw [hmax, Server.slotCount, hsingle, hchannels, initChannels_eq, Compatible]
  by_cases hfiles : Server.initSingleFile (cfg.getAttribPairFromTag "Record" "files") = true
  · rw [if_pos hfiles]
    refine iff_of_true hpos ?_
    rcases (initSingleFile_iff _).mp hfiles with hnone | hone
    · exact Or.inl hnone
    · exact Or.inr (Or.inl hone)
  · rw [if_neg hfiles]
    rw [initSingleFile_iff, not_or] at hfiles
    exact ⟨fun h => Or.inr (Or.inr h), fun h => (h.resolve_left hfiles.1).resolve_left hfiles.2⟩

/-- The streamer and the recorder agree exactly when the configuration is compatible. -/
theorem agree_iff (bind : UInt16 → Bool) (env : Env) (cfg cfg' : RecorderConfig) (s₀ s : Server)
    (hinit : Server.init bind cfg s₀ = some (s, cfg')) (h64 : s.channels.toNat ≤ 64) :
    Agree env s (Recorder.init env cfg' .new) ↔ Compatible cfg := by
  rw [← compatible_iff env hinit]
  constructor
  · intro hagree
    by_contra hslots
    exact not_agree_of_slots env (Recorder.good_init env cfg') h64 (Nat.not_le.mp hslots) hagree
  · exact fun hslots => agree_of_slots env (Recorder.good_init env cfg') hslots

/-- A configuration with three channels and files for two. -/
def threeChannels : RecorderConfig where
  tags tag :=
    if tag = "Record" then [⟨"files", "2"⟩]
    else if tag = "FrameData" then [⟨"channels", "3"⟩, ⟨"samplesPerChan", "16"⟩]
    else if tag = "Network" then [⟨"transport", "udp"⟩, ⟨"port", "1234"⟩]
    else []
  notFound := ""

theorem agree_iff_threeChannels : ∃ s cfg', Server.init (fun _ => true) threeChannels .new = some (s, cfg') ∧
    (Agree Recorder.calm s (Recorder.init Recorder.calm cfg' .new) ↔ Compatible threeChannels) := by
  obtain ⟨s, cfg', hinit⟩ := Server.init_of_udp (fun _ => true) threeChannels .new (by decide)
  have h64 : s.channels.toNat ≤ 64 := by
    rw [(Server.init_spec hinit).2.1]
    decide
  exact ⟨s, cfg', hinit, agree_iff (fun _ => true) Recorder.calm threeChannels cfg' .new s hinit h64⟩

theorem agree_counterexample :
    ¬∀ (bind : UInt16 → Bool) (env : Env) (cfg cfg' : RecorderConfig) (s₀ s : Server),
      Server.init bind cfg s₀ = some (s, cfg') → s.channels.toNat ≤ 64 →
      s.channels.toNat * s.smplPerChan.toNat ≤ 512 → Agree env s (Recorder.init env cfg' .new) := by
  intro h
  obtain ⟨s, cfg', hinit⟩ := Server.init_of_udp (fun _ => true) threeChannels .new (by decide)
  obtain ⟨-, hchannels, hsmpls, -⟩ := Server.init_spec hinit
  have h64 : s.channels.toNat ≤ 64 := by
    rw [hchannels]
    decide
  have hagree := h (fun _ => true) Recorder.calm threeChannels cfg' .new s hinit h64 (by
    rw [hchannels, hsmpls]
    decide)
  have hslots := (compatible_iff Recorder.calm hinit).not.mpr (show ¬Compatible threeChannels by
    rw [Compatible]
    decide)
  exact not_agree_of_slots Recorder.calm (Recorder.good_init _ cfg') h64 (Nat.not_le.mp hslots) hagree

end Recd2
