import Recd2.Theorems.Agreement
import Recd2.Theorems.Connections
import Recd2.Theorems.Decode
import Recd2.Theorems.Overlong

/-! From the datagrams to the files. In multi-file mode, the slot of a channel gets the samples of the frames that are
    audible there and were sent right behind another one: a gap in the counters, or a frame with a zero signal byte,
    closes the file, and the frame behind it is spent on the next one. Nothing of this depends on the order in which
    the event loop and the thread of the recorder take their steps. The thread comes to grief only where the lists of
    a gap add up, because the chain leaves them, to more blocks than the recorder has places for. -/

namespace Recd2

/-! ### What is heard on a channel -/

namespace Server
variable {next : Next} (s : Server)

/-- The samples of the channel in the list of a frame, unless its signal byte is zero. -/
def audio (i : Nat) : Slot → Option (List Int16)
  | .frame f =>
    if f.nullByte i = 0 then none
    else some ((List.range s.smplPerChan.toNat).map fun j => f.sample (j * s.channels.toNat + i))
  | .filler _ => none

/-- The samples of the places that are audible right behind an audible one. -/
def heard (i : Nat) (ps : List Slot) : List Int16 :=
  (ps.zip ps.tail).flatMap fun p => if (s.audio i p.1).isSome then (s.audio i p.2).getD [] else []

theorem gained_audio (i : Nat) (ps : List Slot) :
    Gate.gained false (ps.map fun p => (s.audio i p).map (·.flatMap le16)) = (s.heard i ps).flatMap le16 := by
  rw [Gate.gained_of_closed, heard, List.flatMap_assoc, ← List.map_tail, List.zip_map, List.flatMap_map]
  refine List.flatMap_congr fun p _ => ?_
  simp only [Prod.map_fst, Prod.map_snd, Option.isSome_map]
  cases s.audio i p.1 with
  | none => rfl
  | some xs =>
    cases s.audio i p.2 with
    | none => rfl
    | some ys => rfl

/-! ### A single connection -/

section Connection
variable {fs : List FrameData}

/-- The places up to the counter. -/
def placesTo (fs : List FrameData) (n : Nat) : List Slot := (List.range' 1 n).flatMap (slots fs)

theorem placesTo_succ (fs : List FrameData) (n : Nat) : placesTo fs (n + 1) = placesTo fs n ++ slots fs (n + 1) := by
  rw [placesTo, List.range'_1_concat, List.flatMap_append, List.flatMap_singleton, Nat.add_comm 1 n]
  rfl

theorem arrived_one (h : Increasing fs) (hne : fs ≠ []) : (arrived fs 1).isSome := by
  obtain ⟨f, gs, rfl⟩ := List.exists_cons_of_ne_nil hne
  rw [arrived, List.find?_isSome]
  exact ⟨f, List.mem_cons_self, beq_iff_eq.mpr (h.first f rfl)⟩

/-- Where a counter is missing, the last list sent is a filler. -/
theorem getLast?_of_missing (h : Increasing fs) (hne : fs ≠ []) {n : Nat} (hn : 1 ≤ n) (hmiss : arrived fs n = none) :
    ∃ first, (placesTo fs n).getLast? = some (.filler first) := by
  induction n, hn using Nat.le_induction with
  | base =>
    have hone := arrived_one h hne
    rw [hmiss] at hone
    cases hone
  | succ n hn ih =>
    rw [placesTo_succ, slots, hmiss, Nat.add_sub_cancel]
    cases hprev : arrived fs n with
    | some g =>
      simp only [Option.isSome_some, true_or, if_true]
      exact ⟨true, List.getLast?_concat⟩
    | none =>
      -- The first missing counter of the gap has its list, whatever the others have.
      simp only [Option.isSome_none, Bool.false_eq_true, false_or]
      split
      · exact ⟨false, List.getLast?_concat⟩
      · rw [List.append_nil]
        exact ih hprev

/-- The frame with the counter is sent. -/
def isSent (fs : List FrameData) (n : Nat) : Bool := n == 1 || (arrived fs (n - 1)).isSome

theorem slots_of_arrived {n : Nat} {f : FrameData} (hf : arrived fs n = some f) :
    slots fs n = if isSent fs n then [.frame f] else [] := by
  rw [slots, hf]
  simp only [isSent, Bool.or_eq_true, beq_iff_eq]

theorem getLast?_of_arrived (h : Increasing fs) (hne : fs ≠ []) {n : Nat} (hn : 1 ≤ n) {f : FrameData}
    (hf : arrived fs n = some f) :
    ∃ first, (placesTo fs n).getLast? = some (if isSent fs n then .frame f else .filler first) := by
  obtain ⟨m, rfl⟩ : ∃ m, n = m + 1 := ⟨n - 1, by omega⟩
  rw [placesTo_succ, slots_of_arrived hf]
  cases hsent : isSent fs (m + 1) with
  | true => exact ⟨true, List.getLast?_concat⟩
  | false =>
    rw [isSent, Bool.or_eq_false_iff, beq_eq_false_iff_ne, Nat.add_sub_cancel, Option.isSome_eq_false_iff,
      Option.isNone_iff_eq_none] at hsent
    simp only [Bool.false_eq_true, if_false, List.append_nil]
    exact getLast?_of_missing h hne (by omega) hsent.2

/-- What a counter gives to the file of the channel: the samples of its frame, when this one and the one before arrived
    and are audible, and the one before was sent itself. -/
def kept (fs : List FrameData) (i n : Nat) : List Int16 :=
  match arrived fs (n - 1), arrived fs n with
  | some g, some f => if isSent fs (n - 1) && g.nullByte i != 0 then (s.audio i (.frame f)).getD [] else []
  | _, _ => []

theorem heard_eq_gained (i : Nat) (ps : List Slot) : s.heard i ps = Gate.gained false (ps.map (s.audio i)) := by
  rw [Gate.gained_of_closed, heard, ← List.map_tail, List.zip_map, List.flatMap_map]
  rfl

theorem heard_snoc (i : Nat) (ps : List Slot) (q : Slot) :
    s.heard i (ps ++ [q]) = s.heard i ps ++
      if ps.getLast?.any fun p => (s.audio i p).isSome then (s.audio i q).getD [] else [] := by
  rw [heard_eq_gained, heard_eq_gained, List.map_append, List.map_singleton, Gate.gained_append, List.getLast?_map,
    Gate.gained_singleton]
  cases ps.getLast? <;> rfl

/-- The file of a channel gets what each counter from 2 on gives to it. -/
theorem heard_placesTo (h : Increasing fs) (hne : fs ≠ []) (i n : Nat) :
    s.heard i (placesTo fs (n + 1)) = (List.range' 2 n).flatMap (s.kept fs i) := by
  have hfirst : (arrived fs 1).isSome := arrived_one h hne
  induction n with
  | zero =>
    obtain ⟨f, hf⟩ := Option.isSome_iff_exists.mp hfirst
    rw [placesTo_succ, slots_of_arrived hf]
    rfl
  | succ n ih =>
    rw [placesTo_succ, List.range'_1_concat, List.flatMap_append, List.flatMap_singleton, ← ih, Nat.add_comm 2 n]
    have hpred : n + 2 - 1 = n + 1 := rfl
    rw [kept, hpred]
    cases hf : arrived fs (n + 2) with
    | none =>
      -- A missing counter gives nothing, whether it has a list or not.
      have hslot : (∃ first, slots fs (n + 1 + 1) = [.filler first]) ∨ slots fs (n + 1 + 1) = [] := by
        simp only [slots, hf]
        split
        · exact Or.inl ⟨_, rfl⟩
        · exact Or.inr rfl
      have hnone : s.heard i (placesTo fs (n + 1) ++ slots fs (n + 1 + 1)) = s.heard i (placesTo fs (n + 1)) := by
        rcases hslot with ⟨first, hslot⟩ | hslot
        · have hfiller : s.audio i (.filler first) = none := rfl
          rw [hslot, heard_snoc, hfiller, Option.getD_none, ite_self, List.append_nil]
        · rw [hslot, List.append_nil]
      rw [hnone]
      cases arrived fs (n + 1) <;> exact (List.append_nil _).symm
    | some f =>
      rw [slots_of_arrived hf, isSent, hpred]
      cases hg : arrived fs (n + 1) with
      | none =>
        show s.heard i (placesTo fs (n + 1) ++ []) = s.heard i (placesTo fs (n + 1)) ++ []
        rw [List.append_nil, List.append_nil]
      | some g =>
        have hsent : (n + 1 + 1 == 1 || (some g).isSome) = true := by simp
        obtain ⟨first, hlast⟩ := getLast?_of_arrived h hne (Nat.le_add_left 1 n) hg
        rw [hsent, if_pos rfl, heard_snoc, hlast]
        refine congrArg _ ?_
        simp only [Option.any_some]
        cases isSent fs (n + 1) with
        | false => rfl
        | true =>
          simp only [if_true, audio, Bool.true_and]
          by_cases hz : g.nullByte i = 0
          · simp [hz]
          · simp [hz]

end Connection

/-! ### The lists sent -/

variable {s} {p : Slot} {ls : QList}

theorem signal_errBlocks {b : SampleData} (h : b ∈ s.errBlocks) : b.signal = 0 := by
  obtain ⟨i, -, rfl⟩ := List.mem_map.mp h
  rfl

theorem gateInput_deinterleave (f : FrameData) {i : Nat} (hi : i < s.channels.toNat) :
    (deinterleave s.channels s.smplPerChan f.nullByte f)[i]?.map Recorder.gateInput =
      some ((s.audio i (.frame f)).map (·.flatMap le16)) := by
  rw [deinterleave, List.getElem?_map, List.getElem?_range hi, Option.map_some, Option.map_some, Recorder.gateInput, audio,
    payload_deinterleaved]
  split <;> rfl

theorem gateInput_sent (hnext : ∀ ls, putData next ls ⊆ ls) (h : Slot.Sent next s p ls) {i : Nat}
    (hi : i < s.channels.toNat) : ls[i]?.map Recorder.gateInput = some ((s.audio i p).map (·.flatMap le16)) := by
  cases p with
  | frame f =>
    have hls : ls = deinterleave s.channels s.smplPerChan f.nullByte f := h
    rw [hls]
    exact gateInput_deinterleave f hi
  | filler first =>
    obtain ⟨-, hsuffix, hblocks⟩ := h
    have hlen : i < ls.length := Nat.lt_of_lt_of_le (s.length_errBlocks.symm ▸ hi) hsuffix.length_le
    have hzero : ls[i].signal = 0 := signal_errBlocks (hblocks hnext _ (List.getElem_mem hlen))
    rw [List.getElem?_eq_getElem hlen, Option.map_some, Recorder.gateInput, if_pos hzero]
    rfl

theorem inputs_sent (hnext : ∀ ls, putData next ls ⊆ ls) {ps : List Slot} {lss : List QList}
    (h : List.Forall₂ (Slot.Sent next s) ps lss) {i : Nat} (hi : i < s.channels.toNat) :
    (Recorder.blocksAt lss i).map Recorder.gateInput = ps.map fun p => (s.audio i p).map (·.flatMap le16) := by
  induction h with
  | nil => rfl
  | @cons p ls ps lss hp _ ih =>
    obtain ⟨b, hb, hgate⟩ := Option.map_eq_some_iff.mp (gateInput_sent hnext hp hi)
    have hcons : Recorder.blocksAt (ls :: lss) i = b :: Recorder.blocksAt lss i := List.filterMap_cons_some hb
    rw [hcons, List.map_cons, List.map_cons, hgate, ih]

/-- Behind the channels, all blocks sent have a zero signal byte. -/
theorem zeroFrom_sent (hnext : ∀ ls, putData next ls ⊆ ls) (h : Slot.Sent next s p ls) :
    Recorder.ZeroFrom s.channels.toNat ls := by
  cases p with
  | frame f =>
    have hls : ls = deinterleave s.channels s.smplPerChan f.nullByte f := h
    intro b hb
    rw [List.drop_eq_nil_of_le (by rw [hls, length_deinterleave])] at hb
    cases hb
  | filler first => exact fun b hb => signal_errBlocks (h.blocks hnext b (List.mem_of_mem_drop hb))

theorem putData_nextOf_subset (ps : List Plugin) (ls : QList) : putData (Plugin.nextOf ps) ls ⊆ ls := by
  rw [Plugin.putData_nextOf]
  split
  · exact List.nil_subset ls
  · exact List.Subset.refl ls

theorem channels_le_of_init {bind : UInt16 → Bool} {cfg cfg' : RecorderConfig} {s₀ : Server}
    (h : init bind cfg s₀ = some (s, cfg')) : s.channels.toNat ≤ 127 := by
  rw [(init_spec h).2.1, initChannels_eq, ← initMaxChans_eq]
  exact Nat.le_of_lt_succ (Recorder.initMaxChans_bounds _).2

theorem init_behind {bind : UInt16 → Bool} {cfg cfg' : RecorderConfig} (h : init bind cfg .new = some (s, cfg')) :
    s = s.behind [] [] [] := by
  rw [init] at h
  split at h
  · obtain ⟨rfl, -⟩ := Prod.mk.inj (Option.some.inj h)
    split <;> rfl
  · split at h
    · obtain ⟨rfl, -⟩ := Prod.mk.inj (Option.some.inj h)
      rfl
    · cases h

end Server

namespace Session
open RecorderThread Recorder

/-! ### What has to fit -/

/-- The plugins `ps` are behind the server, with the recorder among them once. The channels fit into the frame and into
    the slots of the recorder, which records them into a file each. -/
structure Setup (chain : Chain) (ps : List Plugin) (s : Server) (slots : Nat) : Prop where
  links : chain.Links ps
  recorder : ps.count .recorder = 1
  multi : s.singleFile = false
  samples : s.channels.toNat * s.smplPerChan.toNat ≤ 512
  signals : s.channels.toNat ≤ 64
  slots : s.channels.toNat ≤ slots

/-- The chain clears the lists, or the gaps of each connection behind its first one are small. -/
def Roomy (ps : List Plugin) (s : Server) (css : List (List FrameData)) : Prop :=
  Plugin.clears ps = true ∨ ∀ fs ∈ css, ∀ n ∈ Server.laterGaps false 0 fs, n * s.channels.toNat ≤ 128

section Whole
variable {bind : UInt16 → Bool} {cfg cfg' : RecorderConfig} {s : Server} {chain : Chain} {ps : List Plugin}
  {inbox : List Server.Input}

/-- The lists of all connections. -/
def allLists (ps : List Plugin) (s : Server) (inbox : List Server.Input) : List QList :=
  (Server.connections false [] inbox).flatMap (s.disconnected.calls (Plugin.nextOf ps))

theorem putDataCalls_start (h : chain.Links ps) (inbox : List Server.Input)
    (hinit : Server.init bind cfg .new = some (s, cfg')) :
    putDataCalls (Run.emits (Server.step chain.next) s inbox) = allLists ps s inbox := by
  have hlists := s.putDataCalls_connections chain.next inbox [] [] []
  rw [← Server.init_behind hinit] at hlists
  exact hlists.trans (List.flatMap_congr fun fs _ => Server.calls_congr h.next s.disconnected fs)

theorem onTheWay_start (h : chain.Links ps) (inbox : List Server.Input)
    (hinit : Server.init bind cfg .new = some (s, cfg')) (r : Recorder) :
    onTheWay chain (start s r inbox) = allLists ps s inbox := putDataCalls_start h inbox hinit

theorem sent_allLists (ps : List Plugin) (hmulti : s.singleFile = false)
    (hinc : ∀ fs ∈ Server.connections false [] inbox, Increasing fs) :
    List.Forall₂ (Slot.Sent (Plugin.nextOf ps) s) (Server.places (Server.connections false [] inbox))
      (allLists ps s inbox) := s.calls_places hmulti hinc

theorem zeroFrom_allLists (hmulti : s.singleFile = false)
    (hinc : ∀ fs ∈ Server.connections false [] inbox, Increasing fs) :
    ∀ ls ∈ allLists ps s inbox, ZeroFrom s.channels.toNat ls := by
  intro ls hls
  obtain ⟨k, hk, hget⟩ := List.mem_iff_getElem.mp hls
  have hsent := sent_allLists ps hmulti hinc
  have hk' : k < (Server.places (Server.connections false [] inbox)).length := by rw [hsent.length_eq]; exact hk
  rw [← hget]
  exact Server.zeroFrom_sent (Server.putData_nextOf_subset ps) (hsent.get hk' hk)

theorem roomy_iff (hinit : Server.init bind cfg .new = some (s, cfg'))
    (hinc : ∀ fs ∈ Server.connections false [] inbox, Increasing fs) :
    (∀ ls ∈ allLists ps s inbox, ls.length ≤ 128) ↔ Roomy ps s (Server.connections false [] inbox) := by
  have hch : s.channels.toNat ≤ 128 := (Server.channels_le_of_init hinit).trans (by decide)
  have hone : ∀ fs ∈ Server.connections false [] inbox,
      (∀ ls ∈ s.disconnected.calls (Plugin.nextOf ps) fs, ls.length ≤ 128) ↔
        Plugin.clears ps = true ∨ ∀ n ∈ Server.laterGaps false 0 fs, n * s.channels.toNat ≤ 128 := fun fs hfs =>
    Server.length_calls_iff s.disconnected ps hch (Server.rising_of_increasing (hinc fs hfs))
  rw [allLists, List.forall_mem_flatMap, Roomy]
  constructor
  · intro h
    by_cases hclears : Plugin.clears ps = true
    · exact Or.inl hclears
    · exact Or.inr fun fs hfs => ((hone fs hfs).mp (h fs hfs)).resolve_left hclears
  · intro h fs hfs
    exact (hone fs hfs).mpr (h.imp_right fun hgaps => hgaps fs hfs)

theorem fits_of_roomy {slots : Nat} (hinit : Server.init bind cfg .new = some (s, cfg')) (h : Setup chain ps s slots)
    (hinc : ∀ fs ∈ Server.connections false [] inbox, Increasing fs)
    (hroomy : Roomy ps s (Server.connections false [] inbox)) : ∀ ls ∈ allLists ps s inbox, Fits slots ls := fun ls hls =>
  ⟨(roomy_iff hinit hinc).mpr hroomy ls hls, (zeroFrom_allLists h.multi hinc ls hls).of_le h.slots⟩

/-! ### The files -/

/-- What the thread has done at some moment: it recorded a first part of the lists, and did not leave the array. -/
theorem exec_recorded (env : Env) (hinit : Server.init bind cfg .new = some (s, cfg'))
    (h : Setup chain ps s (Recorder.init env cfg' .new).maxChans)
    (hinc : ∀ fs ∈ Server.connections false [] inbox, Increasing fs)
    (hroomy : Roomy ps s (Server.connections false [] inbox)) (acts : List Act) :
    ∃ lss, lss ++ onTheWay chain
          (Run.state (step chain env) (start s (Recorder.init env cfg' .new) inbox) acts) =
        allLists ps s inbox ∧
      (∀ ls ∈ lss, Fits (Recorder.init env cfg' .new).maxChans ls) ∧
      (∀ i, (Run.state (step chain env) (start s (Recorder.init env cfg' .new) inbox)
        acts).thread.runAt ≠ .crashed i) ∧
      Ran env (Recorder.init env cfg' .new)
        (Run.state (step chain env) (start s (Recorder.init env cfg' .new) inbox) acts).thread lss := by
  have hall := conserved (h.links.records h.recorder) env (start s (Recorder.init env cfg' .new) inbox) acts
  have hran := ran_state chain (start s (Recorder.init env cfg' .new) inbox)
    (ran_start env (Recorder.init env cfg' .new)) acts
  rw [onTheWay_start h.links inbox hinit] at hall
  rw [List.nil_append] at hran
  generalize recorded (Run.emits (step chain env) (start s (Recorder.init env cfg' .new) inbox) acts) =
    lss at hall hran
  have hfits : ∀ ls ∈ lss, Fits (Recorder.init env cfg' .new).maxChans ls := fun ls hls =>
    fits_of_roomy hinit h hinc hroomy ls (hall ▸ List.mem_append_left _ hls)
  refine ⟨lss, hall, hfits, fun i hi => ?_, hran⟩
  have hfail := hran.fails i hi
  have hpos : 0 < (Recorder.init env cfg' .new).maxChans := by
    rw [(fresh_init env cfg').2]
    exact (initMaxChans_bounds _).1
  have hsome := exec_fitting env (good_init env cfg') hpos hfits
  rw [hfail] at hsome
  cases hsome

end Whole

/-- The recorder behind the server, in a chain that the plugin manager has loaded. -/
def recorderChain : Chain := ⟨(Plugin.loaded [.server, .recorder]).nextPlugin, 2⟩

theorem links_recorderChain : recorderChain.Links [.recorder] := ⟨Plugin.linked_loaded (by decide), by decide, by decide⟩

/-- Two channels of 16 samples, and a file for each of them. -/
def twoFiles : RecorderConfig where
  tags tag :=
    if tag = "Record" then [⟨"files", "2"⟩]
    else if tag = "FrameData" then [⟨"channels", "2"⟩, ⟨"samplesPerChan", "16"⟩]
    else if tag = "Network" then [⟨"transport", "udp"⟩, ⟨"port", "1234"⟩]
    else []
  notFound := ""

theorem init_twoFiles : ∃ s cfg', Server.init (fun _ => true) twoFiles .new = some (s, cfg') ∧ s.channels = 2 ∧
    s.smplPerChan = 16 ∧ Setup recorderChain [.recorder] s (Recorder.init calm cfg' .new).maxChans := by
  obtain ⟨s, cfg', hinit⟩ := Server.init_of_udp (fun _ => true) twoFiles .new (by decide)
  obtain ⟨hsingle, hchannels, hsmpls, htags⟩ := Server.init_spec hinit
  have h2 : s.channels = 2 := by
    rw [hchannels]
    decide
  have h16 : s.smplPerChan = 16 := by
    rw [hsmpls]
    decide
  refine ⟨s, cfg', hinit, h2, h16, links_recorderChain, by decide, ?_, ?_, ?_, ?_⟩
  · rw [hsingle]
    decide
  · rw [h2, h16]
    decide
  · rw [h2]
    decide
  · rw [(fresh_init calm cfg').2, initMaxChans_eq, slotNumber_congr (congrFun htags _), h2]
    decide

/-- A frame that is audible on every channel. -/
def tone (counter : UInt32) : FrameData := ⟨counter, .replicate 512 7, .replicate 64 1, 0⟩

/-- The frames as one burst of datagrams. -/
def received (fs : List FrameData) : List Server.Input := [.readyRead (fs.map FrameData.toBytes)]

theorem connections_received {fs : List FrameData} (h : fs ≠ []) : Server.connections false [] (received fs) = [fs] := by
  rw [received, Server.connections, if_neg (by simpa using h), frames_map_toBytes]
  rfl

theorem heard_connection (s : Server) {fs : List FrameData} (h : Increasing fs) (i : Nat) :
    s.heard i (Server.places [fs]) = (List.range' 2 (lastNum fs - 1)).flatMap (s.kept fs i) := by
  have hplaces : Server.places [fs] = Server.placesTo fs (lastNum fs) := List.flatMap_singleton ..
  rw [hplaces]
  by_cases hne : fs = []
  · rw [hne]
    rfl
  · have hpos : 0 < lastNum fs := by
      obtain ⟨f, gs, rfl⟩ := List.exists_cons_of_ne_nil hne
      have hle := h.le_lastNum f List.mem_cons_self
      have hfirst := h.first f rfl
      omega
    obtain ⟨n, hn⟩ : ∃ n, lastNum fs = n + 1 := ⟨lastNum fs - 1, by omega⟩
    rw [hn, Nat.add_sub_cancel]
    exact s.heard_placesTo h hne i n

theorem connections_groups {groups : List (List Datagram)} (h : ∀ g ∈ groups, g ≠ []) (notified : Bool)
    (fs : List FrameData) :
    Server.connections notified fs (groups.map .readyRead) = [fs ++ frames groups.flatten] := by
  induction groups generalizing notified fs with
  | nil => exact congrArg (fun gs => [gs]) (List.append_nil fs).symm
  | cons g groups ih =>
    rw [List.map_cons, Server.connections, if_neg (h g List.mem_cons_self),
      ih fun g' hg' => h g' (List.mem_cons_of_mem g hg'), List.flatten_cons, frames_append, List.append_assoc]

/-- Where no order of the steps makes the thread leave the array, some order brings everything to `record`. -/
theorem exists_recorded {chain : Chain} {s : Server} {inbox : List Server.Input} {r : Recorder} (env : Env)
    (h : chain.Records)
    (hstands : ∀ acts i, (Run.state (step chain env) (start s r inbox) acts).thread.runAt ≠ .crashed i) :
    ∃ acts, onTheWay chain (Run.state (step chain env) (start s r inbox) acts) = [] := by
  obtain ⟨acts, hhandled⟩ := exists_handled h env (start s r inbox)
  have hran := ran_state chain (start s r inbox) (ran_start env r) acts
  obtain ⟨acts', hcount⟩ : ∃ acts' : List Act,
      (Run.state (step chain env) (start s r inbox) acts).thread.rest.length +
        (Run.state (step chain env) (start s r inbox) acts).thread.buffer.length + 3 ≤ acts'.count .run :=
    ⟨List.replicate _ .run, by rw [List.count_replicate_self]⟩
  have hend := settles chain hran hhandled hcount
  rw [← Run.state_append] at hend
  obtain ⟨⟨hin, hout⟩, hsettled⟩ := hend
  obtain ⟨hrest, hbuffer⟩ := hsettled.resolve_left fun ⟨i, hi⟩ => hstands (acts ++ acts') i hi
  refine ⟨acts ++ acts', ?_⟩
  rw [onTheWay, hrest, hbuffer, hin, hout]
  rfl

end Session
end Recd2
