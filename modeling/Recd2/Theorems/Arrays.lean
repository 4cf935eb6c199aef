import Recd2.Theorems.Deletes
import Recd2.Theorems.Heard

/-! Whether `record` deletes each array once. A chain that leaves the lists hands the arrays of the first missing frame on
    with those of the second, and `record` deletes them another time. -/

namespace Recd2

/-! ### Ranges of numbers -/

/-- The list has the numbers from `a` on below `b`, each at least once. -/
def Fills (a b : Nat) (xs : List Nat) : Prop := ∀ x, x ∈ xs ↔ a ≤ x ∧ x < b

section Fills
variable {a b c : Nat} {xs ys : List Nat}

theorem fills_range' (a n : Nat) : Fills a (a + n) (List.range' a n) := fun _ => List.mem_range'_1

theorem Fills.append (h : Fills a b xs) (h' : Fills b c ys) (hab : a ≤ b) (hbc : b ≤ c) : Fills a c (xs ++ ys) := by
  intro x
  rw [List.mem_append, h x, h' x]
  omega

/-- Ranges one behind the other have no number in common. -/
theorem Fills.nodup_append_iff (h : Fills a b xs) (h' : Fills b c ys) : (xs ++ ys).Nodup ↔ xs.Nodup ∧ ys.Nodup := by
  have hdisj : ∀ x ∈ xs, ∀ y ∈ ys, x ≠ y := by
    intro x hx y hy
    have := (h x).mp hx
    have := (h' y).mp hy
    omega
  rw [List.nodup_append]
  tauto

end Fills

namespace Server

theorem arraysOf_append (lss mss : List (List Block)) : arraysOf (lss ++ mss) = arraysOf lss ++ arraysOf mss := List.flatMap_append

theorem arraysOf_singleton (ls : List Block) : arraysOf [ls] = ls.filterMap Block.samples := List.flatMap_singleton ..

theorem samples_newBlocks (top : Nat) (ls : QList) : (newBlocks top ls).filterMap Block.samples = List.range' top ls.length := by
  rw [newBlocks, List.filterMap_map, ← List.zipIdx_map_snd, ← List.filterMap_eq_map]
  rfl

theorem data_newBlocks (top : Nat) (ls : QList) : (newBlocks top ls).map Block.data = ls := by
  rw [newBlocks, List.map_map]
  exact List.zipIdx_map_fst ..

/-! ### The loop over the missing frames -/

section Loop
variable (blocks : QList) (n top : Nat)

theorem data_errLoopBlocks (ps : List Plugin) (pre : List Block) :
    (errLoopBlocks (Plugin.clears ps) blocks n top pre).map (·.map Block.data) =
      errLoop (Plugin.nextOf ps) blocks n (pre.map Block.data) := by
  induction n generalizing top pre with
  | zero => rfl
  | succ n ih =>
    have hlist : (pre ++ newBlocks top blocks).map Block.data = pre.map Block.data ++ blocks := by
      rw [List.map_append, data_newBlocks]
    have hput : (putBlocks (Plugin.clears ps) (pre ++ newBlocks top blocks)).map Block.data =
        putData (Plugin.nextOf ps) (pre.map Block.data ++ blocks) := by
      rw [Plugin.putData_nextOf, putBlocks, ← hlist]
      split <;> rfl
    rw [errLoopBlocks, errLoop, List.map_cons, ih, hlist, hput]

/-- With a chain that clears the lists, each array is in one of them. -/
theorem arraysOf_of_clears : arraysOf (errLoopBlocks true blocks n top []) = List.range' top (n * blocks.length) := by
  induction n generalizing top with
  | zero => rw [Nat.zero_mul]; rfl
  | succ n ih =>
    have hput : putBlocks true ([] ++ newBlocks top blocks) = [] := rfl
    have hcons : arraysOf (errLoopBlocks true blocks (n + 1) top []) =
        (newBlocks top blocks).filterMap Block.samples ++ arraysOf (errLoopBlocks true blocks n (top + blocks.length) []) := rfl
    rw [hcons, ih, samples_newBlocks, List.range'_append_1, Nat.succ_mul, Nat.add_comm blocks.length]

theorem mem_arraysOf_errLoopBlocks (pre : List Block) (x : Nat) :
    x ∈ arraysOf (errLoopBlocks false blocks n top pre) ↔
      (n ≠ 0 ∧ x ∈ pre.filterMap Block.samples) ∨ (top ≤ x ∧ x < top + n * blocks.length) := by
  induction n generalizing top pre with
  | zero =>
    rw [Nat.zero_mul]
    refine iff_of_false (fun hx => (by cases hx)) ?_
    omega
  | succ n ih =>
    have hcons : arraysOf (errLoopBlocks false blocks (n + 1) top pre) = (pre ++ newBlocks top blocks).filterMap Block.samples ++
        arraysOf (errLoopBlocks false blocks n (top + blocks.length) (pre ++ newBlocks top blocks)) := rfl
    rw [hcons, List.mem_append, ih, List.filterMap_append, List.mem_append, samples_newBlocks, List.mem_range'_1,
      Nat.succ_mul]
    generalize n * blocks.length = k
    constructor
    · rintro ((hx | hx) | ⟨-, hx | hx⟩ | hx)
      · exact Or.inl ⟨Nat.succ_ne_zero n, hx⟩
      · exact Or.inr (by omega)
      · exact Or.inl ⟨Nat.succ_ne_zero n, hx⟩
      · exact Or.inr (by omega)
      · exact Or.inr (by omega)
    · rintro (⟨-, hx⟩ | hx)
      · exact Or.inl (Or.inl hx)
      · by_cases hlt : x < top + blocks.length
        · exact Or.inl (Or.inr (by omega))
        · exact Or.inr (Or.inr (by omega))

theorem fills_errLoopBlocks (clears : Bool) :
    Fills top (top + n * blocks.length) (arraysOf (errLoopBlocks clears blocks n top [])) := by
  cases clears with
  | true =>
    rw [arraysOf_of_clears]
    exact fills_range' top _
  | false =>
    intro x
    rw [mem_arraysOf_errLoopBlocks]
    exact or_iff_right fun h => List.not_mem_nil h.2

/-- With a chain that leaves the lists, the arrays of the first missing frame are in the second list too. -/
theorem nodup_errLoopBlocks_iff (clears : Bool) (hpos : 0 < blocks.length) :
    (arraysOf (errLoopBlocks clears blocks n top [])).Nodup ↔ clears = true ∨ n ≤ 1 := by
  cases clears with
  | true =>
    rw [arraysOf_of_clears]
    exact iff_of_true List.nodup_range' (Or.inl rfl)
  | false =>
    rw [or_iff_right Bool.false_ne_true]
    match n with
    | 0 => exact iff_of_true List.nodup_nil (by decide)
    | 1 =>
      have hone : arraysOf (errLoopBlocks false blocks 1 top []) = List.range' top blocks.length ++ [] := by
        rw [← samples_newBlocks]
        rfl
      rw [hone, List.append_nil]
      exact iff_of_true List.nodup_range' (Nat.le_refl 1)
    | k + 2 =>
      refine iff_of_false (fun hnodup => ?_) (by omega)
      have hcons : arraysOf (errLoopBlocks false blocks (k + 2) top []) = (newBlocks top blocks).filterMap Block.samples ++
          arraysOf (errLoopBlocks false blocks (k + 1) (top + blocks.length) (newBlocks top blocks)) := rfl
      have hfirst : top ∈ (newBlocks top blocks).filterMap Block.samples := by
        rw [samples_newBlocks, List.mem_range'_1]
        omega
      rw [hcons, List.nodup_append] at hnodup
      exact hnodup.2.2 top hfirst top
        ((mem_arraysOf_errLoopBlocks blocks (k + 1) _ _ top).mpr (Or.inl ⟨Nat.succ_ne_zero k, hfirst⟩)) rfl

end Loop

/-! ### One frame -/

variable {s : Server} {f : FrameData} (ps : List Plugin) (top : Nat)

theorem data_sendsBlocks :
    (s.sendsBlocks (Plugin.clears ps) top f).map (·.map Block.data) = s.sends (Plugin.nextOf ps) f := by
  rw [sendsBlocks, sends, errLists]
  split
  · split
    · rw [List.map_singleton, data_newBlocks]
    · rw [data_errLoopBlocks]
      rfl
  · rw [List.map_singleton, data_newBlocks]

theorem fills_sendsBlocks (clears : Bool) :
    Fills top (top + s.allocates f) (arraysOf (s.sendsBlocks clears top f)) := by
  rw [sendsBlocks, allocates]
  split
  · split
    · rw [arraysOf_singleton, samples_newBlocks]
      exact fills_range' top _
    · exact fills_errLoopBlocks _ _ top clears
  · rw [arraysOf_singleton, samples_newBlocks]
    exact fills_range' top _

/-! ### The frames of a connection -/

theorem data_callsBlocks (s : Server) (fs : List FrameData) :
    (s.callsBlocks (Plugin.clears ps) top fs).1.map (·.map Block.data) = s.calls (Plugin.nextOf ps) fs := by
  induction fs generalizing s top with
  | nil => rfl
  | cons f fs ih =>
    rw [callsBlocks, calls, List.map_append, data_sendsBlocks, ih, handleFrame_fst]

theorem fills_callsBlocks (clears : Bool) (s : Server) (fs : List FrameData) :
    top ≤ (s.callsBlocks clears top fs).2 ∧
      Fills top (s.callsBlocks clears top fs).2 (arraysOf (s.callsBlocks clears top fs).1) := by
  induction fs generalizing s top with
  | nil => exact ⟨Nat.le_refl top, fun x => iff_of_false (fun hx => (by cases hx)) (by simp [callsBlocks])⟩
  | cons f fs ih =>
    obtain ⟨hle, hfills⟩ := ih (top + s.allocates f) (handleFrame none s f).1
    rw [callsBlocks]
    refine ⟨(Nat.le_add_right _ _).trans hle, ?_⟩
    rw [arraysOf_append]
    exact (fills_sendsBlocks top clears).append hfills (Nat.le_add_right _ _) hle

/-- No array of a connection is freed twice exactly when the chain clears the lists or each gap behind the first one
    is a single frame. -/
theorem nodup_callsBlocks_iff (clears : Bool) (s : Server) (hpos : 0 < s.channels.toNat) {fs : List FrameData}
    (h : Rising s.connInfo.paketCounter.toNat fs) :
    (arraysOf (s.callsBlocks clears top fs).1).Nodup ↔ clears = true ∨
      ∀ n ∈ laterGaps s.connInfo.onetimeSynch s.connInfo.paketCounter.toNat fs, n ≤ 1 := by
  induction fs generalizing s top with
  | nil =>
    have hnone : laterGaps s.connInfo.onetimeSynch s.connInfo.paketCounter.toNat [] = [] := by
      rw [laterGaps, gapsFrom]
      split <;> rfl
    rw [hnone]
    exact iff_of_true List.nodup_nil (Or.inr fun _ hn => by cases hn)
  | cons f fs ih =>
    obtain ⟨hlt, hb, hrest⟩ := h
    have hcounter : (s.after [f]).connInfo.paketCounter.toNat = f.num := by
      have heq : (s.after [f]).connInfo.paketCounter = f.counter := ConnInfo.paketCounter_receive s.connInfo f.counter
      rw [heq]
      rfl
    have hlater := ih (top + s.allocates f) (s.after [f]) hpos (by rw [hcounter]; exact hrest)
    have hsplit := (fills_sendsBlocks (s := s) (f := f) top clears).nodup_append_iff
      (fills_callsBlocks (top + s.allocates f) clears (s.after [f]) fs).2
    rw [hcounter] at hlater
    rw [callsBlocks, arraysOf_append, handleFrame_fst, hsplit, hlater, laterGaps, laterGaps, gapsFrom]
    by_cases hnext : f.num = s.connInfo.paketCounter.toNat + 1
    · have heq : f.counter = s.connInfo.paketCounter + 1 := (counter_eq_iff_of_lt hlt).mpr hnext
      have hsynch : (s.after [f]).connInfo.onetimeSynch = s.connInfo.onetimeSynch := by
        have hconn : (s.after [f]).connInfo = s.connInfo.receive f.counter := rfl
        rw [hconn, ConnInfo.receive_next _ _ heq]
      have hone : (arraysOf (s.sendsBlocks clears top f)).Nodup := by
        rw [sendsBlocks, if_neg (not_not_intro heq), arraysOf_singleton, samples_newBlocks]
        exact List.nodup_range'
      rw [if_pos hnext, hsynch]
      exact and_iff_right hone
    · have hne : f.counter ≠ s.connInfo.paketCounter + 1 := mt (counter_eq_iff_of_lt hlt).mp hnext
      have hsynch' : (s.after [f]).connInfo.onetimeSynch = true :=
        congrArg ConnInfo.onetimeSynch (s.connInfo.receive_desynch f.counter hne)
      rw [sendsBlocks, if_pos hne, if_neg hnext, hsynch', if_pos rfl, List.tail_cons]
      cases hsynch : s.connInfo.onetimeSynch with
      | true =>
        have herrs : (s.connInfo.errs f.counter).toInt.toNat = f.num - (s.connInfo.paketCounter.toNat + 1) :=
          errs_of_lt hlt hb
        rw [Bool.not_true, if_neg Bool.false_ne_true, if_pos rfl,
          nodup_errLoopBlocks_iff _ _ _ clears (by rwa [length_errBlocks]), herrs, List.forall_mem_cons]
        tauto
      | false =>
        have hone : (arraysOf [newBlocks top s.errBlocks]).Nodup := by
          rw [arraysOf_singleton, samples_newBlocks]
          exact List.nodup_range'
        rw [Bool.not_false, if_pos rfl, if_neg Bool.false_ne_true]
        exact and_iff_right hone

/-! ### All connections -/

theorem data_connectionsBlocks (s : Server) (css : List (List FrameData)) :
    (s.connectionsBlocks (Plugin.clears ps) top css).1.map (·.map Block.data) =
      css.flatMap (s.disconnected.calls (Plugin.nextOf ps)) := by
  induction css generalizing top with
  | nil => rfl
  | cons fs css ih => rw [connectionsBlocks, List.map_append, data_callsBlocks, ih, List.flatMap_cons]

theorem fills_connectionsBlocks (clears : Bool) (s : Server) (css : List (List FrameData)) :
    top ≤ (s.connectionsBlocks clears top css).2 ∧
      Fills top (s.connectionsBlocks clears top css).2 (arraysOf (s.connectionsBlocks clears top css).1) := by
  induction css generalizing top with
  | nil => exact ⟨Nat.le_refl top, fun x => iff_of_false (fun hx => (by cases hx)) (by simp [connectionsBlocks])⟩
  | cons fs css ih =>
    obtain ⟨hfirst, hfills⟩ := fills_callsBlocks top clears s.disconnected fs
    obtain ⟨hrest, hfills'⟩ := ih (s.disconnected.callsBlocks clears top fs).2
    rw [connectionsBlocks]
    refine ⟨hfirst.trans hrest, ?_⟩
    rw [arraysOf_append]
    exact hfills.append hfills' hfirst hrest

theorem nodup_connectionsBlocks_iff (clears : Bool) (s : Server) (hpos : 0 < s.channels.toNat)
    {css : List (List FrameData)} (h : ∀ fs ∈ css, Increasing fs) :
    (arraysOf (s.connectionsBlocks clears top css).1).Nodup ↔
      clears = true ∨ ∀ fs ∈ css, ∀ n ∈ laterGaps false 0 fs, n ≤ 1 := by
  induction css generalizing top with
  | nil => exact iff_of_true List.nodup_nil (Or.inr fun _ hfs => by cases hfs)
  | cons fs css ih =>
    have hsplit := (fills_callsBlocks top clears s.disconnected fs).2.nodup_append_iff
      (fills_connectionsBlocks (s.disconnected.callsBlocks clears top fs).2 clears s css).2
    have hfirst := nodup_callsBlocks_iff top clears s.disconnected hpos
      (rising_of_increasing (h fs List.mem_cons_self))
    have hrest := ih (s.disconnected.callsBlocks clears top fs).2 fun gs hgs => h gs (List.mem_cons_of_mem fs hgs)
    rw [connectionsBlocks, arraysOf_append, hsplit, hfirst, hrest, List.forall_mem_cons]
    exact or_and_left.symm

/-! ### All blocks have arrays -/

/-- Each block has an array of its own. -/
def Owned (lss : List (List Block)) : Prop := ∀ ls ∈ lss, ∀ b ∈ ls, b.samples ≠ none

theorem Owned.append {lss mss : List (List Block)} (h : Owned lss) (h' : Owned mss) : Owned (lss ++ mss) := fun ls hls =>
  (List.mem_append.mp hls).elim (h ls) (h' ls)

theorem owned_newBlocks (ls : QList) : Owned [newBlocks top ls] := by
  intro bs hbs b hb
  rw [List.mem_singleton.mp hbs] at hb
  exact (mem_newBlocks hb).1

theorem owned_sendsBlocks (clears : Bool) : Owned (s.sendsBlocks clears top f) := by
  rw [sendsBlocks]
  split
  · split
    · exact owned_newBlocks top _
    · exact fun ls hls b hb => (mem_errLoopBlocks (fun _ hpre => absurd hpre List.not_mem_nil) b
        (List.mem_flatten_of_mem hls hb)).1
  · exact owned_newBlocks top _

theorem owned_callsBlocks (clears : Bool) (s : Server) (fs : List FrameData) : Owned (s.callsBlocks clears top fs).1 := by
  induction fs generalizing s top with
  | nil => exact fun ls hls => by cases hls
  | cons f fs ih => exact (owned_sendsBlocks top clears).append (ih _ _)

theorem owned_connectionsBlocks (clears : Bool) (s : Server) (css : List (List FrameData)) :
    Owned (s.connectionsBlocks clears top css).1 := by
  induction css generalizing top with
  | nil => exact fun ls hls => by cases hls
  | cons fs css ih => exact (owned_callsBlocks top clears s.disconnected fs).append (ih _)

end Server

/-! ### Sessions -/

namespace Session
open RecorderThread Recorder Server

theorem arraysOf_eq (lss : List (List Block)) : arraysOf lss = lss.flatten.filterMap Block.samples := by
  rw [arraysOf, List.filterMap_flatten, List.flatMap_def]

/-- With an array for each block, the lists can be deleted exactly when no array is there twice. -/
theorem deletable_iff {lss : List (List Block)} (h : Owned lss) : Deletable [] lss.flatten ↔ (arraysOf lss).Nodup := by
  rw [arraysOf_eq]
  refine ⟨fun hdel => hdel.once, fun honce => ⟨fun b hb => ?_, fun _ _ => List.not_mem_nil, honce⟩⟩
  obtain ⟨ls, hls, hb⟩ := List.mem_flatten.mp hb
  exact h ls hls b hb

theorem arraysOf_take_sublist (lss : List (List Block)) (k : Nat) : (arraysOf (lss.take k)).Sublist (arraysOf lss) := by
  conv_rhs => rw [← List.take_append_drop k lss, arraysOf_append]
  exact List.sublist_append_left _ _

section Whole
variable {env : Env} {bind : UInt16 → Bool} {cfg cfg' : RecorderConfig} {s : Server} {chain : Chain} {ps : List Plugin}
  {inbox : List Input}

/-- The lists of all connections, with the arrays. -/
def allBlocks (ps : List Plugin) (s : Server) (inbox : List Input) : List (List Block) :=
  (s.connectionsBlocks (Plugin.clears ps) 0 (connections false [] inbox)).1

/-- How many arrays the server allocates for them. -/
def allocated (ps : List Plugin) (s : Server) (inbox : List Input) : Nat :=
  (s.connectionsBlocks (Plugin.clears ps) 0 (connections false [] inbox)).2

theorem data_allBlocks (ps : List Plugin) (s : Server) (inbox : List Input) :
    (allBlocks ps s inbox).map (·.map Block.data) = allLists ps s inbox := data_connectionsBlocks ps 0 s _

/-- What the thread has passed to `record`, with the arrays. -/
def recordedBlocks (ps : List Plugin) (s : Server) (inbox : List Input) (calls : List RecordCall) : List (List Block) :=
  (allBlocks ps s inbox).take calls.length

/-- The lists recorded so far are the first ones, in every interleaving. -/
theorem recorded_eq (hinit : init bind cfg .new = some (s, cfg')) {slots : Nat} (h : Setup chain ps s slots)
    (env : Env) (r : Recorder) (acts : List Act) :
    recorded (Run.emits (step chain env) (start s r inbox) acts) =
      (recordedBlocks ps s inbox (Run.emits (step chain env) (start s r inbox) acts)).map (·.map Block.data) := by
  have hall := conserved (h.links.records h.recorder) env (start s r inbox) acts
  rw [onTheWay_start h.links inbox hinit, ← data_allBlocks] at hall
  rw [recordedBlocks, List.map_take, ← hall, ← length_recorded, List.take_left]

/-- In every interleaving, the thread passes a first part of the lists to `record`, and the calls go through, with the
    recorder as the thread has it and each array deleted once, exactly when the chain clears the lists or each gap of a
    connection behind its first one is a single frame. When all lists are recorded, all arrays are deleted. -/
theorem deleted_once_iff (env : Env) (chain : Chain) (ps : List Plugin) (bind : UInt16 → Bool)
    (cfg cfg' : RecorderConfig) (s : Server) (inbox : List Input) (hinit : init bind cfg .new = some (s, cfg'))
    (h : Setup chain ps s (Recorder.init env cfg' .new).maxChans)
    (hinc : ∀ fs ∈ connections false [] inbox, Increasing fs) :
    let session := Run.state (step chain env) (start s (Recorder.init env cfg' .new) inbox)
    let calls := Run.emits (step chain env) (start s (Recorder.init env cfg' .new) inbox)
    let deletes := fun acts =>
      Run.exec (recordBlocks env) (Recorder.init env cfg' .new, []) (recordedBlocks ps s inbox (calls acts))
    (∀ acts, recorded (calls acts) = (recordedBlocks ps s inbox (calls acts)).map (·.map Block.data)) ∧
      ((∀ acts, ∃ dead, deletes acts = some ((session acts).thread.recorder, dead)) ↔
        Plugin.clears ps = true ∨ ∀ fs ∈ connections false [] inbox, ∀ n ∈ laterGaps false 0 fs, n ≤ 1) ∧
      ∀ acts r dead, onTheWay chain (session acts) = [] → deletes acts = some (r, dead) →
        ∀ a, a ∈ dead ↔ a < allocated ps s inbox := by
  intro session calls deletes
  have hpos : 0 < s.channels.toNat := by
    rw [(init_spec hinit).2.1, initChannels_eq, ← initMaxChans_eq]
    exact (Recorder.initMaxChans_bounds _).1
  have hrecorded : ∀ acts, recorded (calls acts) = (recordedBlocks ps s inbox (calls acts)).map (·.map Block.data) :=
    recorded_eq hinit h env (Recorder.init env cfg' .new)
  have hdeletes : ∀ acts, deletes acts = (Run.exec (Recorder.step env) (Recorder.init env cfg' .new)
      ((recorded (calls acts)).map .record)).bind fun r =>
        (deleteAll [] (recordedBlocks ps s inbox (calls acts)).flatten).map fun dead => (r, dead) := fun acts => by
    rw [hrecorded acts]
    exact exec_recordBlocks env _ [] _
  have hran : ∀ acts, Ran env (Recorder.init env cfg' .new) (session acts).thread (recorded (calls acts)) :=
    fun acts => (List.nil_append (recorded (calls acts))) ▸
      ran_state chain (start s (Recorder.init env cfg' .new) inbox) (ran_start env (Recorder.init env cfg' .new)) acts
  have howned : ∀ k, Owned ((allBlocks ps s inbox).take k) := fun k ls hls =>
    owned_connectionsBlocks 0 (Plugin.clears ps) s _ ls (List.mem_of_mem_take hls)
  have hcomplete : ∀ acts, onTheWay chain (session acts) = [] →
      recordedBlocks ps s inbox (calls acts) = allBlocks ps s inbox := fun acts hempty => by
    have hall := conserved (h.links.records h.recorder) env (start s (Recorder.init env cfg' .new) inbox) acts
    rw [hempty, onTheWay_start h.links inbox hinit, List.append_nil, ← data_allBlocks] at hall
    have hlen := congrArg List.length hall
    rw [length_recorded, List.length_map] at hlen
    exact List.take_of_length_le hlen.ge
  have honce := nodup_connectionsBlocks_iff 0 (Plugin.clears ps) s hpos hinc
  refine ⟨hrecorded, ⟨fun hgoes => ?_, fun hcond acts => ?_⟩, fun acts r dead hempty hdone a => ?_⟩
  · -- Everything gets recorded in the end.
    have hstands : ∀ acts i, (session acts).thread.runAt ≠ .crashed i := fun acts i hi => by
      obtain ⟨dead, hdead⟩ := hgoes acts
      rw [hdeletes, (hran acts).fails i hi] at hdead
      cases hdead
    obtain ⟨acts, hempty⟩ := exists_recorded env (h.links.records h.recorder) hstands
    obtain ⟨dead, hdead⟩ := hgoes acts
    rw [hdeletes, Option.bind_eq_some_iff] at hdead
    obtain ⟨r, -, hdead⟩ := hdead
    obtain ⟨dead', hdead', -⟩ := Option.map_eq_some_iff.mp hdead
    have hdel := (deletable_iff (howned _)).mp (deleteAll_eq_some_iff.mp hdead').1
    rw [← honce]
    rwa [← recordedBlocks, hcomplete acts hempty] at hdel
  · have hroomy : Roomy ps s (connections false [] inbox) := hcond.imp_right fun hgaps fs hfs n hn => by
      have hle := Nat.mul_le_mul_right s.channels.toNat (hgaps fs hfs n hn)
      have hch := channels_le_of_init hinit
      omega
    obtain ⟨-, -, -, hstands, -⟩ := exec_recorded env hinit h hinc hroomy acts
    have hdel : Deletable [] (recordedBlocks ps s inbox (calls acts)).flatten :=
      (deletable_iff (howned _)).mpr ((honce.mpr hcond).sublist (arraysOf_take_sublist _ _))
    refine ⟨((recordedBlocks ps s inbox (calls acts)).flatten.filterMap Block.samples).reverse ++ [], ?_⟩
    rw [hdeletes, (hran acts).goes hstands, Option.bind_some, deleteAll_of_deletable hdel, Option.map_some]
  · rw [hdeletes, Option.bind_eq_some_iff] at hdone
    obtain ⟨r', -, hdone⟩ := hdone
    obtain ⟨dead', hdead', hpair⟩ := Option.map_eq_some_iff.mp hdone
    obtain ⟨-, rfl⟩ := Prod.mk.inj hpair
    obtain ⟨-, rfl⟩ := deleteAll_eq_some_iff.mp hdead'
    rw [List.append_nil, List.mem_reverse, ← arraysOf_eq, hcomplete acts hempty]
    exact ((fills_connectionsBlocks 0 (Plugin.clears ps) s (connections false [] inbox)).2 a).trans
      (and_iff_right (Nat.zero_le a))

/-- With the recorder at the end of the chain, the arrays of frame 4 are deleted with those of frame 5 again. -/
theorem deleted_once_iff_tones : ∃ s cfg', init (fun _ => true) twoFiles .new = some (s, cfg') ∧
    ∃ acts, ∀ dead, Run.exec (recordBlocks calm) (Recorder.init calm cfg' .new, [])
      (recordedBlocks [.recorder] s (received ([1, 3, 6].map tone)) (Run.emits (step recorderChain calm)
        (start s (Recorder.init calm cfg' .new) (received ([1, 3, 6].map tone))) acts)) ≠
      some ((Run.state (step recorderChain calm)
        (start s (Recorder.init calm cfg' .new) (received ([1, 3, 6].map tone))) acts).thread.recorder, dead) := by
  obtain ⟨s, cfg', hinit, -, -, hsetup⟩ := init_twoFiles
  have hone : connections false [] (received ([1, 3, 6].map tone)) = [[1, 3, 6].map tone] :=
    connections_received (by simp)
  have hinc : ∀ fs ∈ connections false [] (received ([1, 3, 6].map tone)), Increasing fs := by
    rw [hone]
    intro fs hfs
    rw [List.mem_singleton.mp hfs]
    exact ⟨by decide, by decide, by decide⟩
  refine ⟨s, cfg', hinit, ?_⟩
  by_contra hall
  push Not at hall
  have hgaps := (deleted_once_iff calm recorderChain [.recorder] (fun _ => true) twoFiles cfg' s
    (received ([1, 3, 6].map tone)) hinit hsetup hinc).2.1.mp hall
  rw [hone] at hgaps
  revert hgaps
  decide

end Whole
end Session
end Recd2
