import Recd2.Theorems.Deletes
import Recd2.Theorems.Moves

/-! The blocks of the three live producers as the recorder takes them. `record` writes as many samples as the size
    says, and only when the signal byte is not zero; then it deletes the array. -/

namespace Recd2
open Recorder

namespace Recorder
variable {env : Env} {r r' : Recorder} {i j : Nat} {s b : SampleData} {sd : QList}

/-! ### One slot during the loop of `record` -/

theorem BlockStep.slotStep (h : BlockStep env i s r r') (hr : r.Inv) : r' = r ∨ ∃ v, SlotStep i v r r' := by
  cases h with
  | none => exact Or.inl rfl
  | close hw => exact Or.inr ⟨_, (closeWav_step hr (lt_of_wav hw) hw).1⟩
  | write hw _ hopen => exact Or.inr ⟨_, (writeWav_step hr (lt_of_wav hw) hw hopen s).1⟩
  | reopen hw => exact Or.inr ⟨_, (swapWav_step env hr (lt_of_wav hw) hw).1⟩

theorem BlockStep.view_of_ne (h : BlockStep env i s r r') (hr : r.Inv) (hj : j ≠ i) : r'.view j = r.view j := by
  rcases h.slotStep hr with heq | ⟨v, hstep⟩
  · rw [heq]
  · exact hstep.view_of_ne hj

/-- A block for an open slot adds its payload, unless its signal byte is zero. -/
theorem BlockStep.data (h : BlockStep env i s r r') (hr : r.Inv) (hopen : r.isOpen i = true) :
    r'.disk.data i = r.disk.data i ++ (gateInput s).getD [] := by
  cases h with
  | none hw =>
    rw [isOpen, hw] at hopen
    cases hopen
  | close hw hs =>
    have hview := (closeWav_step hr (lt_of_wav hw) hw).1.view
    rw [gateInput, if_pos hs, Option.getD_none, List.append_nil]
    exact congrArg Gate.passed hview
  | write hw hs hw' =>
    have hview := (writeWav_step hr (lt_of_wav hw) hw hw' s).1.view
    rw [gateInput, if_neg hs, Option.getD_some]
    rw [Gate.step, if_pos (show (r.view i).isOpen = true from hopen)] at hview
    exact congrArg Gate.passed hview
  | reopen hw _ hclosed =>
    rw [isOpen, hw, Option.any_some, hclosed] at hopen
    cases hopen

/-- The loop does not come back to a slot. -/
theorem recordFrom_view_of_lt (h : r.Good) (hlen : i + sd.length ≤ r.maxChans) (hj : j < i)
    (hrecord : recordFrom env i sd r = some r') : r'.view j = r.view j := by
  induction sd generalizing i r with
  | nil =>
    cases hrecord
    rfl
  | cons s sd ih =>
    obtain ⟨r₁, hstep, hgood, hrest, heq⟩ := recordFrom_cons_spec env h hlen
    rw [heq] at hrecord
    rw [ih hgood hrest (by omega) hrecord, hstep.view_of_ne h.inv (by omega)]

theorem recordFrom_data (h : r.Good) (hlen : i + sd.length ≤ r.maxChans) (hij : i ≤ j) (hb : sd[j - i]? = some b)
    (hopen : r.isOpen j = true) :
    ∃ r', recordFrom env i sd r = some r' ∧ r'.disk.data j = r.disk.data j ++ (gateInput b).getD [] := by
  induction sd generalizing i r with
  | nil => cases hb
  | cons s sd ih =>
    obtain ⟨r₁, hstep, hgood, hrest, heq⟩ := recordFrom_cons_spec env h hlen
    rw [heq]
    rcases Nat.eq_or_lt_of_le hij with rfl | hlt
    · obtain ⟨r', hrecord, -⟩ := recordFrom_spec env sd hgood hrest
      rw [Nat.sub_self] at hb
      cases hb
      refine ⟨r', hrecord, ?_⟩
      rw [← hstep.data h.inv hopen]
      exact congrArg Gate.passed (recordFrom_view_of_lt hgood hrest (Nat.lt_succ_self i) hrecord)
    · have hview : r₁.view j = r.view j := hstep.view_of_ne h.inv (by omega)
      obtain ⟨n, hn⟩ : ∃ n, j - i = n + 1 := ⟨j - i - 1, by omega⟩
      have hn' : j - (i + 1) = n := by omega
      rw [hn, List.getElem?_cons_succ, ← hn'] at hb
      obtain ⟨r', hrecord, hdata⟩ := ih hgood hrest hlt hb ((congrArg Gate.isOpen hview).trans hopen)
      exact ⟨r', hrecord, hdata.trans (congrArg (·.passed ++ _) hview)⟩

/-- Replacing files neither loses nor adds sample data, whether or not `fopen` succeeds. -/
theorem swap_data {body : Recorder → Nat → Recorder} (hbody : Swaps env body) (h : r.Good) (i j : Nat) :
    (body r i).disk.data j = r.disk.data j := by
  rcases hbody r i with heq | ⟨w, hw, -, heq⟩
  · rw [heq]
  · obtain ⟨hstep, -⟩ := swapWav_step env h.inv (lt_of_wav hw) hw
    rw [heq]
    by_cases hj : j = i
    · rw [hj]
      exact congrArg Gate.passed hstep.view
    · exact congrArg Gate.passed (hstep.view_of_ne hj)

theorem polled_spec (env : Env) (h : r.Good) :
    (polled env r).Good ∧ (polled env r).maxChans = r.maxChans ∧ ∀ j, (polled env r).disk.data j = r.disk.data j := by
  rw [polled]
  split
  · refine Run.foldl_range (P := fun _ s => Good s ∧ s.maxChans = r.maxChans ∧ ∀ j, s.disk.data j = r.disk.data j)
      ⟨h, rfl, fun _ => rfl⟩ fun i s _ hs => ?_
    obtain ⟨hgood, hchans, hdata⟩ := hs
    have hround := swap_spec (pollSlot_swaps env) hgood i
    exact ⟨hround.good, hround.maxChans.trans hchans, fun j => (swap_data (pollSlot_swaps env) hgood i j).trans (hdata j)⟩
  · exact ⟨h, rfl, fun _ => rfl⟩

theorem record_data (h : r.Good) (hlen : sd.length ≤ r.maxChans) (hb : sd[i]? = some b)
    (hopen : (polled env r).isOpen i = true) :
    ∃ r', record env sd r = some r' ∧ r'.disk.data i = r.disk.data i ++ (gateInput b).getD [] := by
  obtain ⟨hgood, hchans, hdata⟩ := polled_spec env h
  have hsd : sd ≠ [] := by
    intro hnil
    rw [hnil] at hb
    cases hb
  obtain ⟨r', hrecord, hdata'⟩ :=
    recordFrom_data (i := 0) (j := i) hgood (by rw [hchans, Nat.zero_add]; exact hlen) (Nat.zero_le i) hb hopen
  exact ⟨r', by rw [record_eq hsd, hrecord], by rw [hdata', hdata]⟩

/-- The block `⟨1, [], 0⟩` opens the slot of the default configuration. -/
theorem exists_open : ∃ r : Recorder, r.Good ∧ r.maxChans = 1 ∧ (polled calm r).isOpen 0 = true ∧ r.disk.data 0 = [] := by
  have hlen : [SampleData.mk 1 [] 0].length ≤ (init calm .new new).maxChans := by rw [maxChans_calm]; rfl
  obtain ⟨r, -, hr⟩ := record_spec calm (good_init calm .new) hlen
  have hview : r.view 0 = ⟨true, []⟩ := by
    rw [hr.views (fun _ => rfl), view_init]
    rfl
  have hpolled : (polled calm r).view 0 = r.view 0 := by
    rw [polled]
    split
    · exact (swaps_spec (pollSlot_swaps calm) hr.good r.maxChans).views (fun _ => rfl) 0
    · rfl
  exact ⟨r, hr.good, hr.maxChans.trans maxChans_calm, congrArg Gate.isOpen (hpolled.trans hview),
    congrArg Gate.passed hview⟩

end Recorder

/-! ### Agreement about a block -/

/-- `record` gets the list for a recorder whose slot `i` is open as the loop begins, and `b` is the block of this slot.
    The arrays in the list are all there once and were not deleted before; only `b` may have its samples elsewhere. -/
structure Received (env : Env) (r : Recorder) (dead : List Nat) (sd : List Block) (i : Nat) (b : Block) : Prop where
  good : r.Good
  fits : sd.length ≤ r.maxChans
  block : sd[i]? = some b
  isOpen : (polled env r).isOpen i = true
  others : ∀ j c, sd[j]? = some c → j ≠ i → c.samples ≠ none
  alive : ∀ a ∈ sd.filterMap Block.samples, a ∉ dead
  once : (sd.filterMap Block.samples).Nodup

/-- When `record` gets the block for an open slot, the call goes through and the samples go to the slot's file. -/
def Appended (b : Block) : Prop :=
  ∀ (env : Env) (r : Recorder) (dead : List Nat) (sd : List Block) (i : Nat), Received env r dead sd i b →
    ∃ r' dead', recordBlocks env (r, dead) sd = some (r', dead') ∧
      r'.disk.data i = r.disk.data i ++ b.data.samples.flatMap le16

/-- The size is the number of samples behind the pointer, and `record` appends these. -/
structure Agrees (b : Block) : Prop where
  size : b.data.size.toNat = b.data.samples.length
  appended : Appended b

section Agreement
variable {env : Env} {r : Recorder} {dead : List Nat} {sd : List Block} {i : Nat} {b : Block}

/-- The call of `record`, whose arrays can be deleted when that of `b` is from `new`. -/
theorem Received.recordBlocks (h : Received env r dead sd i b) (hown : b.samples ≠ none) :
    ∃ r' dead', Recorder.recordBlocks env (r, dead) sd = some (r', dead') ∧
      r'.disk.data i = r.disk.data i ++ (gateInput b.data).getD [] := by
  have hdeletable : Deletable dead sd := by
    refine ⟨fun c hc => ?_, h.alive, h.once⟩
    obtain ⟨j, hj⟩ := List.mem_iff_getElem?.mp hc
    by_cases hji : j = i
    · rw [hji, h.block] at hj
      exact Option.some.inj hj ▸ hown
    · exact h.others j c hj hji
  have hblock : (sd.map Block.data)[i]? = some b.data := by rw [List.getElem?_map, h.block, Option.map_some]
  obtain ⟨r', hrecord, hdata⟩ := record_data h.good (by rw [List.length_map]; exact h.fits) hblock h.isOpen
  refine ⟨r', (sd.filterMap Block.samples).reverse ++ dead, ?_, hdata⟩
  rw [recordBlocks_eq, hrecord, Option.bind_some, deleteAll_of_deletable hdeletable, Option.map_some]

/-- A block for itself, for the slot of the default configuration. -/
theorem exists_received (b : Block) : ∃ r : Recorder, Received calm r [] [b] 0 b ∧ r.disk.data 0 = [] := by
  obtain ⟨r, hr, hchans, hopen, hempty⟩ := exists_open
  refine ⟨r, ⟨hr, by rw [hchans]; rfl, rfl, hopen, fun j c hj hne => ?_, fun a _ => List.not_mem_nil, ?_⟩, hempty⟩
  · rw [List.getElem?_singleton, if_neg hne] at hj
    cases hj
  · cases hb : b.samples with
    | none => rw [List.filterMap_cons_none hb]; exact List.nodup_nil
    | some a => rw [List.filterMap_cons_some hb]; exact List.nodup_singleton a

/-- `record` asks for an array from `new`, for the number of samples, and for a signal byte that is not zero. -/
theorem agrees_iff (b : Block) :
    Agrees b ↔ b.samples ≠ none ∧ b.data.size.toNat = b.data.samples.length ∧
      (b.data.signal = 0 → b.data.samples = []) := by
  constructor
  · intro h
    obtain ⟨r, hreceived, hempty⟩ := exists_received b
    obtain ⟨r₁, dead₁, hrecord, happended⟩ := h.appended _ _ _ _ _ hreceived
    have hown : b.samples ≠ none := fun hnone => by
      have hdelete : deleteAll [] [b] = some dead₁ := by
        rw [recordBlocks_eq, Option.bind_eq_some_iff] at hrecord
        obtain ⟨r₂, -, hpair⟩ := hrecord
        obtain ⟨dead₂, hdead₂, hpair⟩ := Option.map_eq_some_iff.mp hpair
        rw [hdead₂, (Prod.mk.inj hpair).2]
      exact (deleteAll_eq_some_iff.mp hdelete).1.own b (List.mem_singleton_self b) hnone
    refine ⟨hown, h.size, fun hs => ?_⟩
    obtain ⟨r₂, dead₂, hrecord', hdata⟩ := hreceived.recordBlocks hown
    rw [hrecord] at hrecord'
    obtain ⟨rfl, -⟩ := Prod.mk.inj (Option.some.inj hrecord')
    rw [hdata, gateInput, if_pos hs] at happended
    exact flatMap_le16_eq_nil_iff.mp (List.append_cancel_left happended).symm
  · rintro ⟨hown, hsize, hsignal⟩
    refine ⟨hsize, fun env r dead sd i hreceived => ?_⟩
    have hinput : (gateInput b.data).getD [] = b.data.samples.flatMap le16 := by
      rw [gateInput]
      by_cases hs : b.data.signal = 0
      · rw [if_pos hs, hsignal hs]
        rfl
      · rw [if_neg hs, Option.getD_some, SampleData.payload, hsize, List.take_length]
    rw [← hinput]
    exact hreceived.recordBlocks hown

end Agreement

/-! ### The producers -/

/-- A live producer with its input. `single` is the UDP handler in single-file mode, with the number of the next array
    and with a chain that clears the lists or not. -/
inductive Producer where
  | single (s : Server) (clears : Bool) (top : Nat) (udp : FrameData)
  | writer (s : Server) (t : FrameData)
  | capture (samples : List UInt8)

/-- The blocks that the producer builds, in all the lists that it sends. -/
def Producer.blocks : Producer → List Block
  | .single s clears top udp => ({ s with singleFile := true }.sendsBlocks clears top udp).flatten
  | .writer s t => TcpServer.Writer.workerBlocks s t
  | .capture samples => QCapDevice.readyReadBlocks samples

/-- The frame is the next one, or its gap has no fillers with samples. -/
def Producer.Unfilled (s : Server) (udp : FrameData) : Prop :=
  udp.counter = s.connInfo.paketCounter + 1 ∨ s.channels = 0 ∨ s.smplPerChan = 0 ∨
    (s.connInfo.onetimeSynch = true ∧ (s.connInfo.errs udp.counter).toInt ≤ 0)

/-- The single-file handler agrees when it sends no fillers with samples, and the writer when it has no samples. -/
def Producer.Agreeing : Producer → Prop
  | .single s _ _ udp => Producer.Unfilled s udp
  | .writer s _ => s.channels * s.smplPerChan = 0
  | .capture _ => False

theorem not_agrees_foreign {ls : QList} {b : Block} (hb : b ∈ foreign ls) : ¬Agrees b := fun h => by
  obtain ⟨c, -, rfl⟩ := List.mem_map.mp hb
  exact ((agrees_iff _).mp h).1 rfl

/-! #### The single-file handler -/

section Single
variable {s : Server} {clears : Bool} {top : Nat} {udp : FrameData}

/-- The blocks of the frame itself. -/
theorem agrees_frameList (s : Server) (top : Nat) (udp : FrameData) :
    ∀ b ∈ Server.newBlocks top ({ s with singleFile := true }.frameList udp), Agrees b := by
  intro b hb
  obtain ⟨hown, hdata⟩ := Server.mem_newBlocks hb
  rw [agrees_iff, List.mem_singleton.mp hdata]
  refine ⟨hown, ?_, fun hs => absurd hs (by simp)⟩
  rw [List.length_map, List.length_range]
  rfl

theorem length_samples_errBlocks {b : SampleData} (hb : b ∈ s.errBlocks) :
    b.samples.length = s.smplPerChan.toNat ∧ b.size = s.smplPerChan ∧ b.signal = 0 := by
  obtain ⟨i, -, rfl⟩ := List.mem_map.mp hb
  exact ⟨by rw [List.length_map, List.length_range], rfl, rfl⟩

/-- A filler has a zero signal byte, so `record` appends nothing of it. -/
theorem agrees_filler_iff {b : Block} (hown : b.samples ≠ none) (hb : b.data ∈ s.errBlocks) :
    Agrees b ↔ s.smplPerChan = 0 := by
  obtain ⟨hlen, hsize, hsignal⟩ := length_samples_errBlocks hb
  rw [agrees_iff, and_iff_right hown, hlen, hsize, and_iff_right rfl, imp_iff_right hsignal, ← List.length_eq_zero_iff, hlen,
    ← UInt32.toNat_inj]
  rfl

theorem errBlocks_eq_nil_iff (s : Server) : s.errBlocks = [] ↔ s.channels = 0 := by
  rw [Server.errBlocks, deinterleave, List.map_eq_nil_iff, List.range_eq_nil, ← UInt32.toNat_inj]
  rfl

/-- In a gap, all blocks are fillers, and there is one for each channel when there is a list. -/
theorem filler_sendsBlocks (hne : udp.counter ≠ s.connInfo.paketCounter + 1) :
    (∀ b ∈ (s.sendsBlocks clears top udp).flatten, b.samples ≠ none ∧ b.data ∈ s.errBlocks) ∧
      ((s.sendsBlocks clears top udp).flatten = [] ↔ s.channels = 0 ∨
        (s.connInfo.onetimeSynch = true ∧ (s.connInfo.errs udp.counter).toInt ≤ 0)) := by
  have hnil : ∀ xs : List Block, Server.newBlocks top s.errBlocks ++ xs = [] → s.channels = 0 := fun xs h => by
    have hnew := (List.append_eq_nil_iff.mp h).1
    rwa [Server.newBlocks, List.map_eq_nil_iff, List.zipIdx_eq_nil_iff, errBlocks_eq_nil_iff] at hnew
  have hnone : s.channels = 0 → ∀ b ∈ (s.sendsBlocks clears top udp).flatten, b.data ∉ s.errBlocks := fun h b _ hb => by
    rw [(errBlocks_eq_nil_iff s).mpr h] at hb
    cases hb
  rw [Server.sendsBlocks, if_pos hne] at hnone ⊢
  cases hsynch : s.connInfo.onetimeSynch with
  | false =>
    rw [hsynch] at hnone
    simp only [Bool.not_false, if_true, List.flatten_cons, List.flatten_nil, Bool.false_eq_true, false_and, or_false]
      at hnone ⊢
    have hmem : ∀ b ∈ Server.newBlocks top s.errBlocks ++ [], b.samples ≠ none ∧ b.data ∈ s.errBlocks := fun b hb =>
      Server.mem_newBlocks (by rwa [List.append_nil] at hb)
    exact ⟨hmem, hnil [], fun h => List.eq_nil_iff_forall_not_mem.mpr fun b hb => hnone h b hb (hmem b hb).2⟩
  | true =>
    rw [hsynch] at hnone
    simp only [Bool.not_true, Bool.false_eq_true, if_false, true_and] at hnone ⊢
    have hmem := @Server.mem_errLoopBlocks clears s.errBlocks (s.connInfo.errs udp.counter).toInt.toNat top []
      fun b hb => absurd hb List.not_mem_nil
    refine ⟨hmem, fun h => ?_, fun h => List.eq_nil_iff_forall_not_mem.mpr fun b hb => ?_⟩
    · by_cases hle : (s.connInfo.errs udp.counter).toInt ≤ 0
      · exact Or.inr hle
      · obtain ⟨n, hn⟩ : ∃ n, (s.connInfo.errs udp.counter).toInt.toNat = n + 1 :=
          Nat.exists_eq_succ_of_ne_zero (by omega)
        rw [hn] at h
        exact Or.inl (hnil _ h)
    · rcases h with h | hle
      · exact hnone h b hb (hmem b hb).2
      · rw [Int.toNat_of_nonpos hle] at hb
        cases hb

theorem agrees_single_iff (s : Server) (clears : Bool) (top : Nat) (udp : FrameData) :
    (∀ b ∈ (Producer.single s clears top udp).blocks, Agrees b) ↔ Producer.Unfilled s udp := by
  rw [Producer.blocks, Producer.Unfilled]
  by_cases hnext : udp.counter = s.connInfo.paketCounter + 1
  · refine iff_of_true (fun b hb => agrees_frameList s top udp b ?_) (Or.inl hnext)
    have hlists : ({ s with singleFile := true } : Server).sendsBlocks clears top udp =
        [Server.newBlocks top ({ s with singleFile := true }.frameList udp)] := if_neg (not_not_intro hnext)
    rwa [hlists, List.flatten_singleton] at hb
  · obtain ⟨hmem, hnil⟩ := @filler_sendsBlocks { s with singleFile := true } clears top udp hnext
    rw [or_iff_right hnext]
    constructor
    · intro h
      by_cases hempty : ({ s with singleFile := true }.sendsBlocks clears top udp).flatten = []
      · exact (hnil.mp hempty).imp_right Or.inr
      · obtain ⟨b, hb⟩ := List.exists_mem_of_ne_nil _ hempty
        exact Or.inr (Or.inl ((agrees_filler_iff (hmem b hb).1 (hmem b hb).2).mp (h b hb)))
    · rintro (h | h | h) b hb
      · rw [hnil.mpr (Or.inl h)] at hb
        cases hb
      · exact (agrees_filler_iff (hmem b hb).1 (hmem b hb).2).mpr h
      · rw [hnil.mpr (Or.inr h)] at hb
        cases hb

end Single

/-! #### The writer and the capture device -/

/-- The writer builds a block as soon as there is a sample to take. -/
theorem worker_ne_nil {s : Server} {t : FrameData} (h : s.channels * s.smplPerChan ≠ 0) :
    TcpServer.Writer.worker s t ≠ [] := by
  obtain ⟨n, hn⟩ : ∃ n, (s.channels * s.smplPerChan).toNat = n + 1 :=
    Nat.exists_eq_succ_of_ne_zero fun hzero => h (UInt32.toNat_inj.mp hzero)
  rw [TcpServer.Writer.worker, TcpServer.Writer.shared, Ne, List.map_eq_nil_iff, hn, TcpServer.Writer.blocks,
    if_pos (Nat.succ_pos n)]
  exact List.cons_ne_nil _ _

/-- No block of the writer agrees. -/
theorem agrees_writer_iff (s : Server) (t : FrameData) :
    (∀ b ∈ (Producer.writer s t).blocks, Agrees b) ↔ s.channels * s.smplPerChan = 0 := by
  constructor
  · intro h
    by_contra hne
    obtain ⟨c, hc⟩ := List.exists_mem_of_ne_nil _ (worker_ne_nil (t := t) hne)
    have hb : Block.mk c none ∈ foreign (TcpServer.Writer.worker s t) := List.mem_map_of_mem hc
    exact not_agrees_foreign hb (h _ hb)
  · intro hzero b hb
    have hmax : (s.channels * s.smplPerChan).toNat = 0 := by rw [hzero]; rfl
    rw [Producer.blocks, TcpServer.Writer.workerBlocks, TcpServer.Writer.worker, hmax] at hb
    cases hb

/-- The capture device always builds a block, and its samples are not from `new`. -/
theorem not_agrees_capture (samples : List UInt8) : ¬∀ b ∈ (Producer.capture samples).blocks, Agrees b := fun h => by
  have hb : Block.mk ⟨0, QCapDevice.shorts samples, UInt32.ofNat samples.length⟩ none ∈
      (Producer.capture samples).blocks := List.mem_map_of_mem List.mem_cons_self
  exact not_agrees_foreign hb (h _ hb)

/-- Every block of a producer agrees exactly when the producer is the single-file handler and sends no fillers with
    samples, or the writer and has no samples. -/
theorem producers_agree_iff (p : Producer) : (∀ b ∈ p.blocks, Agrees b) ↔ p.Agreeing := by
  cases p with
  | single s clears top udp => exact agrees_single_iff s clears top udp
  | writer s t => exact agrees_writer_iff s t
  | capture samples => exact iff_of_false (not_agrees_capture samples) not_false

theorem producers_counterexample : ¬∀ (p : Producer), ∀ b ∈ p.blocks, Agrees b := fun h =>
  not_agrees_capture [1, 2] (h (.capture [1, 2]))

end Recd2
