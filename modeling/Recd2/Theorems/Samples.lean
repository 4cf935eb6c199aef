import Recd2.Theorems.Records

/-! Which samples reach the files. A slot's data is that of the blocks with a non-zero signal byte, less the
    blocks that open a file, and replacing files changes nothing about it. -/

namespace Recd2.Recorder

/-! ### Accepted and lost blocks -/

/-- The blocks that the lists have for a slot. -/
def blocksAt (lss : List QList) (i : Nat) : List SampleData := lss.filterMap (·[i]?)

/-- The samples of the blocks with a non-zero signal byte. -/
def acceptedSamples (bs : List SampleData) : List Int16 := (bs.filter (·.signal != 0)).flatMap SampleData.payload

/-- The blocks with a non-zero signal byte that find their slot closed: those behind a block with a zero signal
    byte, and the first one of a slot that is closed at the start. -/
def openingBlocks : Bool → List SampleData → List SampleData
  | _, [] => []
  | isOpen, b :: bs =>
    if b.signal = 0 then openingBlocks false bs
    else if isOpen then openingBlocks true bs
    else b :: openingBlocks true bs

theorem offered_gateInput (bs : List SampleData) :
    Gate.offered (bs.map gateInput) = (acceptedSamples bs).flatMap le16 := by
  induction bs with
  | nil => rfl
  | cons b bs ih =>
    have hcons : Gate.offered ((b :: bs).map gateInput) = (gateInput b).getD [] ++ Gate.offered (bs.map gateInput) := rfl
    rw [hcons, ih, gateInput]
    by_cases hb : b.signal = 0
    · simp [acceptedSamples, hb]
    · simp [acceptedSamples, hb, List.flatMap_append]

theorem openers_gateInput (isOpen : Bool) (bs : List SampleData) :
    Gate.openers isOpen (bs.map gateInput) = (openingBlocks isOpen bs).map fun b => b.payload.flatMap le16 := by
  induction bs generalizing isOpen with
  | nil => rfl
  | cons b bs ih =>
    rw [List.map_cons, openingBlocks, gateInput]
    by_cases hb : b.signal = 0
    · rw [if_pos hb, if_pos hb, ← ih, Gate.openers]
    · rw [if_neg hb, if_neg hb]
      cases isOpen with
      | true => exact ih true
      | false => exact congrArg (b.payload.flatMap le16 :: ·) (ih true)

theorem flatMap_le16_eq_nil_iff {xs : List Int16} : xs.flatMap le16 = [] ↔ xs = [] := by
  cases xs with
  | nil => exact iff_of_true rfl rfl
  | cons x xs => exact iff_of_false (by simp [le16, Bytes.toLE]) (List.cons_ne_nil x xs)

theorem data_records {env : Env} (henv : env.Opens) (cfg : RecorderConfig) {lss : List QList}
    (hlen : ∀ sd ∈ lss, sd.length ≤ (init env cfg new).maxChans) :
    ∃ r, Run.exec (step env) (init env cfg new) (lss.map .record) = some r ∧
      r.maxChans = (init env cfg new).maxChans ∧
      ∀ i, r.disk.data i = Gate.gained false ((blocksAt lss i).map gateInput) := by
  have hfits : ∀ op ∈ lss.map Op.record, op.Fits (init env cfg new).maxChans := by
    intro op hop
    obtain ⟨sd, hsd, rfl⟩ := List.mem_map.mp hop
    intro sd' hsd'
    rw [List.mem_singleton.mp hsd']
    exact hlen sd hsd
  have hlists : lists (lss.map Op.record) = lss := by
    rw [lists, List.flatMap_map]
    exact List.flatMap_singleton' lss
  obtain ⟨r, hrun, hr⟩ := exec_spec env (good_init env cfg) hfits
  refine ⟨r, hrun, hr.maxChans, fun i => ?_⟩
  have hview : r.view i = (Gate.mk false []).run (inputs lss i) := by
    rw [hr.views henv i, view_init, hlists]
  calc r.disk.data i = (r.view i).passed := rfl
    _ = [] ++ Gate.gained false (inputs lss i) := by rw [hview, Gate.passed_run]
    _ = Gate.gained false ((blocksAt lss i).map gateInput) := List.nil_append _

/-- Slot `i` has all samples of the blocks with a non-zero signal byte exactly when the blocks that open its
    files have no samples. -/
theorem samples_kept_iff (env : Env) (henv : env.Opens) (cfg : RecorderConfig) (lss : List QList)
    (hlen : ∀ sd ∈ lss, sd.length ≤ (init env cfg new).maxChans) :
    ∃ r, Run.exec (step env) (init env cfg new) (lss.map .record) = some r ∧
      ∀ i, r.disk.data i = (acceptedSamples (blocksAt lss i)).flatMap le16 ↔
        ∀ b ∈ openingBlocks false (blocksAt lss i), b.payload = [] := by
  obtain ⟨r, hrun, -, hdata⟩ := data_records henv cfg hlen
  refine ⟨r, hrun, fun i => ?_⟩
  rw [hdata, ← offered_gateInput, Gate.gained_eq_offered_iff, openers_gateInput, List.forall_mem_map]
  exact forall₂_congr fun b _ => flatMap_le16_eq_nil_iff

/-- A block of one sample for the only slot opens its file, and is not in it. -/
def openingBlock : SampleData := ⟨1, [7], 1⟩

theorem samples_kept_iff_calm :
    ∃ r, Run.exec (step calm) (init calm .new new) ([[openingBlock]].map .record) = some r ∧
      ∀ i, r.disk.data i = (acceptedSamples (blocksAt [[openingBlock]] i)).flatMap le16 ↔
        ∀ b ∈ openingBlocks false (blocksAt [[openingBlock]] i), b.payload = [] :=
  samples_kept_iff calm (fun _ => rfl) .new [[openingBlock]] (by rw [maxChans_calm]; decide)

theorem samples_counterexample :
    ¬∀ (env : Env) (cfg : RecorderConfig) (lss : List QList), env.Opens →
      (∀ sd ∈ lss, sd.length ≤ (init env cfg new).maxChans) →
      ∀ r, Run.exec (step env) (init env cfg new) (lss.map .record) = some r →
        ∀ i < r.maxChans, r.disk.data i = (acceptedSamples (blocksAt lss i)).flatMap le16 := by
  intro h
  have hlen : ∀ sd ∈ [[openingBlock]], sd.length ≤ (init calm .new new).maxChans := by
    rw [maxChans_calm]
    decide
  obtain ⟨r, hrun, hchans, hdata⟩ := data_records (fun _ => rfl) .new hlen
  have hkept := h calm .new [[openingBlock]] (fun _ => rfl) hlen r hrun 0 (by rw [hchans, maxChans_calm]; decide)
  rw [hdata] at hkept
  revert hkept
  decide

/-! ### Rotation -/

/-- The slot has a file that is open. -/
def isOpen (r : Recorder) (i : Nat) : Bool := (r.wav? i).any (·.isOpened)

theorem Good.withSwap {r : Recorder} (h : r.Good) (sizeBased : Bool) (maxFileSize : UInt32) :
    { r with sizeBased := sizeBased, maxFileSize := maxFileSize }.Good :=
  ⟨⟨h.inv.slots, h.inv.dropped⟩, ⟨h.ready.chans, h.ready.alloc⟩⟩

theorem lists_map_record (ops : List Op) : lists ((lists ops).map .record) = lists ops := by
  rw [lists, List.flatMap_map]
  exact List.flatMap_singleton' _

theorem fits_map_record {ops : List Op} {n : Nat} (h : ∀ op ∈ ops, op.Fits n) :
    ∀ op ∈ (lists ops).map Op.record, op.Fits n := by
  intro op hop
  obtain ⟨sd, hsd, rfl⟩ := List.mem_map.mp hop
  obtain ⟨op', hop', hsd'⟩ := List.mem_flatMap.mp hsd
  intro sd' hmem
  rw [List.mem_singleton.mp hmem]
  exact h op' hop' sd hsd'

/-- The data and the open slots after each step of a run with swaps, by size or by time, are those of the run of
    its lists without. -/
theorem rotation_transparent (env env' : Env) (henv : env.Opens) (henv' : env'.Opens) (cfg : RecorderConfig)
    (sizeBased : Bool) (maxFileSize : UInt32) (ops : List Op)
    (hfits : ∀ op ∈ ops, op.Fits (init env cfg new).maxChans) (k : Nat) :
    ∃ a b, Run.exec (step env) { init env cfg new with sizeBased := sizeBased, maxFileSize := maxFileSize }
          (ops.take k) = some a ∧
      Run.exec (step env') { init env' cfg new with sizeBased := false } ((lists (ops.take k)).map .record) = some b ∧
      ∀ i, a.disk.data i = b.disk.data i ∧ a.isOpen i = b.isOpen i := by
  have hchans : (init env' cfg new).maxChans = (init env cfg new).maxChans := by
    rw [(fresh_init env' cfg).2, (fresh_init env cfg).2]
  have htake : ∀ op ∈ ops.take k, op.Fits (init env cfg new).maxChans := fun op hop =>
    hfits op (List.mem_of_mem_take hop)
  obtain ⟨a, ha, hviews⟩ := exec_spec env ((good_init env cfg).withSwap sizeBased maxFileSize) htake
  obtain ⟨b, hb, hviews'⟩ := exec_spec env' ((good_init env' cfg).withSwap false (init env' cfg new).maxFileSize)
    (fits_map_record (hchans.symm ▸ htake))
  refine ⟨a, b, ha, hb, fun i => ?_⟩
  have hview : a.view i = b.view i := by
    have hstart : ({ init env cfg new with sizeBased := sizeBased, maxFileSize := maxFileSize } : Recorder).view i =
        ⟨false, []⟩ := view_init env cfg i
    have hstart' : ({ init env' cfg new with sizeBased := false } : Recorder).view i = ⟨false, []⟩ := view_init env' cfg i
    rw [hviews.views henv i, hviews'.views henv' i, lists_map_record, hstart]
    exact congrArg (Gate.run · _) hstart'.symm
  exact ⟨congrArg Gate.passed hview, congrArg Gate.isOpen hview⟩

theorem rotation_transparent_calm :
    ∃ a b, Run.exec (step calm) { init calm .new new with sizeBased := true, maxFileSize := 44 }
          (([.record [openingBlock], .hotSwapFiles, .record [openingBlock]] : List Op).take 3) = some a ∧
      Run.exec (step calm) { init calm .new new with sizeBased := false }
          ((lists (([.record [openingBlock], .hotSwapFiles, .record [openingBlock]] : List Op).take 3)).map .record) =
        some b ∧
      ∀ i, a.disk.data i = b.disk.data i ∧ a.isOpen i = b.isOpen i :=
  rotation_transparent calm calm (fun _ => rfl) (fun _ => rfl) .new true 44
    [.record [openingBlock], .hotSwapFiles, .record [openingBlock]] (by
      rw [maxChans_calm]
      simp [Op.Fits, Op.lists]) 3

end Recd2.Recorder
