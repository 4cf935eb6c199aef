import Recd2.Theorems.Slots

/-! Runs of the recorder. From the state that `Recorder::init` leaves, a run of recorded lists and swaps never
    fails as long as no list is longer than the slots, it keeps every slot in order and, when each `fopen`
    succeeds, each slot is the gate that its blocks make of it. -/

namespace Recd2

/-- Each `fopen` succeeds. -/
def Env.Opens (env : Env) : Prop := ∀ n, env.fopen n = true

namespace Recorder
variable {env : Env} {r r' : Recorder} {i : Nat}

/-- What each step relies on: the invariant of the recorder, and a `Wav` in every slot. -/
structure Good (r : Recorder) : Prop where
  inv : r.Inv
  ready : r.Ready

theorem Good.wav (h : r.Good) (hi : i < r.maxChans) : ∃ w, r.wav? i = some w :=
  Option.isSome_iff_exists.mp ((h.ready.alloc i).mpr hi)

theorem SlotStep.good {v : Gate UInt8} (h : SlotStep i v r r') (hr : r.Good) (hi : i < r.maxChans)
    (hsome : (r'.wav? i).isSome) : r'.Good := ⟨h.inv hr.inv, h.ready hr.ready hi hsome⟩

/-- The recorder stays good, and the slots become the given gates when each `fopen` succeeds. -/
structure Becomes (env : Env) (r r' : Recorder) (v : Nat → Gate UInt8) : Prop where
  good : r'.Good
  maxChans : r'.maxChans = r.maxChans
  views : env.Opens → ∀ j, r'.view j = v j

/-! ### One block -/

theorem slot_eq_of_wav {w : Wav} (hw : r.wav? i = some w) : r.wavs[i]? = some (some w) := by
  rw [wav?] at hw
  exact Option.join_eq_some_iff.mp hw

theorem recordBlock_spec (env : Env) (h : r.Good) (hi : i < r.maxChans) (s : SampleData) :
    ∃ r', recordBlock env i s r = some r' ∧
      Becomes env r r' fun j => if j = i then (r.view i).step (gateInput s) else r.view j := by
  obtain ⟨w, hw⟩ := h.wav hi
  have h128 : i < 128 := Nat.lt_trans hi h.ready.chans
  have hget := slot_eq_of_wav hw
  by_cases hs : s.signal = 0
  · obtain ⟨hstep, hsome⟩ := closeWav_step h.inv h128 hw
    have hblock : recordBlock env i s r = some (closeWav i w r) := by simp only [recordBlock, hget, hs, if_true]
    refine ⟨_, hblock, hstep.good h hi hsome, hstep.maxChans, fun _ j => ?_⟩
    by_cases hj : j = i
    · rw [if_pos hj, hj, hstep.view, gateInput, if_pos hs]
    · rw [if_neg hj, hstep.view_of_ne hj]
  by_cases hopen : w.isOpened = true
  · obtain ⟨hstep, hsome⟩ := writeWav_step h.inv h128 hw hopen s
    have hblock : recordBlock env i s r = some (writeWav i w s r) := by
      simp only [recordBlock, hget, hs, hopen, if_true, if_false]
    refine ⟨_, hblock, hstep.good h hi hsome, hstep.maxChans, fun _ j => ?_⟩
    by_cases hj : j = i
    · rw [if_pos hj, hj, hstep.view, gateInput, if_neg hs]
    · rw [if_neg hj, hstep.view_of_ne hj]
  · obtain ⟨hstep, hsome⟩ := swapWav_step env h.inv h128 hw
    have hclosed : w.isOpened = false := Bool.not_eq_true _ ▸ hopen
    have hblock : recordBlock env i s r = some (swapWav env i w r) := by
      simp only [recordBlock, hget, hs, hclosed, if_false, reopenWavFile, hw, Bool.not_false, if_true,
        Bool.false_eq_true]
    refine ⟨_, hblock, hstep.good h hi hsome, hstep.maxChans, fun henv j => ?_⟩
    by_cases hj : j = i
    · rw [if_pos hj, hj, hstep.view, gateInput, if_neg hs, henv, Gate.step, view_of_wav hw, hclosed]
      rfl
    · rw [if_neg hj, hstep.view_of_ne hj]

/-! ### One list -/

/-- The block for slot `j` in the rest of a list from position `i` on. -/
def blockAt (i : Nat) (sd : QList) (j : Nat) : Option SampleData := if i ≤ j then sd[j - i]? else none

theorem blockAt_cons (s : SampleData) (sd : QList) (j : Nat) :
    blockAt i (s :: sd) j = if j = i then some s else blockAt (i + 1) sd j := by
  rw [blockAt, blockAt]
  rcases Nat.lt_trichotomy j i with hj | hj | hj
  · rw [if_neg (by omega), if_neg (by omega), if_neg (by omega)]
  · rw [if_pos (by omega), if_pos hj, hj, Nat.sub_self]
    rfl
  · obtain ⟨n, hn⟩ : ∃ n, j - i = n + 1 := ⟨j - i - 1, by omega⟩
    have hn' : j - (i + 1) = n := by omega
    rw [if_pos (by omega), if_neg (by omega), if_pos (by omega), hn, hn']
    rfl

theorem recordFrom_spec (env : Env) (sd : QList) (h : r.Good) (hlen : i + sd.length ≤ r.maxChans) :
    ∃ r', recordFrom env i sd r = some r' ∧
      Becomes env r r' fun j => (r.view j).run ((blockAt i sd j).map gateInput).toList := by
  induction sd generalizing i r with
  | nil =>
    refine ⟨r, rfl, h, rfl, fun _ j => ?_⟩
    rw [blockAt, List.getElem?_nil, ite_self]
    rfl
  | cons s sd ih =>
    rw [List.length_cons] at hlen
    obtain ⟨r₁, hblock, hr₁⟩ := recordBlock_spec (i := i) env h (by omega) s
    obtain ⟨r₂, hrest, hr₂⟩ := ih (i := i + 1) hr₁.good (by rw [hr₁.maxChans]; omega)
    refine ⟨r₂, by rw [recordFrom, hblock]; exact hrest, hr₂.good, hr₂.maxChans.trans hr₁.maxChans, fun henv j => ?_⟩
    rw [hr₂.views henv j, hr₁.views henv j, blockAt_cons]
    by_cases hj : j = i
    · have hnone : blockAt (i + 1) sd i = none := if_neg (by omega)
      rw [if_pos hj, if_pos hj, hj, hnone]
      rfl
    · rw [if_neg hj, if_neg hj]

/-! ### Swaps -/

/-- A loop body that replaces the `Wav` of the slot or does nothing, and does the former to open ones only. -/
def Swaps (env : Env) (body : Recorder → Nat → Recorder) : Prop :=
  ∀ r i, body r i = r ∨ ∃ w, r.wav? i = some w ∧ w.isOpened = true ∧ body r i = swapWav env i w r

theorem hotSwapSlot_swaps (env : Env) : Swaps env (hotSwapSlot env) := by
  intro r i
  rw [hotSwapSlot]
  cases hw : r.wav? i with
  | none => exact Or.inl rfl
  | some w =>
    by_cases hopen : w.isOpened = true
    · exact Or.inr ⟨w, rfl, hopen, if_pos hopen⟩
    · exact Or.inl (if_neg hopen)

theorem pollSlot_swaps (env : Env) : Swaps env (pollSlot env) := by
  intro r i
  rw [pollSlot]
  cases hw : r.wav? i with
  | none => exact Or.inl rfl
  | some w =>
    by_cases hopen : w.isOpened = true
    · by_cases hsize : r.maxFileSize.toNat < w.getFileSize r.disk
      · exact Or.inr ⟨w, rfl, hopen, (if_pos hopen).trans (if_pos hsize)⟩
      · exact Or.inl ((if_pos hopen).trans (if_neg hsize))
    · exact Or.inl (if_neg hopen)

theorem swap_spec {body : Recorder → Nat → Recorder} (hbody : Swaps env body) (h : r.Good) (i : Nat) :
    Becomes env r (body r i) r.view := by
  rcases hbody r i with heq | ⟨w, hw, hopen, heq⟩
  · rw [heq]
    exact ⟨h, rfl, fun _ _ => rfl⟩
  · have hi := h.ready.lt hw
    obtain ⟨hstep, hsome⟩ := swapWav_step env h.inv (Nat.lt_trans hi h.ready.chans) hw
    rw [heq]
    refine ⟨hstep.good h hi hsome, hstep.maxChans, fun henv j => ?_⟩
    by_cases hj : j = i
    · rw [hj, hstep.view, henv, view_of_wav hw, hopen]
    · exact hstep.view_of_ne hj

theorem swaps_spec {body : Recorder → Nat → Recorder} (hbody : Swaps env body) (h : r.Good) (n : Nat) :
    Becomes env r ((List.range n).foldl body r) r.view :=
  Run.foldl_range (P := fun _ s => Becomes env r s r.view) ⟨h, rfl, fun _ _ => rfl⟩ fun i s _ hs => by
    have hround := swap_spec hbody hs.good i
    exact ⟨hround.good, hround.maxChans.trans hs.maxChans, fun henv j => (hround.views henv j).trans (hs.views henv j)⟩

/-! ### One step -/

/-- The list that a step records. -/
def Op.lists : Op → List QList
  | .record sd => [sd]
  | _ => []

/-- No list of the step is longer than the slots. -/
def Op.Fits (n : Nat) (op : Op) : Prop := ∀ sd ∈ op.lists, sd.length ≤ n

/-- What the lists say to slot `i`. -/
def inputs (lss : List QList) (i : Nat) : List (Option (List UInt8)) := (lss.filterMap (·[i]?)).map gateInput

theorem inputs_append (lss mss : List QList) (i : Nat) : inputs (lss ++ mss) i = inputs lss i ++ inputs mss i := by
  rw [inputs, List.filterMap_append, List.map_append]
  rfl

theorem inputs_singleton (sd : QList) (i : Nat) : inputs [sd] i = (sd[i]?.map gateInput).toList := by
  rw [inputs, List.filterMap_cons]
  cases sd[i]? <;> rfl

theorem record_spec (env : Env) {sd : QList} (h : r.Good) (hlen : sd.length ≤ r.maxChans) :
    ∃ r', record env sd r = some r' ∧ Becomes env r r' fun j => (r.view j).run (inputs [sd] j) := by
  by_cases hnil : sd = []
  · subst hnil
    exact ⟨r, rfl, h, rfl, fun _ j => by rw [inputs_singleton]; rfl⟩
  · have hpolled : Becomes env r (if r.sizeBased then pollHotSwap env r else r) r.view := by
      split
      · exact swaps_spec (pollSlot_swaps env) h r.maxChans
      · exact ⟨h, rfl, fun _ _ => rfl⟩
    obtain ⟨r', hrecord, hr'⟩ := recordFrom_spec (i := 0) env sd hpolled.good (by rw [hpolled.maxChans]; omega)
    have hpos : ¬sd.length ≤ 0 := fun hle => hnil (List.length_eq_zero_iff.mp (Nat.le_zero.mp hle))
    refine ⟨r', by rw [record, if_neg hpos]; exact hrecord, hr'.good, hr'.maxChans.trans hpolled.maxChans,
      fun henv j => ?_⟩
    rw [hr'.views henv j, hpolled.views henv j, inputs_singleton]
    rfl

theorem step_spec (env : Env) {op : Op} (h : r.Good) (hfits : op.Fits r.maxChans) :
    ∃ r', step env r op = some r' ∧ Becomes env r r' fun j => (r.view j).run (inputs op.lists j) := by
  cases op with
  | record sd => exact record_spec env h (hfits sd (List.mem_singleton_self sd))
  | hotSwapFiles => exact ⟨_, rfl, swaps_spec (hotSwapSlot_swaps env) h r.maxChans⟩
  | pollHotSwap => exact ⟨_, rfl, swaps_spec (pollSlot_swaps env) h r.maxChans⟩

/-! ### Runs -/

/-- The lists that the steps record, in their order. -/
def lists (ops : List Op) : List QList := ops.flatMap Op.lists

/-- The gate of each slot behind a step. -/
def gates (v : Nat → Gate UInt8) (op : Op) : Nat → Gate UInt8 := fun j => (v j).run (inputs op.lists j)

theorem foldl_gates (v : Nat → Gate UInt8) (ops : List Op) (j : Nat) :
    ops.foldl gates v j = (v j).run (inputs (lists ops) j) := by
  induction ops generalizing v with
  | nil => rfl
  | cons op ops ih =>
    rw [List.foldl_cons, ih, gates, ← Gate.run_append, ← inputs_append]
    rfl

theorem exec_spec (env : Env) {ops : List Op} (h : r.Good) (hfits : ∀ op ∈ ops, op.Fits r.maxChans) :
    ∃ r', Run.exec (step env) r ops = some r' ∧ Becomes env r r' fun j => (r.view j).run (inputs (lists ops) j) := by
  have hstep : ∀ s v op, op.Fits r.maxChans → Becomes env r s v →
      ∃ t, step env s op = some t ∧ Becomes env r t (gates v op) := by
    intro s v op hop hs
    obtain ⟨t, ht, hbecomes⟩ := step_spec env hs.good (hs.maxChans.symm ▸ hop)
    refine ⟨t, ht, hbecomes.good, hbecomes.maxChans.trans hs.maxChans, fun henv j => ?_⟩
    rw [hbecomes.views henv j, hs.views henv j, gates]
  obtain ⟨r', hrun, hr'⟩ := Run.exec_refines hstep ops r r.view hfits ⟨h, rfl, fun _ _ => rfl⟩
  exact ⟨r', hrun, hr'.good, hr'.maxChans, fun henv j => by rw [hr'.views henv j, foldl_gates]⟩

/-! ### `Recorder::init` -/

/-- The slots below `n` hold a `Wav` that is not open, and there is no file yet. -/
structure Fresh (n : Nat) (r : Recorder) : Prop where
  disk : r.disk = []
  dropped : r.dropped = []
  alloc : ∀ i, (r.wav? i).isSome ↔ i < n
  closed : ∀ i, ∀ w ∈ r.wav? i, w.isOpened = false

theorem Fresh.good {n : Nat} (h : Fresh n r) (hn : r.maxChans = n) (hlt : n < 128) : r.Good where
  inv :=
    { slots := fun i => .closed (h.closed i) fun x hx => by
        rw [h.disk] at hx
        cases hx
      dropped := fun w hw => by
        rw [h.dropped] at hw
        cases hw }
  ready := ⟨hn.symm ▸ hlt, fun i => by rw [hn]; exact h.alloc i⟩

theorem Fresh.view {n : Nat} (h : Fresh n r) (i : Nat) : r.view i = ⟨false, []⟩ := by
  have hopen : (r.wav? i).any (·.isOpened) = false := by
    cases hw : r.wav? i with
    | none => rfl
    | some w => exact h.closed i w hw
  rw [Recorder.view, hopen, h.disk]
  rfl

theorem fresh_new : Fresh 0 new := by
  have hnone : ∀ i, new.wav? i = none := by
    intro i
    rw [wav?, new, Vector.getElem?_replicate]
    split <;> rfl
  refine ⟨rfl, rfl, fun i => ?_, fun i w hw => ?_⟩
  · rw [hnone]
    exact iff_of_false (by simp) (Nat.not_lt_zero i)
  · rw [hnone] at hw
    cases hw

theorem Fresh.setWav {n i m : Nat} {w : Wav} (h : Fresh n r) (hw : w.isOpened = false) (hi : i < 128)
    (hm : ∀ j, j < m ↔ j = i ∨ j < n) : Fresh m (r.setWav i (some w)) where
  disk := h.disk
  dropped := h.dropped
  alloc j := by
    by_cases hj : j = i
    · rw [hj, wav?_setWav_self hi, hm]
      exact iff_of_true rfl (Or.inl rfl)
    · rw [wav?_setWav_of_ne hj, h.alloc, hm, or_iff_right hj]
  closed j := by
    by_cases hj : j = i
    · rw [hj, wav?_setWav_self hi]
      intro v hv
      rw [← Option.some.inj hv]
      exact hw
    · rw [wav?_setWav_of_ne hj]
      exact h.closed j

theorem Fresh.congr {n : Nat} (h : Fresh n r) (hwavs : r'.wavs = r.wavs) (hdisk : r'.disk = r.disk)
    (hdropped : r'.dropped = r.dropped) : Fresh n r' := by
  have hwav : ∀ i, r'.wav? i = r.wav? i := fun i => by rw [wav?, wav?, hwavs]
  exact ⟨hdisk.trans h.disk, hdropped.trans h.dropped, fun i => by rw [hwav]; exact h.alloc i,
    fun i => by rw [hwav]; exact h.closed i⟩

theorem initMaxChans_bounds (max : Attrib) : 1 ≤ initMaxChans max ∧ initMaxChans max < 128 := by
  rw [initMaxChans]
  split
  · decide
  · split
    · rename_i n _
      split
      · decide
      · rename_i h
        rw [not_or, Int32.not_lt, Int32.not_le, Int32.le_iff_toInt_le, Int32.lt_iff_toInt_lt] at h
        have h127 : n.toInt ≤ 127 := h.1
        have h0 : 0 < n.toInt := h.2
        omega
    · decide

theorem fresh_initWav (env : Env) (dir : Attrib) (h : Fresh 0 r) {n : Nat} (hn : n < 128) :
    Fresh n ((List.range n).foldl (initWav env dir) r) ∧
      ((List.range n).foldl (initWav env dir) r).maxChans = r.maxChans :=
  Run.foldl_range (P := fun i s => Fresh i s ∧ s.maxChans = r.maxChans) ⟨h, rfl⟩ fun i s hi hs => by
    have hset : ∀ buff, Fresh (i + 1) (s.setWav i (some (Wav.new buff))) := fun buff =>
      hs.1.setWav rfl (by omega) fun j => by omega
    exact ⟨(hset _).congr rfl rfl rfl, hs.2⟩

theorem fresh_setupSlot (p : WavParams) {n : Nat} (h : Fresh n r) (hn : n < 128) :
    Fresh n ((List.range n).foldl (setupSlot p) r) ∧ ((List.range n).foldl (setupSlot p) r).maxChans = r.maxChans :=
  Run.foldl_range (P := fun _ s => Fresh n s ∧ s.maxChans = r.maxChans) ⟨h, rfl⟩ fun i s hi hs => by
    obtain ⟨w, hw⟩ := Option.isSome_iff_exists.mp ((hs.1.alloc i).mpr hi)
    have hclosed : (w.setupWave p).isOpened = false := hs.1.closed i w hw
    rw [setupSlot, hw]
    exact ⟨hs.1.setWav hclosed (by omega) fun j => by omega, hs.2⟩

/-- `init` ends with the settings for the swaps. -/
theorem exists_initHotSwap (cfg : RecorderConfig) (r : Recorder) : ∃ digit hotswap maxFileSize sizeBased,
    initHotSwap cfg r = { r with digit, hotswap, maxFileSize, sizeBased } := by
  rw [initHotSwap]
  split
  · split
    · rw [initTimer]
      split <;> exact ⟨_, _, _, _, rfl⟩
    · rw [initMaxSize]
      split <;> exact ⟨_, _, _, _, rfl⟩
  · exact ⟨_, _, _, _, rfl⟩

theorem fresh_init (env : Env) (cfg : RecorderConfig) :
    Fresh (initMaxChans (cfg.getAttribPairFromTag "Record" "files")) (init env cfg new) ∧
      (init env cfg new).maxChans = initMaxChans (cfg.getAttribPairFromTag "Record" "files") := by
  have hlt := (initMaxChans_bounds (cfg.getAttribPairFromTag "Record" "files")).2
  generalize hn : initMaxChans (cfg.getAttribPairFromTag "Record" "files") = n at hlt ⊢
  have hstart : Fresh 0 { new with maxChans := n } := fresh_new.congr rfl rfl rfl
  obtain ⟨hwavs, hchans⟩ := fresh_initWav env (cfg.getAttribPairFromTag "Paths" "records") hstart hlt
  generalize hr : (List.range n).foldl (initWav env (cfg.getAttribPairFromTag "Paths" "records"))
    { new with maxChans := n } = r at hwavs hchans
  have hinit : init env cfg new = initHotSwap cfg (setupWavFiles cfg r) := by rw [← hr, init, hn]
  have hsetup : Fresh n (setupWavFiles cfg r) ∧ (setupWavFiles cfg r).maxChans = n := by
    obtain ⟨hfresh, hkept⟩ := fresh_setupSlot ((cfg.getTagPairs "Wave").foldl setupAttrib ⟨0, 0, 0, 0, 0, 0⟩) hwavs hlt
    rw [setupWavFiles, hchans]
    exact ⟨hfresh.congr rfl rfl rfl, hkept.trans hchans⟩
  obtain ⟨digit, hotswap, maxFileSize, sizeBased, hswap⟩ := exists_initHotSwap cfg (setupWavFiles cfg r)
  rw [hinit, hswap]
  exact ⟨hsetup.1.congr rfl rfl rfl, hsetup.2⟩

theorem good_init (env : Env) (cfg : RecorderConfig) : (init env cfg new).Good := by
  obtain ⟨hfresh, hn⟩ := fresh_init env cfg
  exact hfresh.good hn (initMaxChans_bounds _).2

theorem view_init (env : Env) (cfg : RecorderConfig) (i : Nat) : (init env cfg new).view i = ⟨false, []⟩ :=
  (fresh_init env cfg).1.view i

/-- It is noon all day, and every file can be opened. -/
def calm : Env := ⟨fun _ => "12:00:00", fun _ => true⟩

theorem maxChans_calm : (init calm .new new).maxChans = 1 := (fresh_init calm .new).2

end Recorder
end Recd2
