import Recd2.Theorems.Held
import Recd2.Theorems.Samples

/-! How long the files get when they are swapped by size. A poll leaves no open file longer than `m_maxFileSize`,
    unless it has just been made, and the list behind it writes one block to each file. -/

namespace Recd2
open Recorder

/-- No file has more than `n` bytes. -/
def Bounded (n : Nat) (d : Disk) : Prop := ∀ f ∈ d, f.size ≤ n

/-- The file of slot `i`, when it is open, has at most `n` bytes. -/
def Below (n : Nat) (r : Recorder) (i : Nat) : Prop :=
  ∀ w, r.wav? i = some w → w.isOpened = true → w.getFileSize r.disk ≤ n

/-! ### Files -/

section Files
variable {n k : Nat} {d : Disk} {f : DiskFile}

theorem Bounded.update (h : Bounded n d) (hk : d[k]? = some f) {op : Stream → Stream}
    (hf : DiskFile.size { f with stream := op f.stream } ≤ n) : Bounded n (d.update (some k) op) := by
  intro g hg
  obtain ⟨j, hj⟩ := List.mem_iff_getElem?.mp hg
  by_cases hjk : j = k
  · rw [hjk, Disk.getElem?_update_self hk] at hj
    rw [← Option.some.inj hj]
    exact hf
  · rw [Disk.getElem?_update_of_ne hjk] at hj
    exact h g (List.mem_of_getElem? hj)

theorem size_new (name : String) (slot : Nat) (h : WavHdr) :
    DiskFile.size ⟨name, slot, Stream.fopen.fwrite h.toBytes⟩ = 44 := by
  show (Stream.fopen.fwrite h.toBytes).bytes.length = 44
  rw [Stream.fwrite_of_atEnd Stream.fopen_atEnd]
  exact length_toBytes_wavHdr h

theorem getFileSize_eq {w : Wav} (hfile : w.file = some k) (hk : d[k]? = some f) (hf : f.Growing) :
    w.getFileSize d = f.size := by
  rw [Wav.getFileSize, hfile, Option.bind_some, hk]
  exact hf.atEnd

theorem length_payload_bytes (s : SampleData) : (s.payload.flatMap le16).length = 2 * s.payload.length :=
  Bytes.length_flatMap_const length_le16 _

end Files

/-! ### Operations -/

section Operations
variable {P : Nat → DiskFile → Prop} {env : Env} {r r' : Recorder} {i j n : Nat} {w : Wav}

/-- A move for another slot does not change the length of an open file. -/
theorem Below.slotMove (h : Below n r j) (hr : Held P r) (hmove : SlotMove P i r r') (hj : j ≠ i) : Below n r' j := by
  intro w hw hopen
  rw [hmove.wavs j hj] at hw
  obtain ⟨k, f, hfile, hk, hslot, hf, -⟩ := hr j w hw hopen
  have hk' : r'.disk[k]? = some f := hmove.disk.frame hk (by rw [hslot]; exact hj)
  rw [getFileSize_eq hfile hk' hf, ← getFileSize_eq hfile hk hf]
  exact h w hw hopen

theorem Bounded.close (h : Bounded n r.disk) (hr : Held P r) (hw : r.wav? i = some w) : Bounded n (w.close r.disk).1 := by
  rw [Wav.close]
  split
  · rename_i hopen
    obtain ⟨k, f, hfile, hk, -, hf, -⟩ := hr i w hw hopen
    rw [hfile]
    exact h.update hk (by rw [hf.size_patchHeader]; exact h f (List.mem_of_getElem? hk))
  · exact h

theorem Bounded.write {m : Nat} (h : Bounded n r.disk) (hr : Held P r) (hw : r.wav? i = some w)
    (hopen : w.isOpened = true) (hbelow : Below m r i) {s : SampleData} (hs : m + 2 * s.payload.length ≤ n) :
    Bounded n (writeWav i w s r).disk := by
  obtain ⟨k, f, hfile, hk, -, hf, -⟩ := hr i w hw hopen
  have hsize := hbelow w hw hopen
  rw [getFileSize_eq hfile hk hf] at hsize
  have hdisk : (writeWav i w s r).disk = r.disk.update (some k) (·.fwrite (s.payload.flatMap le16)) := by
    show (w.write r.disk s.samples s.size).1 = _
    rw [Wav.write, hfile]
    rfl
  rw [hdisk]
  refine h.update hk ?_
  rw [hf.size_fwrite, length_payload_bytes]
  omega

/-- A swap makes a file of the length of the header. -/
theorem Bounded.swap (env : Env) (h : Bounded n r.disk) (hr : Held P r) (hw : r.wav? i = some w) (hn : 44 ≤ n) :
    Bounded n (swapWav env i w r).disk ∧ Below 44 (swapWav env i w r) i := by
  have hclose := h.close hr hw
  have hself : (swapWav env i w r).wav? i = some (swapOpened env i w r).2 := wav?_swapWav_self hw
  have hdisk : (swapWav env i w r).disk = (swapOpened env i w r).1 := rfl
  rw [hdisk, Below, hself, hdisk, swapOpened]
  cases env.fopen r.names with
  | false => exact ⟨hclose, fun v hv hopen => by cases hv; cases hopen⟩
  | true =>
    obtain ⟨f, hf, hsize, hopened⟩ : ∃ f : DiskFile, f.Growing ∧ f.size = 44 ∧
        ((Wav.new (swapName env i r)).setupWave r.wavParams).open true (w.close r.disk).1 i =
          ((w.close r.disk).1 ++ [f], { (Wav.new (swapName env i r)).setupWave r.wavParams with
            slot := Int32.ofNat i, file := some (w.close r.disk).1.length, maxSize := 44, isOpened := true }) :=
      ⟨_, DiskFile.growing_new _ i _, size_new _ i _, rfl⟩
    rw [hopened]
    refine ⟨fun g hg => ?_, fun v hv _ => ?_⟩
    · rcases List.mem_append.mp hg with hg | hg
      · exact hclose g hg
      · rw [List.mem_singleton.mp hg, hsize]
        exact hn
    · rw [← Option.some.inj hv, getFileSize_eq rfl List.getElem?_concat_length hf, hsize]

end Operations

/-! ### The poll -/

/-- What the loop of `pollHotSwap` has reached after some rounds. -/
structure Polling (n limit rounds : Nat) (r : Recorder) : Prop where
  good : r.Good
  bounded : Bounded n r.disk
  maxFileSize : r.maxFileSize.toNat = limit
  below : ∀ i < rounds, Below (max limit 44) r i

section Poll
variable {env : Env} {r : Recorder} {n limit : Nat}

theorem Polling.round {rounds : Nat} (h : Polling n limit rounds r) (hn : 44 ≤ n) :
    Polling n limit (rounds + 1) (pollSlot env r rounds) := by
  have hheld := h.good.inv.held
  have hgood := (swap_spec (pollSlot_swaps env) h.good rounds).good
  have hkeep : pollSlot env r rounds = r → Below (max limit 44) r rounds →
      Polling n limit (rounds + 1) (pollSlot env r rounds) := by
    intro heq hlast
    rw [heq]
    refine ⟨h.good, h.bounded, h.maxFileSize, fun i hi => ?_⟩
    rcases Nat.lt_succ_iff_lt_or_eq.mp hi with hi | rfl
    · exact h.below i hi
    · exact hlast
  cases hw : r.wav? rounds with
  | none =>
    refine hkeep (by rw [pollSlot, hw]) fun w hw' => ?_
    rw [hw] at hw'
    cases hw'
  | some w =>
    by_cases hopen : w.isOpened = true
    · by_cases hsize : r.maxFileSize.toNat < w.getFileSize r.disk
      · have heq : pollSlot env r rounds = swapWav env rounds w r := by
          simp only [pollSlot, hw, hopen, hsize, if_true]
        rw [heq] at hgood ⊢
        obtain ⟨hbounded, hnew⟩ := h.bounded.swap env hheld hw hn
        refine ⟨hgood, hbounded, h.maxFileSize, fun i hi => ?_⟩
        rcases Nat.lt_succ_iff_lt_or_eq.mp hi with hi | rfl
        · exact (h.below i hi).slotMove hheld (swapWav_slotMove (lasting_true _) hheld hw) (by omega)
        · exact fun v hv hv' => Nat.le_trans (hnew v hv hv') (Nat.le_max_right _ _)
      · refine hkeep (by simp only [pollSlot, hw, hopen, hsize, if_true, if_false]) fun v hv _ => ?_
        rw [hw] at hv
        obtain rfl := Option.some.inj hv
        rw [h.maxFileSize] at hsize
        omega
    · refine hkeep (by simp only [pollSlot, hw, if_neg hopen]) fun v hv hv' => ?_
      rw [hw] at hv
      obtain rfl := Option.some.inj hv
      exact absurd hv' hopen

theorem Polling.loop (h : Polling n limit 0 r) (hn : 44 ≤ n) (rounds : Nat) :
    Polling n limit rounds ((List.range rounds).foldl (pollSlot env) r) :=
  Run.foldl_range (P := fun i s => Polling n limit i s) h fun _ _ _ hs => hs.round hn

end Poll

/-! ### The list -/

/-- What the loop of `record` has reached in front of slot `i`. -/
structure Writing (n m i : Nat) (r : Recorder) : Prop where
  good : r.Good
  bounded : Bounded n r.disk
  below : ∀ j, i ≤ j → Below m r j

section List
variable {env : Env} {r r' : Recorder} {n m i : Nat} {s : SampleData} {sd : QList}

/-- Slot `i` gets one block, and the files behind it keep their length. -/
theorem Writing.block (h : Writing n m i r) (hstep : BlockStep env i s r r') (hgood : r'.Good) (hn : 44 ≤ n)
    (hs : m + 2 * s.payload.length ≤ n) : Writing n m (i + 1) r' := by
  have hheld := h.good.inv.held
  have hbehind : ∀ {r'}, SlotMove (fun _ _ => True) i r r' → ∀ j, i + 1 ≤ j → Below m r' j := fun hmove j hj =>
    (h.below j (by omega)).slotMove hheld hmove (by omega)
  cases hstep with
  | none => exact ⟨hgood, h.bounded, fun j hj => h.below j (by omega)⟩
  | close hw => exact ⟨hgood, h.bounded.close hheld hw, hbehind (closeWav_slotMove hheld hw)⟩
  | write hw _ hopen =>
    exact ⟨hgood, h.bounded.write hheld hw hopen (h.below i (Nat.le_refl i)) hs,
      hbehind (writeWav_slotMove (lasting_true _) hheld hw hopen s)⟩
  | reopen hw =>
    exact ⟨hgood, (h.bounded.swap env hheld hw hn).1, hbehind (swapWav_slotMove (lasting_true _) hheld hw)⟩

theorem Writing.list (h : Writing n m i r) (hlen : i + sd.length ≤ r.maxChans) (hn : 44 ≤ n)
    (hsd : ∀ s ∈ sd, m + 2 * s.payload.length ≤ n) (hrecord : recordFrom env i sd r = some r') :
    Writing n m (i + sd.length) r' := by
  induction sd generalizing i r with
  | nil =>
    cases hrecord
    exact h
  | cons s sd ih =>
    obtain ⟨r₁, hstep, hgood, hrest, heq⟩ := recordFrom_cons_spec env h.good hlen
    rw [heq] at hrecord
    have hnext := ih (h.block hstep hgood hn (hsd s List.mem_cons_self)) hrest
      (fun s hs => hsd s (List.mem_cons_of_mem _ hs)) hrecord
    rwa [Nat.add_assoc, Nat.add_comm 1, ← List.length_cons (a := s)] at hnext

end List

/-! ### Runs of `record` -/

/-- The states that `record` goes through: in the poll after each slot, and in its loop after each block. -/
def recordStates (env : Env) (sd : QList) (r : Recorder) : List Recorder :=
  (List.range (r.maxChans + 1)).map (fun rounds => (List.range rounds).foldl (pollSlot env) r) ++
    (List.range (sd.length + 1)).filterMap fun blocks => recordFrom env 0 (sd.take blocks) (pollHotSwap env r)

/-- Between the lists, in the mode that swaps by size. -/
structure SizeBased (n limit chans : Nat) (r : Recorder) : Prop where
  good : r.Good
  bounded : Bounded n r.disk
  maxFileSize : r.maxFileSize.toNat = limit
  sizeBased : r.sizeBased = true
  maxChans : r.maxChans = chans

section Runs
variable {env : Env} {r : Recorder} {b limit chans : Nat} {sd : QList}

theorem SizeBased.polling (env : Env) (h : SizeBased (max limit 44 + 2 * b) limit chans r) (rounds : Nat) :
    Polling (max limit 44 + 2 * b) limit rounds ((List.range rounds).foldl (pollSlot env) r) :=
  Polling.loop ⟨h.good, h.bounded, h.maxFileSize, fun i hi => absurd hi (Nat.not_lt_zero i)⟩ (by omega) rounds

theorem SizeBased.writing (env : Env) (h : SizeBased (max limit 44 + 2 * b) limit chans r) :
    Writing (max limit 44 + 2 * b) (max limit 44) 0 (pollHotSwap env r) := by
  have hpolled := h.polling env r.maxChans
  have hchans : (pollHotSwap env r).maxChans = r.maxChans := pollHotSwap_moves.maxChans
  refine ⟨hpolled.good, hpolled.bounded, fun j _ w hw hopen => ?_⟩
  have hj : j < r.maxChans := hchans ▸ Ready.lt hpolled.good.ready hw
  exact hpolled.below j hj w hw hopen

theorem SizeBased.list (h : SizeBased (max limit 44 + 2 * b) limit chans r) (hlen : sd.length ≤ chans)
    (hsd : ∀ s ∈ sd, s.payload.length ≤ b) {r' : Recorder} {k : Nat}
    (hrecord : recordFrom env 0 (sd.take k) (pollHotSwap env r) = some r') : Bounded (max limit 44 + 2 * b) r'.disk := by
  have hchans : (pollHotSwap env r).maxChans = chans := pollHotSwap_moves.maxChans.trans h.maxChans
  have htake : (sd.take k).length ≤ sd.length := (List.take_prefix k sd).length_le
  have hend := (h.writing env).list (by rw [hchans]; omega) (by omega) (fun s hs => by
    have hs' := hsd s (List.mem_of_mem_take hs)
    omega) hrecord
  exact hend.bounded

theorem SizeBased.states (h : SizeBased (max limit 44 + 2 * b) limit chans r) (hlen : sd.length ≤ chans)
    (hsd : ∀ s ∈ sd, s.payload.length ≤ b) :
    ∀ r' ∈ recordStates env sd r, Bounded (max limit 44 + 2 * b) r'.disk := by
  intro r' hr'
  rcases List.mem_append.mp hr' with hr' | hr'
  · obtain ⟨rounds, -, rfl⟩ := List.mem_map.mp hr'
    exact (h.polling env rounds).bounded
  · obtain ⟨blocks, -, hrecord⟩ := List.mem_filterMap.mp hr'
    exact h.list hlen hsd hrecord

theorem SizeBased.record (env : Env) (h : SizeBased (max limit 44 + 2 * b) limit chans r) (hlen : sd.length ≤ chans)
    (hsd : ∀ s ∈ sd, s.payload.length ≤ b) :
    ∃ r', record env sd r = some r' ∧ SizeBased (max limit 44 + 2 * b) limit chans r' := by
  obtain ⟨r', hrecord, hr'⟩ := record_spec env h.good (h.maxChans.symm ▸ hlen)
  obtain ⟨hsized, hlimit⟩ := (record_moves hrecord).swapping
  refine ⟨r', hrecord, hr'.good, ?_, hlimit ▸ h.maxFileSize, hsized.trans h.sizeBased, hr'.maxChans.trans h.maxChans⟩
  by_cases hnil : sd = []
  · subst hnil
    cases hrecord
    exact h.bounded
  · rw [record_eq hnil, polled, if_pos h.sizeBased, ← List.take_length (l := sd)] at hrecord
    exact h.list hlen hsd hrecord

theorem SizeBased.run (env : Env) (lss : List QList) (h : SizeBased (max limit 44 + 2 * b) limit chans r)
    (hlss : ∀ ls ∈ lss, ls.length ≤ chans ∧ ∀ s ∈ ls, s.payload.length ≤ b) :
    ∃ r', Run.exec (step env) r (lss.map .record) = some r' ∧ SizeBased (max limit 44 + 2 * b) limit chans r' := by
  induction lss generalizing r with
  | nil => exact ⟨r, rfl, h⟩
  | cons ls lss ih =>
    obtain ⟨hlen, hsamples⟩ := hlss ls List.mem_cons_self
    obtain ⟨r₁, hrecord, h₁⟩ := h.record env hlen hsamples
    obtain ⟨r', hrest, h'⟩ := ih h₁ fun ls hls => hlss ls (List.mem_cons_of_mem _ hls)
    exact ⟨r', by rw [List.map_cons, Run.exec_cons, step, hrecord]; exact hrest, h'⟩

end Runs

/-- When no block has more than `b` samples, no file ever exceeds the limit, or the header if that is more,
    by more than one block. -/
theorem size_bounded (env : Env) (cfg : RecorderConfig) (maxFileSize : UInt32) (b : Nat) (lss : List QList) (sd : QList)
    (hlen : ∀ ls ∈ lss ++ [sd], ls.length ≤ (init env cfg new).maxChans)
    (hb : ∀ ls ∈ lss ++ [sd], ∀ s ∈ ls, s.payload.length ≤ b) :
    ∃ r, Run.exec (step env) { init env cfg new with sizeBased := true, maxFileSize := maxFileSize }
          (lss.map .record) = some r ∧
      ∀ r' ∈ recordStates env sd r, ∀ f ∈ r'.disk, f.size ≤ max maxFileSize.toNat 44 + 2 * b := by
  have hstart : SizeBased (max maxFileSize.toNat 44 + 2 * b) maxFileSize.toNat (init env cfg new).maxChans
      { init env cfg new with sizeBased := true, maxFileSize := maxFileSize } := by
    refine ⟨(good_init env cfg).withSwap true maxFileSize, fun f hf => ?_, rfl, rfl, rfl⟩
    rw [show ({ init env cfg new with sizeBased := true, maxFileSize := maxFileSize } : Recorder).disk = [] from
      (fresh_init env cfg).1.disk] at hf
    cases hf
  have hlast : sd ∈ lss ++ [sd] := List.mem_append_right lss (List.mem_singleton_self sd)
  obtain ⟨r, hrun, hr⟩ := hstart.run env lss fun ls hls =>
    ⟨hlen ls (List.mem_append_left [sd] hls), hb ls (List.mem_append_left [sd] hls)⟩
  exact ⟨r, hrun, hr.states (hlen sd hlast) (hb sd hlast)⟩

theorem size_bounded_calm :
    ∃ r, Run.exec (step calm) { init calm .new new with sizeBased := true, maxFileSize := 50 }
          (([[openingBlock], [openingBlock]] : List QList).map .record) = some r ∧
      ∀ r' ∈ recordStates calm [openingBlock] r, ∀ f ∈ r'.disk, f.size ≤ max (50 : UInt32).toNat 44 + 2 * 1 :=
  size_bounded calm .new 50 1 [[openingBlock], [openingBlock]] [openingBlock]
    (by rw [maxChans_calm]; decide) (by decide)

end Recd2
