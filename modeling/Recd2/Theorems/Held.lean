import Recd2.Theorems.Finalised
import Recd2.Theorems.Moves

/-! The files that are held open. A move for a slot writes, closes or makes files of that slot only, and the `Wav` of
    an open slot stays at the end of a file of its own. This holds in every state that can be reached, also after a
    second `init` and between the rounds of `deinit`. -/

namespace Recd2
open Recorder

/-! ### Steps on the disk -/

/-- What a move for slot `i` does to the files. -/
inductive DiskStep (p : WavParams) (i : Nat) (d : Disk) : Disk → Prop
  | write {k : Nat} {f : DiskFile} (hk : d[k]? = some f) (hslot : f.slot = i) (hf : f.Growing) (bs : List UInt8) :
    DiskStep p i d (d.update (some k) (·.fwrite bs))
  | close {k : Nat} {f : DiskFile} (hk : d[k]? = some f) (hslot : f.slot = i) (hf : f.Growing) :
    DiskStep p i d (d.update (some k) Wav.patchHeader)
  | create (name : String) :
    DiskStep p i d (d ++ [⟨name, i, Stream.fopen.fwrite ((Wav.new name).setupWave p).header.toBytes⟩])

/-- Any number of such steps. -/
def DiskSteps (p : WavParams) (i : Nat) : Disk → Disk → Prop := Relation.ReflTransGen (DiskStep p i)

section Disk
variable {p : WavParams} {i k : Nat} {d d' : Disk} {f : DiskFile}

theorem Disk.getElem?_update_self (hk : d[k]? = some f) (op : Stream → Stream) :
    (d.update (some k) op)[k]? = some { f with stream := op f.stream } := by
  simp [Disk.update, hk]

theorem Disk.getElem?_update_of_ne {j : Nat} (h : j ≠ k) (op : Stream → Stream) : (d.update (some k) op)[j]? = d[j]? := by
  simp [Disk.update, Ne.symm h]

theorem DiskStep.frame (h : DiskStep p i d d') (hk : d[k]? = some f) (hf : f.slot ≠ i) : d'[k]? = some f := by
  have hne : ∀ {k' f'}, d[k']? = some f' → f'.slot = i → k ≠ k' := by
    rintro k' f' hk' hslot rfl
    rw [hk] at hk'
    exact hf (Option.some.inj hk' ▸ hslot)
  cases h with
  | write hk' hslot _ bs => rw [Disk.getElem?_update_of_ne (hne hk' hslot), hk]
  | close hk' hslot _ => rw [Disk.getElem?_update_of_ne (hne hk' hslot), hk]
  | create name => rw [List.getElem?_append_left (List.getElem?_eq_some_iff.mp hk).1, hk]

theorem DiskSteps.frame (h : DiskSteps p i d d') (hk : d[k]? = some f) (hf : f.slot ≠ i) : d'[k]? = some f := by
  induction h with
  | refl => exact hk
  | tail _ hlast ih => exact hlast.frame ih hf

/-- The files from place `n` on have the header of the parameters. -/
def NewHeaders (p : WavParams) (n : Nat) (d : Disk) : Prop := ∀ k f, n ≤ k → d[k]? = some f → f.HasHeader p

theorem NewHeaders.diskStep {n : Nat} (h : NewHeaders p n d) (hstep : DiskStep p i d d') : NewHeaders p n d' := by
  intro j g hj hg
  cases hstep with
  | @write k f hk hslot hf bs =>
    by_cases hjk : j = k
    · rw [hjk, Disk.getElem?_update_self hk] at hg
      rw [← Option.some.inj hg]
      exact hf.hasHeader_fwrite (h k f (hjk ▸ hj) hk) bs
    · rw [Disk.getElem?_update_of_ne hjk] at hg
      exact h j g hj hg
  | @close k f hk hslot hf =>
    by_cases hjk : j = k
    · rw [hjk, Disk.getElem?_update_self hk] at hg
      rw [← Option.some.inj hg]
      exact hf.hasHeader_patchHeader (h k f (hjk ▸ hj) hk)
    · rw [Disk.getElem?_update_of_ne hjk] at hg
      exact h j g hj hg
  | create name =>
    rcases Nat.lt_or_ge j d.length with hlt | hge
    · rw [List.getElem?_append_left hlt] at hg
      exact h j g hj hg
    · rw [List.getElem?_append_right hge, List.getElem?_singleton] at hg
      split at hg
      · rw [← Option.some.inj hg]
        exact (DiskFile.headerAsOpened_new name i p).hasHeader
      · cases hg

theorem NewHeaders.diskSteps {n : Nat} (h : NewHeaders p n d) (hsteps : DiskSteps p i d d') : NewHeaders p n d' := by
  induction hsteps with
  | refl => exact h
  | tail _ hlast ih => exact ih.diskStep hlast

end Disk

/-! ### The files of open slots -/

/-- The file a `Wav` of slot `i` writes, when it is open: a growing one of that slot, with the property `P`. -/
def HoldsFile (P : Nat → DiskFile → Prop) (d : Disk) (i : Nat) (w : Wav) : Prop :=
  w.isOpened = true → ∃ k f, w.file = some k ∧ d[k]? = some f ∧ f.slot = i ∧ f.Growing ∧ P k f

/-- Every open slot holds a file. -/
def Held (P : Nat → DiskFile → Prop) (r : Recorder) : Prop := ∀ i w, r.wav? i = some w → HoldsFile P r.disk i w

/-- A property of files that a new file has, and that writing at the end keeps. -/
structure Lasting (p : WavParams) (P : Nat → DiskFile → Prop) : Prop where
  create : ∀ k name i, P k ⟨name, i, Stream.fopen.fwrite ((Wav.new name).setupWave p).header.toBytes⟩
  write : ∀ k f bs, f.Growing → P k f → P k { f with stream := f.stream.fwrite bs }

theorem lasting_true (p : WavParams) : Lasting p fun _ _ => True := ⟨fun _ _ _ => trivial, fun _ _ _ _ _ => trivial⟩

theorem lasting_headerAsOpened (p : WavParams) (n : Nat) : Lasting p fun k f => n ≤ k → f.HeaderAsOpened p where
  create _ name i _ := DiskFile.headerAsOpened_new name i p
  write _ _ bs hf hp hk := hf.headerAsOpened_fwrite (hp hk) bs

section Wav
variable {P : Nat → DiskFile → Prop} {p : WavParams} {i : Nat} {d : Disk} {w : Wav}

theorem HoldsFile.of_closed (h : w.isOpened = false) : HoldsFile P d i w := fun hopen => by
  rw [h] at hopen
  cases hopen

theorem HoldsFile.close (h : HoldsFile P d i w) : DiskSteps p i d (w.close d).1 := by
  rw [Wav.close]
  split
  · rename_i hopen
    obtain ⟨k, f, hfile, hk, hslot, hf, -⟩ := h hopen
    rw [hfile]
    exact .single (.close hk hslot hf)
  · exact .refl

theorem HoldsFile.write (hP : Lasting p P) (h : HoldsFile P d i w) (hopen : w.isOpened = true) (s : SampleData) :
    DiskSteps p i d (w.write d s.samples s.size).1 ∧
      HoldsFile P (w.write d s.samples s.size).1 i (w.write d s.samples s.size).2 := by
  obtain ⟨k, f, hfile, hk, hslot, hf, hp⟩ := h hopen
  have hdisk : (w.write d s.samples s.size).1 = d.update (some k) (·.fwrite (s.payload.flatMap le16)) := by
    rw [Wav.write, hfile]
    rfl
  rw [hdisk]
  exact ⟨.single (.write hk hslot hf _), fun _ =>
    ⟨k, _, hfile, Disk.getElem?_update_self hk _, hslot, hf.fwrite _, hP.write k f _ hf hp⟩⟩

theorem holdsFile_open (hP : Lasting p P) (name : String) (ok : Bool) (d : Disk) (i : Nat) :
    DiskSteps p i d (((Wav.new name).setupWave p).open ok d i).1 ∧
      HoldsFile P (((Wav.new name).setupWave p).open ok d i).1 i (((Wav.new name).setupWave p).open ok d i).2 := by
  cases ok with
  | false => exact ⟨.refl, .of_closed rfl⟩
  | true =>
    refine ⟨.single (.create name), fun _ => ⟨d.length, _, rfl, List.getElem?_concat_length, rfl, ?_, hP.create _ name i⟩⟩
    exact DiskFile.growing_new name i _

end Wav

/-! ### Moves -/

namespace Recorder
variable {P : Nat → DiskFile → Prop} {env : Env} {r r' : Recorder} {i : Nat}

/-- A change of slot `i` only: its files, and its `Wav`, which holds a file when it is open. -/
structure SlotMove (P : Nat → DiskFile → Prop) (i : Nat) (r r' : Recorder) : Prop where
  wavs : ∀ j, j ≠ i → r'.wav? j = r.wav? j
  disk : DiskSteps r.wavParams i r.disk r'.disk
  own : ∀ w, r'.wav? i = some w → HoldsFile P r'.disk i w

theorem SlotMove.held (h : SlotMove P i r r') (hr : Held P r) : Held P r' := by
  intro j w hw
  by_cases hj : j = i
  · rw [hj] at hw ⊢
    exact h.own w hw
  · intro hopen
    rw [h.wavs j hj] at hw
    obtain ⟨k, f, hfile, hk, hslot, hf, hp⟩ := hr j w hw hopen
    exact ⟨k, f, hfile, h.disk.frame hk (by rw [hslot]; exact hj), hslot, hf, hp⟩

section Operations
variable {w : Wav}

theorem closeWav_slotMove (hr : Held P r) (hw : r.wav? i = some w) : SlotMove P i r (closeWav i w r) := by
  refine ⟨fun j hj => wav?_closeWav_of_ne hj, (hr i w hw).close, fun v hv => .of_closed ?_⟩
  rw [wav?_closeWav_self hw] at hv
  rw [← Option.some.inj hv]
  exact Wav.isOpened_close

theorem writeWav_slotMove (hP : Lasting r.wavParams P) (hr : Held P r) (hw : r.wav? i = some w)
    (hopen : w.isOpened = true) (s : SampleData) : SlotMove P i r (writeWav i w s r) := by
  obtain ⟨hdisk, hfile⟩ := (hr i w hw).write hP hopen s
  refine ⟨fun j hj => wav?_writeWav_of_ne hj s, hdisk, fun v hv => ?_⟩
  rw [wav?_writeWav_self hw] at hv
  rw [← Option.some.inj hv]
  exact hfile

theorem swapWav_slotMove (hP : Lasting r.wavParams P) (hr : Held P r) (hw : r.wav? i = some w) :
    SlotMove P i r (swapWav env i w r) := by
  have hclose : DiskSteps r.wavParams i r.disk (w.close r.disk).1 := (hr i w hw).close
  obtain ⟨hopen, hfile⟩ := holdsFile_open hP (swapName env i r) (env.fopen r.names) (w.close r.disk).1 i
  refine ⟨fun j hj => wav?_swapWav_of_ne hj, Relation.ReflTransGen.trans hclose hopen, fun v hv => ?_⟩
  rw [wav?_swapWav_self hw] at hv
  rw [← Option.some.inj hv]
  exact hfile

end Operations

theorem Move.slotMove (hP : Lasting r.wavParams P) (hr : Held P r) (h : Move env r r') : ∃ i, SlotMove P i r r' := by
  cases h with
  | close hw => exact ⟨_, closeWav_slotMove hr hw⟩
  | write hw hopen s => exact ⟨_, writeWav_slotMove hP hr hw hopen s⟩
  | swap hw => exact ⟨_, swapWav_slotMove hP hr hw⟩

theorem Moves.held (hP : Lasting r.wavParams P) (h : Moves env r r') (hr : Held P r) : Held P r' := by
  have hkept : Held P r' ∧ r'.wavParams = r.wavParams :=
    h.keeps (P := fun s => Held P s ∧ s.wavParams = r.wavParams) (fun s s' hmove hs => by
      obtain ⟨i, hslot⟩ := hmove.slotMove (hs.2.symm ▸ hP) hs.1
      exact ⟨hslot.held hs.1, hmove.wavParams.trans hs.2⟩) ⟨hr, rfl⟩
  exact hkept.1

theorem Moves.newHeaders {n : Nat} (h : Moves env r r') (hr : Held (fun _ _ => True) r)
    (hnew : NewHeaders r.wavParams n r.disk) : NewHeaders r.wavParams n r'.disk := by
  have hkept : Held (fun _ _ => True) r' ∧ r'.wavParams = r.wavParams ∧ NewHeaders r.wavParams n r'.disk :=
    h.keeps (P := fun s => Held (fun _ _ => True) s ∧ s.wavParams = r.wavParams ∧ NewHeaders r.wavParams n s.disk)
      (fun s s' hmove hs => by
        obtain ⟨hheld, hparams, hheaders⟩ := hs
        obtain ⟨i, hslot⟩ := hmove.slotMove (lasting_true _) hheld
        rw [← hparams] at hheaders ⊢
        exact ⟨hslot.held hheld, hmove.wavParams, hheaders.diskSteps hslot.disk⟩) ⟨hr, rfl, hnew⟩
  exact hkept.2.2

end Recorder

theorem Recorder.Inv.held {r : Recorder} (h : r.Inv) : Held (fun _ _ => True) r := by
  intro i w hw hopen
  have hslot := h.slots i
  rw [hw] at hslot
  obtain ⟨gs, f, k, hfiles, hfile, hf, -⟩ := hslot.of_open hopen
  have hmem : (f, k) ∈ r.disk.files i := by
    rw [hfiles]
    exact List.mem_append_right gs (List.mem_singleton_self _)
  obtain ⟨hk, hi⟩ := Disk.mem_files.mp hmem
  exact ⟨k, f, hfile, hk, hi, hf, trivial⟩

/-! ### Reachable states -/

/-- The states of all runs: of `init`, any number of times, of lists and swaps, and of rounds of `deinit`. -/
inductive Recorder.Reachable : Recorder → Prop
  | new : Reachable new
  | init (env : Env) (cfg : RecorderConfig) {r : Recorder} (h : Reachable r) : Reachable (init env cfg r)
  | step (env : Env) (op : Op) {r r' : Recorder} (h : Reachable r) (hstep : step env r op = some r') : Reachable r'
  | deinitSlot (i : Nat) {r : Recorder} (h : Reachable r) : Reachable (deinitSlot r i)

section Reachable
variable {P : Nat → DiskFile → Prop} {r r' : Recorder}

theorem Held.congr (h : Held P r) (hwavs : r'.wavs = r.wavs) (hdisk : r'.disk = r.disk) : Held P r' := by
  intro i w hw
  rw [wav?, hwavs] at hw
  rw [hdisk]
  exact h i w hw

theorem Held.setWav (h : Held P r) {i : Nat} {v : Wav} (hv : HoldsFile P r.disk i v) : Held P (r.setWav i (some v)) := by
  intro j w hw
  by_cases hj : j = i
  · rw [hj] at hw ⊢
    rw [wav?_setWav_self (lt_of_wav hw)] at hw
    rw [← Option.some.inj hw]
    exact hv
  · rw [wav?_setWav_of_ne hj] at hw
    exact h j w hw

theorem Held.setNull (h : Held P r) (i : Nat) : Held P (r.setWav i none) := by
  intro j w hw
  by_cases hj : j = i
  · rw [hj] at hw
    rw [wav?_setWav_self (lt_of_wav hw)] at hw
    cases hw
  · rw [wav?_setWav_of_ne hj] at hw
    exact h j w hw

theorem Held.initWav (h : Held P r) (env : Env) (dir : Attrib) (i : Nat) : Held P (Recorder.initWav env dir r i) := by
  have hset : ∀ name, Held P (r.setWav i (some (Wav.new name))) := fun name => h.setWav (.of_closed rfl)
  exact (hset _).congr rfl rfl

theorem Held.setupSlot (h : Held P r) (p : WavParams) (i : Nat) : Held P (Recorder.setupSlot p r i) := by
  rw [Recorder.setupSlot]
  cases hw : r.wav? i with
  | none => exact h.setNull i
  | some w => exact h.setWav fun hopen => h i w hw hopen

theorem Held.loop {body : Recorder → Nat → Recorder} (hbody : ∀ s i, Held P s → Held P (body s i)) (h : Held P r)
    (n : Nat) : Held P ((List.range n).foldl body r) :=
  Run.foldl_range (P := fun _ s => Held P s) h fun i s _ hs => hbody s i hs

theorem Held.setupWavFiles (h : Held P r) (cfg : RecorderConfig) : Held P (Recorder.setupWavFiles cfg r) :=
  (h.loop (fun _ i hs => hs.setupSlot _ i) r.maxChans).congr rfl rfl

theorem Held.init (h : Held P r) (env : Env) (cfg : RecorderConfig) : Held P (Recorder.init env cfg r) := by
  have hchans : Held P { r with maxChans := initMaxChans (cfg.getAttribPairFromTag "Record" "files") } := h.congr rfl rfl
  have hwavs := hchans.loop (fun _ i hs => hs.initWav env (cfg.getAttribPairFromTag "Paths" "records") i)
    (initMaxChans (cfg.getAttribPairFromTag "Record" "files"))
  obtain ⟨_, _, _, _, hswap⟩ := exists_initHotSwap cfg (Recorder.setupWavFiles cfg _)
  exact (hwavs.setupWavFiles cfg).congr (by rw [Recorder.init, hswap]) (by rw [Recorder.init, hswap])

theorem Held.deinitSlot (h : Held P r) (i : Nat) : Held P (Recorder.deinitSlot r i) := by
  by_cases hclosed : ∀ w ∈ r.wav? i, w.isOpened = false
  · rwa [deinitSlot_of_not_open hclosed]
  · obtain ⟨w, hw, hopen⟩ : ∃ w, r.wav? i = some w ∧ w.isOpened = true := by simpa using hclosed
    have hmove : SlotMove P i r (Recorder.deinitSlot r i) := by
      rw [deinitSlot_of_open hw hopen]
      refine ⟨fun j hj => wav?_setWav_of_ne (r := r) hj, (h i w hw).close, fun v hv => ?_⟩
      have hnone : (r.setWav i none).wav? i = none := wav?_setWav_self (lt_of_wav hw)
      rw [show (r.setWav i none).wav? i = some v from hv] at hnone
      cases hnone
    exact hmove.held h

theorem Recorder.Reachable.held (h : Reachable r) : Held (fun _ _ => True) r := by
  induction h with
  | new =>
    intro i w hw
    have hnone := (fresh_new.alloc i).not.mpr (Nat.not_lt_zero i)
    rw [hw] at hnone
    exact absurd rfl hnone
  | init env cfg _ ih => exact ih.init env cfg
  | step env op _ hstep ih => exact (step_moves hstep).held (lasting_true _) ih
  | deinitSlot i _ ih => exact ih.deinitSlot i

end Reachable
end Recd2
