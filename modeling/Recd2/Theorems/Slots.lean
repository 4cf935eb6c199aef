import Recd2.Lib.Gate
import Recd2.Recorder
import Recd2.Theorems.Files

/-! The slots of the recorder. Each operation works on one slot and leaves the others alone. A slot is a gate
    in front of its sample data: a block with a zero signal byte closes it, the first other block opens it with
    a new file, and the blocks behind that are written. Replacing an open file does not show. -/

namespace Recd2

/-- The files of a slot that are not open are finalised, and an open `Wav` writes at the end of the last file. -/
inductive SlotOk : Option Wav → List (DiskFile × Nat) → Prop
  | closed {w : Option Wav} {fs : List (DiskFile × Nat)} (hw : ∀ v ∈ w, v.isOpened = false)
      (hfs : ∀ x ∈ fs, x.1.Finalised) : SlotOk w fs
  | opened {w : Wav} {fs : List (DiskFile × Nat)} {f : DiskFile} {k : Nat} (hw : w.isOpened = true)
      (hfile : w.file = some k) (hf : f.Growing) (hfs : ∀ x ∈ fs, x.1.Finalised) : SlotOk (some w) (fs ++ [(f, k)])

theorem SlotOk.finalised {w : Option Wav} {fs : List (DiskFile × Nat)} (h : SlotOk w fs)
    (hw : ∀ v ∈ w, v.isOpened = false) : ∀ x ∈ fs, x.1.Finalised := by
  cases h with
  | closed _ hfs => exact hfs
  | opened hopen _ _ _ =>
    rw [hw _ rfl] at hopen
    cases hopen

theorem SlotOk.of_open {w : Wav} {fs : List (DiskFile × Nat)} (h : SlotOk (some w) fs) (hw : w.isOpened = true) :
    ∃ gs f k, fs = gs ++ [(f, k)] ∧ w.file = some k ∧ f.Growing ∧ ∀ x ∈ gs, x.1.Finalised := by
  cases h with
  | closed hclosed _ =>
    rw [hclosed w rfl] at hw
    cases hw
  | opened _ hfile hf hfs => exact ⟨_, _, _, rfl, hfile, hf, hfs⟩

/-! ### Operations of `Wav` -/

namespace Wav
variable {w : Wav} {d : Disk} {slot : Nat}

theorem update_last {gs : List (DiskFile × Nat)} {f : DiskFile} {k : Nat} (h : d.files slot = gs ++ [(f, k)])
    (op : Stream → Stream) :
    (d.update (some k) op).files slot = gs ++ [({ f with stream := op f.stream }, k)] ∧
      ∀ j, j ≠ slot → (d.update (some k) op).files j = d.files j := by
  have hmem : (f, k) ∈ d.files slot := by
    rw [h]
    exact List.mem_append_right gs (List.mem_singleton_self _)
  obtain ⟨hk, hslot⟩ := Disk.mem_files.mp hmem
  exact ⟨Disk.files_update_last h op, fun j hj => Disk.files_update_of_ne hk (by rw [hslot]; exact Ne.symm hj) op⟩

theorem isOpened_close : (w.close d).2.isOpened = false := by
  rw [close]
  split
  · rfl
  · rename_i h
    exact Bool.not_eq_true _ ▸ h

theorem close_spec (h : SlotOk (some w) (d.files slot)) :
    (∀ x ∈ (w.close d).1.files slot, x.1.Finalised) ∧ (w.close d).1.data slot = d.data slot ∧
      ∀ j, j ≠ slot → (w.close d).1.files j = d.files j := by
  by_cases hw : w.isOpened = true
  · obtain ⟨gs, f, k, hfiles, hfile, hf, hgs⟩ := h.of_open hw
    obtain ⟨hlast, hothers⟩ := update_last hfiles patchHeader
    obtain ⟨hfin, hdata⟩ := hf.patchHeader
    have hdisk : (w.close d).1 = d.update (some k) patchHeader := by rw [close, if_pos hw, hfile]
    rw [hdisk, Disk.data_eq_files, Disk.data_eq_files, hlast, hfiles]
    refine ⟨fun x hx => ?_, ?_, hothers⟩
    · rcases List.mem_append.mp hx with hx | hx
      · exact hgs x hx
      · rw [List.mem_singleton.mp hx]
        exact hfin
    · rw [List.flatMap_append, List.flatMap_append, List.flatMap_singleton, List.flatMap_singleton]
      exact congrArg (gs.flatMap (·.1.data) ++ ·) hdata
  · have hdisk : (w.close d).1 = d := by rw [close, if_neg hw]
    rw [hdisk]
    refine ⟨h.finalised fun v hv => ?_, rfl, fun j _ => rfl⟩
    rw [← Option.some.inj hv]
    exact Bool.not_eq_true _ ▸ hw

theorem write_spec (h : SlotOk (some w) (d.files slot)) (hw : w.isOpened = true) (s : SampleData) :
    SlotOk (some (w.write d s.samples s.size).2) ((w.write d s.samples s.size).1.files slot) ∧
      (w.write d s.samples s.size).1.data slot = d.data slot ++ s.payload.flatMap le16 ∧
      ∀ j, j ≠ slot → (w.write d s.samples s.size).1.files j = d.files j := by
  obtain ⟨gs, f, k, hfiles, hfile, hf, hgs⟩ := h.of_open hw
  obtain ⟨hlast, hothers⟩ := update_last hfiles (·.fwrite (s.payload.flatMap le16))
  have hdisk : (w.write d s.samples s.size).1 = d.update (some k) (·.fwrite (s.payload.flatMap le16)) := by
    rw [write, hfile]
    rfl
  rw [hdisk, Disk.data_eq_files, Disk.data_eq_files, hlast, hfiles]
  refine ⟨.opened hw hfile (hf.fwrite _) hgs, ?_, hothers⟩
  rw [List.flatMap_append, List.flatMap_append, List.flatMap_singleton, List.flatMap_singleton, hf.data_fwrite,
    List.append_assoc]

theorem open_spec (hw : w.isOpened = false) (h : ∀ x ∈ d.files slot, x.1.Finalised) (ok : Bool) :
    SlotOk (some (w.open ok d slot).2) ((w.open ok d slot).1.files slot) ∧ (w.open ok d slot).2.isOpened = ok ∧
      (w.open ok d slot).1.data slot = d.data slot ∧ ∀ j, j ≠ slot → (w.open ok d slot).1.files j = d.files j := by
  cases ok with
  | false =>
    refine ⟨.closed (fun v hv => ?_) h, hw, rfl, fun j _ => rfl⟩
    rw [← Option.some.inj hv]
    exact hw
  | true =>
    obtain ⟨name, hdr, hdisk⟩ : ∃ (name : String) (hdr : WavHdr),
        (w.open true d slot).1 = d ++ [⟨name, slot, Stream.fopen.fwrite hdr.toBytes⟩] := ⟨_, _, rfl⟩
    have hfiles : (w.open true d slot).1.files slot =
        d.files slot ++ [(⟨name, slot, Stream.fopen.fwrite hdr.toBytes⟩, d.length)] := by
      rw [hdisk, Disk.files_append, if_pos rfl]
    refine ⟨?_, rfl, ?_, fun j hj => ?_⟩
    · rw [hfiles]
      exact .opened rfl rfl (DiskFile.growing_new name slot hdr) h
    · rw [Disk.data_eq_files, Disk.data_eq_files, hfiles, List.flatMap_append, List.flatMap_singleton,
        DiskFile.data_new, List.append_nil]
    · rw [hdisk, Disk.files_append, if_neg (Ne.symm hj), List.append_nil]

end Wav

/-! ### Steps on one slot -/

namespace Recorder

section SetWav
variable {r : Recorder} {i j : Nat} {w : Option Wav}

theorem wav?_setWav_self (h : i < 128) : (r.setWav i w).wav? i = w := by
  rw [wav?, setWav, Vector.getElem?_setIfInBounds_self_of_lt h]
  rfl

theorem wav?_setWav_of_ne (h : j ≠ i) : (r.setWav i w).wav? j = r.wav? j := by
  rw [wav?, setWav, Vector.getElem?_setIfInBounds_ne (Ne.symm h)]
  rfl

end SetWav

/-- The slot as a gate: whether it is open, and the sample data of its files. -/
def view (r : Recorder) (i : Nat) : Gate UInt8 := ⟨(r.wav? i).any (·.isOpened), r.disk.data i⟩

/-- Every slot is in order, and no open `Wav` was deleted. -/
structure Inv (r : Recorder) : Prop where
  slots : ∀ i, SlotOk (r.wav? i) (r.disk.files i)
  dropped : ∀ w ∈ r.dropped, w.isOpened = false

/-- The slots below `m_maxChans` are allocated, and no others. -/
structure Ready (r : Recorder) : Prop where
  chans : r.maxChans < 128
  alloc : ∀ i, (r.wav? i).isSome ↔ i < r.maxChans

/-- From `r` to `r'`, only slot `i` changes, and becomes `v`. -/
structure SlotStep (i : Nat) (v : Gate UInt8) (r r' : Recorder) : Prop where
  wavs : ∀ j, j ≠ i → r'.wav? j = r.wav? j
  files : ∀ j, j ≠ i → r'.disk.files j = r.disk.files j
  maxChans : r'.maxChans = r.maxChans
  dropped : (∀ w ∈ r.dropped, w.isOpened = false) → ∀ w ∈ r'.dropped, w.isOpened = false
  own : SlotOk (r'.wav? i) (r'.disk.files i)
  view : r'.view i = v

namespace SlotStep
variable {i : Nat} {v : Gate UInt8} {r r' : Recorder}

theorem inv (h : SlotStep i v r r') (hr : r.Inv) : r'.Inv where
  slots j := by
    by_cases hj : j = i
    · rw [hj]
      exact h.own
    · rw [h.wavs j hj, h.files j hj]
      exact hr.slots j
  dropped := h.dropped hr.dropped

theorem ready (h : SlotStep i v r r') (hr : r.Ready) (hi : i < r.maxChans) (hsome : (r'.wav? i).isSome) : r'.Ready where
  chans := by rw [h.maxChans]; exact hr.chans
  alloc j := by
    rw [h.maxChans]
    by_cases hj : j = i
    · rw [hj]
      exact iff_of_true hsome hi
    · rw [h.wavs j hj]
      exact hr.alloc j

theorem view_of_ne (h : SlotStep i v r r') {j : Nat} (hj : j ≠ i) : r'.view j = r.view j := by
  rw [Recorder.view, h.wavs j hj, Disk.data_eq_files, h.files j hj, ← Disk.data_eq_files]
  rfl

end SlotStep

variable {env : Env} {r : Recorder} {i : Nat} {w : Wav}

theorem Ready.lt (h : r.Ready) (hw : r.wav? i = some w) : i < r.maxChans := (h.alloc i).mp (by rw [hw]; rfl)

theorem view_of_wav (hw : r.wav? i = some w) : r.view i = ⟨w.isOpened, r.disk.data i⟩ := by
  rw [view, hw]
  rfl

theorem closeWav_step (hr : r.Inv) (h128 : i < 128) (hw : r.wav? i = some w) :
    SlotStep i ((r.view i).step none) r (closeWav i w r) ∧ ((closeWav i w r).wav? i).isSome := by
  have hslot := hr.slots i
  rw [hw] at hslot
  obtain ⟨hfin, hdata, hothers⟩ := Wav.close_spec hslot
  have hself : (closeWav i w r).wav? i = some (w.close r.disk).2 := wav?_setWav_self h128
  refine ⟨⟨fun j hj => wav?_setWav_of_ne hj, hothers, rfl, id, ?_, ?_⟩, by rw [hself]; rfl⟩
  · refine .closed (fun v hv => ?_) hfin
    rw [hself] at hv
    rw [← Option.some.inj hv]
    exact Wav.isOpened_close
  · rw [view_of_wav hself, view_of_wav hw, Wav.isOpened_close]
    exact congrArg (Gate.mk false) hdata

/-- A block as an input of the gate: silence closes it, samples are kept in little-endian order. -/
def gateInput (s : SampleData) : Option (List UInt8) := if s.signal = 0 then none else some (s.payload.flatMap le16)

theorem writeWav_step (hr : r.Inv) (h128 : i < 128) (hw : r.wav? i = some w) (hopen : w.isOpened = true) (s : SampleData) :
    SlotStep i ((r.view i).step (some (s.payload.flatMap le16))) r (writeWav i w s r) ∧
      ((writeWav i w s r).wav? i).isSome := by
  have hslot := hr.slots i
  rw [hw] at hslot
  obtain ⟨hok, hdata, hothers⟩ := Wav.write_spec hslot hopen s
  have hself : (writeWav i w s r).wav? i = some (w.write r.disk s.samples s.size).2 := wav?_setWav_self h128
  refine ⟨⟨fun j hj => wav?_setWav_of_ne hj, hothers, rfl, id, ?_, ?_⟩, by rw [hself]; rfl⟩
  · rw [hself]
    exact hok
  · rw [view_of_wav hself, view_of_wav hw, Gate.step, hopen]
    exact congrArg₂ Gate.mk hopen hdata

/-- The new `Wav` is open when `fopen` succeeds, and no sample data is lost or added. -/
theorem swapWav_step (env : Env) (hr : r.Inv) (h128 : i < 128) (hw : r.wav? i = some w) :
    SlotStep i ⟨env.fopen r.names, r.disk.data i⟩ r (swapWav env i w r) ∧ ((swapWav env i w r).wav? i).isSome := by
  have hslot := hr.slots i
  rw [hw] at hslot
  obtain ⟨hfin, hdata, hothers⟩ := Wav.close_spec hslot
  obtain ⟨new, hnew, hswap⟩ : ∃ new : Wav, new.isOpened = false ∧
      swapWav env i w r =
        { r.setWav i (some (new.open (env.fopen r.names) (w.close r.disk).1 i).2) with
          uid := r.uid + 1
          names := r.names + 1
          disk := (new.open (env.fopen r.names) (w.close r.disk).1 i).1
          dropped := r.dropped ++ [(w.close r.disk).2] } := ⟨_, rfl, rfl⟩
  obtain ⟨hok, hopened, hdata', hothers'⟩ := Wav.open_spec hnew hfin (env.fopen r.names)
  have hself : (swapWav env i w r).wav? i = some (new.open (env.fopen r.names) (w.close r.disk).1 i).2 := by
    rw [hswap]
    exact wav?_setWav_self (r := r) h128
  have hdisk : (swapWav env i w r).disk = (new.open (env.fopen r.names) (w.close r.disk).1 i).1 := by rw [hswap]
  refine ⟨⟨fun j hj => ?_, fun j hj => ?_, rfl, fun hdropped v hv => ?_, ?_, ?_⟩, by rw [hself]; rfl⟩
  · rw [hswap]
    exact wav?_setWav_of_ne (r := r) hj
  · rw [hdisk, hothers' j hj, hothers j hj]
  · rcases List.mem_append.mp hv with hv | hv
    · exact hdropped v hv
    · rw [List.mem_singleton.mp hv]
      exact Wav.isOpened_close
  · rw [hself, hdisk]
    exact hok
  · rw [view_of_wav hself, hdisk, hopened, hdata', hdata]

end Recorder
end Recd2
