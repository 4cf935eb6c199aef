import Recd2.Theorems.Records

/-! The header of every file that is not held open has the lengths of the file, after any run and after
    `deinit`, and no `Wav` is deleted while it is open. -/

namespace Recd2.Recorder

variable {r : Recorder} {i : Nat}

/-! ### `deinit` -/

theorem deinitSlot_of_open {w : Wav} (hw : r.wav? i = some w) (hopen : w.isOpened = true) :
    deinitSlot r i =
      { r.setWav i none with disk := (w.close r.disk).1, dropped := r.dropped ++ [(w.close r.disk).2] } := by
  simp only [deinitSlot, hw, if_pos hopen]

theorem deinitSlot_of_not_open (hw : ∀ w ∈ r.wav? i, w.isOpened = false) : deinitSlot r i = r := by
  rw [deinitSlot]
  cases hi : r.wav? i with
  | none => rfl
  | some w =>
    have hclosed : ¬w.isOpened = true := by
      rw [hw w hi]
      exact Bool.false_ne_true
    exact if_neg hclosed

theorem deinitSlot_inv (h : r.Inv) (h128 : i < 128) : (deinitSlot r i).Inv := by
  by_cases hclosed : ∀ w ∈ r.wav? i, w.isOpened = false
  · rw [deinitSlot_of_not_open hclosed]
    exact h
  · obtain ⟨w, hw, hopen⟩ : ∃ w, r.wav? i = some w ∧ w.isOpened = true := by simpa using hclosed
    have hslot := h.slots i
    rw [hw] at hslot
    obtain ⟨hfin, -, hothers⟩ := Wav.close_spec hslot
    have hself : (deinitSlot r i).wav? i = none := by
      rw [deinitSlot_of_open hw hopen]
      exact wav?_setWav_self (r := r) h128
    have hdisk : (deinitSlot r i).disk = (w.close r.disk).1 := by rw [deinitSlot_of_open hw hopen]
    have hdropped : (deinitSlot r i).dropped = r.dropped ++ [(w.close r.disk).2] := by
      rw [deinitSlot_of_open hw hopen]
    refine ⟨fun j => ?_, fun v hv => ?_⟩
    · by_cases hj : j = i
      · rw [hj, hself, hdisk]
        exact .closed (fun v hv => by cases hv) hfin
      · have hwav : (deinitSlot r i).wav? j = r.wav? j := by
          rw [deinitSlot_of_open hw hopen]
          exact wav?_setWav_of_ne (r := r) hj
        rw [hwav, hdisk, hothers j hj]
        exact h.slots j
    · rw [hdropped] at hv
      rcases List.mem_append.mp hv with hv | hv
      · exact h.dropped v hv
      · rw [List.mem_singleton.mp hv]
        exact Wav.isOpened_close

theorem deinit_inv (h : r.Inv) : (deinit r).Inv :=
  Run.foldl_range (P := fun _ s => Inv s) h fun _ _ hi hs => deinitSlot_inv hs hi

/-! ### Every file -/

/-- The `Wav` of some slot is open and writes the file at place `k`. -/
def HeldOpen (r : Recorder) (k : Nat) : Prop := ∃ i w, r.wav? i = some w ∧ w.isOpened = true ∧ w.file = some k

theorem Inv.file (h : r.Inv) {k : Nat} {f : DiskFile} (hf : r.disk[k]? = some f) : r.HeldOpen k ∨ f.Finalised := by
  have hmem : (f, k) ∈ r.disk.files f.slot := Disk.mem_files.mpr ⟨hf, rfl⟩
  generalize hw : r.wav? f.slot = w at *
  generalize hfs : r.disk.files f.slot = fs at *
  have hslot := h.slots f.slot
  rw [hw, hfs] at hslot
  cases hslot with
  | closed _ hfin => exact Or.inr (hfin _ hmem)
  | opened hopen hfile _ hfin =>
    rcases List.mem_append.mp hmem with hmem | hmem
    · exact Or.inr (hfin _ hmem)
    · obtain ⟨-, rfl⟩ := Prod.mk.inj (List.mem_singleton.mp hmem)
      exact Or.inl ⟨f.slot, _, hw, hopen, hfile⟩

/-- After any run from `init`, and after `deinit` behind it: a file that no slot holds open has `riff_len` and
    `data_len` of its size, and the `Wav`s that were deleted had been closed. -/
theorem files_finalised (env : Env) (cfg : RecorderConfig) (ops : List Op)
    (hfits : ∀ op ∈ ops, op.Fits (init env cfg new).maxChans) (ended : Bool) :
    ∃ r, Run.exec (step env) (init env cfg new) ops = some r ∧
      let r := if ended then deinit r else r
      (∀ k f, r.disk[k]? = some f → f.size < 2 ^ 32 → ¬r.HeldOpen k →
        44 ≤ f.size ∧ f.riffLen = f.size - 8 ∧ f.dataLen = f.size - 44) ∧
      ∀ w ∈ r.dropped, w.isOpened = false := by
  obtain ⟨r, hrun, hr⟩ := exec_spec env (good_init env cfg) hfits
  refine ⟨r, hrun, ?_⟩
  intro r'
  have hinv : r'.Inv := by
    cases ended with
    | true => exact deinit_inv hr.good.inv
    | false => exact hr.good.inv
  refine ⟨fun k f hf hsize hfree => ?_, hinv.dropped⟩
  obtain ⟨hheader, hriff, hdata⟩ := (hinv.file hf).resolve_left hfree
  rw [Nat.mod_eq_of_lt (by omega)] at hriff hdata
  exact ⟨hheader, hriff, hdata⟩

theorem files_finalised_calm :
    ∃ r, Run.exec (step calm) (init calm .new new)
          [.record [⟨1, [7], 1⟩], .hotSwapFiles] = some r ∧
      let r := if true then deinit r else r
      (∀ k f, r.disk[k]? = some f → f.size < 2 ^ 32 → ¬r.HeldOpen k →
        44 ≤ f.size ∧ f.riffLen = f.size - 8 ∧ f.dataLen = f.size - 44) ∧
      ∀ w ∈ r.dropped, w.isOpened = false :=
  files_finalised calm .new [.record [⟨1, [7], 1⟩], .hotSwapFiles] (by
    rw [maxChans_calm]
    simp [Op.Fits, Op.lists]) true

end Recd2.Recorder
