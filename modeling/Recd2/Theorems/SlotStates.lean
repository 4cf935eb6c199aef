import Recd2.Theorems.Held
import Recd2.Theorems.Samples

/-! The slots as a state machine. In every state that can be reached, a list opens the slots of its blocks with a
    non-zero signal byte, closes those of the others, and leaves the remaining slots as they are. The files it opens
    have the header of the wave parameters. -/

namespace Recd2.Recorder

/-! ### Open and closed slots -/

section Status
variable {env : Env} {r r' : Recorder} {i : Nat} {s : SampleData} {sd : QList}

theorem isOpen_of_wav {w : Wav} (hw : r.wav? i = some w) : r.isOpen i = w.isOpened := by
  rw [isOpen, hw]
  rfl

theorem isOpen_congr {j : Nat} (h : r'.wav? j = r.wav? j) : r'.isOpen j = r.isOpen j := by rw [isOpen, isOpen, h]

theorem exists_blockStep (env : Env) (s : SampleData) (h : (r.wav? i).isSome) : ∃ r', recordBlock env i s r = some r' := by
  obtain ⟨w, hw⟩ := Option.isSome_iff_exists.mp h
  rw [recordBlock, slot_eq_of_wav hw]
  simp only
  split
  · exact ⟨_, rfl⟩
  · split
    · exact ⟨_, rfl⟩
    · exact ⟨_, rfl⟩

/-- A block opens its slot or closes it, by its signal byte. -/
theorem BlockStep.isOpen (h : BlockStep env i s r r') (henv : env.Opens) (hsome : (r.wav? i).isSome) (j : Nat) :
    r'.isOpen j = if j = i then decide (s.signal ≠ 0) else r.isOpen j := by
  by_cases hj : j = i
  · rw [if_pos hj, hj]
    cases h with
    | none hw =>
      rw [hw] at hsome
      cases hsome
    | close hw hs =>
      rw [isOpen_of_wav (wav?_closeWav_self hw), Wav.isOpened_close, hs]
      rfl
    | write hw hs hopen =>
      rw [isOpen_of_wav (wav?_writeWav_self hw s), decide_eq_true hs]
      exact hopen
    | reopen hw hs =>
      rw [isOpen_of_wav (wav?_swapWav_self hw), isOpened_swapOpened, henv, decide_eq_true hs]
  · rw [if_neg hj]
    cases h with
    | none => rfl
    | close hw => exact isOpen_congr (wav?_closeWav_of_ne hj)
    | write hw => exact isOpen_congr (wav?_writeWav_of_ne hj s)
    | reopen hw => exact isOpen_congr (wav?_swapWav_of_ne hj)

theorem recordFrom_isOpen (henv : env.Opens) (halloc : ∀ j < i + sd.length, (r.wav? j).isSome) :
    ∃ r', recordFrom env i sd r = some r' ∧
      ∀ j, r'.isOpen j = ((blockAt i sd j).map fun b => decide (b.signal ≠ 0)).getD (r.isOpen j) := by
  induction sd generalizing i r with
  | nil =>
    refine ⟨r, rfl, fun j => ?_⟩
    rw [blockAt, List.getElem?_nil, ite_self]
    rfl
  | cons s sd ih =>
    have hi : (r.wav? i).isSome := halloc i (by rw [List.length_cons]; omega)
    obtain ⟨r₁, hblock⟩ := exists_blockStep env s hi
    have hstep := recordBlock_cases hblock
    obtain ⟨r', hrest, hopen⟩ := ih (i := i + 1) (r := r₁) fun j hj => by
      rw [hstep.moves.isSome]
      exact halloc j (by rw [List.length_cons]; omega)
    refine ⟨r', by rw [recordFrom, hblock]; exact hrest, fun j => ?_⟩
    rw [hopen, hstep.isOpen henv hi, blockAt_cons]
    by_cases hj : j = i
    · have hnone : blockAt (i + 1) sd i = none := if_neg (by omega)
      rw [if_pos hj, if_pos hj, hj, hnone]
      rfl
    · rw [if_neg hj, if_neg hj]

/-- The poll replaces open files by open files. -/
theorem polled_isOpen (henv : env.Opens) (r : Recorder) (j : Nat) : (polled env r).isOpen j = r.isOpen j := by
  rw [polled]
  split
  · refine Run.foldl_range (P := fun _ s => isOpen s j = r.isOpen j) rfl fun i s _ hs => ?_
    rcases pollSlot_swaps env s i with heq | ⟨w, hw, hopen, heq⟩
    · rwa [heq]
    · rw [heq, ← hs]
      by_cases hj : j = i
      · rw [hj, isOpen_of_wav (wav?_swapWav_self hw), isOpened_swapOpened, henv, isOpen_of_wav hw, hopen]
      · exact isOpen_congr (wav?_swapWav_of_ne hj)
  · rfl

end Status

theorem blockAt_zero (sd : QList) (j : Nat) : blockAt 0 sd j = sd[j]? := if_pos (Nat.zero_le j)

section Record
variable {env : Env} {r r' : Recorder} {sd : QList}

theorem record_isOpen (henv : env.Opens) (halloc : ∀ j < sd.length, (r.wav? j).isSome) :
    ∃ r', record env sd r = some r' ∧
      ∀ j, r'.isOpen j = (sd[j]?.map fun b => decide (b.signal ≠ 0)).getD (r.isOpen j) := by
  by_cases hsd : sd = []
  · subst hsd
    exact ⟨r, rfl, fun j => rfl⟩
  · have hpolled : ∀ j < 0 + sd.length, ((polled env r).wav? j).isSome := fun j hj => by
      rw [polled_moves.isSome]
      exact halloc j (by omega)
    obtain ⟨r', hrecord, hopen⟩ := recordFrom_isOpen henv hpolled
    refine ⟨r', (record_eq hsd).trans hrecord, fun j => ?_⟩
    rw [hopen, blockAt_zero, polled_isOpen henv]

/-- The files made since `r`: their header is that of the parameters, and complete as long as they are open. -/
theorem Moves.headers (h : Moves env r r') (hr : Held (fun _ _ => True) r) {k : Nat} {f : DiskFile}
    (hk : r.disk.length ≤ k) (hf : r'.disk[k]? = some f) :
    f.HasHeader r.wavParams ∧ (r'.HeldOpen k → f.HeaderAsOpened r.wavParams) := by
  have hold : ∀ k f, r.disk.length ≤ k → r.disk[k]? ≠ some f := by
    intro k f hk hf
    rw [List.getElem?_eq_none hk] at hf
    cases hf
  refine ⟨h.newHeaders hr (fun k f hk hf => absurd hf (hold k f hk)) k f hk hf, ?_⟩
  rintro ⟨i, w, hw, hopen, hfile⟩
  have hstart : Held (fun k f => r.disk.length ≤ k → f.HeaderAsOpened r.wavParams) r := by
    intro i w hw hopen
    obtain ⟨k, f, hfile, hk, hslot, hf, -⟩ := hr i w hw hopen
    exact ⟨k, f, hfile, hk, hslot, hf, fun hle => absurd hk (hold k f hle)⟩
  obtain ⟨k', f', hfile', hf', -, -, hheader⟩ :=
    h.held (lasting_headerAsOpened r.wavParams r.disk.length) hstart i w hw hopen
  rw [hfile] at hfile'
  obtain rfl := Option.some.inj hfile'
  rw [hf] at hf'
  obtain rfl := Option.some.inj hf'
  exact hheader hk

end Record

/-- After a list, the slot of each block is open exactly when its signal byte is not zero, the other slots are as
    before, the same slots are allocated, and the new files have the header of the wave parameters. -/
theorem slots_after_record (env : Env) (henv : env.Opens) (r : Recorder) (h : Reachable r)
    (halloc : ∀ i < r.maxChans, (r.wav? i).isSome) (sd : QList) (hlen : sd.length ≤ r.maxChans) :
    ∃ r', record env sd r = some r' ∧
      (∀ i b, sd[i]? = some b → (r'.isOpen i = true ↔ b.signal ≠ 0)) ∧
      (∀ i, sd.length ≤ i → r'.isOpen i = r.isOpen i) ∧
      (∀ i, (r'.wav? i).isSome = (r.wav? i).isSome) ∧
      ∀ k f, r.disk.length ≤ k → r'.disk[k]? = some f →
        f.HasHeader r.wavParams ∧ (r'.HeldOpen k → f.HeaderAsOpened r.wavParams) := by
  obtain ⟨r', hrecord, hopen⟩ := record_isOpen henv fun j hj => halloc j (Nat.lt_of_lt_of_le hj hlen)
  have hmoves := record_moves hrecord
  refine ⟨r', hrecord, fun i b hb => ?_, fun i hi => ?_, hmoves.isSome, fun k f hk hf => hmoves.headers h.held hk hf⟩
  · rw [hopen, hb]
    simp
  · rw [hopen, List.getElem?_eq_none hi]
    rfl

theorem slots_after_record_calm :
    ∃ r', record calm [openingBlock] (init calm .new new) = some r' ∧
      (∀ i b, [openingBlock][i]? = some b → (r'.isOpen i = true ↔ b.signal ≠ 0)) ∧
      (∀ i, [openingBlock].length ≤ i → r'.isOpen i = (init calm .new new).isOpen i) ∧
      (∀ i, (r'.wav? i).isSome = ((init calm .new new).wav? i).isSome) ∧
      ∀ k f, (init calm .new new).disk.length ≤ k → r'.disk[k]? = some f →
        f.HasHeader (init calm .new new).wavParams ∧
          (r'.HeldOpen k → f.HeaderAsOpened (init calm .new new).wavParams) :=
  slots_after_record calm (fun _ => rfl) (init calm .new new) (.init calm .new .new)
    (fun i hi => ((good_init calm .new).ready.alloc i).mpr hi) [openingBlock] (by rw [maxChans_calm]; decide)

end Recd2.Recorder
