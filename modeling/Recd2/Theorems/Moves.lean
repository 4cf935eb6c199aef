import Recd2.Theorems.Records
import Mathlib.Logic.Relation

/-! What the recorder does to its slots comes down to three moves on a `Wav`: it is closed, a block is written to
    it while it is open, or it is replaced. This takes nothing for granted about the recorder. -/

namespace Recd2.Recorder

/-- A move on the `Wav` of one slot. -/
inductive Move (env : Env) (r : Recorder) : Recorder → Prop
  | close {i : Nat} {w : Wav} (hw : r.wav? i = some w) : Move env r (closeWav i w r)
  | write {i : Nat} {w : Wav} (hw : r.wav? i = some w) (hopen : w.isOpened = true) (s : SampleData) :
    Move env r (writeWav i w s r)
  | swap {i : Nat} {w : Wav} (hw : r.wav? i = some w) : Move env r (swapWav env i w r)

/-- Any number of moves. -/
def Moves (env : Env) : Recorder → Recorder → Prop := Relation.ReflTransGen (Move env)

section Operations
variable {env : Env} {r r' r'' : Recorder} {i : Nat}

theorem Moves.refl (r : Recorder) : Moves env r r := Relation.ReflTransGen.refl

theorem Moves.trans (h : Moves env r r') (h' : Moves env r' r'') : Moves env r r'' := Relation.ReflTransGen.trans h h'

theorem Move.moves (h : Move env r r') : Moves env r r' := Relation.ReflTransGen.single h

/-- What each move keeps is kept by any number of them. -/
theorem Moves.keeps {P : Recorder → Prop} (h : Moves env r r') (hmove : ∀ s s', Move env s s' → P s → P s')
    (hr : P r) : P r' := by
  induction h with
  | refl => exact hr
  | tail _ hlast ih => exact hmove _ _ hlast ih

/-- What `record` does with one block, when it does not follow a null pointer. -/
inductive BlockStep (env : Env) (i : Nat) (s : SampleData) (r : Recorder) : Recorder → Prop
  | none (hw : r.wav? i = none) (hs : s.signal = 0) : BlockStep env i s r r
  | close {w : Wav} (hw : r.wav? i = some w) (hs : s.signal = 0) : BlockStep env i s r (closeWav i w r)
  | write {w : Wav} (hw : r.wav? i = some w) (hs : s.signal ≠ 0) (hopen : w.isOpened = true) :
    BlockStep env i s r (writeWav i w s r)
  | reopen {w : Wav} (hw : r.wav? i = some w) (hs : s.signal ≠ 0) (hopen : w.isOpened = false) :
    BlockStep env i s r (swapWav env i w r)

theorem recordBlock_cases {s : SampleData} (h : recordBlock env i s r = some r') : BlockStep env i s r r' := by
  unfold recordBlock at h
  split at h
  · cases h
  · rename_i hget
    split at h
    · rename_i hs
      cases h
      exact .none (by rw [wav?, hget, Option.join_some]) hs
    · cases h
  · rename_i w hget
    have hwav : r.wav? i = some w := by rw [wav?, hget, Option.join_some]
    split at h
    · rename_i hs
      cases h
      exact .close hwav hs
    · rename_i hs
      split at h
      · rename_i hopen
        cases h
        exact .write hwav hs hopen
      · rename_i hopen
        have hclosed : w.isOpened = false := Bool.not_eq_true _ ▸ hopen
        cases h
        simp only [reopenWavFile, hwav, hclosed, Bool.not_false, if_true]
        exact .reopen hwav hs hclosed

theorem BlockStep.moves {s : SampleData} (h : BlockStep env i s r r') : Moves env r r' := by
  cases h with
  | none => exact .refl r
  | close hw => exact (Move.close hw).moves
  | write hw _ hopen => exact (Move.write hw hopen s).moves
  | reopen hw => exact (Move.swap hw).moves

/-- One round of the loop, from a recorder in good order. -/
theorem recordFrom_cons_spec (env : Env) {s : SampleData} {sd : QList} (h : r.Good) (hlen : i + (s :: sd).length ≤ r.maxChans) :
    ∃ r₁, BlockStep env i s r r₁ ∧ r₁.Good ∧ i + 1 + sd.length ≤ r₁.maxChans ∧
      recordFrom env i (s :: sd) r = recordFrom env (i + 1) sd r₁ := by
  rw [List.length_cons] at hlen
  obtain ⟨r₁, hblock, hr₁⟩ := recordBlock_spec (i := i) env h (by omega) s
  exact ⟨r₁, recordBlock_cases hblock, hr₁.good, by rw [hr₁.maxChans]; omega, by rw [recordFrom, hblock]; rfl⟩

theorem recordFrom_moves {sd : QList} (h : recordFrom env i sd r = some r') : Moves env r r' := by
  induction sd generalizing i r with
  | nil =>
    cases h
    exact .refl _
  | cons s sd ih =>
    obtain ⟨r₁, hblock, hrest⟩ := Option.bind_eq_some_iff.mp h
    exact (recordBlock_cases hblock).moves.trans (ih hrest)

theorem Swaps.moves {body : Recorder → Nat → Recorder} (h : Swaps env body) (r : Recorder) (n : Nat) :
    Moves env r ((List.range n).foldl body r) :=
  Run.foldl_range (P := fun _ s => Moves env r s) (.refl r) fun i s _ hs => by
    rcases h s i with heq | ⟨w, hw, -, heq⟩
    · rwa [heq]
    · rw [heq]
      exact hs.trans (Move.swap hw).moves

theorem pollHotSwap_moves : Moves env r (pollHotSwap env r) := (pollSlot_swaps env).moves r r.maxChans

/-- The recorder in front of the loop of `record`. -/
def polled (env : Env) (r : Recorder) : Recorder := if r.sizeBased then pollHotSwap env r else r

theorem record_eq {sd : QList} (hsd : sd ≠ []) : record env sd r = recordFrom env 0 sd (polled env r) := by
  rw [record, if_neg (by simpa using hsd), polled]

theorem polled_moves : Moves env r (polled env r) := by
  rw [polled]
  split
  · exact pollHotSwap_moves
  · exact .refl r

theorem record_moves {sd : QList} (h : record env sd r = some r') : Moves env r r' := by
  by_cases hsd : sd = []
  · subst hsd
    cases h
    exact .refl r
  · rw [record_eq hsd] at h
    exact polled_moves.trans (recordFrom_moves h)

theorem step_moves {op : Op} (h : step env r op = some r') : Moves env r r' := by
  cases op with
  | record sd => exact record_moves h
  | hotSwapFiles =>
    cases h
    exact (hotSwapSlot_swaps env).moves r r.maxChans
  | pollHotSwap =>
    cases h
    exact pollHotSwap_moves

end Operations

/-! ### What a move leaves in its slot -/

/-- The name of the file that a swap makes. -/
def swapName (env : Env) (i : Nat) (r : Recorder) : String :=
  nextName env (if r.directory ≠ "" then some r.directory else none) i r

/-- The files and the `Wav` of the slot behind a swap. -/
def swapOpened (env : Env) (i : Nat) (w : Wav) (r : Recorder) : Disk × Wav :=
  ((Wav.new (swapName env i r)).setupWave r.wavParams).open (env.fopen r.names) (w.close r.disk).1 i

section Slot
variable {env : Env} {r : Recorder} {i j : Nat} {w : Wav}

theorem lt_of_wav (hw : r.wav? i = some w) : i < 128 := by
  by_contra hi
  rw [wav?, Vector.getElem?_eq_none (Nat.not_lt.mp hi)] at hw
  cases hw

theorem wav?_closeWav_self (hw : r.wav? i = some w) : (closeWav i w r).wav? i = some (w.close r.disk).2 :=
  wav?_setWav_self (lt_of_wav hw)

theorem wav?_closeWav_of_ne (hj : j ≠ i) : (closeWav i w r).wav? j = r.wav? j := wav?_setWav_of_ne hj

theorem wav?_writeWav_self (hw : r.wav? i = some w) (s : SampleData) :
    (writeWav i w s r).wav? i = some (w.write r.disk s.samples s.size).2 := wav?_setWav_self (lt_of_wav hw)

theorem wav?_writeWav_of_ne (hj : j ≠ i) (s : SampleData) : (writeWav i w s r).wav? j = r.wav? j := wav?_setWav_of_ne hj

theorem wav?_swapWav_self (hw : r.wav? i = some w) : (swapWav env i w r).wav? i = some (swapOpened env i w r).2 :=
  wav?_setWav_self (r := r) (lt_of_wav hw)

theorem wav?_swapWav_of_ne (hj : j ≠ i) : (swapWav env i w r).wav? j = r.wav? j := wav?_setWav_of_ne (r := r) hj

theorem disk_swapWav : (swapWav env i w r).disk = (swapOpened env i w r).1 := rfl

theorem isOpened_swapOpened : (swapOpened env i w r).2.isOpened = env.fopen r.names := by
  rw [swapOpened]
  cases env.fopen r.names <;> rfl

end Slot

/-! ### Which slots are allocated -/

section Allocated
variable {env : Env} {r r' : Recorder} {i : Nat} {w : Wav}

theorem isSome_setWav (hw : r.wav? i = some w) (v : Wav) (j : Nat) :
    ((r.setWav i (some v)).wav? j).isSome = (r.wav? j).isSome := by
  by_cases hj : j = i
  · rw [hj, wav?_setWav_self (lt_of_wav hw), hw]
    rfl
  · rw [wav?_setWav_of_ne hj]

/-- No move allocates a slot or makes one null. -/
theorem Move.isSome (h : Move env r r') (j : Nat) : (r'.wav? j).isSome = (r.wav? j).isSome := by
  cases h with
  | close hw => exact isSome_setWav hw _ j
  | write hw _ s => exact isSome_setWav hw _ j
  | swap hw => exact isSome_setWav hw _ j

theorem Move.maxChans (h : Move env r r') : r'.maxChans = r.maxChans := by
  cases h <;> rfl

theorem Move.wavParams (h : Move env r r') : r'.wavParams = r.wavParams := by
  cases h <;> rfl

theorem Move.swapping (h : Move env r r') : r'.sizeBased = r.sizeBased ∧ r'.maxFileSize = r.maxFileSize := by
  cases h <;> exact ⟨rfl, rfl⟩

theorem Moves.isSome (h : Moves env r r') (j : Nat) : (r'.wav? j).isSome = (r.wav? j).isSome :=
  h.keeps (P := fun s => (s.wav? j).isSome = (r.wav? j).isSome) (fun _ _ hmove hs => (hmove.isSome j).trans hs) rfl

theorem Moves.maxChans (h : Moves env r r') : r'.maxChans = r.maxChans :=
  h.keeps (P := fun s => s.maxChans = r.maxChans) (fun _ _ hmove hs => hmove.maxChans.trans hs) rfl

theorem Moves.wavParams (h : Moves env r r') : r'.wavParams = r.wavParams :=
  h.keeps (P := fun s => s.wavParams = r.wavParams) (fun _ _ hmove hs => hmove.wavParams.trans hs) rfl

theorem Moves.swapping (h : Moves env r r') : r'.sizeBased = r.sizeBased ∧ r'.maxFileSize = r.maxFileSize :=
  h.keeps (P := fun s => s.sizeBased = r.sizeBased ∧ s.maxFileSize = r.maxFileSize) (fun _ _ hmove hs =>
    ⟨hmove.swapping.1.trans hs.1, hmove.swapping.2.trans hs.2⟩) ⟨rfl, rfl⟩

/-- A block goes through when its slot exists, or its signal byte is zero. -/
theorem recordBlock_isSome (env : Env) {s : SampleData} (h128 : i < 128) (h : s.signal ≠ 0 → (r.wav? i).isSome) :
    ∃ r', recordBlock env i s r = some r' := by
  rw [wav?, Vector.getElem?_eq_getElem h128, Option.join_some] at h
  rw [recordBlock, Vector.getElem?_eq_getElem h128]
  cases hw : r.wavs[i] with
  | none =>
    have hs : s.signal = 0 := by
      by_contra hs
      have hsome := h hs
      rw [hw] at hsome
      cases hsome
    exact ⟨r, if_pos hs⟩
  | some w =>
    dsimp only
    split_ifs
    · exact ⟨_, rfl⟩
    · exact ⟨_, rfl⟩
    · exact ⟨_, rfl⟩

/-- A list goes through when the array has a place for each block, and those with a non-zero signal byte have their
    slots. -/
theorem recordFrom_isSome (env : Env) {sd : QList} (hlen : i + sd.length ≤ 128)
    (h : ∀ k b, sd[k]? = some b → b.signal ≠ 0 → (r.wav? (i + k)).isSome) : ∃ r', recordFrom env i sd r = some r' := by
  induction sd generalizing i r with
  | nil => exact ⟨r, rfl⟩
  | cons s sd ih =>
    rw [List.length_cons] at hlen
    obtain ⟨r₁, hblock⟩ := recordBlock_isSome env (i := i) (r := r) (s := s) (by omega) (h 0 s rfl)
    rw [recordFrom, hblock]
    refine ih (by omega) fun k b hb hs => ?_
    rw [(recordBlock_cases hblock).moves.isSome, Nat.add_assoc, Nat.add_comm 1 k]
    exact h (k + 1) b hb hs

theorem record_isSome (env : Env) {sd : QList} (hlen : sd.length ≤ 128)
    (h : ∀ k b, sd[k]? = some b → b.signal ≠ 0 → (r.wav? k).isSome) : ∃ r', record env sd r = some r' := by
  by_cases hsd : sd = []
  · exact ⟨r, by rw [hsd]; rfl⟩
  · rw [record_eq hsd]
    refine recordFrom_isSome env (by rw [Nat.zero_add]; exact hlen) fun k b hb hs => ?_
    rw [Nat.zero_add, polled_moves.isSome]
    exact h k b hb hs

end Allocated
end Recd2.Recorder
