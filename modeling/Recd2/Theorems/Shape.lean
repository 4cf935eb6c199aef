import Recd2.Theorems.Handler

/-! The number of blocks of the lists that the server sends, when the chain behind it leaves the list as it is.
    The list of the filler loop then grows from round to round, and it has a block for each channel in
    single-file mode as well. -/

namespace Recd2

/-- The filler lists for a frame with counter `c` behind one with counter `p`; `synch` is the one-time flag. -/
def fillerCount (synch : Bool) (p c : UInt32) : Nat :=
  if c = p + 1 then 0 else if synch then (c - (p + 1)).toInt32.toInt.toNat else 1

/-- The filler lists for each of the frames with the given counters. -/
def fillers : Bool → UInt32 → List UInt32 → List Nat
  | _, _, [] => []
  | synch, p, c :: cs => fillerCount synch p c :: fillers (synch || c != p + 1) c cs

namespace Server

/-- The blocks of a list: one in single-file mode, otherwise one for each channel. -/
def slotCount (s : Server) : Nat := if s.singleFile then 1 else s.channels.toNat

/-- `k` filler lists have the right shape: there is none, or a single one and, in single-file mode, only one
    channel. Without channels, the lists of multi-file mode are empty in any number. -/
def ShapeKept (s : Server) (k : Nat) : Prop :=
  k = 0 ∨ (k = 1 ∧ (s.singleFile = true → s.channels = 1)) ∨ (s.singleFile = false ∧ s.channels = 0)

instance (s : Server) (k : Nat) : Decidable (s.ShapeKept k) := inferInstanceAs (Decidable (_ ∨ _ ∨ _))

/-! ### One frame -/

section Frame
variable (s : Server)

theorem length_deinterleave (channels smplPerChan : UInt32) (signal : Nat → UInt8) (f : FrameData) :
    (deinterleave channels smplPerChan signal f).length = channels.toNat := by
  rw [deinterleave, List.length_map, List.length_range]

theorem length_errBlocks : s.errBlocks.length = s.channels.toNat := length_deinterleave _ _ _ _

theorem length_frameList (f : FrameData) : (s.frameList f).length = s.slotCount := by
  cases hs : s.singleFile <;> simp [frameList, slotCount, hs, length_deinterleave]

/-- Nothing empties the list of the loop, so each round leaves the blocks of one round more in it. -/
theorem map_length_errLoop (blocks : QList) (n : Nat) (ls : QList) :
    (errLoop (some id) blocks n ls).map List.length =
      (List.range n).map fun k => ls.length + (k + 1) * blocks.length := by
  induction n generalizing ls with
  | zero => rfl
  | succ n ih =>
    have hput : putData (some id) (ls ++ blocks) = ls ++ blocks := rfl
    rw [errLoop, List.map_cons, hput, ih, List.range_succ_eq_map, List.map_cons, List.map_map, List.length_append]
    refine List.cons_eq_cons.mpr ⟨by ring, List.map_congr_left fun k _ => ?_⟩
    show ls.length + blocks.length + (k + 1) * blocks.length = ls.length + (k + 1 + 1) * blocks.length
    ring

theorem errLoop_length_iff {blocks : QList} {n w : Nat} :
    (∀ ls ∈ errLoop (some id) blocks n [], ls.length = w) ↔ ∀ k < n, (k + 1) * blocks.length = w := by
  have hmap := map_length_errLoop blocks n []
  constructor
  · intro h k hk
    have hmem : (k + 1) * blocks.length ∈ (errLoop (some id) blocks n []).map List.length := by
      rw [hmap]
      exact List.mem_map.mpr ⟨k, List.mem_range.mpr hk, by simp⟩
    obtain ⟨ls, hls, hlen⟩ := List.mem_map.mp hmem
    exact hlen ▸ h ls hls
  · intro h ls hls
    have hmem : ls.length ∈ (errLoop (some id) blocks n []).map List.length := List.mem_map_of_mem hls
    rw [hmap] at hmem
    obtain ⟨k, hk, hlen⟩ := List.mem_map.mp hmem
    rw [← hlen, List.length_nil, Nat.zero_add]
    exact h k (List.mem_range.mp hk)

theorem rounds_iff {n b w : Nat} :
    (∀ k < n, (k + 1) * b = w) ↔ n = 0 ∨ (n = 1 ∧ b = w) ∨ (b = 0 ∧ w = 0) := by
  constructor
  · intro h
    rcases n with _ | _ | n
    · exact Or.inl rfl
    · have h0 := h 0 Nat.one_pos
      exact Or.inr (Or.inl ⟨rfl, by simpa using h0⟩)
    · have h0 := h 0 (by omega)
      have h1 := h 1 (by omega)
      exact Or.inr (Or.inr ⟨by omega, by omega⟩)
  · rintro (rfl | ⟨rfl, rfl⟩ | ⟨rfl, rfl⟩) k hk
    · exact absurd hk (Nat.not_lt_zero k)
    · rw [Nat.lt_one_iff.mp hk, Nat.zero_add, Nat.one_mul]
    · exact Nat.mul_zero (k + 1)

theorem shapeKept_iff (k : Nat) :
    s.ShapeKept k ↔ k = 0 ∨ (k = 1 ∧ s.errBlocks.length = s.slotCount) ∨ (s.errBlocks.length = 0 ∧ s.slotCount = 0) := by
  have hone : s.channels = 1 ↔ s.channels.toNat = 1 := by rw [← UInt32.toNat_inj]; rfl
  have hzero : s.channels = 0 ↔ s.channels.toNat = 0 := by rw [← UInt32.toNat_inj]; rfl
  rw [ShapeKept, length_errBlocks, slotCount, hone, hzero]
  cases s.singleFile <;> simp

theorem sends_next {f : FrameData} (h : f.counter = s.connInfo.paketCounter + 1) :
    s.sends (some id) f = [s.frameList f] := if_neg (not_not_intro h)

/-- The filler lists are those of a loop, also where the one-time flag cuts it to one round. -/
theorem sends_gap {f : FrameData} (h : f.counter ≠ s.connInfo.paketCounter + 1) :
    s.sends (some id) f =
      errLoop (some id) s.errBlocks (fillerCount s.connInfo.onetimeSynch s.connInfo.paketCounter f.counter) [] := by
  rw [sends, if_pos h, errLists, fillerCount, if_neg h]
  cases s.connInfo.onetimeSynch <;> rfl

theorem sends_shape (f : FrameData) :
    (∀ ls ∈ s.sends (some id) f, ls.length = s.slotCount) ↔
      s.ShapeKept (fillerCount s.connInfo.onetimeSynch s.connInfo.paketCounter f.counter) := by
  by_cases h : f.counter = s.connInfo.paketCounter + 1
  · have hnone : fillerCount s.connInfo.onetimeSynch s.connInfo.paketCounter f.counter = 0 := if_pos h
    rw [sends_next s h, hnone]
    refine iff_of_true (fun ls hls => ?_) (Or.inl rfl)
    rw [List.mem_singleton.mp hls, length_frameList]
  · rw [sends_gap s h, errLoop_length_iff, rounds_iff, shapeKept_iff]

end Frame

/-! ### Runs -/

theorem calls_shape (s : Server) (fs : List FrameData) :
    (∀ ls ∈ s.calls (some id) fs, ls.length = s.slotCount) ↔
      ∀ k ∈ fillers s.connInfo.onetimeSynch s.connInfo.paketCounter (fs.map (·.counter)), s.ShapeKept k := by
  induction fs generalizing s with
  | nil => exact iff_of_true (fun _ h => absurd h List.not_mem_nil) fun _ h => absurd h List.not_mem_nil
  | cons f fs ih =>
    have hsynch : (s.after [f]).connInfo.onetimeSynch = (s.connInfo.onetimeSynch || f.counter != s.connInfo.paketCounter + 1) :=
      ConnInfo.onetimeSynch_receive s.connInfo f.counter
    have hcounter : (s.after [f]).connInfo.paketCounter = f.counter := ConnInfo.paketCounter_receive s.connInfo f.counter
    have hrest := ih (s.after [f])
    rw [hsynch, hcounter] at hrest
    rw [calls, List.forall_mem_append, sends_shape, List.map_cons, fillers, List.forall_mem_cons]
    exact and_congr_right fun _ => hrest

/-- Every list has one block for each slot exactly when the fillers for each of the frames keep that shape. -/
theorem shape_iff (s : Server) (groups : List (List Datagram)) (hgroups : ∀ g ∈ groups, g ≠ []) :
    (∀ ls ∈ putDataCalls (Run.emits (step (some id)) s (groups.map .readyRead)), ls.length = s.slotCount) ↔
      ∀ k ∈ fillers s.connInfo.onetimeSynch s.connInfo.paketCounter ((frames groups.flatten).map (·.counter)),
        s.ShapeKept k := by
  rw [putDataCalls_readyRead s groups hgroups]
  exact calls_shape s _

/-- Frames 1, 3 and 5 in two notifications, with three samples of each of two channels: there is a single filler list for
    each of the two gaps. -/
theorem shape_iff_gaps :
    let s := { new with channels := 2, smplPerChan := 3 }
    let groups := [[FrameData.silent 1, FrameData.silent 3].map FrameData.toBytes, [FrameData.silent 5].map FrameData.toBytes]
    ∀ ls ∈ putDataCalls (Run.emits (step (some id)) s (groups.map .readyRead)), ls.length = s.slotCount := by
  refine (shape_iff _ _ (by simp)).mpr ?_
  have hflatten : [[FrameData.silent 1, FrameData.silent 3].map FrameData.toBytes,
      [FrameData.silent 5].map FrameData.toBytes].flatten =
        [FrameData.silent 1, FrameData.silent 3, FrameData.silent 5].map FrameData.toBytes := rfl
  rw [hflatten, frames_map_toBytes]
  decide

/-- Frames 1, 3 and 6 in multi-file mode with one channel: the second filler list for frame 6 has two blocks. -/
theorem shape_counterexample :
    ¬∀ (s : Server) (groups : List (List Datagram)), (∀ g ∈ groups, g ≠ []) →
      (∀ d ∈ groups.flatten, d.length = sizeofFrameData) →
      ∀ ls ∈ putDataCalls (Run.emits (step (some id)) s (groups.map .readyRead)), ls.length = s.slotCount := by
  intro h
  have hsize : ∀ d ∈ [[FrameData.silent 1, FrameData.silent 3, FrameData.silent 6].map FrameData.toBytes].flatten,
      d.length = sizeofFrameData := by
    simp [FrameData.length_toBytes]
  have hshape := h { new with channels := 1, smplPerChan := 1 }
    [[FrameData.silent 1, FrameData.silent 3, FrameData.silent 6].map FrameData.toBytes] (by simp) hsize
  rw [putDataCalls_readyRead _ _ (by simp), List.flatten_singleton, frames_map_toBytes] at hshape
  revert hshape
  decide

end Server
end Recd2
