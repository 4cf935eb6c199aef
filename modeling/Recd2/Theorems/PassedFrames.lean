import Recd2.Lib.Bytes
import Recd2.Lib.Run
import Recd2.Theorems.Packing

/-! The frames that the DTMF plugin passes to the detector, against the samples that it accepts. A frame repeats the first
    block that is pending, so that the frames are a beginning of the stream only where the stream repeats itself. -/

namespace Recd2
open Checked Bytes

/-- The samples of a block. -/
def SampleData.content (s : SampleData) : List Int16 := (List.range s.size.toNat).map s.sample

namespace Dtmf

/-- The samples of the blocks that `put_data` accepted, in order. -/
def accepted (acts : List Act) : List Int16 :=
  acts.flatMap fun
    | .putData ls => ls.flatMap SampleData.content
    | .run => []

/-- The plugin behind the steps. -/
def after (s_frameSize : Int32) (acts : List Act) : Dtmf := Run.state (step s_frameSize) new acts

/-- The frames that it passed in the steps. -/
def passed (s_frameSize : Int32) (acts : List Act) : List (List Int16) := Run.emits (step s_frameSize) new acts

/-- No sample is repeated, skipped or moved so far. -/
def Fed (s_frameSize : Int32) (acts : List Act) : Prop := (passed s_frameSize acts).flatten <+: accepted acts

/-- When a frame is packed next, the samples that follow in the stream are those of the first pending block, as often as
    it goes into the frame. -/
def Repeating (s_frameSize : Int32) (acts : List Act) : Prop :=
  (after s_frameSize acts).runAt = .pack → ∀ smpl ∈ (after s_frameSize acts).dbl.head?,
    slice ((passed s_frameSize acts).length * s_frameSize.toInt.toNat) s_frameSize.toInt.toNat (accepted acts) =
      (List.range s_frameSize.toInt.toNat).map smpl.repeated

/-- The blocks have a size that goes into the frame. -/
def Fits (s_frameSize : Int32) (blocks : QList) : Prop :=
  ∀ smpl ∈ blocks, 1 ≤ smpl.size.toNat ∧ smpl.size.toNat ∣ s_frameSize.toInt.toNat

/-! ### The steps -/

/-- What the steps keep as long as the blocks fit. -/
structure Valid (s_frameSize : Int32) (d : Dtmf) : Prop where
  sampleBuffer : Fits s_frameSize d.sampleBuffer
  dbl : Fits s_frameSize d.dbl
  pending : d.runAt = .pack → d.dbl ≠ []
  sound : ∀ e, d.runAt ≠ .faulted e

section Steps
variable {s_frameSize : Int32} {d : Dtmf} {acts : List Act} {a : Act}

theorem valid_new : Valid s_frameSize new where
  sampleBuffer _ h := nomatch h
  dbl _ h := nomatch h
  pending h := nomatch h
  sound _ h := nomatch h

/-- A step of the thread passes nothing, or it passes the first block, as often as it goes into the frame. -/
theorem run_cases (hpos : 0 < s_frameSize.toInt) (h : Valid s_frameSize d) :
    d.runAt ≠ .pack ∧ (d.run s_frameSize).2 = [] ∧ Valid s_frameSize (d.run s_frameSize).1 ∨
      ∃ smpl blocks, d.runAt = .pack ∧ d.dbl = smpl :: blocks ∧
        d.run s_frameSize = ({ d with dbl := [], runAt := .count }, [(List.range s_frameSize.toInt.toNat).map smpl.repeated]) := by
  obtain ⟨sampleBuffer, dbl, runAt⟩ := d
  cases runAt with
  | count =>
    left
    refine ⟨nofun, ?_⟩
    rw [run]
    dsimp only
    split_ifs
    · exact ⟨rfl, h⟩
    · exact ⟨rfl, h.sampleBuffer, h.dbl, nofun, nofun⟩
  | move buffSize =>
    left
    have hdbl : Fits s_frameSize (dbl ++ sampleBuffer.take buffSize) := fun s hs =>
      (List.mem_append.mp hs).elim (h.dbl s) fun hs => h.sampleBuffer s (List.mem_of_mem_take hs)
    refine ⟨nofun, rfl, ⟨nofun, hdbl, fun hpack hnil => ?_, fun e hfaulted => ?_⟩⟩
    · have hcount : (if (dbl ++ sampleBuffer.take buffSize).isEmpty then DtmfAt.count else .pack) = .pack := hpack
      rw [show dbl ++ sampleBuffer.take buffSize = [] from hnil] at hcount
      cases hcount
    · have hstill : (if (dbl ++ sampleBuffer.take buffSize).isEmpty then DtmfAt.count else .pack) = .faulted e := hfaulted
      split_ifs at hstill
  | pack =>
    right
    obtain ⟨smpl, blocks, hcons⟩ := List.exists_cons_of_ne_nil (h.pending rfl)
    obtain rfl : dbl = smpl :: blocks := hcons
    have hdvd := (h.dbl smpl List.mem_cons_self).2
    refine ⟨smpl, blocks, rfl, rfl, ?_⟩
    rw [run]
    dsimp only
    rw [pack_of_dvd hpos hdvd (by omega)]
  | faulted e => exact absurd rfl (h.sound e)

theorem Valid.step (hpos : 0 < s_frameSize.toInt) (h : Valid s_frameSize d)
    (ha : ∀ ls, a = .putData ls → Fits s_frameSize ls) :
    Valid s_frameSize (step s_frameSize d a).1 ∧
      ∀ frame ∈ (step s_frameSize d a).2, frame.length = s_frameSize.toInt.toNat := by
  cases a with
  | putData ls =>
    have hbuffer : Fits s_frameSize (d.sampleBuffer ++ ls) := fun s hs =>
      (List.mem_append.mp hs).elim (h.sampleBuffer s) (ha ls rfl s)
    exact ⟨⟨hbuffer, h.dbl, h.pending, h.sound⟩, nofun⟩
  | run =>
    rcases run_cases hpos h with ⟨-, hnone, hvalid⟩ | ⟨smpl, blocks, hpack, hcons, hrun⟩
    · refine ⟨hvalid, ?_⟩
      show ∀ frame ∈ (d.run s_frameSize).2, _
      rw [hnone]
      nofun
    · show Valid s_frameSize (d.run s_frameSize).1 ∧ ∀ frame ∈ (d.run s_frameSize).2, _
      rw [hrun]
      refine ⟨⟨h.sampleBuffer, nofun, nofun, nofun⟩, fun frame hframe => ?_⟩
      rw [List.mem_singleton.mp hframe, List.length_map, List.length_range]

end Steps

/-! ### Runs -/

section Runs
variable {s_frameSize : Int32} {acts : List Act} {a : Act}

/-- Every block that `put_data` gets has a size that goes into the frame. -/
def Given (s_frameSize : Int32) (acts : List Act) : Prop := ∀ ls, Act.putData ls ∈ acts → Fits s_frameSize ls

theorem Given.init (h : Given s_frameSize (acts ++ [a])) : Given s_frameSize acts :=
  fun ls hls => h ls (List.mem_append_left _ hls)

theorem after_snoc : after s_frameSize (acts ++ [a]) = (step s_frameSize (after s_frameSize acts) a).1 :=
  Run.state_snoc new acts a

theorem passed_snoc : passed s_frameSize (acts ++ [a]) =
    passed s_frameSize acts ++ (step s_frameSize (after s_frameSize acts) a).2 := Run.emits_snoc new acts a

theorem accepted_snoc : accepted (acts ++ [a]) = accepted acts ++ accepted [a] := List.flatMap_append

theorem valid_after (hpos : 0 < s_frameSize.toInt) (h : Given s_frameSize acts) :
    Valid s_frameSize (after s_frameSize acts) ∧
      ∀ frame ∈ passed s_frameSize acts, frame.length = s_frameSize.toInt.toNat := by
  induction acts using List.reverseRecOn with
  | nil => exact ⟨valid_new, nofun⟩
  | append_singleton acts a ih =>
    obtain ⟨hvalid, hframes⟩ := ih h.init
    obtain ⟨hvalid', hframe⟩ := hvalid.step hpos fun ls hls => h ls (hls ▸ List.mem_append_right _ (List.mem_singleton_self a))
    rw [after_snoc, passed_snoc]
    exact ⟨hvalid', fun frame hmem => (List.mem_append.mp hmem).elim (hframes frame) (hframe frame)⟩

theorem length_flatten_passed (hpos : 0 < s_frameSize.toInt) (h : Given s_frameSize acts) :
    (passed s_frameSize acts).flatten.length = (passed s_frameSize acts).length * s_frameSize.toInt.toNat := by
  rw [List.length_flatten, List.map_congr_left (valid_after hpos h).2, List.map_const', List.sum_replicate_nat]

/-- One more step leaves what is passed a beginning of the stream exactly when the frame that it passes, if any, is what
    follows in the stream. -/
theorem fed_snoc (hpos : 0 < s_frameSize.toInt) (h : Given s_frameSize acts) (hfed : Fed s_frameSize acts) :
    Fed s_frameSize (acts ++ [a]) ↔ (a = .run → Repeating s_frameSize acts) := by
  obtain ⟨hvalid, -⟩ := valid_after hpos h
  rw [Fed, passed_snoc, accepted_snoc]
  cases a with
  | putData ls =>
    refine ⟨fun _ => nofun, fun _ => ?_⟩
    show ((passed s_frameSize acts) ++ []).flatten <+: _
    rw [List.append_nil]
    exact hfed.trans (List.prefix_append _ _)
  | run =>
    rw [show accepted [Act.run] = [] from rfl, List.append_nil]
    show ((passed s_frameSize acts) ++ ((after s_frameSize acts).run s_frameSize).2).flatten <+: _ ↔ _
    rcases run_cases hpos hvalid with ⟨hpack, hnone, -⟩ | ⟨smpl, blocks, hpack, hcons, hrun⟩
    · rw [hnone, List.append_nil]
      exact ⟨fun _ _ hnow => absurd hnow hpack, fun _ => hfed⟩
    · have hrepeating : Repeating s_frameSize acts ↔
          slice (passed s_frameSize acts).flatten.length s_frameSize.toInt.toNat (accepted acts) =
            (List.range s_frameSize.toInt.toNat).map smpl.repeated := by
        rw [Repeating, hcons, List.head?_cons, length_flatten_passed hpos h]
        exact ⟨fun hall => hall hpack smpl rfl, fun hslice _ _ hsmpl => Option.some.inj hsmpl ▸ hslice⟩
      obtain ⟨ahead, hahead⟩ := hfed
      have hnext : slice (passed s_frameSize acts).flatten.length s_frameSize.toInt.toNat (accepted acts) =
          ahead.take s_frameSize.toInt.toNat := by
        rw [← hahead]
        exact slice_append_right 0 _ _ ahead
      rw [hrun, List.flatten_append, List.flatten_singleton, ← hahead, List.prefix_append_right_inj, forall_prop_of_true rfl,
        hrepeating, hnext, List.prefix_iff_eq_take, List.length_map, List.length_range]
      exact eq_comm

/-- In every run with blocks that fit, the frames passed are at every moment a beginning of the samples accepted, exactly
    when each frame is packed where the stream repeats its next block. -/
theorem fed_iff (hpos : 0 < s_frameSize.toInt) (h : Given s_frameSize acts) :
    (∀ pre, pre <+: acts → Fed s_frameSize pre) ↔ ∀ pre, pre ++ [.run] <+: acts → Repeating s_frameSize pre := by
  have hmoments : (∀ pre, pre <+: acts → Fed s_frameSize pre) ↔
      ∀ pre a, pre ++ [a] <+: acts → a = .run → Repeating s_frameSize pre := by
    refine Run.forall_prefix_iff List.nil_prefix fun pre a hpre hfed => fed_snoc hpos ?_ hfed
    exact fun ls hls => h ls (hpre.subset (List.mem_append_left _ hls))
  rw [hmoments]
  exact ⟨fun hall pre hpre => hall pre .run hpre rfl, fun hall pre a hpre ha => hall pre (ha ▸ hpre)⟩

instance (s_frameSize : Int32) (acts : List Act) : Decidable (Repeating s_frameSize acts) :=
  inferInstanceAs (Decidable ((after s_frameSize acts).runAt = .pack → ∀ smpl ∈ (after s_frameSize acts).dbl.head?,
    slice ((passed s_frameSize acts).length * s_frameSize.toInt.toNat) s_frameSize.toInt.toNat (accepted acts) =
      (List.range s_frameSize.toInt.toNat).map smpl.repeated))

/-- Four blocks of one sample in two calls make two frames of two samples. -/
theorem fed_iff_two :
    let acts := [Act.putData [⟨0, [1], 1⟩, ⟨0, [1], 1⟩], .run, .run, .run, .putData [⟨0, [2], 1⟩, ⟨0, [2], 1⟩], .run, .run, .run]
    passed 2 acts = [[1, 1], [2, 2]] ∧ ∀ pre, pre <+: acts → Fed 2 pre := by
  intro acts
  have hgiven : Given 2 acts := by
    intro ls hls smpl hsmpl
    have hcases : ls = [⟨0, [1], 1⟩, ⟨0, [1], 1⟩] ∨ ls = [⟨0, [2], 1⟩, ⟨0, [2], 1⟩] := by simpa [acts] using hls
    have hsize : smpl.size = 1 := by
      rcases hcases with rfl | rfl <;> simp at hsmpl <;> rw [hsmpl]
    rw [hsize]
    decide
  refine ⟨by decide, (fed_iff (by decide) hgiven).mpr ?_⟩
  have hmoments : ∀ pre a, pre ++ [a] <+: acts → a = .run → Repeating 2 pre := Run.forall_prefix_snoc_iff.mpr (by decide)
  exact fun pre hpre => hmoments pre .run hpre rfl

/-- Two blocks of one sample are pending for a frame of two, and the frame has the first one twice. -/
theorem fed_counterexample : ¬∀ (s_frameSize : Int32) (acts : List Act), 0 < s_frameSize.toInt → Given s_frameSize acts →
    ∀ pre, pre <+: acts → Fed s_frameSize pre := by
  intro h
  have hgiven : Given 2 [.putData [⟨0, [1], 1⟩, ⟨0, [2], 1⟩], .run, .run, .run] := fun ls hls => by
    obtain rfl : ls = [⟨0, [1], 1⟩, ⟨0, [2], 1⟩] := by simpa using hls
    intro smpl hsmpl
    rcases List.mem_cons.mp hsmpl with rfl | hsmpl
    · decide
    · exact List.mem_singleton.mp hsmpl ▸ by decide
  have hfed := h 2 _ (by decide) hgiven _ List.prefix_rfl
  have hpassed : passed 2 [.putData [⟨0, [1], 1⟩, ⟨0, [2], 1⟩], .run, .run, .run] = [[1, 1]] := by decide
  have haccepted : accepted [.putData [⟨0, [1], 1⟩, ⟨0, [2], 1⟩], .run, .run, .run] = [1, 2] := by decide
  rw [Fed, hpassed, haccepted] at hfed
  revert hfed
  decide

end Runs
end Dtmf
end Recd2
