import Recd2.DtmfPlugin
import Recd2.Lib.Sampler
import Recd2.Theorems.Messages
import Recd2.Theorems.Packing
import Recd2.Theorems.Reports

/-! What the DTMF plugin does with the blocks that it accepts, in any interleaving of `put_data` and its thread. It waits for
    as many blocks as a frame has samples, and makes a frame of the first of them alone. What it prints are the buttons that
    agree with a table of 16, behind whose end it reads when there are more. -/

namespace Recd2
open Checked Framing DtmfDetector

/-- The frame that a block makes. -/
def SampleData.frameOf (n : Nat) (s : SampleData) : List Int16 := (List.range n).map s.repeated

theorem SampleData.length_frameOf (n : Nat) (s : SampleData) : (s.frameOf n).length = n := by
  rw [frameOf, List.length_map, List.length_range]

namespace DtmfPlugin

/-! ### The lines -/

/-- The line for a button that is the one in the table. -/
def agreeAt (buttons : List Char) (ii : Nat) : Option DtmfLine :=
  if buttons[ii]? = s_DialButtons[ii]? then s_DialButtons[ii]?.map (DtmfLine.mk ii) else none

/-- The lines of a list of buttons, those that agree with the table. -/
def agreeing (buttons : List Char) : List DtmfLine := (List.range buttons.length).filterMap (agreeAt buttons)

theorem agreeAt_of_lt {buttons : List Char} {ii : Nat} (hii : ii < buttons.length) (htable : ii < s_DialButtons.length) :
    agreeAt buttons ii = if buttons[ii] ≠ s_DialButtons[ii] then none else some ⟨ii, s_DialButtons[ii]⟩ := by
  simp only [agreeAt, List.getElem?_eq_getElem hii, List.getElem?_eq_getElem htable, Option.some_inj, Option.map_some,
    ne_eq, ite_not]

section Lines
variable {b : DialButtons} {appended : List (Int × Char)} {buttons : List Char}
  (h : Storing b.dialButtons b.indexForDialButtons appended buttons)
include h

/-- The array has the buttons since its index was 0. -/
theorem load_rest {ii : Nat} (hii : ii < (rest 64 buttons).length) : b.dialButtons.load ii = .ok (rest 64 buttons)[ii] := by
  have hget : buttons[buttons.length / 64 * 64 + ii]? = some (rest 64 buttons)[ii] := by
    rw [← List.getElem?_drop]
    exact List.getElem?_eq_getElem hii
  have hlen : (rest 64 buttons).length = buttons.length - buttons.length / 64 * 64 := List.length_drop
  have hcell := h.stored _ _ hget (by omega)
  rw [Nat.mul_add_mod_of_lt (by omega)] at hcell
  exact Cells.load_of_getElem? hcell

/-- The loop stays in the table, and prints the buttons that agree with it. -/
theorem printButtons_of_le (hle : (rest 64 buttons).length ≤ 16) :
    printButtons b = .ok (agreeing (rest 64 buttons)) := by
  have hindex : b.indexForDialButtons = (rest 64 buttons).length := by
    rw [h.index, rest, List.length_drop, ← Nat.mod_eq_sub_div_mul]
  rw [printButtons, hindex]
  split_ifs with hnone
  · rw [agreeing, show (rest 64 buttons).length = 0 by omega]
    rfl
  · rw [Int.toNat_natCast]
    have hyields : Yields (fun _ => False) (fun lines => lines = agreeing (rest 64 buttons))
        (forLoop (rest 64 buttons).length (printButton b) []) :=
      forLoop_yields (P := fun n lines => lines = (List.range n).filterMap (agreeAt (rest 64 buttons))) rfl ?_
    · obtain ⟨lines, heq, rfl⟩ := hyields.exists_ok
      exact heq
    · rintro ii lines hii rfl
      have htable : ii < s_DialButtons.length := Nat.lt_of_lt_of_le hii hle
      have hbutton : buttonAt ii = .ok s_DialButtons[ii] := by rw [buttonAt, List.getElem?_eq_getElem htable]
      rw [printButton, load_rest h hii]
      show Yields _ _ (buttonAt ii >>= _)
      rw [hbutton, List.range_succ, List.filterMap_append, List.filterMap_cons, List.filterMap_nil, agreeAt_of_lt hii htable]
      show Yields _ _ (ite _ _ _)
      split_ifs
      · exact (List.append_nil _).symm
      · rfl

/-- The loop reads behind the table. -/
theorem printButtons_of_lt (hlt : 16 < (rest 64 buttons).length) : Fails (printButtons b) := by
  have hindex : b.indexForDialButtons = (rest 64 buttons).length := by
    rw [h.index, rest, List.length_drop, ← Nat.mod_eq_sub_div_mul]
  rw [printButtons, hindex, if_neg (by omega), Int.toNat_natCast]
  refine forLoop_fails hlt fun lines _ => ?_
  rw [printButton, load_rest h hlt]
  exact ⟨.bounds, rfl⟩

end Lines

/-! ### The blocks that are used -/

/-- The calls and steps as far as they change the list of blocks. -/
def putAct : Dtmf.Act → Sampler.Act SampleData
  | .putData ls => .put ls
  | .run => .run

/-- The blocks of which the thread makes frames. -/
def used (s_frameSize : Int32) (acts : List Dtmf.Act) : QList :=
  Run.emits (Sampler.step s_frameSize.toInt.toNat) .new (acts.map putAct)

/-- The samples of the frames that the blocks make. -/
def stream (s_frameSize : Int32) (blocks : QList) : List Int16 :=
  blocks.flatMap (SampleData.frameOf s_frameSize.toInt.toNat)

/-- The buttons in the detector's array behind the frames of the blocks. -/
def shown (fuel : Nat) (s_frameSize SAMPLES : Int32) (blocks : QList) : List Char :=
  rest 64 (message fuel SAMPLES (stream s_frameSize blocks))

/-- The frames of the blocks, with the lines that are printed behind each. -/
def roundsOf (fuel : Nat) (s_frameSize SAMPLES : Int32) (blocks : QList) : List DtmfRound :=
  blocks.zipIdx.map fun b =>
    ⟨b.1.frameOf s_frameSize.toInt.toNat, agreeing (shown fuel s_frameSize SAMPLES (blocks.take (b.2 + 1)))⟩

/-- Each block goes into the frame, the detector does not trap on what is in the frames, and there are never more buttons
    than in the table. -/
structure Clean (fuel : Nat) (s_frameSize SAMPLES : Int32) (blocks : QList) : Prop where
  fits : ∀ smpl ∈ blocks, smpl.size.toNat ∣ s_frameSize.toInt.toNat
  verdicts : ∀ piece ∈ pieces SAMPLES.toInt.toNat (stream s_frameSize blocks), ¬Traps SAMPLES piece
  table : ∀ k ≤ blocks.length, (shown fuel s_frameSize SAMPLES (blocks.take k)).length ≤ 16

/-- Where the thread of the plugin stands when an abstract one stands there. -/
def StandsAt (d : Dtmf) : SamplerAt SampleData → Prop
  | .count => d.runAt = .count ∧ d.dbl = []
  | .move k => d.runAt = .move k ∧ d.dbl = []
  | .use smpl => d.runAt = .pack ∧ d.dbl.head? = some smpl

theorem StandsAt.ne_faulted {d : Dtmf} {runAt : SamplerAt SampleData} {e : Fault} (h : StandsAt d runAt)
    (he : d.runAt = .faulted e) : False := by
  cases runAt with
  | count => exact nomatch he.symm.trans h.1
  | move k => exact nomatch he.symm.trans h.1
  | use smpl => exact nomatch he.symm.trans h.1

/-- The plugin beside the abstract thread, when the blocks were used. -/
structure Beside (fuel : Nat) (s_frameSize SAMPLES : Int32) (blocks : QList) (s : Sampler SampleData) (p : DtmfPlugin) :
    Prop where
  queue : p.dtmf.sampleBuffer = s.queue
  runAt : StandsAt p.dtmf s.runAt
  found : Found fuel s_frameSize SAMPLES (stream s_frameSize blocks) p.m_dtmfDetector

section Blocks
variable {fuel : Nat} {s_frameSize SAMPLES : Int32} {blocks : QList} {smpl : SampleData}

theorem stream_snoc : stream s_frameSize (blocks ++ [smpl]) =
    stream s_frameSize blocks ++ smpl.frameOf s_frameSize.toInt.toNat := by
  rw [stream, List.flatMap_append, List.flatMap_singleton]
  rfl

theorem length_stream (blocks : QList) : (stream s_frameSize blocks).length = blocks.length * s_frameSize.toInt.toNat := by
  induction blocks with
  | nil => exact (Nat.zero_mul _).symm
  | cons smpl blocks ih =>
    rw [stream, List.flatMap_cons, List.length_append, smpl.length_frameOf, List.length_cons, Nat.succ_mul, Nat.add_comm]
    exact congrArg (· + _) ih

variable (hS : 0 < SAMPLES.toInt)
include hS

theorem pieces_nil : pieces SAMPLES.toInt.toNat ([] : List Int16) = [] := pieces_of_lt (by rw [List.length_nil]; omega)

theorem clean_nil : Clean fuel s_frameSize SAMPLES [] where
  fits := nofun
  verdicts := by
    rw [stream, List.flatMap_nil, pieces_nil hS]
    nofun
  table k hk := by
    have hnone := pieces_nil hS
    rw [List.take_nil, shown, stream, List.flatMap_nil, message, hnone]
    show (rest 64 (reported [])).length ≤ 16
    decide

theorem Clean.left {more : QList} (h : Clean fuel s_frameSize SAMPLES (blocks ++ more)) :
    Clean fuel s_frameSize SAMPLES blocks where
  fits smpl hsmpl := h.fits smpl (List.mem_append_left _ hsmpl)
  verdicts piece hpiece := by
    refine h.verdicts piece ?_
    rw [stream, List.flatMap_append, pieces_append_rest (by omega)]
    exact List.mem_append_left _ hpiece
  table k hk := by
    have hshown := h.table k (by rw [List.length_append]; omega)
    rwa [List.take_append_of_le_length hk] at hshown

theorem clean_snoc_iff : Clean fuel s_frameSize SAMPLES (blocks ++ [smpl]) ↔
    Clean fuel s_frameSize SAMPLES blocks ∧ smpl.size.toNat ∣ s_frameSize.toInt.toNat ∧
      (∀ piece ∈ pieces SAMPLES.toInt.toNat (stream s_frameSize (blocks ++ [smpl])), ¬Traps SAMPLES piece) ∧
      (shown fuel s_frameSize SAMPLES (blocks ++ [smpl])).length ≤ 16 := by
  have hlen : (blocks ++ [smpl]).length = blocks.length + 1 := by rw [List.length_append, List.length_singleton]
  constructor
  · intro h
    refine ⟨h.left hS, h.fits smpl (List.mem_append_right _ (List.mem_singleton_self smpl)), h.verdicts, ?_⟩
    have hshown := h.table _ (Nat.le_refl _)
    rwa [List.take_length] at hshown
  · rintro ⟨⟨hfits, -, htable⟩, hdvd, hverdicts, hshown⟩
    refine ⟨List.forall_mem_append.mpr ⟨hfits, List.forall_mem_singleton.mpr hdvd⟩, hverdicts, fun k hk => ?_⟩
    rcases Nat.lt_or_ge blocks.length k with hlt | hle
    · rwa [List.take_of_length_le (by omega)]
    · rw [List.take_append_of_le_length hle]
      exact htable k hle

omit hS in
theorem roundsOf_snoc : roundsOf fuel s_frameSize SAMPLES (blocks ++ [smpl]) =
    roundsOf fuel s_frameSize SAMPLES blocks ++
      [⟨smpl.frameOf s_frameSize.toInt.toNat, agreeing (shown fuel s_frameSize SAMPLES (blocks ++ [smpl]))⟩] := by
  rw [roundsOf, List.zipIdx_append, List.map_append, Nat.zero_add]
  congr 1
  · refine List.map_congr_left fun b hb => ?_
    obtain ⟨-, hlt, -⟩ := List.mem_zipIdx hb
    rw [List.take_append_of_le_length (by omega)]
  · have htake : (blocks ++ [smpl]).take (blocks.length + 1) = blocks ++ [smpl] :=
      List.take_of_length_le (by rw [List.length_append, List.length_singleton])
    show [DtmfRound.mk _ (agreeing (shown _ _ _ ((blocks ++ [smpl]).take (blocks.length + 1))))] = _
    rw [htake]

end Blocks

section Step
variable {fuel : Nat} {s_frameSize SAMPLES : Int32} {blocks : QList} {s : Sampler SampleData} {p : DtmfPlugin}

theorem Beside.put (h : Beside fuel s_frameSize SAMPLES blocks s p) (ls : QList) :
    Beside fuel s_frameSize SAMPLES blocks { s with queue := s.queue ++ ls } { p with dtmf := p.dtmf.putData ls } :=
  ⟨congrArg (· ++ ls) h.queue, h.runAt, h.found⟩

theorem run_of_faulted {e : Fault} (h : p.dtmf.runAt = .faulted e) : p.run fuel s_frameSize = (p, []) := by
  obtain ⟨⟨sampleBuffer, dbl, runAt⟩, detector⟩ := p
  obtain rfl : runAt = .faulted e := h
  rfl

variable {dtmf d : Dtmf} {detector : DtmfDetector} {frame : List Int16}

/-- A step of the thread without a frame. -/
theorem run_of_no_frame (h : dtmf.run s_frameSize = (d, [])) :
    (⟨dtmf, detector⟩ : DtmfPlugin).run fuel s_frameSize = (⟨d, detector⟩, []) := by
  rw [run, h]
  rfl

theorem run_of_frame {t : DtmfDetector × List DtmfRound} (h : dtmf.run s_frameSize = (d, [frame]))
    (hframe : detectFrame fuel (detector, []) frame = .ok t) :
    (⟨dtmf, detector⟩ : DtmfPlugin).run fuel s_frameSize = (⟨d, t.1⟩, t.2) := by
  rw [run, h]
  dsimp only
  rw [List.foldlM_cons, hframe]
  rfl

theorem run_of_frame_fails (h : dtmf.run s_frameSize = (d, [frame]))
    (hframe : Fails (detectFrame fuel (detector, []) frame)) :
    ∃ e, (⟨dtmf, detector⟩ : DtmfPlugin).run fuel s_frameSize = (⟨{ d with runAt := .faulted e }, detector⟩, []) := by
  obtain ⟨e, hframe⟩ := hframe
  refine ⟨e, ?_⟩
  rw [run, h]
  dsimp only
  rw [List.foldlM_cons, hframe]
  rfl

variable (hsizes : Sizes s_frameSize SAMPLES) (hpos : 0 < s_frameSize.toInt) (hcount : SAMPLES.toInt < 65536)
  (hfuel : 65536 ≤ fuel ∧ s_frameSize.toInt.toNat ≤ fuel)
include hsizes hpos hcount hfuel

/-- The thread makes a frame of the block that was taken, or fails. -/
theorem Beside.run_use {smpl : SampleData} {queue : QList} (h : Beside fuel s_frameSize SAMPLES blocks ⟨queue, .use smpl⟩ p)
    (hclean : Clean fuel s_frameSize SAMPLES blocks) :
    Clean fuel s_frameSize SAMPLES (blocks ++ [smpl]) ∧
        Beside fuel s_frameSize SAMPLES (blocks ++ [smpl]) ⟨queue, .count⟩ (p.run fuel s_frameSize).1 ∧
        (p.run fuel s_frameSize).2 = [⟨smpl.frameOf s_frameSize.toInt.toNat,
          agreeing (shown fuel s_frameSize SAMPLES (blocks ++ [smpl]))⟩] ∨
      ¬Clean fuel s_frameSize SAMPLES (blocks ++ [smpl]) ∧
        ∃ (d : Dtmf) (e : Fault), p.run fuel s_frameSize = (⟨{ d with runAt := .faulted e }, p.m_dtmfDetector⟩, []) := by
  obtain ⟨⟨sampleBuffer, dbl, runAt⟩, detector⟩ := p
  obtain ⟨rfl, ⟨hat, hdbl⟩, hfound⟩ := h
  obtain rfl : runAt = .pack := hat
  obtain ⟨rest, rfl⟩ : ∃ rest, dbl = smpl :: rest := List.head?_eq_some_iff.mp hdbl
  rw [clean_snoc_iff hsizes.block, stream_snoc]
  by_cases hdvd : smpl.size.toNat ∣ s_frameSize.toInt.toNat
  · have hpack : (⟨sampleBuffer, smpl :: rest, .pack⟩ : Dtmf).run s_frameSize =
        (⟨sampleBuffer, [], .count⟩, [smpl.frameOf s_frameSize.toInt.toNat]) := by
      rw [Dtmf.run]
      dsimp only
      rw [Dtmf.pack_of_dvd hpos hdvd (Nat.le_succ _)]
      rfl
    rcases hfound.dtmfDetecting_cases hsizes (smpl.length_frameOf _) hcount hfuel with
      ⟨hverdicts, hyields⟩ | ⟨htraps, hfails⟩
    case inr => exact Or.inr ⟨fun hall => htraps hall.2.2.1, _, run_of_frame_fails hpack (hfails.bind _)⟩
    obtain ⟨detector', hdetecting, hfound'⟩ := hyields.exists_ok
    rw [← stream_snoc] at hfound' hverdicts ⊢
    have hframe : detectFrame fuel (detector, []) (smpl.frameOf s_frameSize.toInt.toNat) =
        (printButtons detector'.buttons >>= fun lines => pure (detector', [⟨smpl.frameOf s_frameSize.toInt.toNat, lines⟩])) := by
      rw [detectFrame, hdetecting]
      rfl
    by_cases hle : (shown fuel s_frameSize SAMPLES (blocks ++ [smpl])).length ≤ 16
    · left
      have hok : detectFrame fuel (detector, []) (smpl.frameOf s_frameSize.toInt.toNat) =
          .ok (detector', [⟨smpl.frameOf s_frameSize.toInt.toNat,
            agreeing (shown fuel s_frameSize SAMPLES (blocks ++ [smpl]))⟩]) := by
        rw [hframe, printButtons_of_le hfound'.storing hle]
        rfl
      rw [run_of_frame hpack hok]
      exact ⟨⟨hclean, hdvd, hverdicts, hle⟩, ⟨rfl, ⟨rfl, rfl⟩, hfound'⟩, rfl⟩
    · right
      refine ⟨fun hall => hle hall.2.2.2, _, run_of_frame_fails hpack ?_⟩
      rw [hframe]
      exact (printButtons_of_lt hfound'.storing (Nat.lt_of_not_le hle)).bind _
  · right
    have hpack : (⟨sampleBuffer, smpl :: rest, .pack⟩ : Dtmf).run s_frameSize = (⟨sampleBuffer, smpl :: rest,
        .faulted (if smpl.size.toNat = 0 then .endless else .bounds)⟩, []) := by
      rw [Dtmf.run]
      dsimp only
      rw [Dtmf.pack_of_not_dvd hpos hdvd (Nat.le_succ _)]
    exact ⟨fun hall => hdvd hall.2.1, ⟨sampleBuffer, smpl :: rest, .pack⟩, _, run_of_no_frame hpack⟩

omit hsizes hcount hfuel in
/-- The other steps of the thread are those of the abstract one. -/
theorem Beside.run_other (h : Beside fuel s_frameSize SAMPLES blocks s p) (hother : ∀ smpl, s.runAt ≠ .use smpl) :
    Beside fuel s_frameSize SAMPLES blocks (s.run s_frameSize.toInt.toNat).1 (p.run fuel s_frameSize).1 ∧
      (s.run s_frameSize.toInt.toNat).2 = [] ∧ (p.run fuel s_frameSize).2 = [] := by
  obtain ⟨⟨sampleBuffer, dbl, runAt⟩, detector⟩ := p
  obtain ⟨queue, runAt'⟩ := s
  obtain ⟨rfl, hat, hfound⟩ := h
  cases runAt' with
  | count =>
    obtain ⟨rfl, rfl⟩ : runAt = .count ∧ dbl = [] := hat
    by_cases hlt : sampleBuffer.length < s_frameSize.toInt.toNat
    · have hrun : (⟨sampleBuffer, [], .count⟩ : Dtmf).run s_frameSize = (⟨sampleBuffer, [], .count⟩, []) :=
        if_pos (show (sampleBuffer.length : Int) < s_frameSize.toInt by omega)
      have hrun' : (⟨sampleBuffer, .count⟩ : Sampler SampleData).run s_frameSize.toInt.toNat = (⟨sampleBuffer, .count⟩, []) :=
        if_pos hlt
      rw [run_of_no_frame hrun, hrun']
      exact ⟨⟨rfl, ⟨rfl, rfl⟩, hfound⟩, rfl, rfl⟩
    · have hrun : (⟨sampleBuffer, [], .count⟩ : Dtmf).run s_frameSize =
          (⟨sampleBuffer, [], .move sampleBuffer.length⟩, []) :=
        if_neg (show ¬(sampleBuffer.length : Int) < s_frameSize.toInt by omega)
      have hrun' : (⟨sampleBuffer, .count⟩ : Sampler SampleData).run s_frameSize.toInt.toNat =
          (⟨sampleBuffer, .move sampleBuffer.length⟩, []) := if_neg hlt
      rw [run_of_no_frame hrun, hrun']
      exact ⟨⟨rfl, ⟨rfl, rfl⟩, hfound⟩, rfl, rfl⟩
  | move k =>
    obtain ⟨rfl, rfl⟩ : runAt = .move k ∧ dbl = [] := hat
    have hrun : (⟨sampleBuffer, [], .move k⟩ : Dtmf).run s_frameSize =
        (⟨[], sampleBuffer.take k, if (sampleBuffer.take k).isEmpty then .count else .pack⟩, []) := rfl
    cases htake : sampleBuffer.take k with
    | nil =>
      have hrun' : (⟨sampleBuffer, .move k⟩ : Sampler SampleData).run s_frameSize.toInt.toNat = (⟨[], .count⟩, []) := by
        rw [Sampler.run]
        dsimp only
        rw [htake]
        rfl
      rw [htake] at hrun
      rw [run_of_no_frame hrun, hrun']
      exact ⟨⟨rfl, ⟨rfl, rfl⟩, hfound⟩, rfl, rfl⟩
    | cons smpl rest =>
      have hrun' : (⟨sampleBuffer, .move k⟩ : Sampler SampleData).run s_frameSize.toInt.toNat = (⟨[], .use smpl⟩, []) := by
        rw [Sampler.run]
        dsimp only
        rw [htake]
        rfl
      rw [htake] at hrun
      rw [run_of_no_frame hrun, hrun']
      exact ⟨⟨rfl, ⟨rfl, rfl⟩, hfound⟩, rfl, rfl⟩
  | use smpl => exact absurd rfl (hother smpl)

end Step

/-! ### Runs -/

section Runs
variable {fuel : Nat} {s_frameSize SAMPLES : Int32} {p : DtmfPlugin} {acts : List Dtmf.Act}

/-- The plugin behind the steps, and what it did with its frames. -/
def after (fuel : Nat) (s_frameSize : Int32) (p : DtmfPlugin) (acts : List Dtmf.Act) : DtmfPlugin :=
  Run.state (step fuel s_frameSize) p acts

/-- The rounds of the plugin's loop in the steps. -/
def rounds (fuel : Nat) (s_frameSize : Int32) (p : DtmfPlugin) (acts : List Dtmf.Act) : List DtmfRound :=
  Run.emits (step fuel s_frameSize) p acts

/-- The abstract thread behind the steps. -/
def sampled (s_frameSize : Int32) (acts : List Dtmf.Act) : Sampler SampleData :=
  Run.state (Sampler.step s_frameSize.toInt.toNat) .new (acts.map putAct)

theorem used_snoc (a : Dtmf.Act) : used s_frameSize (acts ++ [a]) =
    used s_frameSize acts ++ (Sampler.step s_frameSize.toInt.toNat (sampled s_frameSize acts) (putAct a)).2 := by
  rw [used, List.map_append]
  exact Run.emits_snoc _ _ _

theorem sampled_snoc (a : Dtmf.Act) : sampled s_frameSize (acts ++ [a]) =
    (Sampler.step s_frameSize.toInt.toNat (sampled s_frameSize acts) (putAct a)).1 := by
  rw [sampled, List.map_append]
  exact Run.state_snoc _ _ _

variable (hS : 0 < SAMPLES.toInt ∧ SAMPLES.toInt < 65536) (hpos : 0 < s_frameSize.toInt)
  (hfuel : 65536 ≤ fuel ∧ s_frameSize.toInt.toNat ≤ fuel) (hp : init s_frameSize SAMPLES = .ok p)
include hS hpos hp

theorem sizes_of_init (fuel : Nat) : Sizes s_frameSize SAMPLES ∧ Beside fuel s_frameSize SAMPLES [] .new p := by
  rw [init] at hp
  cases hd : DtmfDetector.new s_frameSize SAMPLES with
  | error e =>
    rw [hd] at hp
    cases hp
  | ok detector =>
    rw [hd] at hp
    cases hp
    have hsizes := sizes_of_new (Int.le_of_lt hpos) hS.1 hd
    exact ⟨hsizes, rfl, ⟨rfl, rfl⟩, found_new hsizes hd⟩

include hfuel

/-- The plugin uses what the abstract thread uses, up to a block with which it fails. -/
theorem beside_or_faulted (acts : List Dtmf.Act) :
    ∃ done, done <+: used s_frameSize acts ∧ Clean fuel s_frameSize SAMPLES done ∧
      rounds fuel s_frameSize p acts = roundsOf fuel s_frameSize SAMPLES done ∧
      Found fuel s_frameSize SAMPLES (stream s_frameSize done) (after fuel s_frameSize p acts).m_dtmfDetector ∧
      (done = used s_frameSize acts ∧
          Beside fuel s_frameSize SAMPLES done (sampled s_frameSize acts) (after fuel s_frameSize p acts) ∨
        ¬Clean fuel s_frameSize SAMPLES (used s_frameSize acts) ∧
          ∃ e, (after fuel s_frameSize p acts).dtmf.runAt = .faulted e) := by
  obtain ⟨hsizes, hbeside⟩ := sizes_of_init hS hpos hp fuel
  induction acts using List.reverseRecOn with
  | nil => exact ⟨[], List.nil_prefix, clean_nil hS.1, rfl, hbeside.found, Or.inl ⟨rfl, hbeside⟩⟩
  | append_singleton acts a ih =>
    obtain ⟨done, hdone, hclean, hrounds, hfound, hstate⟩ := ih
    have hafter : after fuel s_frameSize p (acts ++ [a]) = (step fuel s_frameSize (after fuel s_frameSize p acts) a).1 :=
      Run.state_snoc _ _ _
    have hrounds' : rounds fuel s_frameSize p (acts ++ [a]) =
        rounds fuel s_frameSize p acts ++ (step fuel s_frameSize (after fuel s_frameSize p acts) a).2 := Run.emits_snoc _ _ _
    rw [hafter, hrounds', hrounds, used_snoc, sampled_snoc]
    generalize after fuel s_frameSize p acts = q at *
    generalize sampled s_frameSize acts = s at *
    rcases hstate with ⟨rfl, hq⟩ | ⟨hdirty, e, he⟩
    · cases a with
      | putData ls =>
        rw [show (step fuel s_frameSize q (.putData ls)).2 = [] from rfl, List.append_nil]
        exact ⟨_, List.prefix_append _ _, hclean, rfl, hfound, Or.inl ⟨(List.append_nil _).symm, hq.put ls⟩⟩
      | run =>
        show ∃ done, done <+: _ ++ (s.run s_frameSize.toInt.toNat).2 ∧ _ ∧ _ ++ (q.run fuel s_frameSize).2 = _ ∧
          _ ∧ (_ = _ ++ (s.run s_frameSize.toInt.toNat).2 ∧
            Beside _ _ _ _ (s.run s_frameSize.toInt.toNat).1 (q.run fuel s_frameSize).1 ∨ _)
        by_cases huse : ∃ smpl, s.runAt = .use smpl
        · obtain ⟨smpl, huse⟩ := huse
          obtain ⟨queue, runAt⟩ := s
          obtain rfl : runAt = .use smpl := huse
          rcases hq.run_use hsizes hpos hS.2 hfuel hclean with ⟨hnext, hbeside', hout⟩ | ⟨hdirty, d, e, hrun⟩
          · rw [hout, ← roundsOf_snoc]
            exact ⟨_, List.prefix_rfl, hnext, rfl, hbeside'.found, Or.inl ⟨rfl, hbeside'⟩⟩
          · rw [show step fuel s_frameSize q .run = q.run fuel s_frameSize from rfl, hrun, List.append_nil]
            exact ⟨_, List.prefix_append _ _, hclean, rfl, hfound, Or.inr ⟨hdirty, e, rfl⟩⟩
        · obtain ⟨hbeside', hnone, hout⟩ := hq.run_other hpos fun smpl hsmpl => huse ⟨smpl, hsmpl⟩
          rw [hnone, hout, List.append_nil, List.append_nil]
          exact ⟨_, List.prefix_rfl, hclean, rfl, hbeside'.found, Or.inl ⟨rfl, hbeside'⟩⟩
    · have hsame : (step fuel s_frameSize q a).1.m_dtmfDetector = q.m_dtmfDetector ∧
          (step fuel s_frameSize q a).1.dtmf.runAt = q.dtmf.runAt ∧ (step fuel s_frameSize q a).2 = [] := by
        cases a with
        | putData ls => exact ⟨rfl, rfl, rfl⟩
        | run =>
          show (q.run fuel s_frameSize).1.m_dtmfDetector = _ ∧ (q.run fuel s_frameSize).1.dtmf.runAt = _ ∧
            (q.run fuel s_frameSize).2 = []
          rw [run_of_faulted he]
          exact ⟨rfl, rfl, rfl⟩
      rw [hsame.1, hsame.2.1, hsame.2.2, List.append_nil]
      exact ⟨done, hdone.trans (List.prefix_append _ _), hclean, rfl, hfound,
        Or.inr ⟨fun hall => hdirty (hall.left hS.1), e, he⟩⟩

/-- The blocks that `put_data` accepts. -/
def accepted (acts : List Dtmf.Act) : QList :=
  acts.flatMap fun
    | .putData ls => ls
    | .run => []

omit hS hpos hfuel hp in
theorem puts_map_putAct (acts : List Dtmf.Act) : Sampler.puts (acts.map putAct) = accepted acts := by
  rw [Sampler.puts, accepted, List.flatMap_map]
  refine congrArg (List.flatMap · acts) (funext fun a => ?_)
  cases a <;> rfl

/-- Each frame is made of one block. The first block makes the first one, and behind a block that is used as many blocks, less
    one, as a frame has samples are not. -/
theorem rounds_eq (acts : List Dtmf.Act) : ∃ (places : List Nat) (done : QList), (∀ k ∈ places.head?, k = 0) ∧
    (places.Pairwise fun k l => k + s_frameSize.toInt.toNat ≤ l) ∧
    (done.map some = places.map fun k => (accepted acts)[k]?) ∧
    rounds fuel s_frameSize p acts = roundsOf fuel s_frameSize SAMPLES done ∧
    (rounds fuel s_frameSize p acts).length * s_frameSize.toInt.toNat ≤ (accepted acts).length ∧
    3 * (after fuel s_frameSize p acts).m_dtmfDetector.buttons.appended.length ≤
      (accepted acts).length / SAMPLES.toInt.toNat + 1 := by
  obtain ⟨done, ⟨later, hused⟩, -, hrounds, hfound, -⟩ := beside_or_faulted hS hpos hfuel hp acts
  obtain ⟨places, hstart, hspaced, hwithin, hplaces⟩ :=
    Sampler.emits_spaced (show 0 < s_frameSize.toInt.toNat by omega) (acts.map putAct)
  rw [puts_map_putAct] at hwithin hplaces
  have hsub := List.take_sublist done.length places
  have hmap : done.map some = (places.take done.length).map fun k => (accepted acts)[k]? := by
    have hall : (done ++ later).map some = places.map fun k => (accepted acts)[k]? := by rw [hused, used, hplaces]
    rw [List.map_take, ← hall, List.map_append, List.take_left' (List.length_map _)]
  have hlen : (roundsOf fuel s_frameSize SAMPLES done).length = (places.take done.length).length := by
    have hsame := congrArg List.length hmap
    rw [List.length_map, List.length_map] at hsame
    rw [roundsOf, List.length_map, List.length_zipIdx, ← hsame]
  have hle : (rounds fuel s_frameSize p acts).length * s_frameSize.toInt.toNat ≤ (accepted acts).length := by
    rw [hrounds, hlen]
    exact Sampler.length_mul_le (hspaced.sublist hsub) fun k hk => hwithin k (hsub.subset hk)
  refine ⟨places.take done.length, done, fun k hk => ?_, hspaced.sublist hsub, hmap, hrounds, hle, ?_⟩
  · rw [List.head?_take] at hk
    split at hk
    · cases hk
    · exact hstart k hk
  · have hbuttons : (after fuel s_frameSize p acts).m_dtmfDetector.buttons.appended.length =
        (message fuel SAMPLES (stream s_frameSize done)).length := by
      rw [← hfound.storing.map_appended, List.length_map]
    have hstream : (stream s_frameSize done).length = (rounds fuel s_frameSize p acts).length * s_frameSize.toInt.toNat := by
      rw [hrounds, roundsOf, List.length_map, List.length_zipIdx]
      exact length_stream done
    have hthird := three_mul_length_reported
      ((pieces SAMPLES.toInt.toNat (stream s_frameSize done)).map (verdictOf fuel SAMPLES))
    have hblocks := Nat.div_le_div_right (c := SAMPLES.toInt.toNat) hle
    rw [List.length_map, length_pieces, hstream] at hthird
    rw [hbuttons, message]
    omega

omit hS hpos hfuel hp in
/-- Of four blocks two make frames of two samples, at most. -/
theorem rounds_eq_two : ∃ p, init 2 1 = .ok p ∧
    (rounds 65536 2 p [.putData (List.replicate 4 ⟨0, [1], 1⟩), .run, .run, .run]).length * 2 ≤ 4 := by
  refine ⟨_, rfl, ?_⟩
  obtain ⟨-, -, -, -, -, -, hle, -⟩ := @rounds_eq 65536 2 1 _ (by decide) (by decide) (by decide) rfl
    [.putData (List.replicate 4 ⟨0, [1], 1⟩), .run, .run, .run]
  exact hle

end Runs
end DtmfPlugin
end Recd2
