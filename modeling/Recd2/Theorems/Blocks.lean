import Recd2.Lib.Framing
import Recd2.Theorems.Buttons
import Recd2.Theorems.Detection

/-! The detector over a stream of samples. However the stream is cut into frames, what is detected are its blocks of
    `SAMPLES` samples, one after the other. -/

namespace Recd2
open Checked Framing
namespace DtmfDetector

/-! ### The loop over a list of samples -/

/-- A block is detected, and its verdict accepted. -/
def detectStep (fuel : Nat) (SAMPLES : Int32) (b : DialButtons) (block : List Int16) : Except Fault DialButtons := do
  let verdict ← DTMF_detection fuel SAMPLES block
  b.accept block verdict

/-- The blocks of the samples are detected, and the rest of the samples is left. -/
def detectAll (fuel : Nat) (SAMPLES : Int32) (b : DialButtons) (xs : List Int16) :
    Except Fault (DialButtons × List Int16) := do
  let b ← (pieces SAMPLES.toInt.toNat xs).foldlM (detectStep fuel SAMPLES) b
  return (b, rest SAMPLES.toInt.toNat xs)

/-- The block loop, with the samples in a list. -/
def blockLoop (fuel rounds : Nat) (SAMPLES : Int32) : DialButtons × List Int16 → Except Fault (DialButtons × List Int16) :=
  whileLoop (fun (_, left) => SAMPLES.toInt.toNat ≤ left.length) (fun (b, left) => do
    let b ← detectStep fuel SAMPLES b (left.take SAMPLES.toInt.toNat)
    return (b, left.drop SAMPLES.toInt.toNat)) rounds

section List
variable {fuel rounds : Nat} {SAMPLES : Int32} (hS : 0 < SAMPLES.toInt)
include hS

/-- The blocks in front are detected first. -/
theorem detectAll_append (b : DialButtons) (xs ys : List Int16) :
    detectAll fuel SAMPLES b (xs ++ ys) =
      (detectAll fuel SAMPLES b xs >>= fun (b, left) => detectAll fuel SAMPLES b (left ++ ys)) := by
  have hpos : 0 < SAMPLES.toInt.toNat := by omega
  rw [detectAll, detectAll, pieces_append_rest hpos xs ys, rest_append_rest hpos xs ys, List.foldlM_append, bind_assoc,
    bind_assoc]
  rfl

omit hS in
theorem detectAll_rest {b : DialButtons} {xs : List Int16} {t : DialButtons × List Int16}
    (h : detectAll fuel SAMPLES b xs = .ok t) : t.2 = rest SAMPLES.toInt.toNat xs := by
  rw [detectAll] at h
  cases hfold : (pieces SAMPLES.toInt.toNat xs).foldlM (detectStep fuel SAMPLES) b with
  | error e =>
    rw [hfold] at h
    cases h
  | ok b' =>
    rw [hfold] at h
    cases h
    rfl

theorem detectAll_cons {b : DialButtons} {xs ys : List Int16} (hxs : xs.length = SAMPLES.toInt.toNat) :
    detectAll fuel SAMPLES b (xs ++ ys) = (detectStep fuel SAMPLES b xs >>= fun b => detectAll fuel SAMPLES b ys) := by
  have hpos : 0 < SAMPLES.toInt.toNat := by omega
  rw [detectAll, pieces_append hpos hxs, rest_append hpos hxs, List.foldlM_cons, bind_assoc]
  rfl

omit hS in
theorem blockLoop_of_lt {b : DialButtons} {xs : List Int16} (hlt : xs.length < SAMPLES.toInt.toNat) :
    blockLoop fuel rounds SAMPLES (b, xs) = .ok (b, xs) :=
  whileLoop_of_not (decide_eq_false (Nat.not_le.mpr hlt))

omit hS in
theorem blockLoop_cons {b : DialButtons} {xs ys : List Int16} (hxs : xs.length = SAMPLES.toInt.toNat) :
    blockLoop fuel (rounds + 1) SAMPLES (b, xs ++ ys) =
      (detectStep fuel SAMPLES b xs >>= fun b => blockLoop fuel rounds SAMPLES (b, ys)) := by
  refine Eq.trans (whileLoop_succ ?_) ?_
  · exact decide_eq_true (by rw [List.length_append]; omega)
  · simp only [List.take_left' hxs, List.drop_left' hxs]
    rw [bind_assoc]
    rfl

/-- The loop makes as many rounds as there are blocks. -/
theorem blockLoop_eq (b : DialButtons) (xs : List Int16) :
    blockLoop fuel rounds SAMPLES (b, xs) = detectAll fuel SAMPLES b xs ∨
      rounds < xs.length / SAMPLES.toInt.toNat ∧ blockLoop fuel rounds SAMPLES (b, xs) = .error .endless := by
  have hpos : 0 < SAMPLES.toInt.toNat := by omega
  induction xs using induct_pieces hpos generalizing b rounds with
  | short xs hlt =>
    left
    rw [blockLoop_of_lt hlt, detectAll, pieces_of_lt hlt, rest_of_lt hlt]
    rfl
  | cut xs ys hxs ih =>
    have hcount : (xs ++ ys).length / SAMPLES.toInt.toNat = ys.length / SAMPLES.toInt.toNat + 1 := by
      rw [List.length_append, hxs, Nat.add_div_left _ hpos]
    rw [hcount]
    cases rounds with
    | zero => exact Or.inr ⟨Nat.succ_pos _, whileLoop_zero (decide_eq_true (by rw [List.length_append]; omega))⟩
    | succ rounds =>
      rw [blockLoop_cons hxs, detectAll_cons hS hxs]
      cases detectStep fuel SAMPLES b xs with
      | error e => exact Or.inl rfl
      | ok b' => exact (ih b').imp_right fun h => ⟨Nat.succ_lt_succ h.1, h.2⟩

end List

/-! ### The loops over the array -/

/-- Sizes for which a frame and the samples that are left have room in an array. -/
structure Sizes (frameSize SAMPLES : Int32) : Prop where
  frame : 0 ≤ frameSize.toInt
  block : 0 < SAMPLES.toInt
  sum : frameSize.toInt + SAMPLES.toInt < 2 ^ 31

/-- The detector counts the samples that are left, which are in the array behind those that are done. -/
structure Holding (frameSize SAMPLES : Int32) (done left : List Int16) (d : DtmfDetector) : Prop where
  length : d.pArraySamples.length = frameSize.toInt.toNat + SAMPLES.toInt.toNat
  begins : d.pArraySamples.Begins (done ++ left)
  frameCount : d.frameCount.toInt = left.length
  frameSize : d.frameSize = frameSize
  SAMPLES : d.SAMPLES = SAMPLES

theorem toNat_toUInt32 {SAMPLES : Int32} (h : 0 ≤ SAMPLES.toInt) : SAMPLES.toUInt32.toNat = SAMPLES.toInt.toNat :=
  Int32.toNat_toUInt32_of_le (Int32.le_iff_toInt_le.mpr h)

theorem toInt_add_of_eq {m n : Int32} {k : Nat} (hk : k < 2 ^ 31) (h : m.toInt + n.toInt = k) : (m + n).toInt = k := by
  rw [Int32.toInt_add, h, Int.bmod_eq_of_le (by omega) (by omega)]

theorem toInt_sub_of_eq {m n : Int32} {k : Nat} (hk : k < 2 ^ 31) (h : m.toInt - n.toInt = k) : (m - n).toInt = k := by
  rw [Int32.toInt_sub, h, Int.bmod_eq_of_le (by omega) (by omega)]

section Array
variable {E : Fault → Prop} {fuel : Nat} {frameSize SAMPLES : Int32} {done left block frame : List Int16} {d : DtmfDetector}

theorem Holding.loadBlock (hS : 0 < SAMPLES.toInt) (h : Holding frameSize SAMPLES done (block ++ left) d)
    (hblock : block.length = SAMPLES.toInt.toNat) : d.loadBlock done.length = .ok block := by
  have hbegins : d.pArraySamples.Begins (done ++ block ++ left) := by
    rw [List.append_assoc]
    exact h.begins
  rw [DtmfDetector.loadBlock, h.SAMPLES, toNat_toUInt32 (by omega), ← hblock]
  exact hbegins.mapM_load

theorem Holding.length_le (h : Holding frameSize SAMPLES done left d) :
    done.length + left.length ≤ frameSize.toInt.toNat + SAMPLES.toInt.toNat := by
  have hroom := h.begins.length_le
  rwa [h.length, List.length_append] at hroom

variable (hsizes : Sizes frameSize SAMPLES)
include hsizes

theorem detectBlock_follows (h : Holding frameSize SAMPLES done (block ++ left) d)
    (hblock : block.length = SAMPLES.toInt.toNat) :
    Follows (fun s t => Holding frameSize SAMPLES (done ++ block) t.2 s.1 ∧ s.2 = (done ++ block).length ∧ s.1.buttons = t.1)
      (detectBlock fuel (d, done.length)) (detectStep fuel SAMPLES d.buttons block >>= fun b => pure (b, left)) := by
  obtain ⟨hframe, hS, hsum⟩ := hsizes
  have hroom := h.length_le
  have hcount := h.frameCount
  rw [List.length_append] at hroom hcount
  show Follows _ (d.loadBlock done.length >>= _) _
  rw [h.loadBlock hS hblock, detectStep, bind_assoc]
  show Follows _ (DTMF_detection fuel d.SAMPLES block >>= _) _
  rw [h.SAMPLES]
  refine (Follows.refl _).bind fun verdict _ heq => ?_
  subst heq
  refine (Follows.refl _).bind fun b _ heq => ?_
  subst heq
  refine ⟨⟨h.length, ?_, ?_, h.frameSize, rfl⟩, ?_, rfl⟩
  · rw [List.append_assoc]
    exact h.begins
  · show (d.frameCount - SAMPLES).toInt = left.length
    exact toInt_sub_of_eq (by omega) (by omega)
  · show done.length + SAMPLES.toUInt32.toNat = _
    rw [toNat_toUInt32 (by omega), List.length_append, hblock]

/-- The block loop follows the one over the list, and leaves less than a block. -/
theorem blockLoop_follows {rounds : Nat} (h : Holding frameSize SAMPLES done left d) :
    Follows (fun s t => (∃ done, Holding frameSize SAMPLES done t.2 s.1 ∧ s.2 = done.length ∧ s.1.buttons = t.1) ∧
        t.2.length < SAMPLES.toInt.toNat)
      (whileLoop (fun (d, _) => d.SAMPLES ≤ d.frameCount) (detectBlock fuel) rounds (d, done.length))
      (blockLoop fuel rounds SAMPLES (d.buttons, left)) := by
  have hS := hsizes.block
  refine (whileLoop_follows (R := fun s t => ∃ done, Holding frameSize SAMPLES done t.2 s.1 ∧ s.2 = done.length ∧
    s.1.buttons = t.1) ?_ ?_ ⟨done, h, rfl, rfl⟩).mono ?_
  · rintro ⟨d, i⟩ ⟨b, left⟩ ⟨done, h, -, -⟩
    have hcount := h.frameCount
    show decide (d.SAMPLES ≤ d.frameCount) = decide (SAMPLES.toInt.toNat ≤ left.length)
    rw [decide_eq_decide, Int32.le_iff_toInt_le, h.SAMPLES, hcount]
    show SAMPLES.toInt ≤ (left.length : Int) ↔ _
    omega
  · rintro ⟨d, i⟩ ⟨b, left⟩ ⟨done, h, rfl, rfl⟩ hcond
    have hle : SAMPLES.toInt.toNat ≤ left.length := of_decide_eq_true hcond
    have hcut : Holding frameSize SAMPLES done (left.take SAMPLES.toInt.toNat ++ left.drop SAMPLES.toInt.toNat) d := by
      rwa [List.take_append_drop]
    exact (detectBlock_follows hsizes hcut (List.length_take_of_le hle)).mono fun s t hs => ⟨_, hs⟩
  · rintro s t ⟨h, hcond⟩
    exact ⟨h, Nat.not_le.mp (of_decide_eq_false hcond)⟩

omit hsizes in
/-- The frame is put behind the samples that are left. -/
theorem copyFrame_yields (h : Holding frameSize SAMPLES [] left d) (hleft : left.length < SAMPLES.toInt.toNat)
    (hframe : frame.length = frameSize.toInt.toNat) :
    Yields E (fun cells => cells.length = d.pArraySamples.length ∧ cells.Begins (left ++ frame)) (d.copyFrame frame) := by
  rw [copyFrame, h.frameSize, ← hframe]
  have hround := @forLoop_yields _ E d.pArraySamples
    (fun ii cells => do cells.store (ii + d.frameCount.toInt) (← sampleAt frame ii))
    (fun i cells => cells.length = d.pArraySamples.length ∧ cells.Begins (left ++ frame.take i)) frame.length ?_ ?_
  · rwa [List.take_length] at hround
  · refine ⟨rfl, ?_⟩
    rw [List.take_zero, List.append_nil]
    exact h.begins
  · rintro i cells hi ⟨hlen, hbegins⟩
    have hcount : (left ++ frame.take i).length = i + left.length := by
      rw [List.length_append, List.length_take]
      omega
    have hroom : (left ++ frame.take i).length < cells.length := by
      rw [hcount, hlen, h.length]
      omega
    have hindex : (i : Int) + d.frameCount.toInt = ((left ++ frame.take i).length : Nat) := by
      rw [hcount, h.frameCount]
      push_cast
      rfl
    rw [sampleAt_of_lt hi]
    show Yields E _ (cells.store _ _)
    rw [hindex]
    refine (store_yields hroom frame[i]).mono ?_
    rintro _ rfl
    refine ⟨by rw [List.length_set, hlen], ?_⟩
    rw [List.take_succ_eq_append_getElem hi, ← List.append_assoc]
    exact hbegins.snoc hroom _

omit hsizes in
/-- What is left is moved to the front. A cell is written when what it had was read or is done. -/
theorem moveRest_yields (h : Holding frameSize SAMPLES done left d) :
    Yields E (fun cells => cells.length = d.pArraySamples.length ∧ cells.Begins left) (d.moveRest done.length) := by
  rw [moveRest, h.frameCount, Int.toNat_natCast]
  have hround := @forLoop_yields _ E d.pArraySamples
    (fun ii cells => do cells.store ii (← cells.load (ii + done.length : Nat)))
    (fun i cells => cells.length = d.pArraySamples.length ∧ cells.Begins (left.take i) ∧
      ∀ j x, i ≤ j → left[j]? = some x → cells[j + done.length]? = some (some x)) left.length ?_ ?_
  · refine hround.mono fun cells hcells => ⟨hcells.1, ?_⟩
    have hbegins := hcells.2.1
    rwa [List.take_length] at hbegins
  · refine ⟨rfl, Cells.Begins.nil _, fun j x _ hx => h.begins.getElem? ?_⟩
    rw [Nat.add_comm, List.getElem?_append_right (Nat.le_add_right _ _), Nat.add_sub_cancel_left, hx]
  · rintro i cells hi ⟨hlen, hbegins, hbehind⟩
    have hcount : (left.take i).length = i := List.length_take_of_le (Nat.le_of_lt hi)
    have hroom : (left.take i).length < cells.length := by
      have hle := h.length_le
      rw [hcount, hlen, h.length]
      omega
    have hload := Cells.load_of_getElem? (hbehind i _ (Nat.le_refl i) (List.getElem?_eq_getElem hi))
    have hstore := Cells.store_of_lt hroom left[i]
    rw [hcount] at hstore
    rw [hload]
    show Yields E _ (cells.store _ _)
    rw [hstore]
    refine ⟨by rw [List.length_set, hlen], ?_, fun j x hj hx => ?_⟩
    · have hnext := hbegins.snoc hroom left[i]
      rwa [hcount, ← List.take_succ_eq_append_getElem hi] at hnext
    · rw [List.getElem?_set_ne (by omega)]
      exact hbehind j x (by omega) hx

/-- A call detects the blocks of what is left and the frame. -/
theorem dtmfDetecting_follows (h : Holding frameSize SAMPLES [] left d) (hleft : left.length < SAMPLES.toInt.toNat)
    (hframe : frame.length = frameSize.toInt.toNat) :
    Follows (fun d' t => Holding frameSize SAMPLES [] t.2 d' ∧ t.2.length < SAMPLES.toInt.toNat ∧ d'.buttons = t.1)
      (dtmfDetecting fuel d frame) (blockLoop fuel fuel SAMPLES (d.buttons, left ++ frame)) := by
  have hcount := h.frameCount
  have hsize := hsizes.frame
  have hsum := hsizes.sum
  refine (copyFrame_yields h hleft hframe).follows fun cells ⟨hlen, hbegins⟩ => ?_
  have hadded : Holding frameSize SAMPLES [] (left ++ frame)
      { d with pArraySamples := cells, frameCount := d.frameCount + d.frameSize } := by
    refine ⟨hlen.trans h.length, hbegins, ?_, h.frameSize, h.SAMPLES⟩
    show (d.frameCount + d.frameSize).toInt = _
    rw [h.frameSize]
    refine toInt_add_of_eq ?_ ?_ <;> rw [List.length_append] <;> omega
  have hcond : d.SAMPLES ≤ d.frameCount + d.frameSize ↔ SAMPLES.toInt.toNat ≤ (left ++ frame).length := by
    have hadd : (d.frameCount + d.frameSize).toInt = (left ++ frame).length := hadded.frameCount
    rw [Int32.le_iff_toInt_le, h.SAMPLES, hadd]
    omega
  by_cases hle : d.SAMPLES ≤ d.frameCount + d.frameSize
  · show Follows _ (ite _ _ _) _
    rw [if_pos hle]
    rw [← bind_pure (blockLoop _ _ _ _)]
    refine (blockLoop_follows hsizes hadded).bind ?_
    rintro ⟨d', i⟩ ⟨b, left'⟩ ⟨⟨done, hloop, rfl, rfl⟩, hlt⟩
    rw [← bind_pure (pure _)]
    refine (moveRest_yields hloop).follows fun cells hcells => ?_
    exact ⟨⟨hcells.1.trans hloop.length, hcells.2, hloop.frameCount, hloop.frameSize, hloop.SAMPLES⟩, hlt, rfl⟩
  · show Follows _ (ite _ _ _) _
    rw [if_neg hle]
    have hlt := Nat.not_le.mp (mt hcond.mpr hle)
    rw [blockLoop_of_lt hlt]
    exact ⟨hadded, hlt, rfl⟩

/-- The calls for the frames, with the samples in a list. -/
def feedList (fuel : Nat) (SAMPLES : Int32) (t : DialButtons × List Int16) (frames : List (List Int16)) :
    Except Fault (DialButtons × List Int16) :=
  frames.foldlM (fun (b, left) frame => blockLoop fuel fuel SAMPLES (b, left ++ frame)) t

theorem feed_follows {frames : List (List Int16)} (h : Holding frameSize SAMPLES [] left d)
    (hleft : left.length < SAMPLES.toInt.toNat) (hframes : ∀ frame ∈ frames, frame.length = frameSize.toInt.toNat) :
    Follows (fun d' t => Holding frameSize SAMPLES [] t.2 d' ∧ t.2.length < SAMPLES.toInt.toNat ∧ d'.buttons = t.1)
      (feed fuel d frames) (feedList fuel SAMPLES (d.buttons, left) frames) := by
  refine Follows.foldlM ?_ ⟨h, hleft, rfl⟩
  rintro d ⟨b, left⟩ frame hmem ⟨h, hleft, rfl⟩
  exact dtmfDetecting_follows hsizes h hleft (hframes frame hmem)

omit hsizes in
/-- The calls detect the blocks of the whole stream, or a call has more blocks than the rounds that it may make. -/
theorem feedList_eq (hS : 0 < SAMPLES.toInt) (b : DialButtons) (frames : List (List Int16))
    (hleft : left.length < SAMPLES.toInt.toNat) :
    feedList fuel SAMPLES (b, left) frames = detectAll fuel SAMPLES b (left ++ frames.flatten) ∨
      fuel < (left ++ frames.flatten).length ∧ feedList fuel SAMPLES (b, left) frames = .error .endless := by
  have hpos : 0 < SAMPLES.toInt.toNat := by omega
  induction frames generalizing b left with
  | nil =>
    left
    rw [List.flatten_nil, List.append_nil, detectAll, pieces_of_lt hleft, rest_of_lt hleft]
    rfl
  | cons frame frames ih =>
    have hcons : feedList fuel SAMPLES (b, left) (frame :: frames) =
        (blockLoop fuel fuel SAMPLES (b, left ++ frame) >>= fun t => feedList fuel SAMPLES t frames) := rfl
    rw [hcons, List.flatten_cons, ← List.append_assoc, detectAll_append hS]
    rcases @blockLoop_eq fuel fuel SAMPLES hS b (left ++ frame) with heq | ⟨hlt, heq⟩
    · rw [heq]
      cases hall : detectAll fuel SAMPLES b (left ++ frame) with
      | error e => exact Or.inl rfl
      | ok t =>
        obtain ⟨b', left'⟩ := t
        obtain rfl : left' = rest SAMPLES.toInt.toNat (left ++ frame) := detectAll_rest hall
        have hle : (rest SAMPLES.toInt.toNat (left ++ frame)).length ≤ (left ++ frame).length :=
          (List.drop_sublist _ _).length_le
        refine (ih b' (length_rest_lt hpos _)).imp_right fun ⟨hlt, heq⟩ => ⟨?_, heq⟩
        rw [List.length_append] at hlt ⊢
        omega
    · refine Or.inr ⟨?_, ?_⟩
      · have hdiv := Nat.div_le_self (left ++ frame).length SAMPLES.toInt.toNat
        rw [List.length_append]
        omega
      · rw [heq]
        rfl

end Array

end DtmfDetector
end Recd2
