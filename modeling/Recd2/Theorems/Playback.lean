import Recd2.DtmfGenerator
import Recd2.Lib.Playlist
import Recd2.Theorems.Blocks

/-! The DTMF generator plays a list of frames: for each button the frames of its tone, and behind them those of a pause.
    The samples of a tone do not depend on how it is cut into frames. -/

namespace Recd2
open Checked Width
namespace DtmfGenerator

/-! ### What is played -/

/-- The states of the oscillators behind `n` samples of the tone. -/
def states (button : Char) (n : Nat) : Oscillators :=
  (Oscillators.next (coefficients button).1 (coefficients button).2)^[n] (start button)

/-- The samples of the tone of a button. -/
def tone (button : Char) (n : Nat) : Int16 :=
  (states button (n + 1)).output (coefficients button).1 (coefficients button).2

/-- A frame of a tone, with its number in the tone, or a frame of a pause. -/
inductive Frame where
  | tone (button : Char) (number : Nat)
  | pause

/-- The samples of a frame of this size, silence for a pause. -/
def Frame.samples (size : Nat) : Frame → List Int16
  | .tone button number => (List.range size).map fun i => DtmfGenerator.tone button (number * size + i)
  | .pause => List.replicate size 0

/-- The frames for the buttons. -/
def schedule (push pause : Nat) (buttons : List Char) : List Frame :=
  buttons.flatMap fun button => (List.range push).map (.tone button) ++ List.replicate pause .pause

/-- The first samples of an array are replaced. -/
def fill (xs : List Int16) (y : Cells Int16) : Cells Int16 := xs.map some ++ y.drop xs.length

/-- The array has room for the frame. The counter of a tone has 16 bits. -/
def Frame.Fits (sizeOfFrame : Int32) (y : Cells Int16) : Frame → Prop
  | .tone _ _ => sizeOfFrame.toUInt32.toNat < 65536 ∧ sizeOfFrame.toUInt32.toNat ≤ y.length
  | .pause => sizeOfFrame.toInt ≤ y.length

/-! ### Arrays -/

theorem length_fill {xs : List Int16} {y : Cells Int16} (h : xs.length ≤ y.length) : (fill xs y).length = y.length := by
  rw [fill, List.length_append, List.length_map, List.length_drop]
  omega

theorem fill_snoc {xs : List Int16} {y : Cells Int16} (h : xs.length < y.length) (x : Int16) :
    (fill xs y).set xs.length (some x) = fill (xs ++ [x]) y := by
  rw [fill, fill, List.set_append_right _ _ (by rw [List.length_map]), List.length_map, Nat.sub_self,
    List.drop_eq_getElem_cons h, List.set_cons_zero, List.map_append, List.append_assoc, List.length_append]
  rfl

theorem store_fill {E : Fault → Prop} {xs : List Int16} {y : Cells Int16} (h : xs.length < y.length) (x : Int16) :
    Yields E (· = fill (xs ++ [x]) y) ((fill xs y).store xs.length x) := by
  rw [Cells.store_of_lt (by rwa [length_fill h.le])]
  exact fill_snoc h x

theorem store_fails {α : Type} {y : Cells α} {i : Nat} (h : y.length ≤ i) (x : α) : Fails (y.store i x) :=
  ⟨.bounds, if_neg (by omega)⟩

/-! ### The loops over a frame -/

section Oscillator
variable {E : Fault → Prop} {fuel : Nat} {COUNT : UInt32} {y : Cells Int16} (Coeff0 Coeff1 : Int16) (v : Oscillators)

theorem toNat_add_one {ii : UInt16} (h : ii.toNat + 1 < 65536) : (ii + 1).toNat = ii.toNat + 1 := by
  rw [UInt16.toNat_add]
  exact Nat.mod_eq_of_lt h

/-- What the oscillators make of a frame. -/
theorem oscillatorLoop_yields (hcount : COUNT.toNat < 65536) (hy : COUNT.toNat ≤ y.length) (hfuel : 65536 ≤ fuel) :
    Yields E (fun t => t.2.1 = (Oscillators.next Coeff0 Coeff1)^[COUNT.toNat] v ∧
        t.2.2 = fill ((List.range COUNT.toNat).map fun i =>
          ((Oscillators.next Coeff0 Coeff1)^[i + 1] v).output Coeff0 Coeff1) y)
      (oscillatorLoop fuel Coeff0 Coeff1 COUNT v y) := by
  let outputs (n : Nat) : List Int16 :=
    (List.range n).map fun i => ((Oscillators.next Coeff0 Coeff1)^[i + 1] v).output Coeff0 Coeff1
  have hlen : ∀ n, (outputs n).length = n := fun n => by rw [List.length_map, List.length_range]
  have hlt_of_cond : ∀ {ii : UInt16}, decide (ii.toUInt32 < COUNT) = true → ii.toNat < COUNT.toNat := fun h =>
    UInt32.lt_iff_toNat_lt.mp (of_decide_eq_true h)
  rw [oscillatorLoop]
  refine (@whileLoop_ends _ E _ _ fuel _ (fun s => s.1.toNat ≤ COUNT.toNat ∧
    s.2.1 = (Oscillators.next Coeff0 Coeff1)^[s.1.toNat] v ∧ s.2.2 = fill (outputs s.1.toNat) y)
    (fun s => COUNT.toNat - s.1.toNat) ?_ ?_ ?_ ⟨Nat.zero_le _, rfl, rfl⟩).mono ?_
  · rintro ⟨ii, w, z⟩ - hcond
    exact Nat.sub_pos_of_lt (hlt_of_cond hcond)
  · rintro ⟨ii, w, z⟩ ⟨-, hw, hz⟩ hcond
    obtain rfl : w = (Oscillators.next Coeff0 Coeff1)^[ii.toNat] v := hw
    obtain rfl : z = fill (outputs ii.toNat) y := hz
    have hlt : ii.toNat < COUNT.toNat := hlt_of_cond hcond
    have hnext : (ii + 1).toNat = ii.toNat + 1 := toNat_add_one (by omega)
    have hstore := @store_fill E (outputs ii.toNat) y (by rw [hlen]; omega)
      (((Oscillators.next Coeff0 Coeff1)^[ii.toNat + 1] v).output Coeff0 Coeff1)
    rw [hlen] at hstore
    rw [Function.iterate_succ_apply'] at hstore
    refine hstore.bind fun z hz => ?_
    show ((ii + 1).toNat ≤ _ ∧ _ = (Oscillators.next Coeff0 Coeff1)^[(ii + 1).toNat] v ∧
      z = fill (outputs (ii + 1).toNat) y) ∧ COUNT.toNat - (ii + 1).toNat < COUNT.toNat - ii.toNat
    rw [hnext, Function.iterate_succ_apply']
    refine ⟨⟨hlt, rfl, ?_⟩, by omega⟩
    have houtputs : outputs (ii.toNat + 1) = outputs ii.toNat ++
        [((Oscillators.next Coeff0 Coeff1)^[ii.toNat + 1] v).output Coeff0 Coeff1] := by
      show (List.range (ii.toNat + 1)).map _ = _
      rw [List.range_succ, List.map_append]
      rfl
    rw [hz, houtputs, Function.iterate_succ_apply']
  · show COUNT.toNat - 0 ≤ fuel
    omega
  · rintro ⟨ii, w, z⟩ ⟨⟨hle, hw, hz⟩, hcond⟩
    have hge : COUNT.toNat ≤ ii.toNat := Nat.not_lt.mp fun h => of_decide_eq_false hcond (UInt32.lt_iff_toNat_lt.mpr h)
    have heq : ii.toNat = COUNT.toNat := Nat.le_antisymm hle hge
    exact ⟨heq ▸ hw, heq ▸ hz⟩

/-- A loop whose counter does not reach the size, or whose array is too short, has no result. -/
theorem oscillatorLoop_fails (h : ¬(COUNT.toNat < 65536 ∧ COUNT.toNat ≤ y.length)) :
    Fails (oscillatorLoop fuel Coeff0 Coeff1 COUNT v y) := by
  have hkeeps := @whileLoop_keeps _ (fun _ => True) (fun s => s.1.toUInt32 < COUNT) (0, v, y) fuel
    (oscillatorRound Coeff0 Coeff1) (fun s => s.2.2.length = y.length ∧ s.1.toNat ≤ y.length) trivial ?_
    ⟨rfl, Nat.zero_le _⟩
  · rw [oscillatorLoop]
    cases hloop : whileLoop _ _ fuel _ with
    | error e => exact ⟨e, rfl⟩
    | ok t =>
      obtain ⟨⟨-, hle⟩, hcond⟩ := Yields.ok hkeeps hloop
      have hge : COUNT.toNat ≤ t.1.toNat := Nat.not_lt.mp fun h => of_decide_eq_false hcond (UInt32.lt_iff_toNat_lt.mpr h)
      have hlt : t.1.toNat < 65536 := t.1.toNat_lt
      exact absurd ⟨by omega, by omega⟩ h
  · rintro ⟨ii, w, z⟩ ⟨hlen, -⟩ -
    have hlen : z.length = y.length := hlen
    rw [oscillatorRound]
    by_cases hlt : ii.toNat < z.length
    · refine (store_yields hlt _).bind fun u hu => ⟨?_, ?_⟩
      · show u.length = y.length
        rw [hu, List.length_set, hlen]
      · show (ii + 1).toNat ≤ y.length
        rw [UInt16.toNat_add]
        exact (Nat.mod_le _ _).trans (by rw [← hlen]; exact hlt)
    · obtain ⟨e, he⟩ := store_fails (Nat.not_lt.mp hlt) ((w.next Coeff0 Coeff1).output Coeff0 Coeff1)
      rw [he]
      trivial

theorem frequency_oscillator_yields (hcount : COUNT.toNat < 65536) (hy : COUNT.toNat ≤ y.length) (hfuel : 65536 ≤ fuel) :
    Yields E (fun t => t.1 = (Oscillators.next Coeff0 Coeff1)^[COUNT.toNat] v ∧
        t.2 = fill ((List.range COUNT.toNat).map fun i =>
          ((Oscillators.next Coeff0 Coeff1)^[i + 1] v).output Coeff0 Coeff1) y)
      (frequency_oscillator fuel Coeff0 Coeff1 COUNT v y) :=
  (oscillatorLoop_yields Coeff0 Coeff1 v hcount hy hfuel).bind fun _ ht => ht

theorem frequency_oscillator_fails (h : ¬(COUNT.toNat < 65536 ∧ COUNT.toNat ≤ y.length)) :
    Fails (frequency_oscillator fuel Coeff0 Coeff1 COUNT v y) :=
  (oscillatorLoop_fails Coeff0 Coeff1 v h).bind _

end Oscillator

section Silence
variable {E : Fault → Prop} {sizeOfFrame : Int32} {y : Cells Int16}

theorem silence_yields (hy : sizeOfFrame.toInt ≤ y.length) :
    Yields E (· = fill (List.replicate sizeOfFrame.toInt.toNat 0) y) (silence sizeOfFrame y) := by
  rw [silence]
  refine forLoop_yields (P := fun i z => z = fill (List.replicate i 0) y) rfl ?_
  rintro i z hi rfl
  have hstore := @store_fill E (List.replicate i 0) y (by rw [List.length_replicate]; omega) 0
  rw [List.length_replicate, ← List.replicate_succ'] at hstore
  exact hstore

theorem silence_fails (hy : ¬sizeOfFrame.toInt ≤ y.length) : Fails (silence sizeOfFrame y) := by
  refine forLoop_fails (i := y.length) (by omega) fun t ht => store_fails ?_ _
  have hlen : Yields (fun _ => True) (fun z => z.length = y.length)
      (forLoop y.length (fun ii y => Cells.store y ii (0 : Int16)) y) := by
    refine forLoop_yields (P := fun _ (z : Cells Int16) => z.length = y.length) rfl fun i z hi hz => ?_
    refine (store_yields (by rwa [hz]) _).mono fun u hu => ?_
    rw [hu, List.length_set, hz]
  exact (hlen.ok ht).le

end Silence

/-! ### The buttons -/

/-- What the constructor fixes. -/
structure Sized (FrameSize push pause : Int32) (g : DtmfGenerator) : Prop where
  pushCount : g.countDurationPushButton = push
  pauseCount : g.countDurationPause = pause
  frameSize : g.sizeOfFrame = FrameSize
  cells : g.pushDialButtons.length = 20

/-- The generator plays the tone of the first of the buttons, or the pause behind it. -/
structure Playing (FrameSize push pause : Int32) (g : DtmfGenerator) (buttons : List Char) : Prop
    extends Sized FrameSize push pause g where
  ready : g.readyFlag = 0
  length : buttons.length = g.countLengthDialButtonsArray.toNat
  room : g.count.toNat + buttons.length ≤ 20
  begins : Cells.Begins (g.pushDialButtons.drop g.count.toNat) buttons
  tone : g.tempCountDurationPushButton = push ∨
    0 ≤ g.tempCountDurationPushButton.toInt ∧ g.tempCountDurationPushButton.toInt < push.toInt ∧
      ∀ button rest, buttons = button :: rest → (g.tempCoeff1, g.tempCoeff2) = coefficients button ∧
        g.y = states button ((push.toInt - g.tempCountDurationPushButton.toInt).toNat * FrameSize.toUInt32.toNat)

/-- The frames of a tone from one of them on. -/
def toneFrames (button : Char) (first n : Nat) : List Frame := (List.range' first n).map (.tone button)

/-- The frames that are left. -/
def left (g : DtmfGenerator) : List Char → List Frame
  | [] => []
  | button :: rest =>
    toneFrames button (g.countDurationPushButton.toInt.toNat - g.tempCountDurationPushButton.toInt.toNat)
        g.tempCountDurationPushButton.toInt.toNat ++
      List.replicate g.tempCountDurationPause.toInt.toNat .pause ++
      schedule g.countDurationPushButton.toInt.toNat g.countDurationPause.toInt.toNat rest

theorem schedule_cons (push pause : Nat) (button : Char) (rest : List Char) : schedule push pause (button :: rest) =
    toneFrames button 0 push ++ List.replicate pause .pause ++ schedule push pause rest := by
  rw [schedule, List.flatMap_cons, toneFrames, ← List.range_eq_range']
  rfl

theorem toneFrames_succ (button : Char) (first n : Nat) :
    toneFrames button first (n + 1) = .tone button first :: toneFrames button (first + 1) n := by
  rw [toneFrames, List.range'_succ]
  rfl

/-- In front of a tone its list of frames is whole. -/
theorem left_eq_schedule {g : DtmfGenerator} (hpush : g.tempCountDurationPushButton = g.countDurationPushButton)
    (hpause : g.tempCountDurationPause = g.countDurationPause) (buttons : List Char) :
    left g buttons = schedule g.countDurationPushButton.toInt.toNat g.countDurationPause.toInt.toNat buttons := by
  cases buttons with
  | nil => rfl
  | cons button rest => rw [left, schedule_cons, hpush, hpause, Nat.sub_self]

section Buttons
variable {FrameSize push pause : Int32} {g : DtmfGenerator} {button : Char} {rest : List Char}

/-- The `switch` leaves the coefficients of the button, and the states that its tone has reached. -/
theorem Playing.pressButton (h : Playing FrameSize push pause g (button :: rest)) : g.pressButton = .ok { g with
    tempCoeff1 := (coefficients button).1
    tempCoeff2 := (coefficients button).2
    y := states button ((push.toInt - g.tempCountDurationPushButton.toInt).toNat * FrameSize.toUInt32.toNat) } := by
  rw [DtmfGenerator.pressButton]
  by_cases hpush : g.countDurationPushButton = g.tempCountDurationPushButton
  · obtain ⟨more, hmore⟩ := h.begins
    have hcell : g.pushDialButtons[g.count.toNat]? = some (some button) := by
      have hhead : (g.pushDialButtons.drop g.count.toNat)[0]? = some (some button) := by rw [← hmore]; rfl
      rwa [List.getElem?_drop] at hhead
    rw [if_pos hpush, Cells.load_of_getElem? hcell, ← hpush, h.pushCount, Int.sub_self, Int.toNat_zero, Nat.zero_mul]
    rfl
  · obtain ⟨-, -, htone⟩ := h.tone.resolve_left fun htone => hpush (h.pushCount.trans htone.symm)
    obtain ⟨hcoeff, hy⟩ := htone button rest rfl
    rw [if_neg hpush, ← hy, ← hcoeff]

/-- The generator behind a frame of a tone. -/
def played (FrameSize : Int32) (push : Int32) (button : Char) (g : DtmfGenerator) : DtmfGenerator := { g with
  tempCoeff1 := (coefficients button).1
  tempCoeff2 := (coefficients button).2
  tempCountDurationPushButton := g.tempCountDurationPushButton - 1
  y := states button ((push.toInt - g.tempCountDurationPushButton.toInt).toNat * FrameSize.toUInt32.toNat +
    FrameSize.toUInt32.toNat) }

theorem Playing.le (h : Playing FrameSize push pause g rest) : g.tempCountDurationPushButton.toInt ≤ push.toInt := by
  rcases h.tone with htone | ⟨-, hlt, -⟩
  · rw [htone]
  · exact hlt.le

theorem Playing.played (h : Playing FrameSize push pause g (button :: rest)) (hpos : 0 < g.tempCountDurationPushButton.toInt) :
    Playing FrameSize push pause (g.played FrameSize push button) (button :: rest) where
  toSized := ⟨h.pushCount, h.pauseCount, h.frameSize, h.cells⟩
  ready := h.ready
  length := h.length
  room := h.room
  begins := h.begins
  tone := by
    have hle := h.le
    have hsub : (g.tempCountDurationPushButton - 1).toInt = _ := toInt_sub_one hpos
    refine .inr ⟨?_, ?_, ?_⟩
    · show 0 ≤ (g.tempCountDurationPushButton - 1).toInt
      omega
    · show (g.tempCountDurationPushButton - 1).toInt < push.toInt
      omega
    · rintro _ _ ⟨rfl, rfl⟩
      refine ⟨rfl, ?_⟩
      show states _ _ = states _ ((push.toInt - (g.tempCountDurationPushButton - 1).toInt).toNat * _)
      have hsucc : (push.toInt - (g.tempCountDurationPushButton.toInt - 1)).toNat =
          (push.toInt - g.tempCountDurationPushButton.toInt).toNat + 1 := by omega
      rw [hsub, hsucc, Nat.succ_mul]

theorem Playing.left_played (h : Playing FrameSize push pause g (button :: rest))
    (hpos : 0 < g.tempCountDurationPushButton.toInt) : DtmfGenerator.left g (button :: rest) =
      .tone button (push.toInt - g.tempCountDurationPushButton.toInt).toNat ::
        DtmfGenerator.left (g.played FrameSize push button) (button :: rest) := by
  have hle := h.le
  have hsub : (g.tempCountDurationPushButton - 1).toInt = _ := toInt_sub_one hpos
  obtain ⟨n, hn⟩ : ∃ n, g.tempCountDurationPushButton.toInt.toNat = n + 1 :=
    Nat.exists_eq_succ_of_ne_zero (by omega)
  rw [DtmfGenerator.left, DtmfGenerator.left, hn, toneFrames_succ]
  show _ = _ :: (toneFrames button (g.countDurationPushButton.toInt.toNat - (g.tempCountDurationPushButton - 1).toInt.toNat)
    (g.tempCountDurationPushButton - 1).toInt.toNat ++ _ ++ _)
  have hfirst : g.countDurationPushButton.toInt.toNat - (n + 1) =
      (push.toInt - g.tempCountDurationPushButton.toInt).toNat := by
    rw [h.pushCount]
    omega
  have hnext : g.countDurationPushButton.toInt.toNat - n = g.countDurationPushButton.toInt.toNat - (n + 1) + 1 := by
    rw [h.pushCount]
    omega
  have hn' : (g.tempCountDurationPushButton - 1).toInt.toNat = n := by omega
  rw [hn', hnext, hfirst]
  rfl

/-- The generator behind a frame of a pause. -/
def paused (push : Int32) (FrameSize : Int32) (button : Char) (g : DtmfGenerator) : DtmfGenerator := { g with
  tempCoeff1 := (coefficients button).1
  tempCoeff2 := (coefficients button).2
  tempCountDurationPause := g.tempCountDurationPause - 1
  y := states button ((push.toInt - g.tempCountDurationPushButton.toInt).toNat * FrameSize.toUInt32.toNat) }

theorem Playing.paused (h : Playing FrameSize push pause g (button :: rest)) :
    Playing FrameSize push pause (g.paused push FrameSize button) (button :: rest) where
  toSized := ⟨h.pushCount, h.pauseCount, h.frameSize, h.cells⟩
  ready := h.ready
  length := h.length
  room := h.room
  begins := h.begins
  tone := by
    refine h.tone.imp id fun ⟨hle, hlt, _⟩ => ⟨hle, hlt, ?_⟩
    rintro _ _ ⟨rfl, rfl⟩
    exact ⟨rfl, rfl⟩

theorem left_paused (push FrameSize : Int32) (hpush : ¬0 < g.tempCountDurationPushButton.toInt)
    (hpos : 0 < g.tempCountDurationPause.toInt) :
    left g (button :: rest) = .pause :: left (g.paused push FrameSize button) (button :: rest) := by
  have hsub : (g.tempCountDurationPause - 1).toInt = _ := toInt_sub_one hpos
  have hzero : g.tempCountDurationPushButton.toInt.toNat = 0 := by omega
  obtain ⟨n, hn⟩ : ∃ n, g.tempCountDurationPause.toInt.toNat = n + 1 := Nat.exists_eq_succ_of_ne_zero (by omega)
  rw [left, left, hn, hzero, List.replicate_succ]
  show _ = _ :: (toneFrames button (_ - g.tempCountDurationPushButton.toInt.toNat)
    g.tempCountDurationPushButton.toInt.toNat ++ List.replicate (g.tempCountDurationPause - 1).toInt.toNat _ ++ _)
  have hn' : (g.tempCountDurationPause - 1).toInt.toNat = n := by omega
  rw [hzero, hn']
  rfl

/-- The generator in front of the next button. -/
def advanced (push : Int32) (FrameSize : Int32) (button : Char) (g : DtmfGenerator) : DtmfGenerator :=
  nextButton { g with
    tempCoeff1 := (coefficients button).1
    tempCoeff2 := (coefficients button).2
    y := states button ((push.toInt - g.tempCountDurationPushButton.toInt).toNat * FrameSize.toUInt32.toNat) }

theorem Playing.advanced (h : Playing FrameSize push pause g (button :: rest)) :
    Playing FrameSize push pause (g.advanced push FrameSize button) rest := by
  have hroom := h.room
  have hleft := h.length
  rw [List.length_cons] at hroom hleft
  have hcount : (g.count + 1).toNat = g.count.toNat + 1 := by
    rw [UInt32.toNat_add]
    show (g.count.toNat + 1) % 2 ^ 32 = _
    omega
  have hlength : (g.countLengthDialButtonsArray - 1).toNat = g.countLengthDialButtonsArray.toNat - 1 :=
    UInt32.toNat_sub_of_le _ _ (UInt32.le_iff_toNat_le.mpr (by show 1 ≤ _; omega))
  refine ⟨⟨h.pushCount, h.pauseCount, h.frameSize, h.cells⟩, h.ready, ?_, ?_, ?_, .inl h.pushCount⟩
  · show rest.length = (g.countLengthDialButtonsArray - 1).toNat
    omega
  · show (g.count + 1).toNat + rest.length ≤ 20
    omega
  · show Cells.Begins (g.pushDialButtons.drop (g.count + 1).toNat) rest
    obtain ⟨more, hmore⟩ := h.begins
    refine ⟨more, ?_⟩
    rw [hcount, ← List.drop_drop, ← hmore]
    rfl

theorem left_advanced (push FrameSize : Int32) (hpush : ¬0 < g.tempCountDurationPushButton.toInt)
    (hpause : ¬0 < g.tempCountDurationPause.toInt) :
    left g (button :: rest) = left (g.advanced push FrameSize button) rest := by
  have hzero : g.tempCountDurationPushButton.toInt.toNat = 0 := by omega
  have hzero' : g.tempCountDurationPause.toInt.toNat = 0 := by omega
  rw [left_eq_schedule (g := g.advanced push FrameSize button) rfl rfl, left, hzero, hzero']
  rfl

end Buttons

/-! ### The calls -/

/-- The frames that the generator still has to play, if it is not ready. -/
def Tracks (FrameSize push pause : Int32) (g : DtmfGenerator) : Option (List Frame) → Prop
  | none => Sized FrameSize push pause g ∧ g.readyFlag ≠ 0
  | some frames => ∃ buttons, Playing FrameSize push pause g buttons ∧ frames = left g buttons

namespace Call

/-- The request to a player that a call is. -/
def op (push pause : Nat) : Call → Playlist.Op Frame
  | .transmitNewDialButtonsArray dialButtonsArray length =>
    .load (if length = 0 then none else some (schedule push pause (dialButtonsArray.take (min 20 length.toNat))))
  | .dtmfGenerating _ => .next
  | .dtmfGeneratorReset => .reset
  | .getReadyFlag => .idle

/-- What the caller sees of an answer. -/
def seen (size : Nat) : Call → Playlist.Answer Frame → List Seen
  | .dtmfGenerating y, .item (some frame) => [.out (fill (frame.samples size) y)]
  | .dtmfGenerating y, .item none => [.out y]
  | _, .taken b => [.returned (if b then 1 else 0)]
  | _, .idle b => [.returned (if b then 1 else 0)]
  | _, _ => []

/-- A call, when it is answered by a player. -/
def player (size push pause : Nat) : Option (List Frame) → Call → Option (List Frame) × List Seen :=
  Playlist.answered (op push pause) (seen size)

/-- The arrays of a call are long enough. -/
def Fits (FrameSize : Int32) (s : Option (List Frame)) : Call → Prop
  | .transmitNewDialButtonsArray dialButtonsArray length => s = none → min 20 length.toNat ≤ dialButtonsArray.length
  | .dtmfGenerating y => ∀ frame left, s = some (frame :: left) → frame.Fits FrameSize y
  | _ => True

end Call

theorem iterate_states (button : Char) (n i : Nat) :
    (Oscillators.next (coefficients button).1 (coefficients button).2)^[i] (states button n) = states button (n + i) := by
  rw [states, states, ← Function.iterate_add_apply, Nat.add_comm]

/-- A tone goes on from where a frame left it. -/
theorem tone_add (button : Char) (n i : Nat) : tone button (n + i) =
    ((Oscillators.next (coefficients button).1 (coefficients button).2)^[i + 1] (states button n)).output
      (coefficients button).1 (coefficients button).2 := by
  rw [tone, iterate_states]
  rfl

theorem pos_iff {n : Int32} : 0 < n ↔ 0 < n.toInt := Int32.lt_iff_toInt_lt

section Calls
variable {FrameSize push pause : Int32} {g : DtmfGenerator} {fuel : Nat} {y : Cells Int16}

theorem toUInt32_toNat_eq {FrameSize : Int32} (h : FrameSize.toUInt32.toNat < 65536) :
    FrameSize.toUInt32.toNat = FrameSize.toInt.toNat := by
  by_cases hneg : 0 ≤ FrameSize.toInt
  · exact DtmfDetector.toNat_toUInt32 hneg
  · exfalso
    have hle := FrameSize.le_toInt
    have htoInt : FrameSize.toInt = Int.bmod FrameSize.toUInt32.toNat (2 ^ 32) := by
      rw [← Int32.toInt_toBitVec, BitVec.toInt_eq_toNat_bmod]
      rfl
    rw [Int.bmod_eq_of_le (by omega) (by omega)] at htoInt
    omega

/-- The list behind the first frame. -/
theorem Playing.buttonLoop_yields {buttons : List Char} (h : Playing FrameSize push pause g buttons)
    (hfuel : 65536 ≤ fuel) (hfits : Call.Fits FrameSize (some (left g buttons)) (.dtmfGenerating y)) :
    Yields (fun _ => False) (fun t =>
      Tracks FrameSize push pause t.1 (Playlist.step (some (left g buttons)) .next).1 ∧
        [.out t.2] = (Playlist.step (some (left g buttons)) .next).2.flatMap
          ((Call.dtmfGenerating y).seen FrameSize.toInt.toNat))
      (buttonLoop fuel buttons.length g y) := by
  induction buttons generalizing g with
  | nil =>
    refine ⟨⟨⟨h.pushCount, h.pauseCount, h.frameSize, h.cells⟩, ?_⟩, rfl⟩
    show (1 : Int32) ≠ 0
    decide
  | cons button rest ih =>
    obtain rfl := h.frameSize
    rw [List.length_cons, buttonLoop, h.pressButton]
    show Yields _ _ (if 0 < g.tempCountDurationPushButton then _ else if 0 < g.tempCountDurationPause then _ else _)
    by_cases hpush : 0 < g.tempCountDurationPushButton.toInt
    · have hleft := h.left_played hpush
      rw [hleft] at hfits ⊢
      obtain ⟨hcount, hy⟩ := hfits _ _ rfl
      rw [if_pos (pos_iff.mpr hpush)]
      refine (frequency_oscillator_yields _ _ _ hcount hy hfuel).bind ?_
      rintro ⟨v, z⟩ ⟨hv, hz⟩
      obtain rfl : v = _ := hv.trans (iterate_states _ _ _)
      obtain rfl : z = _ := hz
      refine ⟨⟨_, h.played hpush, rfl⟩, ?_⟩
      show [Seen.out _] = [Seen.out (fill ((List.range g.sizeOfFrame.toInt.toNat).map fun i => DtmfGenerator.tone button (_ + i)) y)]
      simp only [tone_add, ← toUInt32_toNat_eq hcount]
    · rw [if_neg fun hlt => hpush (pos_iff.mp hlt)]
      by_cases hpause : 0 < g.tempCountDurationPause.toInt
      · rw [left_paused push g.sizeOfFrame hpush hpause] at hfits ⊢
        have hy := hfits _ _ rfl
        rw [if_pos (pos_iff.mpr hpause)]
        refine (silence_yields hy).bind ?_
        rintro z rfl
        exact ⟨⟨_, h.paused, rfl⟩, rfl⟩
      · rw [if_neg fun hlt => hpause (pos_iff.mp hlt)]
        rw [left_advanced push g.sizeOfFrame hpush hpause] at hfits ⊢
        exact ih h.advanced hfits

/-- Without room for the first frame there is no result. -/
theorem Playing.buttonLoop_fails {buttons : List Char} (h : Playing FrameSize push pause g buttons)
    (hfits : ¬Call.Fits FrameSize (some (left g buttons)) (.dtmfGenerating y)) :
    Fails (buttonLoop fuel buttons.length g y) := by
  induction buttons generalizing g with
  | nil => exact absurd (fun _ _ h => by cases h) hfits
  | cons button rest ih =>
    obtain rfl := h.frameSize
    rw [List.length_cons, buttonLoop, h.pressButton]
    show Fails (if 0 < g.tempCountDurationPushButton then _ else if 0 < g.tempCountDurationPause then _ else _)
    by_cases hpush : 0 < g.tempCountDurationPushButton.toInt
    · rw [h.left_played hpush] at hfits
      rw [if_pos (pos_iff.mpr hpush)]
      refine (frequency_oscillator_fails _ _ _ fun hfit => hfits ?_).bind _
      rintro _ _ ⟨rfl, rfl⟩
      exact hfit
    · rw [if_neg fun hlt => hpush (pos_iff.mp hlt)]
      by_cases hpause : 0 < g.tempCountDurationPause.toInt
      · rw [left_paused push g.sizeOfFrame hpush hpause] at hfits
        rw [if_pos (pos_iff.mpr hpause)]
        refine (silence_fails fun hfit => hfits ?_).bind _
        rintro _ _ ⟨rfl, rfl⟩
        exact hfit
      · rw [if_neg fun hlt => hpause (pos_iff.mp hlt)]
        rw [left_advanced push g.sizeOfFrame hpush hpause] at hfits
        exact ih h.advanced hfits

theorem buttonAt_of_lt {xs : List Char} {i : Nat} (h : i < xs.length) : buttonAt xs i = .ok xs[i] := by
  rw [buttonAt, List.getElem?_eq_getElem h]

theorem copyButtons_yields {E : Fault → Prop} {xs : List Char} {n : Nat} {cells : Cells Char} (hn : n ≤ xs.length)
    (hcells : n ≤ cells.length) : Yields E (fun t => t.length = cells.length ∧ Cells.Begins t (xs.take n))
      (copyButtons xs n cells) := by
  rw [copyButtons]
  refine forLoop_yields (P := fun i (t : Cells Char) => t.length = cells.length ∧ Cells.Begins t (xs.take i))
    ⟨rfl, Cells.Begins.nil _⟩ ?_
  rintro i t hi ⟨hlen, hbegins⟩
  have hlt : i < xs.length := by omega
  rw [buttonAt_of_lt hlt]
  refine (store_yields (by omega) _).mono fun u hu => ⟨by rw [hu, List.length_set, hlen], ?_⟩
  have htake : (xs.take i).length = i := List.length_take_of_le hlt.le
  have hsnoc := hbegins.snoc (by omega) xs[i]
  rwa [htake, List.take_append_getElem hlt, ← hu] at hsnoc

theorem copyButtons_fails {xs : List Char} {n : Nat} {cells : Cells Char} (hn : ¬n ≤ xs.length) :
    Fails (copyButtons xs n cells) := by
  refine forLoop_fails (i := xs.length) (by omega) fun t _ => ⟨.bounds, ?_⟩
  rw [buttonAt, List.getElem?_eq_none (Nat.le_refl _)]
  rfl

theorem transmit_yields {s : Option (List Frame)} (h : Tracks FrameSize push pause g s) {dialButtonsArray : List Char}
    {length : UInt32} (hfits : Call.Fits FrameSize s (.transmitNewDialButtonsArray dialButtonsArray length)) :
    let op : Playlist.Op Frame := (Call.transmitNewDialButtonsArray dialButtonsArray length).op push.toInt.toNat pause.toInt.toNat
    Yields (fun _ => False) (fun t => Tracks FrameSize push pause t.1 (Playlist.step s op).1 ∧
        [.returned t.2] = (Playlist.step s op).2.flatMap
          ((Call.transmitNewDialButtonsArray dialButtonsArray length).seen FrameSize.toInt.toNat))
      (g.transmitNewDialButtonsArray dialButtonsArray length) := by
  rw [transmitNewDialButtonsArray, getReadyFlag]
  cases s with
  | some frames =>
    obtain ⟨buttons, hplaying, rfl⟩ := h
    rw [if_neg (not_not.mpr hplaying.ready), if_pos rfl]
    exact ⟨⟨buttons, hplaying, rfl⟩, rfl⟩
  | none =>
    obtain ⟨hsized, hready⟩ := h
    rw [if_pos hready, if_neg (by decide)]
    by_cases hzero : length = 0
    · rw [if_pos hzero, Call.op, if_pos hzero]
      refine ⟨⟨⟨hsized.pushCount, hsized.pauseCount, hsized.frameSize, hsized.cells⟩, ?_⟩, rfl⟩
      show (1 : Int32) ≠ 0
      decide
    · have hlength : (if 20 < length then 20 else length : UInt32).toNat = min 20 length.toNat := by
        by_cases hlong : 20 < length
        · rw [if_pos hlong]
          exact (Nat.min_eq_left (UInt32.lt_iff_toNat_lt.mp hlong).le).symm
        · rw [if_neg hlong]
          exact (Nat.min_eq_right (Nat.not_lt.mp fun hlt => hlong (UInt32.lt_iff_toNat_lt.mpr hlt))).symm
      have hcells := hsized.cells
      rw [if_neg hzero, Call.op, if_neg hzero]
      refine (copyButtons_yields (hlength.trans_le (hfits rfl)) (by rw [hlength, hcells]; exact Nat.min_le_left _ _)).bind ?_
      rintro cells ⟨hlen, hbegins⟩
      rw [hlength] at hbegins
      refine ⟨⟨dialButtonsArray.take (min 20 length.toNat), ?_, ?_⟩, rfl⟩
      · refine ⟨⟨hsized.pushCount, hsized.pauseCount, hsized.frameSize, hlen.trans hcells⟩, rfl, ?_, ?_, hbegins,
          .inl hsized.pushCount⟩
        · exact (List.length_take_of_le (hfits rfl)).trans hlength.symm
        · show 0 + _ ≤ 20
          rw [List.length_take]
          omega
      · rw [left_eq_schedule]
        · show schedule _ _ _ = schedule g.countDurationPushButton.toInt.toNat g.countDurationPause.toInt.toNat _
          rw [hsized.pushCount, hsized.pauseCount]
        · rfl
        · rfl

/-- A call is answered as by the player, or it has no result. -/
theorem call_cases {s : Option (List Frame)} (h : Tracks FrameSize push pause g s) (hfuel : 65536 ≤ fuel) (c : Call) :
    (c.Fits FrameSize s → Yields (fun _ => False) (fun t =>
      Tracks FrameSize push pause t.1 (c.player FrameSize.toInt.toNat push.toInt.toNat pause.toInt.toNat s).1 ∧
        t.2 = (c.player FrameSize.toInt.toNat push.toInt.toNat pause.toInt.toNat s).2) (g.call fuel c)) ∧
      (¬c.Fits FrameSize s → Fails (g.call fuel c)) := by
  cases c with
  | transmitNewDialButtonsArray dialButtonsArray length =>
    refine ⟨fun hfits => (transmit_yields h hfits).bind fun t ht => ht, fun hfits => Fails.bind ?_ _⟩
    obtain ⟨rfl, hlt⟩ := Classical.not_imp.mp hfits
    obtain ⟨-, hready⟩ := h
    have hzero : length ≠ 0 := by
      rintro rfl
      exact hlt (Nat.zero_le _)
    rw [transmitNewDialButtonsArray, getReadyFlag, if_pos hready, if_neg (by decide), if_neg hzero]
    refine (copyButtons_fails ?_).bind _
    intro hle
    refine hlt (le_trans ?_ hle)
    split_ifs with hlong
    · exact Nat.min_le_left _ _
    · exact Nat.min_le_right _ _
  | dtmfGenerating y =>
    rw [call, dtmfGenerating]
    cases s with
    | none =>
      rw [if_pos h.2]
      exact ⟨fun _ => ⟨h, rfl⟩, fun hfits => absurd (fun _ _ h => by cases h) hfits⟩
    | some frames =>
      obtain ⟨buttons, hplaying, rfl⟩ := h
      rw [if_neg (not_not.mpr hplaying.ready), ← hplaying.length]
      exact ⟨fun hfits => (hplaying.buttonLoop_yields hfuel hfits).bind fun t ht => ht,
        fun hfits => (hplaying.buttonLoop_fails hfits).bind _⟩
  | dtmfGeneratorReset =>
    refine ⟨fun _ => ⟨⟨?_, ?_⟩, rfl⟩, fun hfits => absurd trivial hfits⟩
    · cases s with
      | none => exact ⟨h.1.pushCount, h.1.pauseCount, h.1.frameSize, h.1.cells⟩
      | some frames =>
        obtain ⟨buttons, hplaying, -⟩ := h
        exact ⟨hplaying.pushCount, hplaying.pauseCount, hplaying.frameSize, hplaying.cells⟩
    · show (1 : Int32) ≠ 0
      decide
  | getReadyFlag =>
    refine ⟨fun _ => ⟨h, ?_⟩, fun hfits => absurd trivial hfits⟩
    show [Seen.returned (if g.readyFlag ≠ 0 then 1 else 0)] = _
    cases s with
    | none =>
      rw [if_pos h.2]
      rfl
    | some frames =>
      obtain ⟨buttons, hplaying, -⟩ := h
      rw [if_neg (not_not.mpr hplaying.ready)]
      rfl

/-- A new generator is ready. -/
theorem tracks_new {memory : DtmfGenerator} {DurationPush DurationPause : Int32}
    (hnew : new memory FrameSize DurationPush DurationPause = .ok g) :
    Tracks FrameSize ((DurationPush <<< 3) / FrameSize + 1) ((DurationPause <<< 3) / FrameSize + 1) g none := by
  rw [new] at hnew
  cases hpush : divide (DurationPush <<< 3) FrameSize with
  | error e =>
    rw [hpush] at hnew
    cases hnew
  | ok push =>
    cases hpause : divide (DurationPause <<< 3) FrameSize with
    | error e =>
      rw [hpush, hpause] at hnew
      cases hnew
    | ok pause =>
      rw [hpush, hpause] at hnew
      obtain rfl := Except.ok.inj hnew
      rw [← divide_eq_of_ok hpush, ← divide_eq_of_ok hpause]
      refine ⟨⟨rfl, rfl, rfl, rfl⟩, ?_⟩
      show (1 : Int32) ≠ 0
      decide

/-- Whatever calls are made, they are answered as by a player of the schedules, and there is a result exactly when each
    array is long enough for its call and a tone is never played in frames of 65536 samples or more. -/
theorem calls_eq_player {memory : DtmfGenerator} {DurationPush DurationPause : Int32}
    (hnew : new memory FrameSize DurationPush DurationPause = .ok g) (hfuel : 65536 ≤ fuel) (cs : List Call) :
    let player := Call.player FrameSize.toInt.toNat ((DurationPush <<< 3) / FrameSize + 1).toInt.toNat
      ((DurationPause <<< 3) / FrameSize + 1).toInt.toNat
    ((∃ r, calls fuel g cs = .ok r) ↔ Run.Along player (Call.Fits FrameSize) none cs) ∧
      ∀ r, calls fuel g cs = .ok r → r.2 = Run.emits player none cs := by
  intro player
  rcases @runs_cases _ _ _ _ (call fuel) player (Tracks FrameSize _ _) (Call.Fits FrameSize)
    (fun g s c h => (call_cases h hfuel c).1) (fun g s c h => (call_cases h hfuel c).2) _ _ (tracks_new hnew) cs with
    ⟨halong, hyields⟩ | ⟨halong, hfails⟩
  · obtain ⟨r, hr, hseen⟩ := hyields.exists_ok
    refine ⟨⟨fun _ => halong, fun _ => ⟨r, hr⟩⟩, fun r' hr' => ?_⟩
    obtain rfl := Except.ok.inj (hr.symm.trans hr')
    exact hseen.2
  · exact ⟨⟨fun ⟨r, hr⟩ => absurd hr (hfails.ne_ok r), fun h => absurd h halong⟩, fun r hr => absurd hr (hfails.ne_ok r)⟩

end Calls

theorem exists_new (memory : DtmfGenerator) (FrameSize DurationPush DurationPause : Int32) (hF : 0 < FrameSize.toInt) :
    ∃ g, new memory FrameSize DurationPush DurationPause = .ok g := by
  rw [new, divide_of_pos _ hF, divide_of_pos _ hF]
  exact ⟨_, rfl⟩

theorem calls_eq_player_two : ∃ g, new ⟨0, 0, 0, 0, 0, [], 0, 0, 0, 0, 0, ⟨0, 0, 0, 0⟩⟩ 2 1 0 = .ok g ∧ ∀ cs,
    let player := Call.player (2 : Int32).toInt.toNat (((1 : Int32) <<< 3) / 2 + 1).toInt.toNat
      (((0 : Int32) <<< 3) / 2 + 1).toInt.toNat
    ((∃ r, calls 65536 g cs = .ok r) ↔ Run.Along player (Call.Fits 2) none cs) ∧
      ∀ r, calls 65536 g cs = .ok r → r.2 = Run.emits player none cs := by
  obtain ⟨g, hg⟩ := exists_new ⟨0, 0, 0, 0, 0, [], 0, 0, 0, 0, 0, ⟨0, 0, 0, 0⟩⟩ 2 1 0 (by decide)
  exact ⟨g, hg, fun cs => calls_eq_player hg (Nat.le_refl _) cs⟩

/-! ### The signal -/

/-- The samples for the buttons: the first ones of each tone, and zeros behind them. -/
def signal (push pause : Nat) (buttons : List Char) : List Int16 :=
  buttons.flatMap fun button => (List.range push).map (tone button) ++ List.replicate pause 0

/-- The frames that cover a duration in milliseconds, at eight samples each. -/
def framesOf (FrameSize Duration : Int32) : Nat := (8 * Duration.toInt / FrameSize.toInt).toNat + 1

theorem samples_tone (size push : Nat) (button : Char) :
    ((List.range push).map (Frame.tone button)).flatMap (Frame.samples size) =
      (List.range (push * size)).map (tone button) := by
  induction push with
  | zero => rw [Nat.zero_mul]; rfl
  | succ push ih =>
    rw [List.range_succ, List.map_append, List.flatMap_append, ih, Nat.succ_mul, List.range_add, List.map_append,
      List.map_map]
    exact congrArg (_ ++ ·) (List.append_nil _)

theorem samples_pause (size pause : Nat) :
    (List.replicate pause Frame.pause).flatMap (Frame.samples size) = List.replicate (pause * size) 0 := by
  induction pause with
  | zero => rw [Nat.zero_mul]; rfl
  | succ pause ih =>
    rw [List.replicate_succ, List.flatMap_cons, ih, Nat.succ_mul, Nat.add_comm, List.replicate_add]
    rfl

/-- The frames cut the signal. -/
theorem samples_schedule (size push pause : Nat) (buttons : List Char) :
    (schedule push pause buttons).flatMap (Frame.samples size) = signal (push * size) (pause * size) buttons := by
  rw [schedule, signal, List.flatMap_assoc]
  refine List.flatMap_congr fun button _ => ?_
  rw [List.flatMap_append, samples_tone, samples_pause]

section Signal
variable {FrameSize Duration : Int32} (hF : 0 < FrameSize.toInt) (hD : 0 ≤ Duration.toInt ∧ Duration.toInt < 2 ^ 28)
include hF hD

theorem toNat_count : ((Duration <<< 3) / FrameSize + 1).toInt.toNat = framesOf FrameSize Duration := by
  obtain ⟨hle, hlt⟩ := hD
  have hshift : (Duration <<< 3).toInt = 8 * Duration.toInt := by
    have hfits : Duration.toInt * 2 ^ (3 : Int32).toInt.toNat = 8 * Duration.toInt := Int.mul_comm _ _
    rw [toInt_shiftLeft (by decide) (by decide)] <;> rw [hfits]
    exact ⟨by omega, by omega⟩
  have hdiv : ((Duration <<< 3) / FrameSize).toInt = 8 * Duration.toInt / FrameSize.toInt := by
    have hnonneg : 0 ≤ 8 * Duration.toInt := by omega
    have hle : 8 * Duration.toInt / FrameSize.toInt ≤ 8 * Duration.toInt := Int.ediv_le_self _ hnonneg
    have hge : 0 ≤ 8 * Duration.toInt / FrameSize.toInt := Int.ediv_nonneg hnonneg hF.le
    rw [Int32.toInt_div, hshift, Int.tdiv_eq_ediv_of_nonneg hnonneg]
    exact Int.bmod_eq_of_le (by omega) (by omega)
  have hge : 0 ≤ 8 * Duration.toInt / FrameSize.toInt := Int.ediv_nonneg (by omega) hF.le
  have hle : 8 * Duration.toInt / FrameSize.toInt ≤ 8 * Duration.toInt := Int.ediv_le_self _ (by omega)
  have hone : (1 : Int32).toInt = 1 := rfl
  rw [toInt_add (by rw [hdiv, hone]; exact ⟨by omega, by omega⟩), hdiv, hone, framesOf]
  omega

/-- The frames last at least as long as was asked for, and less than one frame longer. -/
theorem framesOf_mul : 8 * Duration.toInt < framesOf FrameSize Duration * FrameSize.toInt ∧
    framesOf FrameSize Duration * FrameSize.toInt ≤ 8 * Duration.toInt + FrameSize.toInt := by
  have hge : 0 ≤ 8 * Duration.toInt / FrameSize.toInt := Int.ediv_nonneg (by omega) hF.le
  have hframes : (framesOf FrameSize Duration : Int) = 8 * Duration.toInt / FrameSize.toInt + 1 := by
    rw [framesOf, Nat.cast_add, Int.toNat_of_nonneg hge]
    rfl
  rw [hframes, Int.add_mul, Int.one_mul, Int.mul_comm (_ / _)]
  exact ⟨by have := Int.lt_mul_ediv_self_add (x := 8 * Duration.toInt) hF; omega,
    by have := Int.mul_ediv_self_le (x := 8 * Duration.toInt) (k := FrameSize.toInt) hF.ne'; omega⟩

end Signal

theorem Frame.length_samples (size : Nat) (frame : Frame) : (frame.samples size).length = size := by
  cases frame with
  | tone button number => rw [Frame.samples, List.length_map, List.length_range]
  | pause => exact List.length_replicate

/-- Arrays of the size of a frame are replaced by the frames. -/
theorem seen_zip {size : Nat} {ys : List (Cells Int16)} (hys : ∀ y ∈ ys, y.length = size) {frames : List Frame}
    (hlen : ys.length = frames.length) :
    ((ys.map Call.dtmfGenerating).zip frames).flatMap (fun p => p.1.seen size (.item (some p.2))) =
      (frames.map fun frame => (frame.samples size).map some).map Seen.out := by
  induction ys generalizing frames with
  | nil =>
    obtain rfl := List.length_eq_zero_iff.mp hlen.symm
    rfl
  | cons y ys ih =>
    cases frames with
    | nil => cases hlen
    | cons frame frames =>
      have hfill : fill (frame.samples size) y = (frame.samples size).map some := by
        rw [fill, List.drop_of_length_le (by rw [Frame.length_samples, hys y List.mem_cons_self]), List.append_nil]
      rw [List.map_cons, List.zip_cons_cons, List.flatMap_cons,
        ih (fun y hy => hys y (List.mem_cons_of_mem _ hy)) (Nat.succ.inj hlen)]
      show [Seen.out (fill (frame.samples size) y)] ++ _ = _
      rw [hfill]
      rfl

theorem length_schedule (push pause : Nat) (buttons : List Char) :
    (schedule push pause buttons).length = buttons.length * (push + pause) := by
  induction buttons with
  | nil => rw [List.length_nil, Nat.zero_mul]; rfl
  | cons button rest ih =>
    rw [schedule_cons, List.length_append, ih, List.length_append, toneFrames, List.length_map, List.length_range',
      List.length_replicate, List.length_cons, Nat.succ_mul, Nat.add_comm]

theorem fits_dtmfGenerating {FrameSize : Int32} (hF : 0 < FrameSize.toInt ∧ FrameSize.toInt < 65536) {y : Cells Int16}
    (hy : y.length = FrameSize.toInt.toNat) (s : Option (List Frame)) : Call.Fits FrameSize s (.dtmfGenerating y) := by
  intro frame left _
  have hcount : FrameSize.toUInt32.toNat = FrameSize.toInt.toNat := DtmfDetector.toNat_toUInt32 hF.1.le
  cases frame with
  | tone button number => exact ⟨by omega, by omega⟩
  | pause =>
    show FrameSize.toInt ≤ y.length
    omega

section Transmission
variable {fuel : Nat} {memory g : DtmfGenerator} {FrameSize DurationPush DurationPause : Int32}
  (hF : 0 < FrameSize.toInt ∧ FrameSize.toInt < 65536) (hpush : 0 ≤ DurationPush.toInt ∧ DurationPush.toInt < 2 ^ 28)
  (hpause : 0 ≤ DurationPause.toInt ∧ DurationPause.toInt < 2 ^ 28)
  (hnew : new memory FrameSize DurationPush DurationPause = .ok g) (hfuel : 65536 ≤ fuel)
  {dialButtonsArray : List Char} {length : UInt32} (hlength : length ≠ 0)
  (harray : min 20 length.toNat ≤ dialButtonsArray.length)
  {ys : List (Cells Int16)} {y : Cells Int16} (hys : ∀ z ∈ ys ++ [y], z.length = FrameSize.toInt.toNat)
  (hcalls : ys.length = min 20 length.toNat * (framesOf FrameSize DurationPush + framesOf FrameSize DurationPause))
include hF hpush hpause hnew hfuel hlength harray hys hcalls

/-- What the calls for a transmission give, to the call that finds the generator ready. -/
theorem calls_of_transmission : ∃ g', calls fuel g (.transmitNewDialButtonsArray dialButtonsArray length ::
    ys.map .dtmfGenerating ++ [.dtmfGenerating y] ++ [.getReadyFlag]) =
      .ok (g', .returned 1 :: ((schedule (framesOf FrameSize DurationPush) (framesOf FrameSize DurationPause)
        (dialButtonsArray.take (min 20 length.toNat))).map fun frame =>
          (frame.samples FrameSize.toInt.toNat).map some).map .out ++ [.out y] ++ [.returned 1]) := by
  obtain ⟨hfits, hseen⟩ := calls_eq_player hnew hfuel (.transmitNewDialButtonsArray dialButtonsArray length ::
    ys.map .dtmfGenerating ++ [.dtmfGenerating y] ++ [.getReadyFlag])
  rw [toNat_count hF.1 hpush, toNat_count hF.1 hpause] at hfits hseen
  have hys' : ∀ z ∈ ys, z.length = FrameSize.toInt.toNat := fun z hz => hys z (List.mem_append_left _ hz)
  have halong : ∀ c ∈ Call.transmitNewDialButtonsArray dialButtonsArray length :: ys.map .dtmfGenerating ++
      [.dtmfGenerating y] ++ [.getReadyFlag], ∀ s, Call.Fits FrameSize s c := by
    rw [List.append_assoc, List.cons_append, List.forall_mem_cons, List.forall_mem_append, List.forall_mem_map]
    refine ⟨fun s _ => harray, fun z hz => fits_dtmfGenerating hF (hys' z hz), ?_⟩
    rw [List.singleton_append, List.forall_mem_cons, List.forall_mem_singleton]
    exact ⟨fits_dtmfGenerating hF (hys y (List.mem_append_right _ (List.mem_singleton.mpr rfl))), fun _ => trivial⟩
  obtain ⟨⟨g', seen⟩, hr⟩ := hfits.mpr (Run.along_of_forall halong none)
  obtain rfl : seen = _ := hseen _ hr
  have hlen : (ys.map Call.dtmfGenerating).length = (schedule (framesOf FrameSize DurationPush)
      (framesOf FrameSize DurationPause) (dialButtonsArray.take (min 20 length.toNat))).length := by
    rw [List.length_map, length_schedule, List.length_take_of_le harray, hcalls]
  have hload : Call.op (framesOf FrameSize DurationPush) (framesOf FrameSize DurationPause)
      (.transmitNewDialButtonsArray dialButtonsArray length) = .load (some (schedule (framesOf FrameSize DurationPush)
      (framesOf FrameSize DurationPause) (dialButtonsArray.take (min 20 length.toNat)))) := by
    rw [Call.op, if_neg hlength]
  have hlast : Call.op (framesOf FrameSize DurationPush) (framesOf FrameSize DurationPause) (.dtmfGenerating y) =
      .next := rfl
  obtain ⟨hemits, hstate⟩ := Playlist.emits_load (Call.op (framesOf FrameSize DurationPush) (framesOf FrameSize DurationPause))
    (Call.seen FrameSize.toInt.toNat) hload (List.forall_mem_map.mpr fun _ _ => rfl) hlen hlast
  rw [seen_zip hys' (by rwa [List.length_map] at hlen)] at hemits
  refine ⟨g', hr.trans (congrArg (fun l => Except.ok (g', l)) ?_)⟩
  rw [Run.emits_snoc]
  show Run.emits (Playlist.answered _ _) _ _ ++ (Playlist.answered _ _ (Run.state (Playlist.answered _ _) _ _) _).2 = _
  rw [hemits, hstate]
  rfl

/-- Buttons that are transmitted give, frame by frame, the samples of their tones, which do not depend on the size of a
    frame, with zeros between them. The tones and the pauses last as long as was asked for, and up to a frame longer. The
    call behind the last frame leaves the array as it is, and the generator ready. -/
theorem signal_of_transmission :
    (∀ Duration ∈ [DurationPush, DurationPause],
      8 * Duration.toInt < framesOf FrameSize Duration * FrameSize.toInt ∧
        framesOf FrameSize Duration * FrameSize.toInt ≤ 8 * Duration.toInt + FrameSize.toInt) ∧
    ∃ (g' : DtmfGenerator) (outs : List (Cells Int16)),
      calls fuel g (.transmitNewDialButtonsArray dialButtonsArray length :: ys.map .dtmfGenerating ++
          [.dtmfGenerating y] ++ [.getReadyFlag]) =
        .ok (g', .returned 1 :: outs.map .out ++ [.out y] ++ [.returned 1]) ∧
      outs.flatten = (signal (framesOf FrameSize DurationPush * FrameSize.toInt.toNat)
        (framesOf FrameSize DurationPause * FrameSize.toInt.toNat) (dialButtonsArray.take (min 20 length.toNat))).map some := by
  obtain ⟨g', hr⟩ := calls_of_transmission hF hpush hpause hnew hfuel hlength harray hys hcalls
  refine ⟨List.forall_mem_cons.mpr ⟨framesOf_mul hF.1 hpush, List.forall_mem_singleton.mpr (framesOf_mul hF.1 hpause)⟩,
    g', _, hr, ?_⟩
  rw [← samples_schedule, List.map_flatMap, List.flatMap_def]

end Transmission

theorem signal_of_transmission_five : ∃ g, new ⟨0, 0, 0, 0, 0, [], 0, 0, 0, 0, 0, ⟨0, 0, 0, 0⟩⟩ 2 1 0 = .ok g ∧
    (∀ Duration ∈ [(1 : Int32), 0], 8 * Duration.toInt < framesOf 2 Duration * (2 : Int32).toInt ∧
      framesOf 2 Duration * (2 : Int32).toInt ≤ 8 * Duration.toInt + (2 : Int32).toInt) ∧
    ∃ (g' : DtmfGenerator) (outs : List (Cells Int16)),
      calls 65536 g (.transmitNewDialButtonsArray ['5'] 1 ::
          (List.replicate 6 (List.replicate 2 none)).map .dtmfGenerating ++
          [.dtmfGenerating (List.replicate 2 none)] ++ [.getReadyFlag]) =
        .ok (g', .returned 1 :: outs.map .out ++ [.out (List.replicate 2 none)] ++ [.returned 1]) ∧
      outs.flatten = (signal (framesOf 2 1 * (2 : Int32).toInt.toNat) (framesOf 2 0 * (2 : Int32).toInt.toNat)
        (['5'].take (min 20 (1 : UInt32).toNat))).map some := by
  obtain ⟨g, hg⟩ := exists_new ⟨0, 0, 0, 0, 0, [], 0, 0, 0, 0, 0, ⟨0, 0, 0, 0⟩⟩ 2 1 0 (by decide)
  exact ⟨g, hg, signal_of_transmission (by decide) (by decide) (by decide) hg (Nat.le_refl _) (by decide) (by decide)
    (by decide) (by decide)⟩

end DtmfGenerator
end Recd2
