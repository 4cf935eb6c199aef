import Recd2.Dtmf

/-! What the DTMF plugin packs into a frame: the first block that is pending, as often as it goes into the frame. Where it
    does not go into the frame a whole number of times, the packing fails. -/

namespace Recd2
open Checked

/-- Sample `ii` of the frame that a block makes. -/
def SampleData.repeated (s : SampleData) (ii : Nat) : Int16 := s.sample (ii % s.size.toNat)

namespace Dtmf

section Loops
variable {E : Fault → Prop} {smpl : SampleData} {cells : Cells Int16} {ii : Nat}

/-- A block that has room behind other blocks of its size is put behind them. -/
theorem copyBlock_yields (hdvd : smpl.size.toNat ∣ ii) (hroom : ii + smpl.size.toNat ≤ cells.length)
    (h : cells.Begins ((List.range ii).map smpl.repeated)) :
    Yields E (fun s => s.1 = ii + smpl.size.toNat ∧ s.2.length = cells.length ∧
      s.2.Begins ((List.range s.1).map smpl.repeated)) (copyBlock smpl (ii, cells)) := by
  refine (@forLoop_yields _ E (ii, cells) _ (fun j s => s.1 = ii + j ∧ s.2.length = cells.length ∧
    s.2.Begins ((List.range s.1).map smpl.repeated)) smpl.size.toNat ⟨rfl, rfl, h⟩ ?_)
  rintro j ⟨i, dtmf⟩ hj ⟨rfl, hlen, hbegins⟩
  have hcount : ((List.range (ii + j)).map smpl.repeated).length = ii + j := by rw [List.length_map, List.length_range]
  have hlt : ii + j < dtmf.length := by
    have hlen : dtmf.length = cells.length := hlen
    omega
  have hsample : smpl.repeated (ii + j) = smpl.sample j := by
    rw [SampleData.repeated, Nat.add_mod, Nat.mod_eq_zero_of_dvd hdvd, Nat.zero_add, Nat.mod_mod, Nat.mod_eq_of_lt hj]
  refine (store_yields hlt (smpl.sample j)).bind ?_
  rintro _ rfl
  refine ⟨rfl, (List.length_set ..).trans hlen, ?_⟩
  have hsnoc := Cells.Begins.snoc hbegins (by rwa [hcount]) (smpl.sample j)
  rw [hcount] at hsnoc
  show Cells.Begins _ ((List.range (ii + j + 1)).map _)
  rwa [List.range_succ, List.map_append, List.map_singleton, hsample]

/-- Whatever the size of the block, it is in the frame when it was copied. -/
theorem copyBlock_within (hbounds : E .bounds) (hle : ii ≤ cells.length) :
    Yields E (fun s => s.1 = ii + smpl.size.toNat ∧ s.1 ≤ cells.length ∧ s.2.length = cells.length)
      (copyBlock smpl (ii, cells)) := by
  refine (@forLoop_yields _ E (ii, cells) _ (fun j s => s.1 = ii + j ∧ s.1 ≤ cells.length ∧ s.2.length = cells.length)
    smpl.size.toNat ⟨rfl, hle, rfl⟩ ?_)
  rintro j ⟨i, dtmf⟩ hj ⟨rfl, -, hlen⟩
  have hlen : dtmf.length = cells.length := hlen
  by_cases hlt : ii + j < dtmf.length
  · refine (store_yields hlt (smpl.sample j)).bind ?_
    rintro _ rfl
    exact ⟨rfl, by show ii + j + 1 ≤ _; omega, (List.length_set ..).trans hlen⟩
  · have hstore : dtmf.store (ii + j : Nat) (smpl.sample j) = .error .bounds := if_neg (by omega)
    show Yields _ _ (dtmf.store (ii + j : Nat) (smpl.sample j) >>= _)
    rw [hstore]
    exact hbounds

end Loops

section Fill
variable {E : Fault → Prop} {fuel : Nat} {s_frameSize : Int32} {smpl : SampleData} {blocks : QList}

theorem filling_iff {ii : Nat} : ((ii : Int) < s_frameSize.toInt && !(smpl :: blocks).isEmpty) = true ↔
    ii < s_frameSize.toInt.toNat := by
  rw [List.isEmpty_cons, Bool.not_false, Bool.and_true, decide_eq_true_iff]
  omega

/-- A frame that the first block goes into a whole number of times. -/
theorem fillFrame_yields (hdvd : smpl.size.toNat ∣ s_frameSize.toInt.toNat)
    (hfuel : s_frameSize.toInt.toNat ≤ fuel) :
    Yields E (fun s => s.2.Begins ((List.range s_frameSize.toInt.toNat).map smpl.repeated))
      (fillFrame fuel s_frameSize (smpl :: blocks) 0 (.replicate s_frameSize.toInt.toNat none)) := by
  have hends := @whileLoop_ends _ E (fun s : Nat × Cells Int16 => (s.1 : Int) < s_frameSize.toInt && !(smpl :: blocks).isEmpty)
    (0, .replicate s_frameSize.toInt.toNat none) fuel (copyBlock smpl)
    (fun s => smpl.size.toNat ∣ s.1 ∧ s.1 ≤ s_frameSize.toInt.toNat ∧ s.2.length = s_frameSize.toInt.toNat ∧
      s.2.Begins ((List.range s.1).map smpl.repeated))
    (fun s => s_frameSize.toInt.toNat - s.1) ?_ ?_ (by omega)
    ⟨Nat.dvd_zero _, Nat.zero_le _, List.length_replicate, Cells.Begins.nil _⟩
  · refine hends.mono ?_
    rintro ⟨ii, dtmf⟩ ⟨⟨-, hle, -, hbegins⟩, hcond⟩
    have hge : ¬ii < s_frameSize.toInt.toNat := mt filling_iff.mpr (Bool.eq_false_iff.mp hcond)
    obtain rfl : ii = s_frameSize.toInt.toNat := by
      have hle : ii ≤ s_frameSize.toInt.toNat := hle
      omega
    exact hbegins
  · rintro ⟨ii, dtmf⟩ - hcond
    exact Nat.sub_pos_of_lt (filling_iff.mp hcond)
  · rintro ⟨ii, dtmf⟩ ⟨hmul, -, hlen, hbegins⟩ hcond
    have hlt : ii < s_frameSize.toInt.toNat := filling_iff.mp hcond
    have hmul : smpl.size.toNat ∣ ii := hmul
    have hlen : dtmf.length = s_frameSize.toInt.toNat := hlen
    have hsize : 0 < smpl.size.toNat := Nat.pos_of_dvd_of_pos hdvd (by omega)
    have hroom : ii + smpl.size.toNat ≤ s_frameSize.toInt.toNat := by
      have hle := Nat.le_of_dvd (by omega) (Nat.dvd_sub hdvd hmul)
      omega
    refine (copyBlock_yields hmul (by omega) hbegins).mono ?_
    rintro ⟨i, dtmf'⟩ ⟨rfl, hlen', hbegins'⟩
    have hlen' : dtmf'.length = dtmf.length := hlen'
    refine ⟨⟨Nat.dvd_add hmul (Nat.dvd_refl _), hroom, hlen'.trans hlen, hbegins'⟩, ?_⟩
    show s_frameSize.toInt.toNat - (ii + smpl.size.toNat) < s_frameSize.toInt.toNat - ii
    omega

/-- The loop leaves a frame only where its end is the end of a block. -/
theorem dvd_of_fillFrame {cells : Cells Int16} {s : Nat × Cells Int16} (hlen : cells.length = s_frameSize.toInt.toNat)
    (h : fillFrame fuel s_frameSize (smpl :: blocks) 0 cells = .ok s) : smpl.size.toNat ∣ s_frameSize.toInt.toNat := by
  have hkeeps := @whileLoop_keeps _ (fun _ => True)
    (fun s : Nat × Cells Int16 => (s.1 : Int) < s_frameSize.toInt && !(smpl :: blocks).isEmpty)
    (0, cells) fuel (copyBlock smpl)
    (fun s => smpl.size.toNat ∣ s.1 ∧ s.1 ≤ s_frameSize.toInt.toNat ∧ s.2.length = s_frameSize.toInt.toNat) trivial ?_
    ⟨Nat.dvd_zero _, Nat.zero_le _, hlen⟩
  · obtain ⟨⟨hmul, hle, -⟩, hcond⟩ := hkeeps.ok h
    have hge : ¬s.1 < s_frameSize.toInt.toNat := mt filling_iff.mpr (Bool.eq_false_iff.mp hcond)
    have heq : s.1 = s_frameSize.toInt.toNat := by omega
    rwa [heq] at hmul
  · rintro ⟨ii, dtmf⟩ ⟨hmul, hle, hlen⟩ -
    have hle : ii ≤ s_frameSize.toInt.toNat := hle
    have hlen : dtmf.length = s_frameSize.toInt.toNat := hlen
    refine (copyBlock_within trivial (by omega)).mono ?_
    rintro ⟨i, dtmf'⟩ ⟨rfl, hle', hlen'⟩
    exact ⟨Nat.dvd_add hmul (Nat.dvd_refl _), hlen ▸ hle', hlen'.trans hlen⟩

/-- The end of a block comes to lie behind the frame. -/
theorem fillFrame_bounds (hsize : smpl.size.toNat ≠ 0) (hdvd : ¬smpl.size.toNat ∣ s_frameSize.toInt.toNat)
    (hfuel : s_frameSize.toInt.toNat ≤ fuel) {cells : Cells Int16} (hlen : cells.length = s_frameSize.toInt.toNat) :
    fillFrame fuel s_frameSize (smpl :: blocks) 0 cells = .error .bounds := by
  have hends := @whileLoop_ends _ (· = .bounds)
    (fun s : Nat × Cells Int16 => (s.1 : Int) < s_frameSize.toInt && !(smpl :: blocks).isEmpty)
    (0, cells) fuel (copyBlock smpl) (fun s => s.1 ≤ s_frameSize.toInt.toNat ∧ s.2.length = s_frameSize.toInt.toNat)
    (fun s => s_frameSize.toInt.toNat - s.1) ?_ ?_ (by omega) ⟨Nat.zero_le _, hlen⟩
  · cases hfill : fillFrame fuel s_frameSize (smpl :: blocks) 0 cells with
    | error e => exact congrArg Except.error (hends.fault hfill)
    | ok s => exact absurd (dvd_of_fillFrame hlen hfill) hdvd
  · rintro ⟨ii, dtmf⟩ - hcond
    exact Nat.sub_pos_of_lt (filling_iff.mp hcond)
  · rintro ⟨ii, dtmf⟩ ⟨-, hlen⟩ hcond
    have hlt : ii < s_frameSize.toInt.toNat := filling_iff.mp hcond
    have hlen : dtmf.length = s_frameSize.toInt.toNat := hlen
    refine (@copyBlock_within (· = .bounds) smpl dtmf ii rfl (by omega)).mono ?_
    rintro ⟨i, dtmf'⟩ ⟨rfl, hle', hlen'⟩
    refine ⟨⟨hlen ▸ hle', hlen'.trans hlen⟩, ?_⟩
    show s_frameSize.toInt.toNat - (ii + smpl.size.toNat) < s_frameSize.toInt.toNat - ii
    omega

/-- A block without samples fills nothing, in any number of rounds. -/
theorem fillFrame_endless (hpos : 0 < s_frameSize.toInt) (hsize : smpl.size.toNat = 0) (cells : Cells Int16) :
    fillFrame fuel s_frameSize (smpl :: blocks) 0 cells = .error .endless := by
  refine whileLoop_endless (I := fun s => s = (0, cells)) ?_ rfl
  rintro _ rfl
  refine ⟨filling_iff.mpr (by omega), ?_⟩
  show Yields _ _ (copyBlock smpl (0, cells))
  rw [copyBlock, hsize]
  rfl

end Fill

section Pack
variable {fuel : Nat} {s_frameSize : Int32} {smpl : SampleData} {blocks : QList}

theorem pack_nil (hpos : 0 < s_frameSize.toInt) : pack fuel s_frameSize [] = .ok [] := by
  rw [pack, Cells.alloc, if_neg (by omega)]
  show whileLoop _ _ _ _ >>= _ = _
  rw [whileLoop_of_not (by rfl)]
  rfl

/-- There is one round, with the first block, since the list is cleared in it. -/
theorem pack_cons (hpos : 0 < s_frameSize.toInt) : pack (fuel + 1) s_frameSize (smpl :: blocks) =
    (fillFrame (fuel + 1) s_frameSize (smpl :: blocks) 0 (.replicate s_frameSize.toInt.toNat none) >>= fun s =>
      ((List.range s_frameSize.toInt.toNat).mapM fun (ii : Nat) => s.2.load ii) >>= fun frame => .ok [frame]) := by
  rw [pack, Cells.alloc, if_neg (by omega)]
  show whileLoop _ _ _ _ >>= _ = _
  rw [whileLoop_succ (by rfl), packFrame, bind_assoc, bind_assoc]
  congr 1
  funext s
  rw [bind_assoc]
  congr 1
  funext frame
  show whileLoop _ _ _ _ >>= _ = _
  rw [whileLoop_of_not (by rfl)]
  rfl

theorem pack_of_dvd (hpos : 0 < s_frameSize.toInt) (hdvd : smpl.size.toNat ∣ s_frameSize.toInt.toNat)
    (hfuel : s_frameSize.toInt.toNat ≤ fuel + 1) :
    pack (fuel + 1) s_frameSize (smpl :: blocks) = .ok [(List.range s_frameSize.toInt.toNat).map smpl.repeated] := by
  have hyields : Yields (fun _ => False) _ (fillFrame (fuel + 1) s_frameSize (smpl :: blocks) 0 _) :=
    fillFrame_yields hdvd hfuel
  obtain ⟨s, hfill, hbegins⟩ := hyields.exists_ok
  have hload := @Cells.Begins.mapM_load _ s.2 ((List.range s_frameSize.toInt.toNat).map smpl.repeated) [] []
    (by rwa [List.nil_append, List.append_nil])
  rw [List.length_map, List.length_range] at hload
  simp only [List.length_nil, Nat.zero_add] at hload
  rw [pack_cons hpos, hfill]
  show (List.range _).mapM (fun (ii : Nat) => s.2.load ii) >>= (fun frame => Except.ok [frame]) = _
  rw [hload]
  rfl

theorem dvd_of_pack {frames : List (List Int16)} (hpos : 0 < s_frameSize.toInt)
    (h : pack fuel s_frameSize (smpl :: blocks) = .ok frames) : smpl.size.toNat ∣ s_frameSize.toInt.toNat := by
  cases fuel with
  | zero =>
    rw [pack, Cells.alloc, if_neg (by omega)] at h
    cases h
  | succ fuel =>
    rw [pack_cons hpos] at h
    cases hfill : fillFrame (fuel + 1) s_frameSize (smpl :: blocks) 0 (.replicate s_frameSize.toInt.toNat none) with
    | error e =>
      rw [hfill] at h
      cases h
    | ok s => exact dvd_of_fillFrame List.length_replicate hfill

/-- Where it fails, the packing does not end, or it writes behind the frame. -/
theorem pack_of_not_dvd (hpos : 0 < s_frameSize.toInt) (hdvd : ¬smpl.size.toNat ∣ s_frameSize.toInt.toNat)
    (hfuel : s_frameSize.toInt.toNat ≤ fuel + 1) :
    pack (fuel + 1) s_frameSize (smpl :: blocks) = .error (if smpl.size.toNat = 0 then .endless else .bounds) := by
  rw [pack_cons hpos]
  split_ifs with hsize
  · rw [fillFrame_endless hpos hsize]
    rfl
  · rw [fillFrame_bounds hsize hdvd hfuel List.length_replicate]
    rfl

/-- The packing ends, and writes into the frame only, exactly when nothing is pending or the frame has room for a whole
    number of copies of the first block. -/
theorem pack_ends_iff (hpos : 0 < s_frameSize.toInt) (dbl : QList) :
    (∃ fuel frames, pack fuel s_frameSize dbl = .ok frames) ↔
      ∀ smpl ∈ dbl.head?, smpl.size.toNat ∣ s_frameSize.toInt.toNat := by
  cases dbl with
  | nil => exact ⟨fun _ smpl h => (nomatch h), fun _ => ⟨0, _, pack_nil hpos⟩⟩
  | cons smpl blocks =>
    rw [List.head?_cons]
    constructor
    · rintro ⟨fuel, frames, h⟩ _ hsmpl
      cases hsmpl
      exact dvd_of_pack hpos h
    · intro h
      exact ⟨s_frameSize.toInt.toNat + 1, _, pack_of_dvd hpos (h smpl rfl) (by omega)⟩

/-- A frame of four samples, and blocks of two. -/
theorem pack_ends_iff_two : (∃ fuel frames, pack fuel 4 [⟨0, [1, 2], 2⟩, ⟨0, [3, 4], 2⟩] = .ok frames) ↔
    ∀ smpl ∈ [(⟨0, [1, 2], 2⟩ : SampleData), ⟨0, [3, 4], 2⟩].head?, smpl.size.toNat ∣ (4 : Int32).toInt.toNat :=
  pack_ends_iff (by decide) _

/-- Blocks of three samples: the second one ends behind the frame. -/
theorem pack_counterexample : ¬∀ (s_frameSize : Int32) (dbl : QList), 0 < s_frameSize.toInt →
    ∃ fuel frames, pack fuel s_frameSize dbl = .ok frames := by
  intro h
  obtain ⟨fuel, frames, hok⟩ := h 4 [⟨0, [1, 2, 3], 3⟩] (by decide)
  exact absurd (dvd_of_pack (by decide) hok) (by decide)

end Pack
end Dtmf
end Recd2
