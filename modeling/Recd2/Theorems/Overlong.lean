import Recd2.Theorems.Samples

/-! Lists with more blocks than there are slots. The blocks behind the slots do no harm as long as their signal bytes
    are zero and the array of slots has a place for each of them; a list that is longer than the array makes
    `record` leave it. -/

namespace Recd2.Recorder
variable {env : Env} {r : Recorder} {sd : QList} {i : Nat}

/-! ### One list -/

/-- The blocks from position `n` on have a zero signal byte. -/
def ZeroFrom (n : Nat) (sd : QList) : Prop := ∀ b ∈ sd.drop n, b.signal = 0

theorem recordFrom_append (env : Env) (i : Nat) (xs ys : QList) (r : Recorder) :
    recordFrom env i (xs ++ ys) r = (recordFrom env i xs r).bind (recordFrom env (i + xs.length) ys) := by
  induction xs generalizing i r with
  | nil => rfl
  | cons x xs ih =>
    rw [List.cons_append, recordFrom, recordFrom, Option.bind_assoc, List.length_cons, Nat.add_comm xs.length,
      ← Nat.add_assoc]
    exact congrArg _ (funext fun r' => ih (i + 1) r')

theorem recordBlock_behind (env : Env) (h : r.Good) (hi : r.maxChans ≤ i) (h128 : i < 128) {s : SampleData}
    (hs : s.signal = 0) : recordBlock env i s r = some r := by
  have hnone : r.wav? i = none := by
    cases hw : r.wav? i with
    | none => rfl
    | some w => exact absurd (h.ready.lt hw) (Nat.not_lt.mpr hi)
  have hnull : r.wavs[i]? = some none := by
    rw [wav?, Vector.getElem?_eq_getElem h128] at hnone
    rw [Vector.getElem?_eq_getElem h128]
    exact congrArg some hnone
  simp only [recordBlock, hnull, hs, if_true]

theorem recordFrom_behind (env : Env) (h : r.Good) (hi : r.maxChans ≤ i) (hlen : i + sd.length ≤ 128)
    (hs : ∀ b ∈ sd, b.signal = 0) : recordFrom env i sd r = some r := by
  induction sd generalizing i with
  | nil => rfl
  | cons s sd ih =>
    rw [List.length_cons] at hlen
    rw [recordFrom, recordBlock_behind env h hi (by omega) (hs s List.mem_cons_self)]
    exact ih (by omega) (by omega) fun b hb => hs b (List.mem_cons_of_mem s hb)

/-- The blocks behind the slots change nothing. -/
theorem record_take (env : Env) (h : r.Good) (hpos : 0 < r.maxChans) (hlen : sd.length ≤ 128)
    (hs : ZeroFrom r.maxChans sd) : record env sd r = record env (sd.take r.maxChans) r := by
  by_cases hle : sd.length ≤ r.maxChans
  · rw [List.take_of_length_le hle]
  have hpolled : Becomes env r (if r.sizeBased then pollHotSwap env r else r) r.view := by
    split
    · exact swaps_spec (pollSlot_swaps env) h r.maxChans
    · exact ⟨h, rfl, fun _ _ => rfl⟩
  have htake : (sd.take r.maxChans).length = r.maxChans := by rw [List.length_take]; omega
  obtain ⟨r', hrecord, hr'⟩ := recordFrom_spec (i := 0) env (sd.take r.maxChans) hpolled.good (by
    rw [htake, hpolled.maxChans, Nat.zero_add])
  have hrest : recordFrom env (0 + (sd.take r.maxChans).length) (sd.drop r.maxChans) r' = some r' := by
    refine recordFrom_behind env hr'.good ?_ ?_ hs
    · rw [hr'.maxChans, hpolled.maxChans, htake, Nat.zero_add]
    · rw [htake, List.length_drop]
      omega
  have hne : ¬sd.length ≤ 0 := by omega
  have hne' : ¬(sd.take r.maxChans).length ≤ 0 := by omega
  rw [record, record, if_neg hne, if_neg hne', hrecord]
  conv_lhs => rw [← List.take_append_drop r.maxChans sd]
  rw [recordFrom_append, hrecord]
  exact hrest

/-- A list that is longer than the array makes `record` leave it, unless it stops before. -/
theorem recordFrom_overlong (env : Env) (hi : i ≤ 128) (hlen : 128 < i + sd.length) : recordFrom env i sd r = none := by
  induction sd generalizing i r with
  | nil =>
    rw [List.length_nil] at hlen
    omega
  | cons s sd ih =>
    rw [List.length_cons] at hlen
    rw [recordFrom]
    by_cases hend : i = 128
    · have hout : r.wavs[i]? = none := by rw [hend, Vector.getElem?_eq_none (Nat.le_refl 128)]
      have hblock : recordBlock env i s r = none := by simp only [recordBlock, hout]
      rw [hblock]
      rfl
    · cases recordBlock env i s r with
      | none => rfl
      | some r' => exact ih (by omega) (by omega)

theorem record_overlong (env : Env) (r : Recorder) (hlen : 128 < sd.length) : record env sd r = none := by
  rw [record, if_neg (by omega)]
  exact recordFrom_overlong env (Nat.zero_le 128) (by omega)

/-! ### Runs -/

/-- The array has a place for each block, and those behind the slots have a zero signal byte. -/
structure Fits (n : Nat) (sd : QList) : Prop where
  length : sd.length ≤ 128
  zero : ZeroFrom n sd

theorem exec_take (env : Env) {lss : List QList} (h : r.Good) (hpos : 0 < r.maxChans)
    (hfits : ∀ sd ∈ lss, Fits r.maxChans sd) :
    Run.exec (step env) r (lss.map .record) = Run.exec (step env) r ((lss.map (·.take r.maxChans)).map .record) := by
  induction lss generalizing r with
  | nil => rfl
  | cons sd lss ih =>
    have hsd := hfits sd List.mem_cons_self
    have hfirst := record_take env h hpos hsd.length hsd.zero
    obtain ⟨r', hr', hbecomes⟩ := record_spec env h (List.length_take_le r.maxChans sd)
    have hrest := ih hbecomes.good (by rw [hbecomes.maxChans]; exact hpos) fun sd' hsd' => by
      rw [hbecomes.maxChans]
      exact hfits sd' (List.mem_cons_of_mem sd hsd')
    rw [hbecomes.maxChans] at hrest
    rw [List.map_cons, List.map_cons, List.map_cons, Run.exec_cons, Run.exec_cons, step, step, hfirst, hr',
      Option.bind_some, Option.bind_some]
    exact hrest

theorem ZeroFrom.of_le {n : Nat} (h : ZeroFrom n sd) (hi : n ≤ i) : ZeroFrom i sd := fun b hb =>
  h b ((List.drop_sublist_drop_left sd hi).subset hb)

theorem gained_of_zero {lss : List QList} (h : ∀ sd ∈ lss, ZeroFrom i sd) :
    Gate.gained false ((blocksAt lss i).map gateInput) = [] := by
  refine Gate.gained_of_none false fun x hx => ?_
  obtain ⟨b, hb, rfl⟩ := List.mem_map.mp hx
  obtain ⟨sd, hsd, hget⟩ := List.mem_filterMap.mp hb
  refine if_pos (h sd hsd b (List.mem_of_getElem? (i := 0) ?_))
  rw [List.getElem?_drop, Nat.add_zero]
  exact hget

theorem gained_take {n : Nat} {lss : List QList} (hfits : ∀ sd ∈ lss, Fits n sd) (i : Nat) :
    Gate.gained false ((blocksAt (lss.map (·.take n)) i).map gateInput) =
      Gate.gained false ((blocksAt lss i).map gateInput) := by
  by_cases hi : i < n
  · have hblocks : blocksAt (lss.map (·.take n)) i = blocksAt lss i := by
      rw [blocksAt, blocksAt, List.filterMap_map]
      exact List.filterMap_congr fun sd _ => List.getElem?_take_of_lt hi
    rw [hblocks]
  · -- Behind the slots, no block opens a gate.
    have hblocks : blocksAt (lss.map (·.take n)) i = [] := by
      rw [blocksAt, List.filterMap_map, List.filterMap_eq_nil_iff]
      exact fun sd _ => List.getElem?_eq_none (by rw [List.length_take]; omega)
    rw [hblocks, gained_of_zero fun sd hsd => (hfits sd hsd).zero.of_le (Nat.not_lt.mp hi)]
    rfl

/-- The slots hold what passes their gates, also where the lists have blocks behind the slots. -/
theorem data_fitting {env : Env} (henv : env.Opens) (cfg : RecorderConfig) {lss : List QList}
    (hfits : ∀ sd ∈ lss, Fits (init env cfg new).maxChans sd) :
    ∃ r, Run.exec (step env) (init env cfg new) (lss.map .record) = some r ∧
      ∀ i, r.disk.data i = Gate.gained false ((blocksAt lss i).map gateInput) := by
  have hpos : 0 < (init env cfg new).maxChans := by
    rw [(fresh_init env cfg).2]
    exact (initMaxChans_bounds _).1
  have hlen : ∀ sd ∈ lss.map (·.take (init env cfg new).maxChans), sd.length ≤ (init env cfg new).maxChans := by
    intro sd hsd
    obtain ⟨sd', -, rfl⟩ := List.mem_map.mp hsd
    exact List.length_take_le _ _
  obtain ⟨r, hrun, -, hdata⟩ := data_records henv cfg hlen
  exact ⟨r, by rw [exec_take env (good_init env cfg) hpos hfits, hrun], fun i => by rw [hdata, gained_take hfits]⟩

/-- The run comes to its end when the array has a place for each block. -/
theorem exec_fitting (env : Env) {lss : List QList} (h : r.Good) (hpos : 0 < r.maxChans)
    (hfits : ∀ sd ∈ lss, Fits r.maxChans sd) : (Run.exec (step env) r (lss.map .record)).isSome := by
  have hops : ∀ op ∈ (lss.map (·.take r.maxChans)).map Op.record, op.Fits r.maxChans := by
    intro op hop
    obtain ⟨sd, hsd, rfl⟩ := List.mem_map.mp hop
    obtain ⟨sd', -, rfl⟩ := List.mem_map.mp hsd
    intro sd'' hsd''
    rw [List.mem_singleton.mp hsd'']
    exact List.length_take_le _ _
  obtain ⟨r', hrun, -⟩ := exec_spec env h hops
  rw [exec_take env h hpos hfits, hrun]
  rfl

theorem exec_overlong (env : Env) (r : Recorder) {lss : List QList} (h : ∃ sd ∈ lss, 128 < sd.length) :
    Run.exec (step env) r (lss.map .record) = none := by
  obtain ⟨sd, hsd, hlen⟩ := h
  obtain ⟨before, after, rfl⟩ := List.append_of_mem hsd
  rw [List.map_append, List.map_cons, Run.exec_append]
  cases Run.exec (step env) r (before.map .record) with
  | none => rfl
  | some r' =>
    rw [Option.bind_some, Run.exec_cons, step, record_overlong env r' hlen]
    rfl

end Recd2.Recorder
