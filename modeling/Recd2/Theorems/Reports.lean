import Recd2.Theorems.Buttons

/-! What is reported of verdicts that come in runs: a button once for each run of it, however blocks that lie across the end of a
    tone are judged. -/

namespace Recd2

/-- What is reported of verdicts behind two others. -/
def reportsBehind : Char → Char → List Char → List Char
  | _, _, [] => []
  | a, b, v :: verdicts => (if v ≠ ' ' ∧ b ≠ ' ' ∧ a = ' ' then [v] else []) ++ reportsBehind b v verdicts

/-- What is reported at a verdict, from the two in front of it on. -/
def reportAt (verdicts : List Char) (k : Nat) : Option Char :=
  if verdicts.getD (k + 2) ' ' ≠ ' ' ∧ verdicts.getD (k + 1) ' ' ≠ ' ' ∧ verdicts.getD k ' ' = ' ' then
    some (verdicts.getD (k + 2) ' ')
  else none

theorem reportAt_zero (a b v : Char) (verdicts : List Char) :
    reportAt (a :: b :: v :: verdicts) 0 = if v ≠ ' ' ∧ b ≠ ' ' ∧ a = ' ' then some v else none := rfl

theorem reportsBehind_eq (a b : Char) (verdicts : List Char) :
    reportsBehind a b verdicts = (List.range verdicts.length).filterMap (reportAt (a :: b :: verdicts)) := by
  induction verdicts generalizing a b with
  | nil => rfl
  | cons v verdicts ih =>
    have hrest : (List.range verdicts.length).filterMap (reportAt (b :: v :: verdicts)) =
        ((List.range verdicts.length).map Nat.succ).filterMap (reportAt (a :: b :: v :: verdicts)) := by
      rw [List.filterMap_map]
      rfl
    have hzero := reportAt_zero a b v verdicts
    rw [reportsBehind, ih, hrest, List.length_cons, List.range_succ_eq_map]
    split_ifs at hzero ⊢
    · rw [List.filterMap_cons_some hzero]
      rfl
    · rw [List.filterMap_cons_none hzero]
      rfl

theorem reported_eq (verdicts : List Char) : reported verdicts = reportsBehind ' ' ' ' verdicts :=
  (reportsBehind_eq ' ' ' ' verdicts).symm

section Runs
variable {button a b : Char} {n q : Nat} {mixed rest : List Char}

/-- A report takes a blank and two buttons, but for the blanks that are in front of the verdicts. -/
theorem three_mul_length_reportsBehind (a b : Char) (verdicts : List Char) : 3 * (reportsBehind a b verdicts).length ≤
    verdicts.length + if b = ' ' then 1 else if a = ' ' then 2 else 0 := by
  induction verdicts generalizing a b with
  | nil => exact Nat.zero_le _
  | cons v verdicts ih =>
    have hrest := ih b v
    rw [reportsBehind, List.length_append, List.length_cons]
    by_cases hb : b = ' '
    · rw [if_neg (fun h => h.2.1 hb), if_pos hb]
      rw [if_pos hb] at hrest
      rw [List.length_nil]
      split_ifs at hrest <;> omega
    · rw [if_neg hb] at hrest ⊢
      by_cases hreport : v ≠ ' ' ∧ b ≠ ' ' ∧ a = ' '
      · rw [if_pos hreport, if_pos hreport.2.2, List.length_singleton]
        rw [if_neg hreport.1] at hrest
        omega
      · rw [if_neg hreport, List.length_nil]
        split_ifs at hrest ⊢ <;> omega

theorem three_mul_length_reported (verdicts : List Char) : 3 * (reported verdicts).length ≤ verdicts.length + 1 := by
  have hle := three_mul_length_reportsBehind ' ' ' ' verdicts
  rwa [← reported_eq, if_pos rfl] at hle

/-- Behind a blank one nothing is reported at once. -/
theorem reportsBehind_blank (a : Char) (verdicts : List Char) : reportsBehind a ' ' verdicts = reportsBehind ' ' ' ' verdicts := by
  cases verdicts with
  | nil => rfl
  | cons v verdicts => rw [reportsBehind, reportsBehind, if_neg fun h => h.2.1 rfl, if_neg fun h => h.2.1 rfl]

theorem reportsBehind_blanks (a b : Char) (q : Nat) (rest : List Char) (hq : 0 < q) :
    reportsBehind a b (List.replicate q ' ' ++ rest) = reportsBehind ' ' ' ' rest := by
  induction q generalizing a b with
  | zero => exact absurd hq (Nat.lt_irrefl 0)
  | succ q ih =>
    rw [List.replicate_succ, List.cons_append, reportsBehind, if_neg fun h => h.1 rfl, List.nil_append]
    cases q with
    | zero => exact reportsBehind_blank b rest
    | succ q => exact ih b ' ' (Nat.succ_pos q)

theorem reportsBehind_replicate (q : Nat) : reportsBehind ' ' ' ' (List.replicate q ' ') = [] := by
  cases q with
  | zero => rfl
  | succ q =>
    rw [← List.append_nil (List.replicate _ _), reportsBehind_blanks _ _ _ _ (Nat.succ_pos q)]
    rfl

/-- Between two verdicts that are not blank and the next blank one nothing is reported. -/
theorem reportsBehind_tone (ha : a ≠ ' ') (hb : b ≠ ' ') (hbutton : button ≠ ' ') (hmixed : mixed.length ≤ 1) (hq : 0 < q) :
    reportsBehind a b (List.replicate n button ++ (mixed ++ (List.replicate q ' ' ++ rest))) = reportsBehind ' ' ' ' rest := by
  induction n generalizing a b with
  | zero =>
    match mixed, hmixed with
    | [], _ => exact reportsBehind_blanks a b q rest hq
    | [m], _ =>
      rw [List.replicate_zero, List.nil_append, List.cons_append, reportsBehind, if_neg fun h => ha h.2.2]
      exact reportsBehind_blanks b m q rest hq
  | succ n ih =>
    rw [List.replicate_succ, List.cons_append, reportsBehind, if_neg fun h => ha h.2.2]
    exact ih hb hbutton

/-- A run of a button is reported once, whatever one verdict in front of it and one behind it are. -/
theorem reportsBehind_button {front : List Char} (hbutton : button ≠ ' ') (hn : 2 ≤ n) (hfront : front.length ≤ 1)
    (hmixed : mixed.length ≤ 1) (hq : 0 < q) :
    reportsBehind ' ' ' ' (front ++ (List.replicate n button ++ (mixed ++ (List.replicate q ' ' ++ rest)))) =
      button :: reportsBehind ' ' ' ' rest := by
  obtain ⟨n, rfl⟩ : ∃ m, n = m + 2 := ⟨n - 2, by omega⟩
  have hblank : reportsBehind ' ' ' ' (List.replicate (n + 2) button ++ (mixed ++ (List.replicate q ' ' ++ rest))) =
      button :: reportsBehind ' ' ' ' rest := by
    rw [List.replicate_succ, List.cons_append, reportsBehind, if_neg fun h => h.2.1 rfl, List.replicate_succ,
      List.cons_append, List.nil_append, reportsBehind, if_pos ⟨hbutton, hbutton, rfl⟩, List.singleton_append,
      reportsBehind_tone hbutton hbutton hbutton hmixed hq]
  match front, hfront with
  | [], _ => exact hblank
  | [m], _ =>
    rw [List.singleton_append, reportsBehind, if_neg fun h => h.2.1 rfl, List.nil_append]
    by_cases hm : m = ' '
    · rw [hm]
      exact hblank
    · rw [List.replicate_succ, List.cons_append, reportsBehind, if_pos ⟨hbutton, hm, rfl⟩, List.singleton_append,
        reportsBehind_tone hm hbutton hbutton hmixed hq]

end Runs
end Recd2
