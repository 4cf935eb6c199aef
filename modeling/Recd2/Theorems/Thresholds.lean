import Mathlib.Data.List.Infix
import Mathlib.Data.Nat.ModEq
import Recd2.Lib.Decimal
import Recd2.Theorems.Records

/-! The thresholds of the hot swap. The digits of the text go through a static buffer that keeps the digits of the calls
    before behind them, and the product is cut to 32 bits. -/

namespace Recd2

/-! ### Texts of digits -/

namespace QString

theorem isSpace_of_isDigit {c : Char} (h : c.isDigit = true) : isSpace c = false := by
  obtain ⟨hlo, hhi⟩ := Decimal.toNat_of_isDigit h
  simp only [isSpace, Bool.or_eq_false_iff, Bool.and_eq_false_iff, decide_eq_false_iff_not, beq_eq_false_iff_ne]
  omega

section Digits
variable {ds : List Char} (hds : ∀ c ∈ ds, c.isDigit = true)
include hds

theorem trimmed_digits : trimmed ds = ds := by
  have hleft : ∀ cs : List Char, (∀ c ∈ cs, c.isDigit = true) → cs.dropWhile isSpace = cs := by
    rintro (_ | ⟨c, cs⟩) hcs
    · rfl
    · rw [List.dropWhile_cons, isSpace_of_isDigit (hcs c List.mem_cons_self), if_neg Bool.false_ne_true]
  rw [trimmed, hleft ds hds, hleft ds.reverse fun c hc => hds c (List.mem_reverse.mp hc), List.reverse_reverse]

theorem parse_digits (hne : ds ≠ []) : parse (String.ofList ds) = some (digitsValue ds : Int) := by
  have hparse : parseDigits ds = some (digitsValue ds) := if_pos ⟨hne, List.all_eq_true.mpr hds⟩
  rw [parse, String.toList_ofList, trimmed_digits hds]
  split
  · exact absurd (hds '-' List.mem_cons_self) (by decide)
  · exact absurd (hds '+' List.mem_cons_self) (by decide)
  · rw [hparse]
    rfl

theorem digitsValue_lt : digitsValue ds < 10 ^ ds.length := by
  induction ds using List.reverseRecOn with
  | nil => decide
  | append_singleton ds c ih =>
    have hrest := ih fun d hd => hds d (List.mem_append_left _ hd)
    obtain ⟨-, hhi⟩ := Decimal.toNat_of_isDigit (hds c (List.mem_append_right _ List.mem_cons_self))
    have hzero : '0'.toNat = 48 := rfl
    rw [digitsValue, List.foldl_append, ← digitsValue, List.foldl_cons, List.foldl_nil, List.length_append,
      List.length_singleton, Nat.pow_succ]
    omega

end Digits

/-- Digits are converted while the type holds their value. -/
theorem toIntegral_digits {ds : List Char} (hds : ∀ c ∈ ds, c.isDigit = true) (hne : ds ≠ []) (bits : Nat) :
    toIntegral bits (String.ofList ds) =
      if digitsValue ds < 2 ^ (bits - 1) then some (digitsValue ds : Int) else none := by
  have hcast : ((digitsValue ds : Int) < 2 ^ (bits - 1)) ↔ digitsValue ds < 2 ^ (bits - 1) := by
    exact_mod_cast Iff.rfl
  have hlow : -2 ^ (bits - 1) ≤ (digitsValue ds : Int) := by
    have : (0 : Int) < 2 ^ (bits - 1) := Int.pow_pos (by decide)
    omega
  rw [toIntegral, parse_digits hds hne, Option.filter_some]
  simp only [hlow, hcast, true_and, decide_eq_true_eq]

theorem toLower_of_isDigit {c : Char} (h : c.isDigit = true) : c.toLower = c := by
  obtain ⟨-, hhi⟩ := Decimal.toNat_of_isDigit h
  refine dif_neg ?_
  rintro ⟨hA, -⟩
  have hlo : 65 ≤ c.toNat := hA
  omega

theorem containsCI_iff (s sub : String) :
    containsCI s sub = true ↔ sub.toList.map Char.toLower <:+: s.toList.map Char.toLower := by
  rw [containsCI, List.any_eq_true, List.infix_iff_prefix_suffix]
  simp only [List.mem_tails, List.isPrefixOf_iff_prefix]
  exact exists_congr fun t => and_comm

theorem containsCI_singleton_iff (s : String) (c : Char) :
    containsCI s (String.singleton c) = true ↔ c.toLower ∈ s.toList.map Char.toLower := by
  rw [containsCI_iff, String.toList_singleton, List.map_singleton, List.singleton_infix_iff]

/-- The test for two letters adds nothing to the test for the first of them. -/
theorem containsCI_or (s : String) (c d : Char) :
    (containsCI s (String.ofList [c, d]) || containsCI s (String.singleton c)) = containsCI s (String.singleton c) := by
  have himp : containsCI s (String.ofList [c, d]) = true → containsCI s (String.singleton c) = true := fun h => by
    rw [containsCI_iff, String.toList_ofList] at h
    exact (containsCI_singleton_iff s c).mpr (h.subset List.mem_cons_self)
  rw [Bool.or_eq_right_iff_imp]
  exact himp

end QString

/-! ### The static buffer -/

namespace Recorder

/-- The buffer holds the digits at its front, and null characters behind them. -/
structure DigitBuffer (buf ds : List Char) : Prop where
  digits : ∀ c ∈ ds, c.isDigit = true
  length : ds.length ≤ 16
  eq : buf = ds ++ List.replicate (16 - ds.length) '\x00'

/-- The digits of a text, at most 16, in front of what is left of those in the buffer. -/
def putDigits (left : List Char) (text : String) : List Char :=
  let digits := (text.toList.takeWhile Char.isDigit).take 16
  digits ++ left.drop digits.length

/-- The digits that the calls leave in the buffer. -/
def digitsLeft (texts : List String) : List Char := texts.foldl putDigits []

section Buffer
variable {buf ds : List Char}

theorem DigitBuffer.isDigit (h : DigitBuffer buf ds) (text : String) :
    DigitBuffer (isDigit buf text) (putDigits ds text) := by
  obtain ⟨hds, hlen, rfl⟩ := h
  have hlead : ∀ c ∈ (text.toList.takeWhile Char.isDigit).take 16, c.isDigit = true := fun c hc =>
    List.all_eq_true.mp List.all_takeWhile c (List.mem_of_mem_take hc)
  have hmax : ((text.toList.takeWhile Char.isDigit).take 16).length ≤ 16 := List.length_take_le _ _
  rw [Recorder.isDigit, putDigits]
  generalize (text.toList.takeWhile Char.isDigit).take 16 = lead at hlead hmax
  refine ⟨fun c hc => ?_, ?_, ?_⟩
  · rcases List.mem_append.mp hc with hc | hc
    · exact hlead c hc
    · exact hds c (List.mem_of_mem_drop hc)
  · rw [List.length_append, List.length_drop]
    omega
  · rw [List.drop_append, List.drop_replicate, List.length_append, List.length_drop, List.append_assoc]
    congr 3
    omega

theorem digitBuffer_replicate : DigitBuffer (List.replicate 16 '\x00') [] :=
  ⟨fun _ hc => absurd hc List.not_mem_nil, Nat.zero_le 16, rfl⟩

theorem digitBuffer_foldl (texts : List String) (h : DigitBuffer buf ds) :
    DigitBuffer (texts.foldl Recorder.isDigit buf) (texts.foldl putDigits ds) := by
  induction texts generalizing buf ds with
  | nil => exact h
  | cons text texts ih => exact ih (h.isDigit text)

/-- The buffer is terminated while it has room behind the digits. -/
theorem DigitBuffer.null_mem_iff (h : DigitBuffer buf ds) : '\x00' ∈ buf ↔ ds.length < 16 := by
  have hnot : '\x00' ∉ ds := fun hmem => Bool.false_ne_true (h.digits _ hmem)
  rw [h.eq, List.mem_append, List.mem_replicate]
  constructor
  · rintro (hmem | ⟨hroom, -⟩)
    · exact absurd hmem hnot
    · omega
  · intro hlen
    exact Or.inr ⟨by omega, rfl⟩

theorem DigitBuffer.digitText (h : DigitBuffer buf ds) : digitText buf = String.ofList ds := by
  have hds : ∀ c ∈ ds, (c != '\x00') = true := fun c hc => by
    rw [bne_iff_ne]
    rintro rfl
    exact Bool.false_ne_true (h.digits _ hc)
  have hnull : ∀ n, (List.replicate n '\x00').takeWhile (· != '\x00') = [] := by
    rintro (_ | n) <;> rfl
  rw [Recorder.digitText, h.eq, List.takeWhile_append_of_pos hds, hnull, List.append_nil]

end Buffer

/-! ### The texts of the thresholds -/

/-- The factor of a unit, in any letter case. -/
def unitFactor (unit : List Char) : Option Nat :=
  let unit := unit.map Char.toLower
  if unit = ['m'] ∨ unit = ['m', 'b'] then some 1000000
  else if unit = ['g'] ∨ unit = ['g', 'b'] then some 1000000000
  else none

/-- The digits with those that earlier texts leave behind them. -/
def digitsRead (texts : List String) (ds : List Char) : List Char := ds ++ (digitsLeft texts).drop ds.length

section Read
variable {buf ds unit : List Char} {texts : List String} (hds : ∀ c ∈ ds, c.isDigit = true)
  (hunit : ∀ c ∈ unit.head?, c.isDigit = false)
include hds hunit

theorem putDigits_digits (left : List Char) :
    putDigits left (String.ofList (ds ++ unit)) = ds.take 16 ++ left.drop (ds.take 16).length := by
  have hlead : (ds ++ unit).takeWhile Char.isDigit = ds := by
    rw [List.takeWhile_append_of_pos hds]
    cases unit with
    | nil => exact List.append_nil ds
    | cons c unit => rw [List.takeWhile_cons, hunit c rfl, if_neg Bool.false_ne_true, List.append_nil]
  rw [putDigits, String.toList_ofList, hlead]

theorem isDigit_read (hbuf : DigitBuffer buf (digitsLeft texts)) (hread : (digitsRead texts ds).length < 16) :
    DigitBuffer (isDigit buf (String.ofList (ds ++ unit))) (digitsRead texts ds) := by
  have hput := hbuf.isDigit (String.ofList (ds ++ unit))
  have hlen : ds.length ≤ 16 := (List.length_append ▸ Nat.le_add_right ds.length _ : _ ≤ _).trans hread.le
  rwa [putDigits_digits hds hunit, List.take_of_length_le hlen] at hput

/-- The buffer is terminated behind the digits exactly when those read are fewer than 16. -/
theorem null_mem_isDigit_iff (hbuf : DigitBuffer buf (digitsLeft texts)) :
    '\x00' ∈ isDigit buf (String.ofList (ds ++ unit)) ↔ (digitsRead texts ds).length < 16 := by
  have hput := hbuf.isDigit (String.ofList (ds ++ unit))
  rw [hput.null_mem_iff, putDigits_digits hds hunit, digitsRead]
  simp only [List.length_append, List.length_drop, List.length_take]
  omega

end Read

/-! ### The size -/

theorem factor_cases {unit : List Char} {factor : Nat} (h : unitFactor unit = some factor) :
    (∀ c ∈ unit.head?, c.isDigit = false) ∧
      ((factor = 1000000 ∧ 'm' ∈ unit.map Char.toLower) ∨
        (factor = 1000000000 ∧ 'm' ∉ unit.map Char.toLower ∧ 'g' ∈ unit.map Char.toLower)) := by
  have hhead : ∀ c u, unit.map Char.toLower = c :: u → c.isDigit = false → ∀ d ∈ unit.head?, d.isDigit = false := by
    rintro c u hcu hc d hd
    obtain ⟨unit, rfl⟩ : ∃ u, unit = d :: u := by
      cases unit with
      | nil => exact absurd hd (by simp)
      | cons e u => exact ⟨u, by simpa using hd⟩
    rw [List.map_cons, List.cons.injEq] at hcu
    by_contra hdigit
    rw [Bool.not_eq_false] at hdigit
    rw [QString.toLower_of_isDigit hdigit] at hcu
    exact Bool.false_ne_true (hc.symm.trans (hcu.1 ▸ hdigit))
  simp only [unitFactor] at h
  split_ifs at h with hm hg
  · obtain rfl := Option.some_inj.mp h
    rcases hm with hm | hm
    · exact ⟨hhead _ _ hm rfl, Or.inl ⟨rfl, by rw [hm]; decide⟩⟩
    · exact ⟨hhead _ _ hm rfl, Or.inl ⟨rfl, by rw [hm]; decide⟩⟩
  · obtain rfl := Option.some_inj.mp h
    rcases hg with hg | hg
    · exact ⟨hhead _ _ hg rfl, Or.inr ⟨rfl, by rw [hg]; decide, by rw [hg]; decide⟩⟩
    · exact ⟨hhead _ _ hg rfl, Or.inr ⟨rfl, by rw [hg]; decide, by rw [hg]; decide⟩⟩

/-- The threshold is read from a terminated buffer, and is the exact product. -/
structure SizeParsed (r : Recorder) (ds : List Char) (factor : Nat) : Prop where
  terminated : '\x00' ∈ r.digit
  size : r.maxFileSize.toNat = QString.digitsValue ds * factor

/-- Fewer than 16 digits are read, the product has 32 bits, and digits left behind do not change it in these. -/
structure SizeFits (texts : List String) (ds : List Char) (factor : Nat) : Prop where
  read : (digitsRead texts ds).length < 16
  product : QString.digitsValue ds * factor < 2 ^ 32
  left : QString.digitsValue (digitsRead texts ds) * factor ≡ QString.digitsValue ds * factor [MOD 2 ^ 32]

theorem digit_initMaxSize (r : Recorder) {maxSize : Attrib} (h : maxSize.type1 ≠ "") :
    (initMaxSize maxSize r).digit = isDigit r.digit maxSize.type2 := by rw [initMaxSize, if_pos h]

theorem digit_initTimer (r : Recorder) {interval : Attrib} (h : interval.type1 ≠ "") :
    (initTimer interval r).digit = isDigit r.digit interval.type2 := by rw [initTimer, if_pos h]

/-- The unit that `initMaxSize` looks for. -/
def maxSizeModifier (text : String) : UInt64 :=
  if QString.containsCI text "MB" || QString.containsCI text "M" then 1000000
  else if QString.containsCI text "GB" || QString.containsCI text "G" then 1000000000
  else 1

section Size
variable {r : Recorder} {ds unit : List Char} {texts : List String} {factor : Nat}
  (hds : ∀ c ∈ ds, c.isDigit = true) (hunit : unitFactor unit = some factor)
include hds

/-- The digits in front of the unit contain no letter. -/
theorem containsCI_unit (unit : List Char) {c : Char} (d : Char) (hc : c.toLower.isDigit = false) :
    (QString.containsCI (String.ofList (ds ++ unit)) (String.ofList [c, d]) ||
        QString.containsCI (String.ofList (ds ++ unit)) (String.singleton c)) = true ↔
      c.toLower ∈ unit.map Char.toLower := by
  rw [QString.containsCI_or, QString.containsCI_singleton_iff, String.toList_ofList, List.map_append, List.mem_append]
  refine or_iff_right ?_
  intro hmem
  obtain ⟨e, he, hlow⟩ := List.mem_map.mp hmem
  rw [QString.toLower_of_isDigit (hds e he)] at hlow
  exact Bool.false_ne_true (hc.symm.trans (hlow ▸ hds e he))

include hunit

theorem toNat_maxSizeModifier : (maxSizeModifier (String.ofList (ds ++ unit))).toNat = factor := by
  have hm : (QString.containsCI (String.ofList (ds ++ unit)) "MB" ||
      QString.containsCI (String.ofList (ds ++ unit)) "M") = true ↔ 'm' ∈ unit.map Char.toLower :=
    containsCI_unit hds unit 'B' rfl
  have hg : (QString.containsCI (String.ofList (ds ++ unit)) "GB" ||
      QString.containsCI (String.ofList (ds ++ unit)) "G") = true ↔ 'g' ∈ unit.map Char.toLower :=
    containsCI_unit hds unit 'B' rfl
  rcases (factor_cases hunit).2 with ⟨rfl, hmem⟩ | ⟨rfl, hnot, hmem⟩
  · rw [maxSizeModifier, if_pos (hm.mpr hmem)]
    rfl
  · rw [maxSizeModifier, if_neg (hm.not.mpr hnot), if_pos (hg.mpr hmem)]
    rfl

theorem toNat_initMaxSize (hne : ds ≠ []) (hbuf : DigitBuffer r.digit (digitsLeft texts))
    (hread : (digitsRead texts ds).length < 16) :
    (initMaxSize ⟨"maxSize", String.ofList (ds ++ unit)⟩ r).maxFileSize.toNat =
      QString.digitsValue (digitsRead texts ds) * factor % 2 ^ 32 := by
  have hafter := isDigit_read hds (factor_cases hunit).1 hbuf hread
  have hlt : QString.digitsValue (digitsRead texts ds) < 2 ^ (64 - 1) :=
    ((QString.digitsValue_lt hafter.digits).trans (Nat.pow_lt_pow_right (by decide) hread)).trans (by decide)
  have hlong : QString.toLong (digitText (isDigit r.digit (String.ofList (ds ++ unit)))) =
      some (Int64.ofInt (QString.digitsValue (digitsRead texts ds))) := by
    rw [hafter.digitText, QString.toLong, QString.toIntegral_digits hafter.digits (by simp [digitsRead, hne]), if_pos hlt]
    rfl
  have hsize : (initMaxSize ⟨"maxSize", String.ofList (ds ++ unit)⟩ r).maxFileSize =
      ((Int64.ofInt (QString.digitsValue (digitsRead texts ds))).toUInt64 *
        maxSizeModifier (String.ofList (ds ++ unit))).toUInt32 := by
    rw [initMaxSize, if_pos (by simp)]
    simp only [hlong]
    rfl
  rw [hsize, UInt64.toNat_toUInt32, UInt64.toNat_mul, toNat_maxSizeModifier hds hunit, Int64.ofInt_eq_ofNat,
    Int64.toUInt64_ofNat', UInt64.toNat_ofNat', Nat.mod_eq_of_lt (hlt.trans (by decide))]
  omega

theorem sizeParsed_iff (hne : ds ≠ []) (hbuf : DigitBuffer r.digit (digitsLeft texts)) :
    SizeParsed (initMaxSize ⟨"maxSize", String.ofList (ds ++ unit)⟩ r) ds factor ↔ SizeFits texts ds factor := by
  have hnull := null_mem_isDigit_iff hds (factor_cases hunit).1 hbuf
  constructor
  · rintro ⟨hterm, hsize⟩
    rw [digit_initMaxSize r (by simp), hnull] at hterm
    have hlt : QString.digitsValue ds * factor < 2 ^ 32 := hsize ▸ UInt32.toNat_lt _
    rw [toNat_initMaxSize hds hunit hne hbuf hterm] at hsize
    exact ⟨hterm, hlt, hsize.trans (Nat.mod_eq_of_lt hlt).symm⟩
  · rintro ⟨hread, hlt, hleft⟩
    refine ⟨?_, ?_⟩
    · rwa [digit_initMaxSize r (by simp), hnull]
    · rw [toNat_initMaxSize hds hunit hne hbuf hread]
      exact Eq.trans hleft (Nat.mod_eq_of_lt hlt)

end Size

/-! ### The interval -/

/-- The interval is read from a terminated buffer, and is the exact number of milliseconds. -/
structure IntervalParsed (r : Recorder) (ds : List Char) : Prop where
  terminated : '\x00' ∈ r.digit
  interval : ∃ t, r.hotswap = some t ∧ t.toInt = 60000 * QString.digitsValue ds

/-- Fewer than 16 digits are read, the interval is an `int`, and digits left behind do not change it: the number read is
    an `int` that gives the same interval, or it is none and the interval of one minute takes its place. -/
structure IntervalFits (texts : List String) (ds : List Char) : Prop where
  read : (digitsRead texts ds).length < 16
  product : 60000 * QString.digitsValue ds < 2 ^ 31
  left : if QString.digitsValue (digitsRead texts ds) < 2 ^ 31
    then 60000 * QString.digitsValue (digitsRead texts ds) ≡ 60000 * QString.digitsValue ds [MOD 2 ^ 32]
    else QString.digitsValue ds = 1

/-- The arithmetic of `initTimer` for a number that is an `int`. -/
theorem toInt_interval {v : Nat} (h : v < 2 ^ 31) :
    (60000 * (Int32.ofInt v).toInt64.toUInt64).toUInt32.toInt32.toInt = ((60000 * v : Nat) : Int).bmod (2 ^ 32) := by
  have hv : ((Int32.ofInt v).toInt64.toUInt64).toNat = v := by
    rw [Int32.ofInt_eq_ofNat, Int32.toInt64_ofNat' (by rw [Int32.toInt_maxValue]; omega), Int64.toUInt64_ofNat',
      UInt64.toNat_ofNat', Nat.mod_eq_of_lt (by omega)]
  have hfactor : (60000 : UInt64).toNat = 60000 := rfl
  have hmod : (60000 * (Int32.ofInt v).toInt64.toUInt64).toUInt32.toNat = 60000 * v % 2 ^ 32 := by
    rw [UInt64.toNat_toUInt32, UInt64.toNat_mul, hv, hfactor]
    omega
  have hint : ∀ n : UInt32, n.toInt32.toInt = (n.toNat : Int).bmod (2 ^ 32) := fun n => BitVec.toInt_eq_toNat_bmod _
  rw [hint, hmod, Int.natCast_mod]
  exact Int.emod_bmod _ _

theorem bmod_eq_iff (x y : Nat) : (x : Int).bmod (2 ^ 32) = y ↔ y < 2 ^ 31 ∧ x ≡ y [MOD 2 ^ 32] := by
  rw [Int.bmod_def, Nat.ModEq]
  omega

section Interval
variable {r : Recorder} {ds : List Char} {texts : List String} (hds : ∀ c ∈ ds, c.isDigit = true)
include hds

theorem hotswap_initTimer (hne : ds ≠ []) (hbuf : DigitBuffer r.digit (digitsLeft texts))
    (hread : (digitsRead texts ds).length < 16) :
    ∃ t, (initTimer ⟨"interval", String.ofList ds⟩ r).hotswap = some t ∧ t.toInt =
      if QString.digitsValue (digitsRead texts ds) < 2 ^ 31
      then ((60000 * QString.digitsValue (digitsRead texts ds) : Nat) : Int).bmod (2 ^ 32) else 60000 := by
  have hafter := @isDigit_read r.digit ds [] texts hds (by simp) hbuf hread
  rw [List.append_nil] at hafter
  have hint := QString.toIntegral_digits hafter.digits (by simp [digitsRead, hne]) 32
  rw [initTimer, if_pos (by simp)]
  refine ⟨_, rfl, ?_⟩
  rw [hafter.digitText, QString.toInt, hint]
  by_cases hlt : QString.digitsValue (digitsRead texts ds) < 2 ^ 31
  · rw [if_pos hlt, if_pos hlt, Option.map_some, Option.getD_some]
    exact toInt_interval hlt
  · rw [if_neg hlt, if_neg hlt]
    rfl

theorem intervalParsed_iff (hne : ds ≠ []) (hbuf : DigitBuffer r.digit (digitsLeft texts)) :
    IntervalParsed (initTimer ⟨"interval", String.ofList ds⟩ r) ds ↔ IntervalFits texts ds := by
  have hnull := @null_mem_isDigit_iff r.digit ds [] texts hds (by simp) hbuf
  rw [List.append_nil] at hnull
  have hterm : '\x00' ∈ (initTimer ⟨"interval", String.ofList ds⟩ r).digit ↔ (digitsRead texts ds).length < 16 := by
    rw [digit_initTimer r (by simp), hnull]
  have hvalue : (digitsRead texts ds).length < 16 →
      ((∃ t, (initTimer ⟨"interval", String.ofList ds⟩ r).hotswap = some t ∧ t.toInt = 60000 * QString.digitsValue ds) ↔
        60000 * QString.digitsValue ds < 2 ^ 31 ∧ if QString.digitsValue (digitsRead texts ds) < 2 ^ 31
          then 60000 * QString.digitsValue (digitsRead texts ds) ≡ 60000 * QString.digitsValue ds [MOD 2 ^ 32]
          else QString.digitsValue ds = 1) := fun hread => by
    obtain ⟨t, ht, hint⟩ := hotswap_initTimer hds hne hbuf hread
    simp only [ht, Option.some_inj, exists_eq_left', hint]
    split_ifs with hlt
    · exact_mod_cast bmod_eq_iff _ _
    · omega
  constructor
  · rintro ⟨hnull, hinterval⟩
    have hread := hterm.mp hnull
    obtain ⟨hproduct, hleft⟩ := (hvalue hread).mp hinterval
    exact ⟨hread, hproduct, hleft⟩
  · rintro ⟨hread, hproduct, hleft⟩
    exact ⟨hterm.mpr hread, (hvalue hread).mpr ⟨hproduct, hleft⟩⟩

end Interval

/-! ### `Recorder::init` -/

/-- The `HotSwap` element is there and asks for files of a size. -/
def SizeBased (cfg : RecorderConfig) : Prop :=
  let hotSwap := cfg.getAttribPairFromTag "HotSwap" "timeBased"
  hotSwap.type1 ≠ "" ∧ ¬(hotSwap.type2 = "enabled" ∨ hotSwap.type2 = "true")

/-- The `HotSwap` element is there and asks for files of a duration. -/
def TimeBased (cfg : RecorderConfig) : Prop :=
  let hotSwap := cfg.getAttribPairFromTag "HotSwap" "timeBased"
  hotSwap.type1 ≠ "" ∧ (hotSwap.type2 = "enabled" ∨ hotSwap.type2 = "true")

/-- `init` reaches the settings of the swap with the buffer as it found it. -/
theorem init_initHotSwap (env : Env) (cfg : RecorderConfig) (r : Recorder) :
    ∃ r', r'.digit = r.digit ∧ init env cfg r = initHotSwap cfg r' := by
  refine ⟨_, ?_, rfl⟩
  have hwavs : ∀ (dir : Attrib) (s : Recorder) (n : Nat), ((List.range n).foldl (initWav env dir) s).digit = s.digit :=
    fun dir s n => Run.foldl_range (P := fun _ (t : Recorder) => t.digit = s.digit) rfl fun _ _ _ ht => ht
  have hslots : ∀ (p : WavParams) (s : Recorder) (n : Nat), ((List.range n).foldl (setupSlot p) s).digit = s.digit :=
    fun p s n => Run.foldl_range (P := fun _ (t : Recorder) => t.digit = s.digit) rfl fun _ _ _ ht => ht
  exact (hslots _ _ _).trans (hwavs _ _ _)

theorem init_sizeBased (env : Env) {cfg : RecorderConfig} (h : SizeBased cfg) (r : Recorder) :
    ∃ r', r'.digit = r.digit ∧ init env cfg r = initMaxSize (cfg.getAttribPairFromTag "HotSwap" "maxSize") r' := by
  obtain ⟨r', hdigit, hinit⟩ := init_initHotSwap env cfg r
  refine ⟨r', hdigit, hinit.trans ?_⟩
  rw [initHotSwap, if_pos h.1, if_neg h.2]

theorem init_timeBased (env : Env) {cfg : RecorderConfig} (h : TimeBased cfg) (r : Recorder) :
    ∃ r', r'.digit = r.digit ∧ init env cfg r = initTimer (cfg.getAttribPairFromTag "HotSwap" "interval") r' := by
  obtain ⟨r', hdigit, hinit⟩ := init_initHotSwap env cfg r
  refine ⟨r', hdigit, hinit.trans ?_⟩
  rw [initHotSwap, if_pos h.1, if_pos h.2]

section Init
variable (env : Env) {cfg : RecorderConfig} {r : Recorder} {texts : List String} {ds : List Char}
  (hdigit : r.digit = texts.foldl isDigit (List.replicate 16 '\x00'))
  (hds : ∀ c ∈ ds, c.isDigit = true) (hne : ds ≠ [])
include hdigit hds hne

theorem init_sizeParsed_iff (h : SizeBased cfg) {unit : List Char} {factor : Nat} (hunit : unitFactor unit = some factor)
    (hsize : cfg.getAttribPairFromTag "HotSwap" "maxSize" = ⟨"maxSize", String.ofList (ds ++ unit)⟩) :
    SizeParsed (init env cfg r) ds factor ↔ SizeFits texts ds factor := by
  obtain ⟨r', hkept, hinit⟩ := init_sizeBased env h r
  rw [hinit, hsize]
  refine sizeParsed_iff hds hunit hne ?_
  rw [hkept, hdigit]
  exact digitBuffer_foldl texts digitBuffer_replicate

theorem init_intervalParsed_iff (h : TimeBased cfg)
    (hinterval : cfg.getAttribPairFromTag "HotSwap" "interval" = ⟨"interval", String.ofList ds⟩) :
    IntervalParsed (init env cfg r) ds ↔ IntervalFits texts ds := by
  obtain ⟨r', hkept, hinit⟩ := init_timeBased env h r
  rw [hinit, hinterval]
  refine intervalParsed_iff hds hne ?_
  rw [hkept, hdigit]
  exact digitBuffer_foldl texts digitBuffer_replicate

end Init

/-- For any texts that `is_digit` was called with before, and any digits: the size is exact when it fits, and so is the
    interval, and only then. -/
theorem thresholds_exact_iff (env : Env) (cfg : RecorderConfig) (r : Recorder) (texts : List String)
    (hdigit : r.digit = texts.foldl isDigit (List.replicate 16 '\x00')) (ds : List Char)
    (hds : ∀ c ∈ ds, c.isDigit = true) (hne : ds ≠ []) :
    (∀ unit factor, SizeBased cfg → unitFactor unit = some factor →
      cfg.getAttribPairFromTag "HotSwap" "maxSize" = ⟨"maxSize", String.ofList (ds ++ unit)⟩ →
      (SizeParsed (init env cfg r) ds factor ↔ SizeFits texts ds factor)) ∧
    (TimeBased cfg → cfg.getAttribPairFromTag "HotSwap" "interval" = ⟨"interval", String.ofList ds⟩ →
      (IntervalParsed (init env cfg r) ds ↔ IntervalFits texts ds)) :=
  ⟨fun _ _ h hunit hsize => init_sizeParsed_iff env hdigit hds hne h hunit hsize,
    fun h hinterval => init_intervalParsed_iff env hdigit hds hne h hinterval⟩

/-- A configuration with two attributes for the hot swap. -/
def swapConfig (timeBased attrib text : String) : RecorderConfig :=
  ⟨fun tag => if tag = "HotSwap" then [⟨"timeBased", timeBased⟩, ⟨attrib, text⟩] else [], ""⟩

/-- Behind the text "7" in the digit buffer, which is shorter, and behind "2048", of which a digit is left. -/
theorem thresholds_exact_iff_shipped :
    let behind := fun texts => { new with digit := texts.foldl isDigit (List.replicate 16 '\x00') }
    SizeParsed (init calm (swapConfig "disabled" "maxSize" "30MB") (behind ["7"])) ['3', '0'] 1000000 ∧
      ¬SizeParsed (init calm (swapConfig "disabled" "maxSize" "30MB") (behind ["2048"])) ['3', '0'] 1000000 ∧
      IntervalParsed (init calm (swapConfig "enabled" "interval" "30") (behind ["7"])) ['3', '0'] ∧
      ¬IntervalParsed (init calm (swapConfig "enabled" "interval" "30") (behind ["2048"])) ['3', '0'] := by
  intro behind
  have hdigits : ∀ c ∈ ['3', '0'], c.isDigit = true := List.all_eq_true.mp rfl
  have hne : ['3', '0'] ≠ ([] : List Char) := List.cons_ne_nil _ _
  have hsize := fun texts => (thresholds_exact_iff calm (swapConfig "disabled" "maxSize" "30MB") (behind texts) texts rfl _
    hdigits hne).1 ['M', 'B'] 1000000 ⟨by decide, by decide⟩ (by decide) rfl
  have hinterval := fun texts => (thresholds_exact_iff calm (swapConfig "enabled" "interval" "30") (behind texts) texts rfl _
    hdigits hne).2 ⟨by decide, by decide⟩ rfl
  have hseven : digitsRead ["7"] ['3', '0'] = ['3', '0'] := by decide
  have hyear : digitsRead ["2048"] ['3', '0'] = ['3', '0', '4', '8'] := by decide
  refine ⟨(hsize _).mpr ⟨?_, by decide, ?_⟩, mt (hsize _).mp fun h => ?_, (hinterval _).mpr ⟨?_, by decide, ?_⟩,
    mt (hinterval _).mp fun h => ?_⟩
  · rw [hseven]
    decide
  · rw [hseven]
  · have hleft := h.left
    rw [hyear] at hleft
    exact absurd hleft (by decide)
  · rw [hseven]
    decide
  · rw [hseven]
    decide
  · have hleft := h.left
    rw [hyear] at hleft
    exact absurd hleft (by decide)

/-- Five gigabytes: the product is cut to 705032704. -/
theorem thresholds_counterexample :
    ∃ (cfg : RecorderConfig) (r : Recorder), r.digit = List.replicate 16 '\x00' ∧ SizeBased cfg ∧
      cfg.getAttribPairFromTag "HotSwap" "maxSize" = ⟨"maxSize", "5GB"⟩ ∧
      ¬SizeParsed (init calm cfg r) ['5'] 1000000000 := by
  refine ⟨swapConfig "disabled" "maxSize" "5GB", new, rfl, ⟨by decide, by decide⟩, rfl, fun h => ?_⟩
  have hunit : unitFactor ['G', 'B'] = some 1000000000 := by decide
  have hnone : (new.digit : List Char) = ([] : List String).foldl isDigit (List.replicate 16 '\x00') := rfl
  have hfits := (init_sizeParsed_iff calm hnone (List.all_eq_true.mp rfl) (List.cons_ne_nil _ _) ⟨by decide, by decide⟩
    hunit rfl).mp h
  exact absurd hfits.product (by decide)

end Recorder

end Recd2
