import Recd2.Lib.Utf8
import Recd2.Theorems.Names

/-! The length of the file names. `snprintf` has room for 255 bytes, and the `strcpy` of `Wav` for 63: what is left of
    these for the directory, the slot and the counter is 49. -/

namespace Recd2.Recorder
open Utf8

/-- A time of six digits. -/
def IsClock (t : String) : Prop :=
  ∃ h₁ h₂ m₁ m₂ s₁ s₂ : Char, (∀ c ∈ [h₁, h₂, m₁, m₂, s₁, s₂], c.isDigit = true) ∧
    t.toList = [h₁, h₂, ':', m₁, m₂, ':', s₁, s₂]

theorem IsClock.bytes {t : String} (h : IsClock t) : bytes t.toList = 8 := by
  obtain ⟨h₁, h₂, m₁, m₂, s₁, s₂, hdigits, ht⟩ := h
  have hascii := ascii_of_isDigit hdigits
  have hone : ∀ c ∈ [h₁, h₂, m₁, m₂, s₁, s₂], c.utf8Size = 1 := fun c hc => by
    have hsingle : Ascii [c] := fun d hd => by
      rw [List.mem_singleton.mp hd]
      exact hascii c hc
    have hone := bytes_of_ascii hsingle
    rwa [bytes_cons, bytes_nil, Nat.add_zero] at hone
  have hcolon : (':' : Char).utf8Size = 1 := rfl
  simp only [List.mem_cons, List.not_mem_nil, or_false, forall_eq_or_imp, forall_eq] at hone
  obtain ⟨e₁, e₂, e₃, e₄, e₅, e₆⟩ := hone
  rw [ht]
  simp only [bytes_cons, bytes_nil, e₁, e₂, e₃, e₄, e₅, e₆, hcolon]

/-- The bytes of the folder in front of a name, with its slash. -/
def folderBytes : Option String → Nat
  | some d => d.utf8ByteSize + 1
  | none => 0

theorem ascii_toString (z : Int) : Ascii (toString z).toList := by
  rw [Decimal.toList_toString]
  intro c hc
  rcases List.mem_append.mp hc with hc | hc
  · rw [Decimal.sign] at hc
    split_ifs at hc
    · rw [List.mem_singleton.mp hc]
      decide
    · cases hc
  · exact ascii_of_isDigit (fun d hd => Decimal.isDigit_of_mem_toDigits hd) c hc

theorem ascii_toString_nat (n : Nat) : Ascii (toString n).toList := by
  rw [Nat.toString_eq_repr, Nat.toList_repr]
  exact ascii_of_isDigit fun d hd => Decimal.isDigit_of_mem_toDigits hd

section Name
variable (directory : Option String) (slot : Nat) (uid : UInt32) {t : String}

/-- The bytes of the whole name. -/
theorem bytes_nameText (ht : IsClock t) : bytes (nameText directory slot uid t) =
    folderBytes directory + (toString slot).toList.length + (toString uid.toInt32.toInt).toList.length + 14 := by
  have hfolder : bytes (folderText directory) = folderBytes directory := by
    cases directory with
    | none => rfl
    | some d => rw [folderText, bytes_append, bytes_toList, folderBytes]; rfl
  have hdash : ('-' : Char).utf8Size = 1 := rfl
  have hsuffix : bytes ".wav".toList = 4 := rfl
  rw [nameText, bytes_append, bytes_append, bytes_append, bytes_cons, bytes_cons, bytes_append, hfolder, ht.bytes, hdash,
    hsuffix, bytes_of_ascii (ascii_toString_nat slot), bytes_of_ascii (ascii_toString uid.toInt32.toInt)]
  omega

/-- The directory, the slot and the counter leave room for the rest of the name. -/
def LeavesRoom : Prop :=
  folderBytes directory + (toString slot).toList.length + (toString uid.toInt32.toInt).toList.length ≤ 49

/-- The name is whole, and has at most 63 bytes. -/
theorem fileName_fits_iff (ht : IsClock t) :
    ((fileName directory slot uid t).toList = nameText directory slot uid t ∧
      (fileName directory slot uid t).utf8ByteSize ≤ 63) ↔ LeavesRoom directory slot uid := by
  have hbytes := bytes_nameText directory slot uid ht
  have hlen := length_le_bytes (nameText directory slot uid t)
  rw [← bytes_toList, toList_fileName, LeavesRoom]
  constructor
  · rintro ⟨hwhole, hfits⟩
    rw [hwhole, hbytes] at hfits
    omega
  · intro hroom
    have hwhole : (nameText directory slot uid t).take 255 = nameText directory slot uid t :=
      List.take_of_length_le (by omega)
    rw [hwhole, hbytes]
    exact ⟨rfl, by omega⟩

end Name

theorem length_toString_slot {slot : Nat} (h : slot < 127) : (toString slot).toList.length ≤ 3 := by
  rw [Nat.toString_eq_repr, Nat.toList_repr, Nat.length_toDigits_le_iff (by decide) (by decide)]
  omega

theorem length_toString_uid (uid : UInt32) : (toString uid.toInt32.toInt).toList.length ≤ 11 := by
  have hlow := uid.toInt32.le_toInt
  have hhigh := uid.toInt32.toInt_lt
  have hdigits : (Nat.toDigits 10 uid.toInt32.toInt.natAbs).length ≤ 10 := by
    rw [Nat.length_toDigits_le_iff (by decide) (by decide)]
    omega
  have hsign : (Decimal.sign uid.toInt32.toInt).length ≤ 1 := by
    rw [Decimal.sign]
    split_ifs <;> decide
  rw [Decimal.toList_toString, List.length_append]
  omega

/-- A directory of up to 34 bytes leaves room for every slot and every counter, and no longer one does. -/
theorem leavesRoom_all_iff (d : String) :
    (∀ slot < 127, ∀ uid, LeavesRoom (some d) slot uid) ↔ d.utf8ByteSize ≤ 34 := by
  constructor
  · intro h
    have hlongest := h 100 (by decide) 0x80000000
    have hslot : (toString 100).toList.length = 3 := rfl
    have huid : (toString (0x80000000 : UInt32).toInt32.toInt).toList.length = 11 := by decide
    rw [LeavesRoom, folderBytes, hslot, huid] at hlongest
    omega
  · intro hd slot hslot uid
    have := length_toString_slot hslot
    have := length_toString_uid uid
    rw [LeavesRoom, folderBytes]
    omega

/-! ### The `Wav`s that get a name -/

/-- A `Wav` is made for a slot with a name in a directory: in the loop of `init`, or by one of the three that replace
    a file. -/
inductive Makes (env : Env) (slot : Nat) (r : Recorder) : Option String → Recorder → Prop
  | init (dir : Attrib) : Makes env slot r (if dir.type1 ≠ "" then some dir.type2 else none) (initWav env dir r slot)
  | reopenWavFile {w : Wav} (hw : r.wav? slot = some w) (h : w.isOpened = false) :
    Makes env slot r (if r.directory ≠ "" then some r.directory else none) (reopenWavFile env slot r)
  | hotSwapFiles {w : Wav} (hw : r.wav? slot = some w) (h : w.isOpened = true) :
    Makes env slot r (if r.directory ≠ "" then some r.directory else none) (hotSwapSlot env r slot)
  | pollHotSwap {w : Wav} (hw : r.wav? slot = some w) (h : w.isOpened = true)
    (hsize : r.maxFileSize.toNat < w.getFileSize r.disk) :
    Makes env slot r (if r.directory ≠ "" then some r.directory else none) (pollSlot env r slot)

/-- The slot holds a `Wav` whose name is whole and has at most 63 bytes. -/
def NameFits (env : Env) (slot : Nat) (r : Recorder) (directory : Option String) (r' : Recorder) : Prop :=
  ∃ w, r'.wav? slot = some w ∧
    w.filename.toList = nameText directory slot (r.uid + 1) (env.timeString r.names) ∧ w.filename.utf8ByteSize ≤ 63

section Makes
variable {env : Env} {slot : Nat} {r r' : Recorder} {directory : Option String}

theorem filename_swapWav {w : Wav} (hw : r.wav? slot = some w) :
    ∃ w', (swapWav env slot w r).wav? slot = some w' ∧
      w'.filename = nextName env (if r.directory ≠ "" then some r.directory else none) slot r :=
  ⟨_, wav?_swapWav_self hw, filename_swapOpened⟩

theorem Makes.filename (h : Makes env slot r directory r') (hslot : slot < 128) :
    ∃ w, r'.wav? slot = some w ∧ w.filename = nextName env directory slot r := by
  cases h with
  | init dir => exact ⟨_, wav?_setWav_self (r := r) hslot, rfl⟩
  | reopenWavFile hw h =>
    rw [Recorder.reopenWavFile]
    simp only [hw, h, Bool.not_false, if_true]
    exact filename_swapWav hw
  | hotSwapFiles hw h =>
    rw [hotSwapSlot]
    simp only [hw, h, if_true]
    exact filename_swapWav hw
  | pollHotSwap hw h hsize =>
    rw [pollSlot]
    simp only [hw, h, hsize, if_true]
    exact filename_swapWav hw

theorem Makes.nameFits_iff (h : Makes env slot r directory r') (hslot : slot < 128)
    (ht : IsClock (env.timeString r.names)) :
    NameFits env slot r directory r' ↔ LeavesRoom directory slot (r.uid + 1) := by
  obtain ⟨w, hw, hname⟩ := h.filename hslot
  rw [← fileName_fits_iff directory slot (r.uid + 1) ht]
  constructor
  · rintro ⟨w', hw', hfits⟩
    obtain rfl := Option.some_inj.mp (hw.symm.trans hw')
    rwa [hname] at hfits
  · intro hfits
    rw [← nextName, ← hname] at hfits
    exact ⟨w, hw, hfits⟩

end Makes

/-- For any directory, slot below 127, counter and time, and each of the four places that make a name: the name is whole
    and fits into the `Wav` when the directory, the slot and the counter take at most 49 bytes, and only then. -/
theorem name_fits_iff (env : Env) (slot : Nat) (hslot : slot < 127) (r r' : Recorder) (directory : Option String)
    (h : Makes env slot r directory r') (ht : IsClock (env.timeString r.names)) :
    NameFits env slot r directory r' ↔ LeavesRoom directory slot (r.uid + 1) :=
  h.nameFits_iff (by omega) ht

theorem isClock_calm (n : Nat) : IsClock (calm.timeString n) :=
  ⟨'1', '2', '0', '0', '0', '0', List.all_eq_true.mp rfl, by simp [calm]⟩

theorem name_fits_iff_calm :
    NameFits calm 0 new (some "records") (initWav calm ⟨"records", "records"⟩ new 0) ↔ LeavesRoom (some "records") 0 1 :=
  name_fits_iff calm 0 (by decide) new _ (some "records") (Makes.init ⟨"records", "records"⟩) (isClock_calm 0)

/-- A directory of 47 letters. -/
theorem name_fits_counterexample :
    ∃ (env : Env) (slot : Nat) (r r' : Recorder) (directory : Option String), slot < 127 ∧
      Makes env slot r directory r' ∧ IsClock (env.timeString r.names) ∧ ¬NameFits env slot r directory r' := by
  have hmakes : Makes calm 0 new (some (String.ofList (List.replicate 47 'a'))) _ :=
    Makes.init ⟨"records", String.ofList (List.replicate 47 'a')⟩
  refine ⟨calm, 0, new, _, _, by decide, hmakes, isClock_calm 0, ?_⟩
  rw [hmakes.nameFits_iff (by decide) (isClock_calm 0), LeavesRoom]
  decide

end Recd2.Recorder
