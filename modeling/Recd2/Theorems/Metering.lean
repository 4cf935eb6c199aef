import Mathlib.Data.Finset.Max
import Mathlib.Data.Nat.ModEq
import Mathlib.Data.Set.List
import Recd2.Lib.Interleave
import Recd2.Lib.Width
import Recd2.Theorems.Peek

/-! The peaks of a batch of frames. The window has room for all of them, but each frame and channel is written to its
    front, and the peak is taken over the whole window. -/

namespace Recd2.Helper
open Checked

/-! ### What is measured -/

section Meaning
variable (channels smplPerChan : UInt32) (dbl : List FrameData)

/-- `x` is a sample of the channel in one of the frames. -/
def IsSample (j : Nat) (x : Int16) : Prop :=
  ∃ fd ∈ dbl, ∃ k < smplPerChan.toNat, fd.data[k * channels.toNat + j]? = some x

/-- Each channel has its largest absolute value, and what was looked at for it are its samples. -/
structure Measured (m : Meter) : Prop where
  peeks : ∀ j < channels.toNat, ∃ p, m.peeks[j]? = some (some p) ∧
    IsGreatest {a | ∃ x, IsSample channels smplPerChan dbl j x ∧ a = |x.toInt|} p.toInt
  inspected : ∀ r ∈ m.inspected, ∀ cell ∈ r.2, ∃ x, IsSample channels smplPerChan dbl r.1 x ∧ cell = some (r.1, x)

/-- There is no channel; or the size of the window is at most that of a channel, and as many samples at the end of the
    last frame have the largest absolute value of each channel among them; or the size has wrapped around to a negative
    number, and all is silent. -/
def Covered : Prop :=
  let ssize := (windowSize smplPerChan dbl).toInt32.toInt
  channels = 0 ∨
    (0 < ssize ∧ ssize ≤ smplPerChan.toNat ∧ ∀ j < channels.toNat, ∃ fd ∈ dbl.getLast?, ∃ k < smplPerChan.toNat,
      smplPerChan.toNat ≤ k + ssize ∧ ∃ y, fd.data[k * channels.toNat + j]? = some y ∧
        ∀ x, IsSample channels smplPerChan dbl j x → |x.toInt| ≤ |y.toInt|) ∨
    (ssize < 0 ∧ ∀ j < channels.toNat, ∀ x, IsSample channels smplPerChan dbl j x → x = 0)

end Meaning

/-! ### The window -/

section Fill
variable {E : Fault → Prop} {channels smplPerChan : UInt32} {ssize : Int32} {fd : FrameData} {j k : Nat} {smpls : Window}

/-- Sample `k` of channel `j` of a frame. -/
def channelSample (channels : UInt32) (fd : FrameData) (j k : Nat) : Int16 := fd.data[k * channels.toNat + j]?.getD 0

/-- The settings for which all indices are within a frame. -/
structure Fits (channels smplPerChan : UInt32) : Prop where
  peeks : channels.toNat ≤ 64
  data : channels.toNat * smplPerChan.toNat ≤ 512

theorem Fits.le (h : Fits channels smplPerChan) (hj : j < channels.toNat) : smplPerChan.toNat ≤ 512 :=
  (Nat.le_mul_of_pos_left _ (by omega)).trans h.data

theorem Fits.index_lt (h : Fits channels smplPerChan) (hj : j < channels.toNat) (hk : k < smplPerChan.toNat) :
    k * channels.toNat + j < 512 :=
  (Interleave.pos_lt hj hk).trans_le h.data

theorem Fits.getElem? (h : Fits channels smplPerChan) (hj : j < channels.toNat) (hk : k < smplPerChan.toNat)
    (fd : FrameData) : fd.data[k * channels.toNat + j]? = some (channelSample channels fd j k) := by
  rw [channelSample, Vector.getElem?_eq_getElem (h.index_lt hj hk), Option.getD_some]

theorem Fits.sample (h : Fits channels smplPerChan) (hj : j < channels.toNat) (hk : k < smplPerChan.toNat)
    (fd : FrameData) : sample channels fd j k = .ok (channelSample channels fd j k) := by
  have hlt := h.index_lt hj hk
  have hle : k ≤ k * channels.toNat := Nat.le_mul_of_pos_right _ (by omega)
  have hindex : (UInt32.ofNat k * channels + UInt32.ofNat j).toNat = k * channels.toNat + j := by
    have hkn : (UInt32.ofNat k).toNat = k := UInt32.toNat_ofNat_of_lt' (show k < 2 ^ 32 by omega)
    have hjn : (UInt32.ofNat j).toNat = j := UInt32.toNat_ofNat_of_lt' (show j < 2 ^ 32 by omega)
    rw [UInt32.toNat_add, UInt32.toNat_mul, hkn, hjn]
    omega
  rw [Helper.sample, hindex, h.getElem? hj hk]

theorem remainder_of_nat {sindex : Int32} {n : Nat} (hn : sindex.toInt = n) (hzero : ssize ≠ 0) :
    ∃ r : Int32, remainder sindex ssize = .ok r ∧ r.toInt = (n % ssize.toInt.natAbs : Nat) := by
  refine ⟨sindex % ssize, remainder_of_nonneg (by omega) hzero, ?_⟩
  rw [Int32.toInt_mod, hn]
  cases ssize.toInt <;> rfl

/-- The loop writes the samples of a channel round and round, each behind the one before. -/
theorem fillWindow_yields (hfits : Fits channels smplPerChan) (hj : j < channels.toNat) (hzero : ssize ≠ 0)
    (hroom : ∀ k < smplPerChan.toNat, k % ssize.toInt.natAbs < smpls.length) :
    Yields E (fun s => s.2.length = smpls.length ∧ (∀ c, smplPerChan.toNat ≤ c → s.2[c]? = smpls[c]?) ∧
        ∀ c < ssize.toInt.natAbs, c < smplPerChan.toNat → ∃ k < smplPerChan.toNat,
          smplPerChan.toNat ≤ k + ssize.toInt.natAbs ∧ k % ssize.toInt.natAbs = c ∧
          s.2[c]? = some (some (j, channelSample channels fd j k)))
      (fillWindow channels smplPerChan ssize fd j smpls) := by
  have hle := hfits.le hj
  rw [fillWindow]
  refine (@forLoop_yields _ E ((0 : Int32), smpls) _
    (fun i s => s.1.toInt = i ∧ s.2.length = smpls.length ∧ (∀ c, i ≤ c → s.2[c]? = smpls[c]?) ∧
      ∀ c < ssize.toInt.natAbs, c < i → ∃ k < i, i ≤ k + ssize.toInt.natAbs ∧ k % ssize.toInt.natAbs = c ∧
        s.2[c]? = some (some (j, channelSample channels fd j k))) smplPerChan.toNat ?_ ?_).mono fun s hs => hs.2
  · exact ⟨rfl, rfl, fun _ _ => rfl, fun c _ hc => absurd hc (Nat.not_lt_zero c)⟩
  rintro i ⟨sindex, w⟩ hi ⟨hindex, hlen, hbehind, hwritten⟩
  have hindex : sindex.toInt = i := hindex
  have hlen : w.length = smpls.length := hlen
  obtain ⟨r, hr, hmod⟩ := remainder_of_nat hindex hzero
  have hlt : i % ssize.toInt.natAbs < w.length := hlen ▸ hroom i hi
  simp only [hfits.sample hj hi, hr]
  show Yields E _ (w.store r.toInt _ >>= _)
  rw [hmod]
  refine (store_yields hlt _).bind ?_
  rintro _ rfl
  refine ⟨?_, by rw [List.length_set, hlen], fun c hc => ?_, fun c hcM hc => ?_⟩
  · show (sindex + 1).toInt = (i + 1 : Nat)
    rw [Width.toInt_add_one (by omega), hindex]
    rfl
  · have hle : i % ssize.toInt.natAbs ≤ i := Nat.mod_le _ _
    rw [List.getElem?_set_ne (by omega)]
    exact hbehind c (by omega)
  · by_cases heq : i % ssize.toInt.natAbs = c
    · refine ⟨i, Nat.lt_succ_self i, by omega, heq, ?_⟩
      rw [heq, List.getElem?_set_self (by omega)]
    · -- A value further back than the window is long was overwritten just now.
      have hci : c < i := by
        by_contra hge
        obtain rfl : c = i := by omega
        exact heq (Nat.mod_eq_of_lt hcM)
      obtain ⟨k, hk, hback, hkc, hcell⟩ := hwritten c hcM hci
      refine ⟨k, by omega, ?_, hkc, by rw [List.getElem?_set_ne heq, hcell]⟩
      by_contra hfar
      obtain rfl : i = k + ssize.toInt.natAbs := by omega
      exact heq (by rw [Nat.add_mod_right, hkc])

/-- A window no longer than a channel then has the last samples of the channel, and nothing else. -/
theorem values_of_written {w : Window} {n : Nat} {x : Nat → Int16} (hle : w.length ≤ n)
    (hwritten : ∀ c < w.length, c < n → ∃ k < n, n ≤ k + w.length ∧ k % w.length = c ∧ w[c]? = some (some (j, x k))) :
    ∃ zs : List (Nat × Int16), w = zs.map some ∧ (∀ z ∈ zs, ∃ k < n, n ≤ k + w.length ∧ z = (j, x k)) ∧
      ∀ k < n, n ≤ k + w.length → (j, x k) ∈ zs := by
  obtain ⟨zs, rfl⟩ : w ∈ Set.range (List.map some) := by
    rw [Set.range_list_map]
    intro cell hmem
    obtain ⟨c, hc, rfl⟩ := List.getElem_of_mem hmem
    obtain ⟨k, -, -, -, hget⟩ := hwritten c hc (by omega)
    rw [List.getElem?_eq_getElem hc] at hget
    exact ⟨_, (Option.some.inj hget).symm⟩
  simp only [List.length_map] at hle hwritten ⊢
  refine ⟨zs, rfl, fun z hz => ?_, fun k hk hback => ?_⟩
  · obtain ⟨c, hc, rfl⟩ := List.getElem_of_mem hz
    obtain ⟨k, hk, hback, -, hget⟩ := hwritten c hc (by omega)
    refine ⟨k, hk, hback, ?_⟩
    simpa [List.getElem?_eq_getElem hc] using hget
  · have hlen : 0 < zs.length := by omega
    obtain ⟨k', hk', hback', hmod, hget⟩ := hwritten (k % zs.length) (Nat.mod_lt _ hlen)
      (Nat.mod_lt_of_lt hk)
    -- Two of the last samples are in one cell only if they are the same.
    have heq : k' = k := Nat.ModEq.eq_of_abs_lt hmod (abs_lt.mpr (by omega))
    rw [heq] at hget
    have hmem := List.mem_of_getElem? hget
    simpa using hmem

end Fill

/-! ### A channel, a frame, a batch -/

section Batch
variable {E : Fault → Prop} {channels smplPerChan : UInt32} {ssize : Int32} {dbl : List FrameData} {fd : FrameData}
  {j : Nat} {smpls : Window} {m : Meter}

/-- What the peak of a channel becomes with a frame: that of the samples in the window. -/
def IsWindowPeak (channels smplPerChan : UInt32) (ssize : Int) (fd : FrameData) (j : Nat) (p : Int16) : Prop :=
  (ssize < 0 ∧ p = 0) ∨
    (0 < ssize ∧ IsGreatest {a | ∃ k < smplPerChan.toNat, smplPerChan.toNat ≤ k + ssize ∧
      a = |(channelSample channels fd j k).toInt|} p.toInt)

/-- A window that the samples of each channel fill, or that `peek` does not look into. -/
structure Filled (smplPerChan : UInt32) (ssize : Int32) (smpls : Window) : Prop where
  ne_zero : ssize.toInt ≠ 0
  le : ssize.toInt ≤ smplPerChan.toNat
  length : 0 < ssize.toInt → (smpls.length : Int) = ssize.toInt
  room : ssize.toInt < 0 → 512 ≤ smpls.length

theorem Filled.of_length {w : Window} (h : Filled smplPerChan ssize smpls) (hlen : w.length = smpls.length) :
    Filled smplPerChan ssize w := ⟨h.ne_zero, h.le, hlen ▸ h.length, hlen ▸ h.room⟩

theorem Filled.mod_lt (h : Filled smplPerChan ssize smpls) (hle : smplPerChan.toNat ≤ 512) {k : Nat}
    (hk : k < smplPerChan.toNat) : k % ssize.toInt.natAbs < smpls.length := by
  rcases lt_or_gt_of_ne h.ne_zero with hneg | hpos
  · have hmod : k % ssize.toInt.natAbs ≤ k := Nat.mod_le _ _
    have hroom := h.room hneg
    omega
  · have hlen := h.length hpos
    have hmod := Nat.mod_lt k (show 0 < ssize.toInt.natAbs by omega)
    omega

/-- No sample of the channels is the one whose absolute value does not fit. -/
def NoMin (channels smplPerChan : UInt32) (dbl : List FrameData) : Prop :=
  ∀ j < channels.toNat, ∀ x, IsSample channels smplPerChan dbl j x → x ≠ -32768

theorem isSample_channelSample (hfits : Fits channels smplPerChan) (hfd : fd ∈ dbl) (hj : j < channels.toNat) {k : Nat}
    (hk : k < smplPerChan.toNat) : IsSample channels smplPerChan dbl j (channelSample channels fd j k) :=
  ⟨fd, hfd, k, hk, hfits.getElem? hj hk fd⟩

/-- The cells are samples of the channel that they were written for. -/
def AreSamples (channels smplPerChan : UInt32) (dbl : List FrameData) (j : Nat) (cells : Window) : Prop :=
  ∀ cell ∈ cells, ∃ x, IsSample channels smplPerChan dbl j x ∧ cell = some (j, x)

/-- A window of a negative size is not looked into. -/
theorem peek_of_neg (hneg : ssize.toInt < 0) (samples : Cells Int16) : peek 0 samples ssize = .ok (0, 0) := by
  have hnone : ssize.toInt.toNat = 0 := Int.toNat_of_nonpos (Int.le_of_lt hneg)
  have hzero : ssize ≠ 0 := by
    rintro rfl
    exact absurd hneg (by decide)
  rw [peek, if_neg hzero, hnone]
  rfl

/-- The values of a window that are the last samples of a channel have their greatest absolute value for the peak. -/
theorem peekSamples_window {zs : List (Nat × Int16)} (hne : zs ≠ []) {n : Nat} {x : Nat → Int16}
    (hmin : ∀ k < n, x k ≠ -32768) (hback : ∀ z ∈ zs, ∃ k < n, n ≤ k + zs.length ∧ z = (j, x k))
    (hall : ∀ k < n, n ≤ k + zs.length → (j, x k) ∈ zs) :
    IsGreatest {a | ∃ k < n, n ≤ k + zs.length ∧ a = |(x k).toInt|} (peekSamples 0 (zs.map Prod.snd)).toInt := by
  have hsamples : ∀ y ∈ zs.map Prod.snd, ∃ k < n, n ≤ k + zs.length ∧ y = x k := by
    intro y hy
    obtain ⟨z, hz, rfl⟩ := List.mem_map.mp hy
    obtain ⟨k, hk, hkback, rfl⟩ := hback z hz
    exact ⟨k, hk, hkback, rfl⟩
  have hgreatest : IsGreatest {a | ∃ y ∈ zs.map Prod.snd, a = |y.toInt|} (peekSamples 0 (zs.map Prod.snd)).toInt := by
    refine peekSamples_zero_isGreatest (by rwa [Ne, List.map_eq_nil_iff]) fun y hy => ?_
    obtain ⟨k, hk, -, rfl⟩ := hsamples y hy
    exact hmin k hk
  convert hgreatest using 1
  ext a
  constructor
  · rintro ⟨k, hk, hkback, rfl⟩
    exact ⟨_, List.mem_map_of_mem (hall k hk hkback), rfl⟩
  · rintro ⟨y, hy, rfl⟩
    obtain ⟨k, hk, hkback, rfl⟩ := hsamples y hy
    exact ⟨k, hk, hkback, rfl⟩

/-- The peak of a window that a channel was written to. -/
theorem peek_window (hfits : Fits channels smplPerChan) (hmin : NoMin channels smplPerChan dbl) (hfd : fd ∈ dbl)
    (hj : j < channels.toNat) (hfilled : Filled smplPerChan ssize smpls)
    (hwritten : ∀ c < ssize.toInt.natAbs, c < smplPerChan.toNat → ∃ k < smplPerChan.toNat,
      smplPerChan.toNat ≤ k + ssize.toInt.natAbs ∧ k % ssize.toInt.natAbs = c ∧
      smpls[c]? = some (some (j, channelSample channels fd j k))) :
    ∃ p, peek 0 (smpls.map (Option.map Prod.snd)) ssize = .ok (p, p) ∧
      IsWindowPeak channels smplPerChan ssize.toInt fd j p ∧
      AreSamples channels smplPerChan dbl j (smpls.take ssize.toInt.toNat) := by
  rcases lt_or_gt_of_ne hfilled.ne_zero with hneg | hpos
  · refine ⟨0, peek_of_neg hneg _, Or.inl ⟨hneg, rfl⟩, ?_⟩
    rw [Int.toNat_of_nonpos (Int.le_of_lt hneg)]
    exact fun _ hcell => absurd hcell List.not_mem_nil
  · have hwlen : smpls.length = ssize.toInt.natAbs := by
      have hlen := hfilled.length hpos
      omega
    rw [← hwlen] at hwritten
    obtain ⟨zs, rfl, hback, hall⟩ := values_of_written (by have hle := hfilled.le; omega) hwritten
    rw [List.length_map] at hwlen hback hall
    have hcells : Cells.Begins ((zs.map some).map (Option.map Prod.snd)) (zs.map Prod.snd) := by
      refine ⟨[], ?_⟩
      rw [List.append_nil, List.map_map, List.map_map]
      rfl
    have hne : zs ≠ [] := by
      rw [Ne, ← List.length_eq_zero_iff]
      omega
    have hgreatest := peekSamples_window hne (fun k hk => hmin j hj _ (isSample_channelSample hfits hfd hj hk)) hback hall
    have hsize : ssize.toInt = zs.length := by omega
    refine ⟨_, peek_of_written 0 (by rwa [Ne, List.map_eq_nil_iff]) hcells ?_, Or.inr ⟨hpos, ?_⟩, ?_⟩
    · rw [List.length_map, hsize]
    · rw [hsize]
      exact_mod_cast hgreatest
    · intro cell hcell
      obtain ⟨z, hz, rfl⟩ := List.mem_map.mp (List.mem_of_mem_take hcell)
      obtain ⟨k, hk, -, rfl⟩ := hback z hz
      exact ⟨_, isSample_channelSample hfits hfd hj hk, rfl⟩

/-- Between two channels: `m_peek` was reset, and all that was looked at are samples. -/
structure Ready (channels smplPerChan : UInt32) (dbl : List FrameData) (m : Meter) : Prop where
  m_peek : m.m_peek = 0
  peeks : m.peeks.length = 64
  inspected : ∀ r ∈ m.inspected, AreSamples channels smplPerChan dbl r.1 r.2

theorem meterChannel_yields (hfits : Fits channels smplPerChan) (hmin : NoMin channels smplPerChan dbl) (hfd : fd ∈ dbl)
    (hj : j < channels.toNat) (hfilled : Filled smplPerChan ssize smpls) (hready : Ready channels smplPerChan dbl m) :
    Yields E (fun s => Filled smplPerChan ssize s.1 ∧ Ready channels smplPerChan dbl s.2 ∧
        ∃ p, IsWindowPeak channels smplPerChan ssize.toInt fd j p ∧ s.2.peeks = m.peeks.set j (some p))
      (meterChannel channels smplPerChan ssize fd j (smpls, m)) := by
  have hzero : ssize ≠ 0 := by
    rintro rfl
    exact hfilled.ne_zero rfl
  have hj64 : j < m.peeks.length := hready.peeks ▸ hj.trans_le hfits.peeks
  show Yields E _ (fillWindow channels smplPerChan ssize fd j smpls >>= _)
  refine (fillWindow_yields hfits hj hzero fun k hk => hfilled.mod_lt (hfits.le hj) hk).bind ?_
  rintro ⟨sindex, w⟩ ⟨hlen, -, hwritten⟩
  have hfilled' : Filled smplPerChan ssize w := hfilled.of_length hlen
  obtain ⟨p, hpeek, hp, hsamples⟩ := peek_window hfits hmin hfd hj hfilled' hwritten
  simp only [hready.m_peek, hpeek]
  refine (store_yields hj64 p).bind ?_
  rintro _ rfl
  refine ⟨hfilled', ⟨rfl, by rw [List.length_set, hready.peeks], ?_⟩, p, hp, rfl⟩
  intro r hr
  rcases List.mem_append.mp hr with hr | hr
  · exact hready.inspected r hr
  · rw [List.mem_singleton.mp hr]
    exact hsamples

/-- A frame sets the peaks of all channels. -/
theorem meterFrame_yields (hfits : Fits channels smplPerChan) (hmin : NoMin channels smplPerChan dbl) (hfd : fd ∈ dbl)
    {s : Window × Meter} (hfilled : Filled smplPerChan ssize s.1) (hready : Ready channels smplPerChan dbl s.2) :
    Yields E (fun t => (Filled smplPerChan ssize t.1 ∧ Ready channels smplPerChan dbl t.2) ∧
        ∀ j < channels.toNat, ∃ p, t.2.peeks[j]? = some (some p) ∧ IsWindowPeak channels smplPerChan ssize.toInt fd j p)
      (meterFrame channels smplPerChan ssize s fd) := by
  refine (@forLoop_yields _ E s _
    (fun i t => Filled smplPerChan ssize t.1 ∧ Ready channels smplPerChan dbl t.2 ∧
      ∀ j < i, ∃ p, t.2.peeks[j]? = some (some p) ∧ IsWindowPeak channels smplPerChan ssize.toInt fd j p)
    channels.toNat ⟨hfilled, hready, fun j hj => absurd hj (Nat.not_lt_zero j)⟩ ?_).mono fun t ht => ⟨⟨ht.1, ht.2.1⟩, ht.2.2⟩
  rintro i ⟨w, m⟩ hi ⟨hfilled, hready, hpeaks⟩
  refine (meterChannel_yields hfits hmin hfd hi hfilled hready).mono ?_
  rintro ⟨w', m'⟩ ⟨hfilled', hready', p, hp, hset⟩
  refine ⟨hfilled', hready', fun j hj => ?_⟩
  have hset : m'.peeks = m.peeks.set i (some p) := hset
  have hroom : i < m.peeks.length := hready.peeks ▸ hi.trans_le hfits.peeks
  show ∃ p, m'.peeks[j]? = some (some p) ∧ _
  rw [hset]
  rcases Nat.lt_succ_iff_lt_or_eq.mp hj with hj | rfl
  · rw [List.getElem?_set_ne (by omega)]
    exact hpeaks j hj
  · exact ⟨p, List.getElem?_set_self hroom, hp⟩

/-- Of a batch, the last frame has the peaks. -/
theorem meterFrames_yields (hfits : Fits channels smplPerChan) (hmin : NoMin channels smplPerChan dbl)
    {s : Window × Meter} (hfilled : Filled smplPerChan ssize s.1) (hready : Ready channels smplPerChan dbl s.2)
    (hfd : fd ∈ dbl.getLast?) :
    Yields E (fun t => Ready channels smplPerChan dbl t.2 ∧ ∀ j < channels.toNat,
        ∃ p, t.2.peeks[j]? = some (some p) ∧ IsWindowPeak channels smplPerChan ssize.toInt fd j p)
      (dbl.foldlM (meterFrame channels smplPerChan ssize) s) := by
  obtain ⟨before, heq⟩ := List.getLast?_eq_some_iff.mp hfd
  have hmem : ∀ fd' ∈ before ++ [fd], fd' ∈ dbl := fun fd' h => heq ▸ h
  have hfold : dbl.foldlM (meterFrame channels smplPerChan ssize) s =
      (before.foldlM (meterFrame channels smplPerChan ssize) s >>= [fd].foldlM (meterFrame channels smplPerChan ssize)) := by
    rw [heq, List.foldlM_append]
  rw [hfold]
  refine (Yields.foldlM (Q := fun t => Filled smplPerChan ssize t.1 ∧ Ready channels smplPerChan dbl t.2)
    (fun t fd' hfd' ht => ?_) ⟨hfilled, hready⟩).bind fun t ht => ?_
  · exact (meterFrame_yields hfits hmin (hmem fd' (List.mem_append_left _ hfd')) ht.1 ht.2).mono fun _ h => h.1
  · rw [List.foldlM_cons]
    refine (meterFrame_yields hfits hmin (hmem fd (by simp)) ht.1 ht.2).bind fun u hu => ?_
    exact ⟨hu.1.2, hu.2⟩

/-! ### Where the loops fail -/

/-- `peek` fails at a cell that was not written. -/
theorem peek_fails {samples : Cells Int16} {m_peek : Int16} {i : Nat} (hi : (i : Int) < ssize.toInt)
    (hunset : samples[i]? = some none) : Fails (peek m_peek samples ssize) := by
  have hzero : ssize ≠ 0 := by
    rintro rfl
    exact absurd hi (Int.not_lt.mpr (Int.natCast_nonneg i))
  have hload : samples.load i = .error .unset := by
    rw [Cells.load, if_neg (by omega), Int.toNat_natCast, hunset]
  rw [peek, if_neg hzero]
  refine (forLoop_fails (i := i) (by omega) fun t _ => ?_).bind _
  rw [hload]
  exact ⟨_, rfl⟩

/-- The first channel of the first frame finds a window that is too long, or of no length. -/
theorem meterChannel_fails (hfits : Fits channels smplPerChan) (hj : j < channels.toNat) (hpos : 0 < smplPerChan.toNat)
    (hfresh : smpls = .replicate smpls.length none)
    (h : ssize = 0 ∨ (smplPerChan.toNat < ssize.toInt ∧ (smpls.length : Int) = ssize.toInt)) :
    Fails (meterChannel channels smplPerChan ssize fd j (smpls, m)) := by
  show Fails (fillWindow channels smplPerChan ssize fd j smpls >>= _)
  rcases h with rfl | ⟨hlt, hlen⟩
  · refine (forLoop_fails hpos fun t ht => ?_).bind _
    cases ht
    simp only [hfits.sample hj hpos]
    exact ⟨_, rfl⟩
  · have hzero : ssize ≠ 0 := by
      rintro rfl
      exact absurd hlt (Int.not_lt.mpr (Int.natCast_nonneg _))
    have hfilled : Yields (fun _ => True) (fun s => s.2[smplPerChan.toNat]? = some none)
        (fillWindow channels smplPerChan ssize fd j smpls) := by
      refine (fillWindow_yields hfits hj hzero fun k _ => ?_).mono fun s hs => ?_
      · have hmod := Nat.mod_lt k (show 0 < ssize.toInt.natAbs by omega)
        omega
      · rw [hs.2.1 _ (Nat.le_refl _), hfresh, List.getElem?_replicate, if_pos (by omega)]
    cases hfill : fillWindow channels smplPerChan ssize fd j smpls with
    | error e => exact ⟨e, rfl⟩
    | ok s =>
      refine (peek_fails hlt ?_).bind _
      rw [List.getElem?_map, hfilled.ok hfill]
      rfl

theorem meterFrames_fails (hfits : Fits channels smplPerChan) (hchannels : 0 < channels.toNat)
    (hpos : 0 < smplPerChan.toNat) (hdbl : dbl ≠ []) (hfresh : smpls = .replicate smpls.length none)
    (h : ssize = 0 ∨ (smplPerChan.toNat < ssize.toInt ∧ (smpls.length : Int) = ssize.toInt)) :
    Fails (dbl.foldlM (meterFrame channels smplPerChan ssize) (smpls, m)) := by
  obtain ⟨fd, rest, rfl⟩ := List.exists_cons_of_ne_nil hdbl
  rw [List.foldlM_cons]
  refine (forLoop_fails hchannels fun t ht => ?_).bind _
  cases ht
  exact meterChannel_fails hfits hchannels hpos hfresh h

end Batch

/-! ### Batches -/

/-- What every batch leaves behind. -/
structure Kept (m : Meter) : Prop where
  m_peek : m.m_peek = 0
  peeks : m.peeks.length = 64

theorem store_length {α : Type} (cells : Cells α) (i : Int) (x : α) :
    Yields (fun _ => True) (fun cells' => cells'.length = cells.length) (cells.store i x) := by
  rw [Cells.store]
  split_ifs
  · exact List.length_set ..
  · trivial

theorem meter_keeps (channels smplPerChan : UInt32) (dbl : List FrameData) {m : Meter} (h : Kept m) :
    Yields (fun _ => True) Kept (meter channels smplPerChan dbl m) := by
  have hchannel : ∀ (ssize : Int32) (fd : FrameData) (i : Nat) (s : Window × Meter), Kept s.2 →
      Yields (fun _ => True) (fun t => Kept t.2) (meterChannel channels smplPerChan ssize fd i s) := by
    rintro ssize fd i ⟨w, m⟩ hm
    show Yields _ _ (fillWindow channels smplPerChan ssize fd i w >>= _)
    cases fillWindow channels smplPerChan ssize fd i w with
    | error e => trivial
    | ok s =>
      show Yields _ _ (peek m.m_peek _ ssize >>= _)
      cases peek m.m_peek (s.2.map (Option.map Prod.snd)) ssize with
      | error e => trivial
      | ok p => exact (store_length m.peeks i p.1).bind fun peeks hpeeks => ⟨rfl, hpeeks.trans hm.peeks⟩
  rw [meter, Cells.alloc, if_neg (by omega)]
  show Yields _ _ (dbl.foldlM _ _ >>= _)
  refine (Yields.foldlM (Q := fun t => Kept t.2) (fun s fd _ hs => ?_) ⟨h.m_peek, h.peeks⟩).bind ?_
  rotate_left
  · rintro ⟨w, m'⟩ hm'
    exact hm'
  exact @forLoop_yields _ _ s _ (fun _ t => Kept t.2) _ hs fun i t _ ht => hchannel _ fd i t ht

theorem meterAll_keeps {batches : List Batch} {m : Meter} (h : meterAll batches = .ok m) : Kept m := by
  have hkeeps : Yields (fun _ => True) Kept (meterAll batches) :=
    Yields.foldlM (fun s b _ hs => meter_keeps b.channels b.smplPerChan b.dbl hs) ⟨rfl, rfl⟩
  exact hkeeps.ok h

theorem meter_eq (channels smplPerChan : UInt32) (dbl : List FrameData) (m : Meter) :
    meter channels smplPerChan dbl m =
      (dbl.foldlM (meterFrame channels smplPerChan (windowSize smplPerChan dbl).toInt32)
        (.replicate (windowSize smplPerChan dbl).toNat none, { m with inspected := [] }) >>= fun t => .ok t.2) := by
  rw [meter, Cells.alloc, if_neg (by omega), Int.toNat_natCast]
  rfl

theorem toInt_toInt32_cases (u : UInt32) :
    u.toInt32.toInt = u.toNat ∨ (u.toInt32.toInt < 0 ∧ 2 ^ 31 ≤ u.toNat) := by
  have hlt := u.toNat_lt
  have hint : u.toInt32.toInt = (u.toNat : Int).bmod (2 ^ 32) := BitVec.toInt_eq_toNat_bmod _
  rw [Int.bmod_def] at hint
  split_ifs at hint <;> omega

section Measured
variable {channels smplPerChan : UInt32} {dbl : List FrameData} {m : Meter}

/-- The peaks of the last frame are right where its last samples are enough. -/
theorem measured_of_ready (hfits : Fits channels smplPerChan) (hcovered : Covered channels smplPerChan dbl)
    (hchannels : 0 < channels.toNat) {fd : FrameData} (hfd : fd ∈ dbl.getLast?) (hready : Ready channels smplPerChan dbl m)
    (hpeaks : ∀ j < channels.toNat, ∃ p, m.peeks[j]? = some (some p) ∧
      IsWindowPeak channels smplPerChan (windowSize smplPerChan dbl).toInt32.toInt fd j p)
    (hpos : 0 < smplPerChan.toNat) : Measured channels smplPerChan dbl m := by
  have hmem : fd ∈ dbl := List.mem_of_getLast? hfd
  refine ⟨fun j hj => ?_, hready.inspected⟩
  obtain ⟨p, hp, hpeak⟩ := hpeaks j hj
  refine ⟨p, hp, ?_⟩
  rcases hcovered with rfl | ⟨hsize, -, hlast⟩ | ⟨hneg, hsilent⟩
  · exact absurd hchannels (by decide)
  · obtain ⟨hneg, -⟩ | ⟨-, ⟨k, hk, hback, heq⟩, hbound⟩ := hpeak
    · omega
    obtain ⟨fd', hfd', k', hk', hback', y, hy, hgreatest⟩ := hlast j hj
    obtain rfl : fd = fd' := Option.some.inj ((Option.mem_def.mp hfd).symm.trans (Option.mem_def.mp hfd'))
    have hyk : y = channelSample channels fd j k' := Option.some.inj (hy.symm.trans (hfits.getElem? hj hk' fd))
    refine ⟨⟨_, isSample_channelSample hfits hmem hj hk, heq⟩, ?_⟩
    rintro a ⟨x, hx, rfl⟩
    exact (hgreatest x hx).trans (hbound ⟨k', hk', hback', by rw [hyk]⟩)
  · obtain ⟨-, rfl⟩ | ⟨hsize, -⟩ := hpeak
    · constructor
      · exact ⟨_, isSample_channelSample hfits hmem hj hpos, by rw [hsilent j hj _ (isSample_channelSample hfits hmem hj hpos)]; rfl⟩
      · rintro a ⟨x, hx, rfl⟩
        rw [hsilent j hj x hx]
        exact le_refl _
    · omega

theorem covered_of_measured (hfits : Fits channels smplPerChan) (hle : (windowSize smplPerChan dbl).toInt32.toInt ≤ smplPerChan.toNat)
    {fd : FrameData} (hfd : fd ∈ dbl.getLast?)
    (hpeaks : ∀ j < channels.toNat, ∃ p, m.peeks[j]? = some (some p) ∧
      IsWindowPeak channels smplPerChan (windowSize smplPerChan dbl).toInt32.toInt fd j p)
    (hne : (windowSize smplPerChan dbl).toInt32.toInt ≠ 0) (hmeasured : Measured channels smplPerChan dbl m) :
    Covered channels smplPerChan dbl := by
  -- The measured peak of a channel is that of the window.
  have hboth : ∀ j < channels.toNat, ∃ p, IsWindowPeak channels smplPerChan (windowSize smplPerChan dbl).toInt32.toInt fd j p ∧
      IsGreatest {a | ∃ x, IsSample channels smplPerChan dbl j x ∧ a = |x.toInt|} p.toInt := by
    intro j hj
    obtain ⟨p, hp, hpeak⟩ := hpeaks j hj
    obtain ⟨p', hp', hgreatest⟩ := hmeasured.peeks j hj
    obtain rfl : p = p' := Option.some.inj (Option.some.inj (hp.symm.trans hp'))
    exact ⟨p, hpeak, hgreatest⟩
  rcases lt_or_gt_of_ne hne with hneg | hpos
  · refine Or.inr (Or.inr ⟨hneg, fun j hj x hx => ?_⟩)
    obtain ⟨p, ⟨-, rfl⟩ | ⟨hpos, -⟩, -, hbound⟩ := hboth j hj
    · have habs : |x.toInt| ≤ 0 := hbound ⟨x, hx, rfl⟩
      exact Int16.toInt_inj.mp (abs_nonpos_iff.mp habs)
    · omega
  · refine Or.inr (Or.inl ⟨hpos, hle, fun j hj => ?_⟩)
    obtain ⟨p, ⟨hneg, -⟩ | ⟨-, ⟨k, hk, hback, heq⟩, -⟩, -, hbound⟩ := hboth j hj
    · omega
    · refine ⟨fd, hfd, k, hk, hback, _, hfits.getElem? hj hk fd, fun x hx => ?_⟩
      rw [← heq]
      exact hbound ⟨x, hx, rfl⟩

/-- Where a batch is covered, its channels have samples and its window is filled. -/
theorem filled_of_covered (hchannels : 0 < channels.toNat) (hcovered : Covered channels smplPerChan dbl) :
    0 < smplPerChan.toNat ∧ (windowSize smplPerChan dbl).toInt32.toInt ≠ 0 ∧
      (windowSize smplPerChan dbl).toInt32.toInt ≤ smplPerChan.toNat := by
  rcases hcovered with rfl | ⟨hpos, hle, -⟩ | ⟨hneg, -⟩
  · exact absurd hchannels (by decide)
  · exact ⟨by omega, by omega, hle⟩
  · refine ⟨Nat.pos_of_ne_zero fun hnone => ?_, by omega, by omega⟩
    obtain rfl : smplPerChan = 0 := UInt32.toNat_inj.mp hnone
    rw [windowSize, UInt32.zero_mul] at hneg
    exact absurd hneg (by decide)

/-- A new window is filled where its size is not zero and no larger than a channel. -/
theorem filled_replicate (hne : (windowSize smplPerChan dbl).toInt32.toInt ≠ 0)
    (hle : (windowSize smplPerChan dbl).toInt32.toInt ≤ smplPerChan.toNat) :
    Filled smplPerChan (windowSize smplPerChan dbl).toInt32 (.replicate (windowSize smplPerChan dbl).toNat none) := by
  have hcases := toInt_toInt32_cases (windowSize smplPerChan dbl)
  refine ⟨hne, hle, fun h => ?_, fun h => ?_⟩ <;> rw [List.length_replicate] <;> omega

/-- Without channels there is nothing to be wrong about. -/
theorem measured_of_no_channel (m : Meter) : ∃ m', meter 0 smplPerChan dbl m = .ok m' ∧ Measured 0 smplPerChan dbl m' := by
  have hyields : Yields (fun _ => False) (fun t : Window × Meter => t.2.inspected = [])
      (dbl.foldlM (meterFrame 0 smplPerChan (windowSize smplPerChan dbl).toInt32)
        (.replicate (windowSize smplPerChan dbl).toNat none, { m with inspected := [] })) :=
    Yields.foldlM (fun _ _ _ ht => ht) rfl
  obtain ⟨t, ht, hinspected⟩ := hyields.exists_ok
  refine ⟨t.2, by rw [meter_eq, ht]; rfl, fun j hj => absurd hj (Nat.not_lt_zero j), ?_⟩
  rw [hinspected]
  exact fun _ h => absurd h List.not_mem_nil

/-- A window that is not filled is read where nothing was written, or cannot be written at all. -/
theorem not_measured (hfits : Fits channels smplPerChan) (hchannels : 0 < channels.toNat) (hdbl : dbl ≠ [])
    (hnot : ¬(0 < smplPerChan.toNat ∧ (windowSize smplPerChan dbl).toInt32.toInt ≠ 0 ∧
      (windowSize smplPerChan dbl).toInt32.toInt ≤ smplPerChan.toNat)) :
    ¬∃ m', meter channels smplPerChan dbl m = .ok m' ∧ Measured channels smplPerChan dbl m' := by
  rintro ⟨m', hok, hmeasured⟩
  rw [meter_eq] at hok
  rcases Nat.eq_zero_or_pos smplPerChan.toNat with hnone | hpos
  · -- There is no sample that could be the largest.
    obtain ⟨p, -, ⟨x, ⟨fd, -, k, hk, -⟩, -⟩, -⟩ := hmeasured.peeks 0 hchannels
    omega
  · refine ((meterFrames_fails hfits hchannels hpos hdbl ?_ ?_).bind _).ne_ok m' hok
    · rw [List.length_replicate]
    · rw [List.length_replicate]
      have hcases := toInt_toInt32_cases (windowSize smplPerChan dbl)
      rw [← Int32.toInt_inj]
      show _ = 0 ∨ _
      omega

/-- The loops of a batch are right about its peaks, and look at the right samples, exactly when it is covered. -/
theorem measured_iff {batches : List Batch} (hbefore : meterAll batches = .ok m) (hdbl : dbl ≠ [])
    (hchannels : channels.toNat ≤ 64) (hdata : channels.toNat * smplPerChan.toNat ≤ 512)
    (hsamples : ∀ fd ∈ dbl, ∀ x ∈ fd.data, x ≠ -32768) :
    (∃ m', meter channels smplPerChan dbl m = .ok m' ∧ Measured channels smplPerChan dbl m') ↔
      Covered channels smplPerChan dbl := by
  have hfits : Fits channels smplPerChan := ⟨hchannels, hdata⟩
  have hmin : NoMin channels smplPerChan dbl := by
    rintro j - x ⟨fd, hfd, k, -, hx⟩
    exact hsamples fd hfd x (Vector.mem_of_getElem? hx)
  obtain ⟨fd, hfd⟩ : ∃ fd, fd ∈ dbl.getLast? := ⟨_, List.getLast?_eq_some_getLast hdbl⟩
  have hkept := meterAll_keeps hbefore
  have hready : Ready channels smplPerChan dbl { m with inspected := [] } :=
    ⟨hkept.m_peek, hkept.peeks, fun _ h => absurd h List.not_mem_nil⟩
  rcases Nat.eq_zero_or_pos channels.toNat with hnone | hchannels
  · obtain rfl : channels = 0 := UInt32.toNat_inj.mp hnone
    exact iff_of_true (measured_of_no_channel m) (Or.inl rfl)
  by_cases hfilled : 0 < smplPerChan.toNat ∧ (windowSize smplPerChan dbl).toInt32.toInt ≠ 0 ∧
      (windowSize smplPerChan dbl).toInt32.toInt ≤ smplPerChan.toNat
  · obtain ⟨hpos, hne, hle⟩ := hfilled
    have hyields := meterFrames_yields (E := fun _ => False)
      (s := (.replicate (windowSize smplPerChan dbl).toNat none, { m with inspected := [] })) hfits hmin
      (filled_replicate hne hle) hready hfd
    obtain ⟨t, ht, hready', hpeaks⟩ := hyields.exists_ok
    rw [meter_eq, ht]
    constructor
    · rintro ⟨m', hok, hmeasured⟩
      cases hok
      exact covered_of_measured hfits hle hfd hpeaks hne hmeasured
    · intro hcovered
      exact ⟨t.2, rfl, measured_of_ready hfits hcovered hchannels hfd hready' hpeaks hpos⟩
  · exact iff_of_false (not_measured hfits hchannels hdbl hfilled) fun hcovered =>
      hfilled (filled_of_covered hchannels hcovered)

/-- A frame whose samples fall from 512 on. -/
def falling (counter : UInt32) : FrameData := ⟨counter, .ofFn fun k => 512 - Int16.ofNat k.val, .replicate 64 0, 0⟩

theorem getElem?_falling (n : UInt32) {i : Nat} (hi : i < 512) : (falling n).data[i]? = some (512 - Int16.ofNat i) := by
  rw [Vector.getElem?_eq_getElem hi, falling, Vector.getElem_ofFn]

/-- Two frames, each in a batch of its own, with three samples of each of two channels. -/
theorem measured_iff_two : ∃ m m', meterAll [⟨2, 3, [falling 1]⟩] = .ok m ∧ meter 2 3 [falling 2] m = .ok m' ∧
    Measured 2 3 [falling 2] m' := by
  have hsamples : ∀ n, ∀ fd ∈ [falling n], ∀ x ∈ fd.data, x ≠ -32768 := by
    intro n fd hfd x hx
    obtain rfl := List.mem_singleton.mp hfd
    obtain ⟨k, hk, rfl⟩ := Vector.mem_iff_getElem.mp hx
    have hall : ∀ k < 512, 512 - Int16.ofNat k ≠ -32768 := by decide +kernel
    rw [falling, Vector.getElem_ofFn]
    exact hall k hk
  have hcovered : ∀ n, Covered 2 3 [falling n] := by
    intro n
    have hsize : (windowSize 3 [falling n]).toInt32.toInt = 3 := rfl
    refine Or.inr (Or.inl ?_)
    rw [hsize]
    refine ⟨by decide, by decide, fun j hj => ⟨falling n, rfl, 0, by decide, by decide, ?_⟩⟩
    have hj : j < 2 := hj
    refine ⟨_, getElem?_falling n (by omega), ?_⟩
    rintro x ⟨fd, hfd, k, hk, hx⟩
    have hk : k < 3 := hk
    obtain rfl := List.mem_singleton.mp hfd
    have hindex : k * (2 : UInt32).toNat + j = k * 2 + j := rfl
    rw [hindex, getElem?_falling n (by omega)] at hx
    obtain rfl := Option.some.inj hx
    have hall : ∀ k < 3, ∀ j < 2, |(512 - Int16.ofNat (k * 2 + j)).toInt| ≤ |(512 - Int16.ofNat (0 * 2 + j)).toInt| := by
      decide
    exact hall k hk j hj
  obtain ⟨m, hm, -⟩ := (@measured_iff 2 3 [falling 1] .new [] rfl (by decide) (by decide) (by decide) (hsamples 1)).mpr
    (hcovered 1)
  have hbefore : meterAll [⟨2, 3, [falling 1]⟩] = .ok m := by
    rw [meterAll, List.foldlM_cons]
    exact congrArg (· >>= pure) hm
  obtain ⟨m', hm', hmeasured⟩ := (@measured_iff 2 3 [falling 2] m _ hbefore (by decide) (by decide) (by decide)
    (hsamples 2)).mpr (hcovered 2)
  exact ⟨m, m', hbefore, hm', hmeasured⟩

/-- With two frames the window has a cell that is never written. -/
theorem measured_counterexample : ¬∀ (batches : List Batch) (m : Meter) (channels smplPerChan : UInt32) (dbl : List FrameData),
    meterAll batches = .ok m → dbl ≠ [] → channels.toNat ≤ 64 → channels.toNat * smplPerChan.toNat ≤ 512 →
    (∀ fd ∈ dbl, ∀ x ∈ fd.data, x ≠ -32768) →
    ∃ m', meter channels smplPerChan dbl m = .ok m' ∧ Measured channels smplPerChan dbl m' := by
  intro h
  obtain ⟨m', hok, -⟩ := h [] .new 1 1 [.silent 1, .silent 2] rfl (by decide) (by decide) (by decide)
    (by simp [FrameData.silent])
  rw [meter_eq] at hok
  refine ((meterFrames_fails ⟨by decide, by decide⟩ (by decide) (by decide) (by decide) ?_ ?_).bind _).ne_ok m' hok
  · rfl
  · exact Or.inr ⟨by decide, by decide⟩

/-- Where the size of the window does not wrap around, one frame is all that a batch may have. -/
theorem covered_iff_one (hfits : Fits channels smplPerChan) (hchannels : 0 < channels.toNat)
    (hpos : 0 < smplPerChan.toNat) (hdbl : dbl ≠ []) (hsize : smplPerChan.toNat * dbl.length < 2 ^ 31) :
    Covered channels smplPerChan dbl ↔ dbl.length = 1 := by
  have hlen : 0 < dbl.length := List.length_pos_iff.mpr hdbl
  have hle : dbl.length ≤ smplPerChan.toNat * dbl.length := Nat.le_mul_of_pos_left _ hpos
  have hwindow : (windowSize smplPerChan dbl).toNat = smplPerChan.toNat * dbl.length := by
    rw [windowSize, UInt32.toNat_mul, UInt32.toNat_ofNat_of_lt' (show dbl.length < 2 ^ 32 by omega)]
    omega
  have hint : (windowSize smplPerChan dbl).toInt32.toInt = (smplPerChan.toNat * dbl.length : Nat) := by
    have hcases := toInt_toInt32_cases (windowSize smplPerChan dbl)
    omega
  constructor
  · intro hcovered
    obtain ⟨-, -, hle⟩ := filled_of_covered hchannels hcovered
    rw [hint] at hle
    have hmul : smplPerChan.toNat * dbl.length ≤ smplPerChan.toNat * 1 := by omega
    have hone := Nat.le_of_mul_le_mul_left hmul hpos
    omega
  · intro hone
    obtain ⟨fd, rfl⟩ := List.length_eq_one_iff.mp hone
    rw [List.length_singleton, Nat.mul_one] at hint
    refine Or.inr (Or.inl ⟨by omega, by omega, fun j hj => ?_⟩)
    obtain ⟨k, hk, hmax⟩ := Finset.exists_max_image (Finset.range smplPerChan.toNat)
      (fun k => |(channelSample channels fd j k).toInt|) ⟨0, Finset.mem_range.mpr hpos⟩
    have hk := Finset.mem_range.mp hk
    refine ⟨fd, rfl, k, hk, by omega, _, hfits.getElem? hj hk fd, ?_⟩
    rintro x ⟨fd', hfd', k', hk', hx⟩
    rw [List.mem_singleton.mp hfd', hfits.getElem? hj hk' fd] at hx
    rw [← Option.some.inj hx]
    exact hmax k' (Finset.mem_range.mpr hk')

end Measured

end Recd2.Helper
