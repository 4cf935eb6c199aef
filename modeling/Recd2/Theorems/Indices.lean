import Recd2.Indices
import Recd2.Theorems.Agreement
import Recd2.Theorems.Deinterleave

/-! When all the indices are within the arrays: the number of channels must fit into `null_bytes` and `peeks`, and
    the samples of all channels into the 512 samples of a frame. `Server::init` ensures neither. -/

namespace Recd2
open Interleave

/-! ### The strided index -/

section Strided
variable {channels smplPerChan : UInt32} {i j : Nat}

theorem toNat_strided (channels : UInt32) (i j : Nat) :
    (UInt32.ofNat j * channels + UInt32.ofNat i).toNat = pos channels.toNat i j % 2 ^ 32 := by
  rw [UInt32.toNat_add, UInt32.toNat_mul, UInt32.toNat_ofNat', UInt32.toNat_ofNat', pos]
  simp [Nat.add_mod, Nat.mul_mod]

theorem toNat_strided_of_lt (h : channels.toNat * smplPerChan.toNat ≤ 512) (hi : i < channels.toNat)
    (hj : j < smplPerChan.toNat) : (UInt32.ofNat j * channels + UInt32.ofNat i).toNat = pos channels.toNat i j := by
  have hpos := pos_lt hi hj
  rw [toNat_strided, Nat.mod_eq_of_lt (by omega)]

/-- Within the bounds, the loops reach the positions that the blocks are read from. -/
theorem map_toNat_stridedRow (h : channels.toNat * smplPerChan.toNat ≤ 512) :
    ((List.range channels.toNat).map fun i => (stridedRow channels smplPerChan i).map UInt32.toNat) =
      positions channels.toNat smplPerChan.toNat := by
  refine List.map_congr_left fun i hi => ?_
  rw [stridedRow, List.map_map]
  exact List.map_congr_left fun j hj => toNat_strided_of_lt h (List.mem_range.mp hi) (List.mem_range.mp hj)

/-- The samples of the blocks are what the loops read at these indices. -/
theorem deinterleave_reads (h : channels.toNat * smplPerChan.toNat ≤ 512) (signal : Nat → UInt8) (f : FrameData) :
    (deinterleave channels smplPerChan signal f).map SampleData.samples =
      (List.range channels.toNat).map fun i => (stridedRow channels smplPerChan i).map fun k => f.sample k.toNat := by
  rw [map_samples_deinterleave, ← map_toNat_stridedRow h, List.map_map]
  refine List.map_congr_left fun i _ => ?_
  rw [Function.comp_apply, List.map_map]
  rfl

theorem lt_of_mem_stridedRow (h : channels.toNat * smplPerChan.toNat ≤ 512) (hi : i < channels.toNat) {k : UInt32}
    (hk : k ∈ stridedRow channels smplPerChan i) : k.toNat < 512 := by
  obtain ⟨j, hj, rfl⟩ := List.mem_map.mp hk
  have hj := List.mem_range.mp hj
  have hpos := pos_lt hi hj
  rw [toNat_strided_of_lt h hi hj]
  omega

end Strided

/-! ### Safety -/

/-- Each index that the four functions use is within its array, whatever the frames are. -/
structure IndexSafe (s : Server) : Prop where
  init : ∀ a ∈ s.initAccesses, a.InBounds
  handle : ∀ udp, ∀ a ∈ s.handleAccesses udp, a.InBounds
  writer : ∀ rounds, ∀ a ∈ TcpServer.Writer.accesses s.smplPerChan (s.channels * s.smplPerChan) rounds 0, a.InBounds
  helper : ∀ dbl, ∀ a ∈ Helper.accesses s dbl, a.InBounds

/-- The shape fits into the arrays. -/
def Server.ShapeFits (s : Server) : Prop :=
  s.channels.toNat ≤ 64 ∧ s.channels.toNat * s.smplPerChan.toNat ≤ 512

theorem inBounds_of_lt {array : FixedArray} {n : Nat} (h : n < array.size) : (⟨array, n⟩ : Access).InBounds :=
  ⟨Int.natCast_nonneg n, Int.ofNat_lt.mpr h⟩

/-- A round starts at a multiple of the samples of a channel, and so ends at `MAX` at most. -/
theorem writerAccesses_inBounds {smplPerChan max : UInt32} (hmax : max.toNat ≤ 512) (hdvd : smplPerChan.toNat ∣ max.toNat)
    (rounds : Nat) (i : UInt32) (hi : smplPerChan.toNat ∣ i.toNat) :
    ∀ a ∈ TcpServer.Writer.accesses smplPerChan max rounds i, a.InBounds := by
  induction rounds generalizing i with
  | zero =>
    intro a ha
    cases ha
  | succ rounds ih =>
    intro a ha
    rw [TcpServer.Writer.accesses] at ha
    split at ha
    · rename_i hlt
      have hround : i.toNat + smplPerChan.toNat ≤ max.toNat := by
        obtain ⟨m, hm⟩ := hdvd
        obtain ⟨k, hk⟩ := hi
        rw [UInt32.lt_iff_toNat_lt, hm, hk] at hlt
        rw [hm, hk, ← Nat.mul_succ]
        exact Nat.mul_le_mul_left _ (Nat.lt_of_mul_lt_mul_left hlt)
      rcases List.mem_append.mp ha with ha | ha
      · obtain ⟨j, hj, ha⟩ := List.mem_flatMap.mp ha
        have hj := List.mem_range.mp hj
        rcases List.mem_cons.mp ha with rfl | ha
        · exact inBounds_of_lt (show j < 512 by omega)
        · rw [List.mem_singleton.mp ha]
          refine inBounds_of_lt (show _ < 512 from ?_)
          rw [UInt32.toNat_add, UInt32.toNat_ofNat']
          omega
      · refine ih _ ?_ a ha
        rw [UInt32.toNat_add, Nat.mod_eq_of_lt (by omega)]
        exact Nat.dvd_add hi (Nat.dvd_refl _)
    · cases ha

section Fits
variable {s : Server} (h : s.ShapeFits)
include h

theorem initAccesses_inBounds : ∀ a ∈ s.initAccesses, a.InBounds := by
  intro a ha
  obtain ⟨i, hi, ha⟩ := List.mem_flatMap.mp ha
  obtain ⟨j, hj, rfl⟩ := List.mem_map.mp ha
  have hpos := pos_lt (List.mem_range.mp hj) (List.mem_range.mp hi)
  have h512 := h.2
  refine inBounds_of_lt ?_
  rw [toNat_strided_of_lt h.2 (List.mem_range.mp hj) (List.mem_range.mp hi)]
  show _ < 512
  omega

theorem errAccesses_inBounds : ∀ a ∈ s.errAccesses, a.InBounds := by
  intro a ha
  obtain ⟨i, hi, ha⟩ := List.mem_flatMap.mp ha
  obtain ⟨k, hk, rfl⟩ := List.mem_map.mp ha
  exact inBounds_of_lt (lt_of_mem_stridedRow h.2 (List.mem_range.mp hi) hk)

theorem frameAccesses_inBounds : ∀ a ∈ s.frameAccesses, a.InBounds := by
  intro a ha
  obtain ⟨i, hi, ha⟩ := List.mem_flatMap.mp ha
  have hi := List.mem_range.mp hi
  rcases List.mem_cons.mp ha with rfl | ha
  · exact inBounds_of_lt (Nat.lt_of_lt_of_le hi h.1)
  · obtain ⟨k, hk, rfl⟩ := List.mem_map.mp ha
    have hlt := lt_of_mem_stridedRow h.2 hi hk
    have hint : k.toInt32.toInt = k.toNat := BitVec.toInt_eq_toNat_of_lt (show 2 * k.toNat < 2 ^ 32 by omega)
    rw [hint]
    exact inBounds_of_lt hlt

theorem handleAccesses_inBounds (udp : FrameData) : ∀ a ∈ s.handleAccesses udp, a.InBounds := by
  intro a ha
  rw [Server.handleAccesses] at ha
  split at ha
  · split at ha
    · exact errAccesses_inBounds h a ha
    · obtain ⟨as, has, ha⟩ := List.mem_flatten.mp ha
      rw [List.eq_of_mem_replicate has] at ha
      exact errAccesses_inBounds h a ha
  · split at ha
    · exact frameAccesses_inBounds h a ha
    · cases ha

theorem helperAccesses_inBounds (dbl : List FrameData) : ∀ a ∈ Helper.accesses s dbl, a.InBounds := by
  intro a ha
  rw [Helper.accesses] at ha
  split at ha
  · cases ha
  obtain ⟨-, -, ha⟩ := List.mem_flatMap.mp ha
  obtain ⟨j, hj, ha⟩ := List.mem_flatMap.mp ha
  have hj := List.mem_range.mp hj
  rcases List.mem_append.mp ha with ha | ha
  · obtain ⟨k, hk, rfl⟩ := List.mem_map.mp ha
    exact inBounds_of_lt (lt_of_mem_stridedRow h.2 hj hk)
  · rw [List.mem_singleton.mp ha]
    exact inBounds_of_lt (Nat.lt_of_lt_of_le hj h.1)

theorem Server.ShapeFits.indexSafe : IndexSafe s where
  init := initAccesses_inBounds h
  handle := handleAccesses_inBounds h
  writer := by
    have h512 := h.2
    have hmax : (s.channels * s.smplPerChan).toNat = s.channels.toNat * s.smplPerChan.toNat := by
      rw [UInt32.toNat_mul, Nat.mod_eq_of_lt (by omega)]
    intro rounds
    refine writerAccesses_inBounds ?_ ?_ rounds 0 (Nat.dvd_zero _)
    · rwa [hmax]
    · rw [hmax]
      exact Nat.dvd_mul_left _ _
  helper := helperAccesses_inBounds h

end Fits

/-- The loops of `init` reach `data[512]` when there are more samples. -/
theorem IndexSafe.samples_le {s : Server} (h : IndexSafe s) : s.channels.toNat * s.smplPerChan.toNat ≤ 512 := by
  by_contra hgt
  have hgt : 512 < s.channels.toNat * s.smplPerChan.toNat := Nat.not_le.mp hgt
  have hmem : ⟨.errUdpData, 512⟩ ∈ s.initAccesses := by
    refine List.mem_flatMap.mpr ⟨512 / s.channels.toNat, List.mem_range.mpr (div_lt_of_lt hgt), ?_⟩
    refine List.mem_map.mpr ⟨512 % s.channels.toNat, List.mem_range.mpr (mod_lt_of_lt hgt), ?_⟩
    rw [toNat_strided, pos_mod_div]
    rfl
  exact absurd (h.init _ hmem).2 (by decide)

/-- The handler reaches `null_bytes[64]` in multi-file mode when there are more channels. -/
theorem IndexSafe.channels_le {s : Server} (h : IndexSafe s) (hs : s.singleFile = false) : s.channels.toNat ≤ 64 := by
  by_contra hgt
  have hgt : 64 < s.channels.toNat := Nat.not_le.mp hgt
  have hmem : ⟨.nullBytes, 64⟩ ∈ s.handleAccesses (.silent (s.connInfo.paketCounter + 1)) := by
    rw [Server.handleAccesses, if_neg (by simp [FrameData.silent]), hs]
    exact List.mem_flatMap.mpr ⟨64, List.mem_range.mpr hgt, List.mem_cons_self⟩
  exact absurd (h.handle _ _ hmem).2 (by decide)

/-! ### All settings -/

/-- The samples per channel that `Server::init` takes from an attribute. -/
def sampleNumber (a : Attrib) : Nat :=
  match attribNumber a with
  | some n => (n % 2 ^ 32).toNat
  | none => 16

theorem initSmplPerChan_eq (a : Attrib) : (Server.initSmplPerChan a).toNat = sampleNumber a := by
  rw [Server.initSmplPerChan, sampleNumber, attribNumber]
  by_cases ha : a.type1 = ""
  · rw [if_pos ha, if_pos ha]
    rfl
  · rw [if_neg ha, if_neg ha, QString.toInt]
    cases QString.toIntegral 32 a.type2 with
    | none => rfl
    | some n => exact toNat_toUInt32_ofInt n

namespace Server
variable {next : Next} {s : Server}

/-- Nothing but `init` writes the settings. -/
theorem settings_step (i : Input) :
    (s.step next i).1.channels = s.channels ∧ (s.step next i).1.smplPerChan = s.smplPerChan ∧
      (s.step next i).1.singleFile = s.singleFile := by
  cases i with
  | readyRead pending =>
    by_cases hp : pending = []
    · subst hp
      exact ⟨rfl, rfl, rfl⟩
    · rw [step, readyReadUdp_cons s hp, state_handleDatagram]
      exact ⟨rfl, rfl, rfl⟩
  | timeout =>
    rw [step, checkConnection]
    split <;> exact ⟨rfl, rfl, rfl⟩

theorem settings_run (is : List Input) :
    (Run.state (step next) s is).channels = s.channels ∧ (Run.state (step next) s is).smplPerChan = s.smplPerChan ∧
      (Run.state (step next) s is).singleFile = s.singleFile := by
  induction is generalizing s with
  | nil => exact ⟨rfl, rfl, rfl⟩
  | cons i is ih =>
    obtain ⟨hchannels, hsamples, hsingle⟩ := @settings_step next s i
    obtain ⟨hchannels', hsamples', hsingle'⟩ := @ih (s.step next i).1
    exact ⟨hchannels'.trans hchannels, hsamples'.trans hsamples, hsingle'.trans hsingle⟩

theorem shapeFits_configure_iff {cfg cfg' : RecorderConfig} (h : cfg'.tags "FrameData" = cfg.tags "FrameData")
    (s₀ : Server) (is : List Input) :
    (Run.state (step next) (s₀.configure cfg') is).ShapeFits ↔
      slotNumber (cfg.getAttribPairFromTag "FrameData" "channels") ≤ 64 ∧
        slotNumber (cfg.getAttribPairFromTag "FrameData" "channels") *
          sampleNumber (cfg.getAttribPairFromTag "FrameData" "samplesPerChan") ≤ 512 := by
  obtain ⟨hchannels, hsamples, -⟩ := @settings_run next (s₀.configure cfg') is
  have hch : (s₀.configure cfg').channels.toNat = slotNumber (cfg.getAttribPairFromTag "FrameData" "channels") := by
    rw [← slotNumber_congr h "channels"]
    exact initChannels_eq _
  have hsmpl : (s₀.configure cfg').smplPerChan.toNat =
      sampleNumber (cfg.getAttribPairFromTag "FrameData" "samplesPerChan") := by
    rw [sampleNumber, ← attribNumber_congr h "samplesPerChan", ← sampleNumber]
    exact initSmplPerChan_eq _
  rw [ShapeFits, hchannels, hsamples, hch, hsmpl]

/-- The same settings in multi-file mode. -/
def multiFile (cfg : RecorderConfig) : RecorderConfig :=
  { cfg with tags := fun tag => if tag = "Record" then [⟨"files", "2"⟩] else cfg.tags tag }

theorem singleFile_multiFile (cfg : RecorderConfig) (s₀ : Server) : (s₀.configure (multiFile cfg)).singleFile = false := by
  have hfiles : (multiFile cfg).getAttribPairFromTag "Record" "files" = ⟨"files", "2"⟩ := rfl
  have hmode : initSingleFile ⟨"files", "2"⟩ = false := by decide
  rw [configure, hfiles]
  exact hmode

end Server

/-- Whatever else is set, and in every state that the server reaches, all indices are within their arrays exactly
    when the texts of `FrameData` give at most 64 channels, and at most 512 samples for all of them. -/
theorem indices_safe_iff (cfg : RecorderConfig) :
    (∀ cfg' : RecorderConfig, cfg'.tags "FrameData" = cfg.tags "FrameData" → ∀ next s₀ is,
        IndexSafe (Run.state (Server.step next) (Server.configure cfg' s₀) is)) ↔
      slotNumber (cfg.getAttribPairFromTag "FrameData" "channels") ≤ 64 ∧
        slotNumber (cfg.getAttribPairFromTag "FrameData" "channels") *
          sampleNumber (cfg.getAttribPairFromTag "FrameData" "samplesPerChan") ≤ 512 := by
  constructor
  · intro h
    have hsafe := h (Server.multiFile cfg) rfl none .new []
    exact (@Server.shapeFits_configure_iff none cfg (Server.multiFile cfg) rfl .new []).mp
      ⟨hsafe.channels_le (Server.singleFile_multiFile cfg .new), hsafe.samples_le⟩
  · intro hfits cfg' htags next s₀ is
    exact ((Server.shapeFits_configure_iff htags s₀ is).mpr hfits).indexSafe

/-- 127 channels of 16 samples do not fit into the 512 samples of a frame. -/
def wideConfig : RecorderConfig where
  tags tag := if tag = "FrameData" then [⟨"channels", "127"⟩, ⟨"samplesPerChan", "16"⟩] else []
  notFound := ""

theorem indices_counterexample :
    ¬∀ (cfg : RecorderConfig) (next : Server.Next) (s₀ : Server) (is : List Server.Input),
      IndexSafe (Run.state (Server.step next) (s₀.configure cfg) is) := by
  intro h
  have hsamples := (h wideConfig none .new []).samples_le
  exact absurd hsamples (by decide)

end Recd2
