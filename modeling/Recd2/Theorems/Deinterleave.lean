import Recd2.Lib.Interleave
import Recd2.Theorems.Handler

/-! The samples of a frame in the two modes. In multi-file mode the blocks can be interleaved again without
    loss; in single-file mode the block has the samples of the frame in its first half only. -/

namespace Recd2
open Interleave

/-! ### Multi-file mode -/

section Blocks
variable (channels smplPerChan : UInt32) (signal : Nat → UInt8) (f : FrameData)

theorem map_samples_deinterleave :
    (deinterleave channels smplPerChan signal f).map SampleData.samples =
      (positions channels.toNat smplPerChan.toNat).map (List.map f.sample) := by
  rw [deinterleave, positions, List.map_map, List.map_map]
  refine List.map_congr_left fun i _ => ?_
  rw [Function.comp_apply, Function.comp_apply, List.map_map]
  rfl

theorem map_sample_range {n : Nat} (h : n ≤ 512) :
    (List.range n).map (fun k => some (f.sample k)) = (f.data.toList.take n).map some := by
  refine List.ext_getElem? fun k => ?_
  simp only [List.getElem?_map, List.getElem?_take]
  by_cases hk : k < n
  · have hk' : k < 512 := by omega
    simp [hk, FrameData.sample, hk']
  · simp [hk]

/-- The list is the first samples of the frame, channel by channel: the blocks have the announced shape, their
    samples are those at `positions`, each position is used once, and weaving the blocks gives the frame back. -/
structure Lossless (ls : QList) : Prop where
  blocks : ls.length = channels.toNat
  sizes : ∀ b ∈ ls, b.size = smplPerChan ∧ b.samples.length = smplPerChan.toNat
  samples : ls.map SampleData.samples = (positions channels.toNat smplPerChan.toNat).map (List.map f.sample)
  inBounds : ∀ k ∈ (positions channels.toNat smplPerChan.toNat).flatten, k < channels.toNat * smplPerChan.toNat
  once : (positions channels.toNat smplPerChan.toNat).flatten.Perm (List.range (channels.toNat * smplPerChan.toNat))
  restored : weave channels.toNat smplPerChan.toNat (ls.map SampleData.samples) =
    (f.data.toList.take (channels.toNat * smplPerChan.toNat)).map some

theorem lossless_deinterleave (h : channels.toNat * smplPerChan.toNat ≤ 512) :
    Lossless channels smplPerChan f (deinterleave channels smplPerChan signal f) where
  blocks := by rw [deinterleave, List.length_map, List.length_range]
  sizes := by
    intro b hb
    obtain ⟨i, -, rfl⟩ := List.mem_map.mp hb
    exact ⟨rfl, by rw [List.length_map, List.length_range]⟩
  samples := map_samples_deinterleave channels smplPerChan signal f
  inBounds := fun _ hk => mem_positions.mp hk
  once := positions_perm _ _
  restored := by rw [map_samples_deinterleave, weave_positions, map_sample_range f h]

end Blocks

namespace Server
variable {next : Next} {s : Server} {d : Datagram}

theorem handleDatagram_next (hd : d.length = sizeofFrameData)
    (hseq : (FrameData.ofBytes d).counter = s.connInfo.paketCounter + 1) :
    (handleDatagram next s d).2 = [.putData (s.frameList (FrameData.ofBytes d))] := by
  rw [handleDatagram, if_pos hd]
  exact if_neg (not_not_intro hseq)

/-- What the handler of the next datagram sends in multi-file mode. -/
theorem deinterleave_lossless (next : Next) (s : Server) (d : Datagram) (hs : s.singleFile = false)
    (hd : d.length = sizeofFrameData) (hseq : (FrameData.ofBytes d).counter = s.connInfo.paketCounter + 1)
    (h512 : s.channels.toNat * s.smplPerChan.toNat ≤ 512) :
    ∃ ls, (handleDatagram next s d).2 = [.putData ls] ∧ Lossless s.channels s.smplPerChan (FrameData.ofBytes d) ls := by
  refine ⟨_, handleDatagram_next hd hseq, ?_⟩
  rw [frameList, hs]
  exact lossless_deinterleave _ _ _ _ h512

/-- A server for two channels of three samples. -/
def threeSamples : Server := { new with channels := 2, smplPerChan := 3 }

theorem deinterleave_lossless_silent :
    ∃ ls, (handleDatagram none threeSamples (FrameData.silent 1).toBytes).2 = [.putData ls] ∧
      Lossless 2 3 (FrameData.ofBytes (FrameData.silent 1).toBytes) ls :=
  deinterleave_lossless none threeSamples (FrameData.silent 1).toBytes rfl (FrameData.length_toBytes _)
    (by rw [FrameData.ofBytes_toBytes]; rfl) (by decide)

/-! ### Single-file mode -/

/-- What the two modes send for the datagram, where sample `j` of block `i` is sample `j * m_channels + i` of the
    one block of single-file mode. -/
def SameAudio (next : Next) (s : Server) (d : Datagram) : Prop :=
  ∃ block ls, (handleDatagram next { s with singleFile := true } d).2 = [.putData [block]] ∧
    (handleDatagram next { s with singleFile := false } d).2 = [.putData ls] ∧
    block.size = 512 ∧ block.samples.length = 512 ∧
    ∀ i < s.channels.toNat, ∀ j < s.smplPerChan.toNat, ∃ b x, ls[i]? = some b ∧ b.samples[j]? = some x ∧
      block.samples[j * s.channels.toNat + i]? = some x

/-- The samples of the block of single-file mode. -/
def singleFileSamples (s : Server) (f : FrameData) : List Int16 :=
  (List.range 512).map fun k => if 2 * k < 512 then f.sample k else s.fresh k

theorem getElem?_singleFileSamples {f : FrameData} {k : Nat} (hk : k < 512) :
    (s.singleFileSamples f)[k]? = some (if k < 256 then f.sample k else s.fresh k) := by
  rw [singleFileSamples, List.getElem?_map, List.getElem?_range hk, Option.map_some]
  congr 2
  simp only [eq_iff_iff]
  omega

theorem getElem?_deinterleave (channels smplPerChan : UInt32) (signal : Nat → UInt8) (f : FrameData) {i j : Nat}
    (hi : i < channels.toNat) (hj : j < smplPerChan.toNat) :
    ∃ b, (deinterleave channels smplPerChan signal f)[i]? = some b ∧
      b.samples[j]? = some (f.sample (j * channels.toNat + i)) := by
  refine ⟨_, by rw [deinterleave, List.getElem?_map, List.getElem?_range hi]; rfl, ?_⟩
  rw [List.getElem?_map, List.getElem?_range hj]
  rfl

section Modes
variable (hd : d.length = sizeofFrameData) (hseq : (FrameData.ofBytes d).counter = s.connInfo.paketCounter + 1)
include hd hseq

theorem handleDatagram_singleFile :
    (handleDatagram next { s with singleFile := true } d).2 =
      [.putData [⟨1, s.singleFileSamples (FrameData.ofBytes d), 512⟩]] :=
  @handleDatagram_next next { s with singleFile := true } d hd hseq

theorem handleDatagram_multiFile :
    (handleDatagram next { s with singleFile := false } d).2 =
      [.putData (deinterleave s.channels s.smplPerChan (FrameData.ofBytes d).nullByte (FrameData.ofBytes d))] :=
  @handleDatagram_next next { s with singleFile := false } d hd hseq

theorem sameAudio_iff_samples (h512 : s.channels.toNat * s.smplPerChan.toNat = 512) :
    SameAudio next s d ↔
      ∀ k < 512, (s.singleFileSamples (FrameData.ofBytes d))[k]? = some ((FrameData.ofBytes d).sample k) := by
  have hblocks := fun i j => @getElem?_deinterleave s.channels s.smplPerChan (FrameData.ofBytes d).nullByte (FrameData.ofBytes d) i j
  rw [SameAudio, handleDatagram_singleFile hd hseq, handleDatagram_multiFile hd hseq]
  constructor
  · rintro ⟨block, ls, hblock, hls, -, -, hsame⟩ k hk
    rw [List.singleton_inj, Event.putData.injEq] at hblock hls
    rw [List.singleton_inj] at hblock
    rw [← h512] at hk
    obtain ⟨b, x, hb, hx, hk'⟩ := hsame _ (mod_lt_of_lt hk) _ (div_lt_of_lt hk)
    obtain ⟨b', hb', hx'⟩ := hblocks _ _ (mod_lt_of_lt hk) (div_lt_of_lt hk)
    rw [← hls] at hb
    obtain rfl : b = b' := Option.some.inj (hb.symm.trans hb')
    have hpos : k / s.channels.toNat * s.channels.toNat + k % s.channels.toNat = k := pos_mod_div s.channels.toNat k
    rw [hpos] at hk' hx'
    rw [← hx', hx, ← hk', ← hblock]
  · intro hsame
    refine ⟨_, _, rfl, rfl, ?_, ?_, fun i hi j hj => ?_⟩
    · rfl
    · rw [singleFileSamples, List.length_map, List.length_range]
    · obtain ⟨b, hb, hx⟩ := hblocks i j hi hj
      have hpos : j * s.channels.toNat + i < 512 := h512 ▸ pos_lt hi hj
      refine ⟨b, (FrameData.ofBytes d).sample (j * s.channels.toNat + i), hb, hx, ?_⟩
      rw [hsame (j * s.channels.toNat + i) hpos]

end Modes

/-- The modes carry the same audio exactly when the memory behind the copied samples happens to hold the rest of
    the frame. -/
theorem sameAudio_iff (next : Next) (s : Server) (d : Datagram) (hd : d.length = sizeofFrameData)
    (hseq : (FrameData.ofBytes d).counter = s.connInfo.paketCounter + 1)
    (h512 : s.channels.toNat * s.smplPerChan.toNat = 512) :
    SameAudio next s d ↔ ∀ k, 256 ≤ k → k < 512 → s.fresh k = (FrameData.ofBytes d).sample k := by
  rw [sameAudio_iff_samples hd hseq h512]
  constructor
  · intro h k h256 hk
    have hsample := h k hk
    rw [getElem?_singleFileSamples hk, if_neg (Nat.not_lt.mpr h256)] at hsample
    exact Option.some.inj hsample
  · intro h k hk
    rw [getElem?_singleFileSamples hk]
    split
    · rfl
    · rename_i h256
      rw [h k (Nat.not_lt.mp h256) hk]

/-- A server whose channels fill the frame. -/
def fullFrame : Server := { new with channels := 32, smplPerChan := 16 }

/-- A frame whose only sample is the last one. -/
def lastSample : FrameData := { FrameData.silent 1 with data := (Vector.replicate 512 0).set 511 1 }

theorem sameAudio_iff_silent :
    SameAudio none fullFrame (FrameData.silent 1).toBytes ↔
      ∀ k, 256 ≤ k → k < 512 → fullFrame.fresh k = (FrameData.ofBytes (FrameData.silent 1).toBytes).sample k :=
  sameAudio_iff none fullFrame _ (FrameData.length_toBytes _) (by rw [FrameData.ofBytes_toBytes]; rfl) (by decide)

theorem sameAudio_counterexample :
    ¬∀ (next : Next) (s : Server) (d : Datagram), d.length = sizeofFrameData →
      (FrameData.ofBytes d).counter = s.connInfo.paketCounter + 1 → s.channels.toNat ≤ 64 →
      s.channels.toNat * s.smplPerChan.toNat = 512 → SameAudio next s d := by
  intro h
  have hcounter : (FrameData.ofBytes lastSample.toBytes).counter = fullFrame.connInfo.paketCounter + 1 := by
    rw [FrameData.ofBytes_toBytes]
    rfl
  have hsame := h none fullFrame lastSample.toBytes (FrameData.length_toBytes _) hcounter (by decide) (by decide)
  rw [sameAudio_iff_samples (FrameData.length_toBytes _) hcounter (by decide), FrameData.ofBytes_toBytes] at hsame
  have hlast := hsame 511 (by decide)
  have hsample : lastSample.sample 511 = 1 := by simp [FrameData.sample, lastSample]
  rw [getElem?_singleFileSamples (by decide), hsample] at hlast
  exact absurd hlast (by decide)

end Server
end Recd2
