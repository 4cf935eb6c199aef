import Recd2.Theorems.DtmfPlugin
import Recd2.Theorems.DtmfSession
import Recd2.Theorems.Heard

/-! What the DTMF plugin makes frames of in a session of the UDP streamer: the first channel of some of the lists sent, in their
    order. The list of a gap gives a frame of one value. -/

namespace Recd2
open Checked

/-! ### The first blocks -/

namespace Server
variable {next : Next} {s : Server}

theorem sample_fillErrUdp {channels smplPerChan : UInt32} (f : FrameData)
    (hfit : channels.toNat * smplPerChan.toNat ≤ 512) {k : Nat} (hk : k < smplPerChan.toNat * channels.toNat) :
    (fillErrUdp channels smplPerChan f).sample k = 32000 := by
  have hfilled : ∀ k < smplPerChan.toNat * channels.toNat, (fillErrUdp channels smplPerChan f).data[k]? = some 32000 := by
    refine Run.foldl_range (P := fun i (data : Vector Int16 512) => ∀ k < i * channels.toNat, data[k]? = some 32000)
      (fun k hk => ?_) fun i data hi hdata => ?_
    · rw [Nat.zero_mul] at hk
      exact absurd hk (Nat.not_lt_zero k)
    · have hroom : (i + 1) * channels.toNat ≤ 512 :=
        (Nat.mul_le_mul_right _ hi).trans ((Nat.mul_comm _ _).le.trans hfit)
      rw [Nat.succ_mul] at hroom ⊢
      refine Run.foldl_range (P := fun j (data : Vector Int16 512) => ∀ k < i * channels.toNat + j, data[k]? = some 32000)
        hdata fun j data hj hdata k hk => ?_
      rw [Vector.getElem?_setIfInBounds]
      split_ifs with hlast hin
      · rfl
      · omega
      · exact hdata k (by omega)
  rw [FrameData.sample, hfilled k hk]
  rfl

theorem errUdp_of_init {bind : UInt16 → Bool} {cfg cfg' : RecorderConfig} (h : init bind cfg .new = some (s, cfg')) :
    s.errUdp = fillErrUdp s.channels s.smplPerChan Server.new.errUdp := by
  rw [init] at h
  split at h
  · obtain ⟨rfl, -⟩ := Prod.mk.inj (Option.some.inj h)
    split <;> rfl
  · split at h
    · obtain ⟨rfl, -⟩ := Prod.mk.inj (Option.some.inj h)
      rfl
    · cases h

theorem channels_pos_of_init {bind : UInt16 → Bool} {cfg cfg' : RecorderConfig} {s₀ : Server}
    (h : init bind cfg s₀ = some (s, cfg')) : 0 < s.channels.toNat := by
  rw [(init_spec h).2.1, initChannels_eq, ← initMaxChans_eq]
  exact (Recorder.initMaxChans_bounds _).1

/-- The block of the first channel in the list of a place. -/
def firstBlock (s : Server) : Slot → SampleData
  | .frame f =>
    ⟨f.nullByte 0, (List.range s.smplPerChan.toNat).map fun j => f.sample (j * s.channels.toNat), s.smplPerChan⟩
  | .filler _ => ⟨0, List.replicate s.smplPerChan.toNat 32000, s.smplPerChan⟩

section Heads
variable (hnext : ∀ ls, putData next ls ⊆ ls) (hpos : 0 < s.channels.toNat)
  (herr : s.errUdp = fillErrUdp s.channels s.smplPerChan Server.new.errUdp)
  (hfit : s.channels.toNat * s.smplPerChan.toNat ≤ 512)
include hnext hpos herr hfit

theorem head?_sent {p : Slot} {ls : QList} (h : Slot.Sent next s p ls) : ls.head? = some (s.firstBlock p) := by
  cases p with
  | frame f =>
    have hls : ls = deinterleave s.channels s.smplPerChan f.nullByte f := h
    rw [hls, deinterleave, List.head?_map, List.head?_range, if_neg (Nat.ne_of_gt hpos)]
    rfl
  | filler first =>
    obtain ⟨-, hsuffix, hblocks⟩ := h
    have hlen : 0 < ls.length := Nat.lt_of_lt_of_le (s.length_errBlocks.symm ▸ hpos) hsuffix.length_le
    obtain ⟨b, ls, rfl⟩ := List.exists_cons_of_length_pos hlen
    obtain ⟨i, hi, rfl⟩ := List.mem_map.mp (hblocks hnext b List.mem_cons_self)
    have hsamples : (List.range s.smplPerChan.toNat).map (fun j => s.errUdp.sample (j * s.channels.toNat + i)) =
        List.replicate s.smplPerChan.toNat 32000 := by
      refine List.eq_replicate_iff.mpr ⟨by rw [List.length_map, List.length_range], List.forall_mem_map.mpr fun j hj => ?_⟩
      have hlt := Nat.mul_le_mul_right s.channels.toNat (List.mem_range.mp hj)
      rw [Nat.succ_mul] at hlt
      rw [herr]
      exact sample_fillErrUdp _ hfit (by have hi := List.mem_range.mp hi; omega)
    rw [List.head?_cons, hsamples]
    rfl

theorem heads_sent {ps : List Slot} {lss : List QList} (h : List.Forall₂ (Slot.Sent next s) ps lss) :
    lss.filterMap List.head? = ps.map s.firstBlock := by
  induction h with
  | nil => rfl
  | cons hp _ ih => rw [List.filterMap_cons_some (head?_sent hnext hpos herr hfit hp), List.map_cons, ih]

end Heads
end Server

/-! ### Sessions -/

namespace DtmfSession
open DtmfPlugin

section Calls
variable {chain : Chain} {fuel : Nat} {s_frameSize : Int32} {s : DtmfSession}

/-- The lists on their way to the plugin. -/
def onTheWay (chain : Chain) (s : DtmfSession) : List QList :=
  s.outbox ++ putDataCalls (Run.emits (Server.step chain.next) s.server s.inbox)

theorem onTheWay_handle (s : DtmfSession) : onTheWay chain (s.handle chain) = onTheWay chain s := by
  unfold handle
  split
  · rename_i i inbox hout hin
    rw [onTheWay, onTheWay, hout, hin, Run.emits_cons, Server.putDataCalls_append]
    rfl
  · rfl

/-- To the plugin, a session is an interleaving of its thread with calls of `put_data`. -/
theorem exists_acts (hhears : chain.Hears) (fuel : Nat) (s_frameSize : Int32) (s : DtmfSession) (acts : List Session.Act) :
    ∃ acts' : List Dtmf.Act,
      (Run.state (step chain fuel s_frameSize) s acts).plugin = after fuel s_frameSize s.plugin acts' ∧
      Run.emits (step chain fuel s_frameSize) s acts = rounds fuel s_frameSize s.plugin acts' ∧
      Sampler.lists (acts'.map putAct) ++ onTheWay chain (Run.state (step chain fuel s_frameSize) s acts) =
        onTheWay chain s := by
  induction acts using List.reverseRecOn with
  | nil => exact ⟨[], rfl, rfl, rfl⟩
  | append_singleton acts act ih =>
    obtain ⟨acts', hplugin, hrounds, hlists⟩ := ih
    rw [Run.state_snoc, Run.emits_snoc, hrounds]
    generalize Run.state (step chain fuel s_frameSize) s acts = t at *
    cases act with
    | handle =>
      refine ⟨acts', ?_, List.append_nil _, (congrArg _ (onTheWay_handle t)).trans hlists⟩
      rw [← hplugin]
      show (t.handle chain).plugin = _
      unfold handle
      split <;> rfl
    | putData =>
      rw [step, putData_of_hears hhears]
      obtain ⟨server, inbox, outbox, plugin⟩ := t
      cases outbox with
      | nil => exact ⟨acts', hplugin, List.append_nil _, hlists⟩
      | cons ls outbox =>
        refine ⟨acts' ++ [.putData ls], ?_, ?_, ?_⟩
        · rw [after, Run.state_snoc]
          exact congrArg (fun p => ({ p with dtmf := p.dtmf.putData ls } : DtmfPlugin)) hplugin
        · rw [rounds, rounds, Run.emits_snoc]
          rfl
        · rw [← hlists, Sampler.lists, List.map_append, List.flatMap_append, List.append_assoc]
          rfl
    | run =>
      refine ⟨acts' ++ [.run], ?_, ?_, ?_⟩
      · rw [after, Run.state_snoc]
        exact congrArg (fun p => (p.run fuel s_frameSize).1) hplugin
      · rw [rounds, rounds, Run.emits_snoc]
        exact congrArg (fun p => _ ++ (p.run fuel s_frameSize).2) hplugin
      · rw [← hlists, Sampler.lists, List.map_append, List.flatMap_append, List.append_assoc]
        rfl

end Calls

section Whole
variable {bind : UInt16 → Bool} {cfg cfg' : RecorderConfig} {s : Server} {inbox : List Server.Input}
  {fuel : Nat} {s_frameSize SAMPLES : Int32} {plugin : DtmfPlugin}

theorem onTheWay_start {chain : Chain} {ps : List Plugin} (h : chain.Links ps) (inbox : List Server.Input)
    (hinit : Server.init bind cfg .new = some (s, cfg')) (plugin : DtmfPlugin) :
    onTheWay chain (start s plugin inbox) = Session.allLists ps s inbox := Session.putDataCalls_start h inbox hinit

/-- In every interleaving, the plugin makes its frames of the first channel of some of the lists sent, in their order; of none
    where its frame is no whole number of blocks. It uses at most one block of as many as a frame has samples, and prints
    behind each frame the buttons so far that agree with its table. -/
theorem rounds_of_places (hinit : Server.init bind cfg .new = some (s, cfg')) {chain : Chain} {ps : List Plugin}
    (h : Setup chain ps s)
    (hinc : ∀ fs ∈ Server.connections false [] inbox, Increasing fs)
    (hS : 0 < SAMPLES.toInt ∧ SAMPLES.toInt < 65536) (hpos : 0 < s_frameSize.toInt)
    (hfuel : 65536 ≤ fuel ∧ s_frameSize.toInt.toNat ≤ fuel) (hplugin : DtmfPlugin.init s_frameSize SAMPLES = .ok plugin)
    (acts : List Session.Act) :
    ∃ heard : List Slot, heard.Sublist (Server.places (Server.connections false [] inbox)) ∧
      Run.emits (step chain fuel s_frameSize) (start s plugin inbox) acts =
        roundsOf fuel s_frameSize SAMPLES (heard.map s.firstBlock) ∧
      (heard ≠ [] → s.smplPerChan.toNat ∣ s_frameSize.toInt.toNat) ∧
      heard.length * s_frameSize.toInt.toNat ≤ (Session.allLists ps s inbox).flatten.length := by
  obtain ⟨acts', -, hrounds, hlists⟩ := exists_acts (h.links.hears h.dtmf) fuel s_frameSize (start s plugin inbox) acts
  rw [onTheWay_start h.links inbox hinit] at hlists
  obtain ⟨done, hdone, hclean, hroundsOf, -, -⟩ := beside_or_faulted hS hpos hfuel hplugin acts'
  have hheads := Server.heads_sent (Server.putData_nextOf_subset ps) (Server.channels_pos_of_init hinit)
    (Server.errUdp_of_init hinit) h.samples (Session.sent_allLists ps h.multi hinc)
  have hused : done.Sublist ((Server.places (Server.connections false [] inbox)).map s.firstBlock) := by
    rw [← hheads, ← hlists, List.filterMap_append]
    exact (hdone.sublist.trans (Sampler.emits_heads _ _)).trans (List.sublist_append_left _ _)
  obtain ⟨heard, hheard, rfl⟩ := List.sublist_map_iff.mp hused
  refine ⟨heard, hheard, hrounds.trans hroundsOf, fun hne => ?_, ?_⟩
  · obtain ⟨p, heard, rfl⟩ := List.exists_cons_of_ne_nil hne
    have hfits := hclean.fits _ (List.mem_map_of_mem List.mem_cons_self)
    cases p <;> exact hfits
  · obtain ⟨places, -, hspaced, hwithin, hplaces⟩ :=
      Sampler.emits_spaced (show 0 < s_frameSize.toInt.toNat by omega) (acts'.map putAct)
    have hle := Sampler.length_mul_le hspaced hwithin
    have hlen := hdone.length_le
    have hsame := congrArg List.length hplaces
    have hflat := congrArg (fun lss : List QList => lss.flatten.length) hlists
    rw [List.length_map, List.length_map] at hsame
    rw [List.length_map] at hlen
    rw [List.flatten_append, List.length_append, Sampler.flatten_lists] at hflat
    have hmul := Nat.mul_le_mul_right s_frameSize.toInt.toNat (hlen.trans hsame.le)
    omega

/-- Eight frames of sevens, with a block of each of two channels: as many blocks as a frame of the plugin has samples, so that
    one of them is detected. -/
theorem rounds_of_places_tones : ∃ s cfg' plugin, Server.init (fun _ => true) Session.twoFiles .new = some (s, cfg') ∧
    DtmfPlugin.init 16 1 = .ok plugin ∧
    let inbox := Session.received ([1, 2, 3, 4, 5, 6, 7, 8].map Session.tone)
    ∃ heard : List Slot, heard.length = 1 ∧ heard.Sublist (([1, 2, 3, 4, 5, 6, 7, 8].map Session.tone).map .frame) ∧
      Run.emits (step dtmfChain 65536 16) (start s plugin inbox) (.handle :: .replicate 8 .putData ++ .replicate 3 .run) =
        roundsOf 65536 16 1 (heard.map s.firstBlock) := by
  let inbox := Session.received ([1, 2, 3, 4, 5, 6, 7, 8].map Session.tone)
  let acts : List Session.Act := .handle :: .replicate 8 .putData ++ .replicate 3 .run
  obtain ⟨s, cfg', hinit, -, -, hsetup⟩ := Session.init_twoFiles
  have hconnections : Server.connections false [] inbox = [[1, 2, 3, 4, 5, 6, 7, 8].map Session.tone] :=
    Session.connections_received (by simp)
  have hinc : ∀ fs ∈ Server.connections false [] inbox, Increasing fs := by
    rw [hconnections]
    intro fs hfs
    rw [List.mem_singleton.mp hfs]
    exact ⟨by decide, by decide, by decide⟩
  have h : Setup dtmfChain [.dtmf] s := ⟨links_dtmfChain, by decide, by decide, hsetup.multi, hsetup.samples, hsetup.signals⟩
  obtain ⟨heard, hheard, hrounds, -⟩ := @rounds_of_places _ _ _ s inbox 65536 16 1 _ hinit dtmfChain [.dtmf] h hinc (by decide)
    (by decide) (by decide) rfl acts
  have hrun : ((Server.init (fun _ => true) Session.twoFiles .new).bind fun r => (DtmfPlugin.init 16 1).toOption.map fun plugin =>
      (Run.emits (step dtmfChain 65536 16) (start r.1 plugin inbox) acts).length) = some 1 := by decide +kernel
  rw [hinit] at hrun
  have hone := congrArg List.length hrounds
  rw [(Option.some.inj hrun : (Run.emits _ (start s _ inbox) acts).length = 1), roundsOf, List.length_map, List.length_zipIdx, List.length_map] at hone
  rw [hconnections] at hheard
  exact ⟨s, cfg', _, hinit, rfl, heard, hone.symm, hheard, hrounds⟩

end Whole
end DtmfSession
end Recd2
