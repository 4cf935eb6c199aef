import Recd2.Client
import Recd2.Tcp
import Recd2.Theorems.Handler

/-! The other two readers and writers of frames against the UDP handler: the list that the TCP writer builds
    from a frame, and the datagrams of the bundled client. -/

namespace Recd2

/-- What a plugin reads of a block: the signal byte, the size, and the samples it says it has. -/
def SampleData.view (b : SampleData) : UInt8 × UInt32 × List Int16 := (b.signal, b.size, b.payload)

/-! ### The TCP writer -/

namespace TcpServer.Writer
variable {t : FrameData} {smplPerChan : UInt32}

theorem blocks_eq (h : 0 < smplPerChan.toNat) {channels rounds : Nat} (k : Nat) (hr : channels ≤ k + rounds) :
    blocks t smplPerChan (channels * smplPerChan.toNat) rounds (k * smplPerChan.toNat) =
      (List.range' k (channels - k)).map fun i => block t smplPerChan (i * smplPerChan.toNat) := by
  induction rounds generalizing k with
  | zero =>
    have hk : channels - k = 0 := Nat.sub_eq_zero_of_le hr
    rw [hk]
    rfl
  | succ rounds ih =>
    rw [blocks]
    by_cases hk : k < channels
    · have hlt : k * smplPerChan.toNat < channels * smplPerChan.toNat := Nat.mul_lt_mul_of_pos_right hk h
      have hnext : k * smplPerChan.toNat + smplPerChan.toNat = (k + 1) * smplPerChan.toNat := by ring
      obtain ⟨n, hn⟩ : ∃ n, channels - k = n + 1 := ⟨channels - k - 1, by omega⟩
      have hn' : channels - (k + 1) = n := by omega
      rw [if_pos hlt, hnext, ih (k + 1) (by omega), hn, hn', List.range'_succ, List.map_cons]
    · have hle : ¬k * smplPerChan.toNat < channels * smplPerChan.toNat :=
        Nat.not_lt.mpr (Nat.mul_le_mul_right _ (Nat.not_lt.mp hk))
      rw [if_neg hle, Nat.sub_eq_zero_of_le (Nat.not_lt.mp hk)]
      rfl

/-- All blocks are the one of the last round. -/
theorem shared_map_range {f : Nat → SampleData} {n : Nat} (hsignal : ∀ i, (f i).signal = 0)
    (hsize : ∀ i, (f i).size = smplPerChan) :
    shared ((List.range n).map f) = (List.range n).map fun _ => f (n - 1) := by
  rw [shared, List.map_map]
  refine List.map_congr_left fun i hi => ?_
  have hlast : ((List.range n).map f).getLast? = some (f (n - 1)) := by
    rw [List.getLast?_map, List.getLast?_range, if_neg (Nat.ne_of_gt (Nat.zero_lt_of_lt (List.mem_range.mp hi)))]
    rfl
  have hown : ∀ k, f k = ⟨0, (f k).samples, smplPerChan⟩ := fun k => by rw [← hsignal k, ← hsize k]
  rw [Function.comp_apply, hlast, hown i, hown (n - 1)]
  rfl

/-- A block for each channel, all with the samples of the last one. -/
theorem worker_eq {s : Server} (h : 0 < s.smplPerChan.toNat)
    (hmax : s.channels.toNat * s.smplPerChan.toNat < 2 ^ 32) :
    worker s t = (List.range s.channels.toNat).map fun _ =>
      block t s.smplPerChan ((s.channels.toNat - 1) * s.smplPerChan.toNat) := by
  have hprod : (s.channels * s.smplPerChan).toNat = s.channels.toNat * s.smplPerChan.toNat := by
    rw [UInt32.toNat_mul, Nat.mod_eq_of_lt hmax]
  have hrounds : s.channels.toNat ≤ 0 + s.channels.toNat * s.smplPerChan.toNat := by
    rw [Nat.zero_add]
    exact Nat.le_mul_of_pos_right _ h
  have hblocks := blocks_eq (t := t) h 0 hrounds
  rw [Nat.zero_mul, Nat.sub_zero, ← List.range_eq_range'] at hblocks
  rw [worker, hprod, hblocks]
  exact shared_map_range (fun _ => rfl) fun _ => rfl

theorem worker_of_no_samples {s : Server} (h : s.smplPerChan = 0) : worker s t = [] := by
  have hmax : (s.channels * s.smplPerChan).toNat = 0 := by rw [h, UInt32.mul_zero]; rfl
  rw [worker, hmax]
  rfl

theorem payload_block {i : Nat} (h : smplPerChan.toNat ≤ 512) :
    (block t smplPerChan i).payload = (List.range smplPerChan.toNat).map fun j => t.sample (i + j) := by
  rw [SampleData.payload, block, ← List.map_take, List.take_range, Nat.min_eq_left h]
  exact List.map_congr_left fun j hj => if_pos (List.mem_range.mp hj)

end TcpServer.Writer

theorem payload_deinterleaved (s : Server) (f : FrameData) (i : Nat) :
    SampleData.payload ⟨f.nullByte i, (List.range s.smplPerChan.toNat).map fun j => f.sample (j * s.channels.toNat + i),
      s.smplPerChan⟩ = (List.range s.smplPerChan.toNat).map fun j => f.sample (j * s.channels.toNat + i) :=
  List.take_of_length_le (by rw [List.length_map, List.length_range])

/-- Sample by sample: every channel has what the running index leaves of the last round. -/
def SameSamples (s : Server) (f : FrameData) : Prop :=
  ∀ i < s.channels.toNat, f.nullByte i = 0 ∧
    ∀ j < s.smplPerChan.toNat,
      f.sample ((s.channels.toNat - 1) * s.smplPerChan.toNat + j) = f.sample (j * s.channels.toNat + i)

theorem view_worker_eq_iff {s : Server} {f : FrameData} (h1 : 1 ≤ s.channels.toNat)
    (h512 : s.channels.toNat * s.smplPerChan.toNat ≤ 512) :
    (TcpServer.Writer.worker s f).map SampleData.view =
        (deinterleave s.channels s.smplPerChan f.nullByte f).map SampleData.view ↔
      0 < s.smplPerChan.toNat ∧ SameSamples s f := by
  by_cases h0 : s.smplPerChan.toNat = 0
  · have hzero : s.smplPerChan = 0 := UInt32.toNat_inj.mp h0
    rw [TcpServer.Writer.worker_of_no_samples hzero, h0]
    refine iff_of_false (fun h => ?_) fun h => absurd h.1 (Nat.lt_irrefl 0)
    have hlen := congrArg List.length h
    simp only [deinterleave, List.map_nil, List.length_nil, List.length_map, List.length_range] at hlen
    omega
  · have hpos : 0 < s.smplPerChan.toNat := Nat.pos_of_ne_zero h0
    have hsize : s.smplPerChan.toNat ≤ 512 := Nat.le_trans (Nat.le_mul_of_pos_left _ h1) h512
    rw [TcpServer.Writer.worker_eq hpos (Nat.lt_of_le_of_lt h512 (by decide)), deinterleave, List.map_map, List.map_map,
      List.map_inj_left, and_iff_right hpos]
    refine forall_congr' fun i => ?_
    rw [List.mem_range]
    refine imp_congr_right fun _ => ?_
    have htcp : SampleData.view
        (TcpServer.Writer.block f s.smplPerChan ((s.channels.toNat - 1) * s.smplPerChan.toNat)) =
        (0, s.smplPerChan, (List.range s.smplPerChan.toNat).map fun j =>
          f.sample ((s.channels.toNat - 1) * s.smplPerChan.toNat + j)) := by
      rw [SampleData.view, TcpServer.Writer.payload_block hsize]
      rfl
    have hudp : SampleData.view ⟨f.nullByte i, (List.range s.smplPerChan.toNat).map fun j =>
        f.sample (j * s.channels.toNat + i), s.smplPerChan⟩ =
        (f.nullByte i, s.smplPerChan, (List.range s.smplPerChan.toNat).map fun j => f.sample (j * s.channels.toNat + i)) := by
      rw [SampleData.view, payload_deinterleaved]
    rw [Function.comp_apply, Function.comp_apply, htcp, hudp, Prod.mk.injEq, Prod.mk.injEq, List.map_inj_left,
      eq_self_iff_true, true_and, eq_comm]
    simp only [List.mem_range]

namespace Server

theorem putDataCalls_next {next : Next} {s : Server} {f : FrameData} (hs : s.singleFile = false)
    (hf : f.counter = s.connInfo.paketCounter + 1) :
    putDataCalls (s.readyReadUdp next [f.toBytes]).2 = [deinterleave s.channels s.smplPerChan f.nullByte f] := by
  have hframe : frame? f.toBytes = some f := by rw [frame?, if_pos f.length_toBytes, f.ofBytes_toBytes]
  rw [readyReadUdp_cons s (List.cons_ne_nil _ _), putDataCalls_handleDatagram, frames_cons_some hframe]
  show [] ++ calls next { s with monitorData := s.monitorData ++ ['.'] } [f] = _
  rw [List.nil_append, calls_monitorData, calls, sends, if_neg (not_not_intro hf), frameList, hs]
  rfl

/-- The TCP writer and the UDP handler make the same blocks of a frame exactly when there are samples, the
    header bytes of the channels are zero, and all channels have the samples of the last round. -/
theorem tcp_agrees_iff (next : Next) (s : Server) (f : FrameData) (hs : s.singleFile = false)
    (hf : f.counter = s.connInfo.paketCounter + 1) (h1 : 1 ≤ s.channels.toNat)
    (h512 : s.channels.toNat * s.smplPerChan.toNat ≤ 512) :
    (∃ ls, putDataCalls (s.readyReadUdp next [f.toBytes]).2 = [ls] ∧
        (TcpServer.Writer.worker s f).map SampleData.view = ls.map SampleData.view) ↔
      0 < s.smplPerChan.toNat ∧ SameSamples s f := by
  rw [putDataCalls_next hs hf, ← view_worker_eq_iff h1 h512]
  exact ⟨fun ⟨ls, hls, h⟩ => by rw [List.singleton_inj.mp hls]; exact h, fun h => ⟨_, rfl, h⟩⟩

/-- A server with two channels of two samples. -/
def twoChannels : Server := { new with channels := 2, smplPerChan := 2 }

theorem tcp_agrees_iff_silent :
    (∃ ls, putDataCalls (twoChannels.readyReadUdp none [(FrameData.silent 1).toBytes]).2 = [ls] ∧
        (TcpServer.Writer.worker twoChannels (FrameData.silent 1)).map SampleData.view = ls.map SampleData.view) ↔
      0 < twoChannels.smplPerChan.toNat ∧ SameSamples twoChannels (FrameData.silent 1) :=
  tcp_agrees_iff none twoChannels (FrameData.silent 1) rfl rfl (by decide) (by decide)

/-- A frame whose only sample is the first one of the second channel. -/
def secondChannel : FrameData := { FrameData.silent 1 with data := (Vector.replicate 512 0).set 1 1 }

theorem tcp_counterexample :
    ¬∀ (next : Next) (s : Server) (f : FrameData), s.singleFile = false → f.counter = s.connInfo.paketCounter + 1 →
      1 ≤ s.channels.toNat → s.channels.toNat ≤ 64 → s.channels.toNat * s.smplPerChan.toNat ≤ 512 →
      ∃ ls, putDataCalls (s.readyReadUdp next [f.toBytes]).2 = [ls] ∧
        (TcpServer.Writer.worker s f).map SampleData.view = ls.map SampleData.view := by
  intro h
  obtain ⟨ls, hls, hview⟩ := h none twoChannels secondChannel rfl rfl (by decide) (by decide) (by decide)
  rw [putDataCalls_next rfl rfl] at hls
  rw [← List.singleton_inj.mp hls, view_worker_eq_iff (by decide) (by decide)] at hview
  have hsample := (hview.2 1 (by decide)).2 0 (by decide)
  revert hsample
  decide

end Server

/-! ### The bundled client -/

namespace Iz.Client
open Bytes

/-- Padding makes the client's structure larger than the server's. -/
theorem sizeofFrameData_ne : Iz.sizeofFrameData ≠ Recd2.sizeofFrameData := by
  have halign : frameDataLayout.align = 4 := by decide
  have hdvd : 4 ∣ Iz.sizeofFrameData := halign ▸ frameDataLayout.align_dvd_sizeof
  intro h
  rw [h, sizeofFrameData_eq] at hdvd
  exact absurd hdvd (by decide)

theorem length_datagram (c : Client) (k : Nat) : (c.datagram k).length = Iz.sizeofFrameData := by
  rw [datagram, transmit, Vector.length_toList]

theorem frame?_datagram (c : Client) (k : Nat) : frame? (c.datagram k) = none :=
  if_neg (by rw [length_datagram]; exact sizeofFrameData_ne)

/-- Whatever the client's datagrams hold, the server sends no list for them, and its counters stay. -/
theorem unheard (c : Client) (ks : List Nat) (next : Server.Next) (s : Server) :
    Run.state (Server.handleDatagram next) s (ks.map c.datagram) = s ∧
      putDataCalls (Run.emits (Server.handleDatagram next) s (ks.map c.datagram)) = [] := by
  have hnone : frames (ks.map c.datagram) = [] := by
    rw [frames, List.filterMap_map, List.filterMap_eq_nil_iff]
    intro k _
    rw [Function.comp_apply, frame?_datagram]
  rw [Server.state_handleDatagram, Server.putDataCalls_handleDatagram, hnone]
  exact ⟨Server.after_nil s, rfl⟩

/-- The server takes datagram `k` for what the client wrote: it is a frame with counter `k` and the client's
    header bytes, and with 32 channels of 16 samples the blocks are the client's channels. -/
structure Understood (c : Client) (k : Nat) (f : FrameData) : Prop where
  accepted : frame? (c.datagram k) = some f
  counter : f.counter = UInt32.ofNat k
  nullBytes : f.nullBytes.toList = slice (frameDataLayout.offsetof 1) 64 (c.datagram k)
  samples : ∀ i < CHANS, ∀ j < SAMPLES, ∃ b, (deinterleave 32 16 f.nullByte f)[i]? = some b ∧
    b.samples[j]? = some ((c.after (k - 1)).fileSample ((c.after (k - 1)).fileCnt + UInt32.ofNat (i * SAMPLES + j)))

/-- No datagram of the client is understood. -/
theorem never_understood (packet : Vector UInt8 Iz.sizeofFrameData) (fileData : Fin 100000 → Int16) (k : Nat)
    (f : FrameData) : ¬(start packet fileData).Understood k f := fun h => by
  have haccepted := h.accepted
  rw [frame?_datagram] at haccepted
  cases haccepted

theorem understood_counterexample :
    ¬∀ (packet : Vector UInt8 Iz.sizeofFrameData) (fileData : Fin 100000 → Int16) (k : Nat), 1 ≤ k →
      ∃ f, (start packet fileData).Understood k f := by
  intro h
  obtain ⟨f, hf⟩ := h (.replicate _ 0) (fun _ => 0) 1 (by decide)
  have haccepted := hf.accepted
  rw [frame?_datagram] at haccepted
  cases haccepted

end Iz.Client
end Recd2
