import Recd2.DtmfSession
import Recd2.Theorems.Handler
import Recd2.Theorems.Packing
import Recd2.Theorems.Session
import Mathlib.Data.List.Forall2

/-! What the DTMF plugin hears in a session of the UDP streamer. A list of `put_data` has a block for each channel, and the
    plugin takes whole lists, of which it uses the first block alone. So it hears the first channel only: two sessions that
    differ in the others, or in the signal bytes, are the same to it, in every interleaving. -/

namespace Recd2
open Checked

/-! ### One call of `put_data` -/

namespace Plugin

theorem dtmfBuffer_deliver {ps : List Plugin} {w : World} :
    (deliver ps w).dtmfBuffer = w.dtmfBuffer ++ (List.replicate (ps.count .dtmf) w.list).flatten :=
  @deliver_appends _ World.dtmfBuffer .dtmf id (fun p w => by cases p <;> simp [keep]) (fun _ _ => rfl)
    (fun p w => by rw [finish]; split <;> rfl) ps w

/-- One call of the handler along a chain with one DTMF plugin: the plugin gets the blocks of the list. -/
theorem putData_dtmf {ps : List Plugin} {w : World} {fuel : Nat} (h : Linked w.nextPlugin (.server :: ps))
    (hmd5 : Plugin.md5 ∉ (.server :: ps : List Plugin).dropLast) (hone : ps.count .dtmf = 1) (hfuel : ps.length < fuel) :
    ∃ w', putData fuel .server w = some w' ∧ w'.dtmfBuffer = w.dtmfBuffer ++ w.list := by
  refine ⟨_, putData_eq_deliver h hmd5 hfuel, ?_⟩
  rw [dtmfBuffer_deliver, List.count_cons_of_ne (by decide), hone, List.replicate_one, List.flatten_singleton]

end Plugin

/-- Each call of `put_data` brings the DTMF plugin the blocks of the list once. -/
def Chain.Hears (chain : Chain) : Prop := ∀ ls, ∃ w, chain.putData ls = some w ∧ w.dtmfBuffer = ls

theorem Chain.Links.hears {chain : Chain} {ps : List Plugin} (h : chain.Links ps) (hone : ps.count .dtmf = 1) :
    chain.Hears := fun ls => Plugin.putData_dtmf (w := ⟨chain.nextPlugin, ls, [], [], []⟩) h.linked h.md5 hone h.deep

/-! ### Lists with the same first block -/

/-- The blocks have the same samples. Their signal bytes may differ. -/
structure SampleData.Same (b b' : SampleData) : Prop where
  samples : b.samples = b'.samples
  size : b.size = b'.size

/-- Two lists of one length whose first blocks are heard alike. Of a frame only the first channel is heard. -/
inductive SameHead : QList → QList → Prop where
  | nil : SameHead [] []
  | cons {b b' : SampleData} {ls ls' : QList} (head : b.Same b') (length : ls.length = ls'.length) :
      SameHead (b :: ls) (b' :: ls')

namespace SameHead
variable {ls ls' ms ms' : QList}

theorem refl (ls : QList) : SameHead ls ls := by
  cases ls with
  | nil => exact .nil
  | cons b ls => exact .cons ⟨rfl, rfl⟩ rfl

theorem length_eq (h : SameHead ls ls') : ls.length = ls'.length := by
  cases h with
  | nil => rfl
  | cons _ hlen => exact congrArg (· + 1) hlen

theorem append (h : SameHead ls ls') (h' : SameHead ms ms') : SameHead (ls ++ ms) (ls' ++ ms') := by
  cases h with
  | nil => exact h'
  | @cons b b' ls ls' hhead hlen =>
    have hall : (ls ++ ms).length = (ls' ++ ms').length := by
      rw [List.length_append, List.length_append, hlen, h'.length_eq]
    exact .cons hhead hall

theorem take (h : SameHead ls ls') (k : Nat) : SameHead (ls.take k) (ls'.take k) := by
  cases k with
  | zero => exact .nil
  | succ k =>
    cases h with
    | nil => exact .nil
    | cons hhead hlen =>
      refine .cons hhead ?_
      rw [List.length_take, List.length_take, hlen]

theorem isEmpty_eq (h : SameHead ls ls') : ls.isEmpty = ls'.isEmpty := by
  cases h <;> rfl

end SameHead

/-! ### The thread of the plugin -/

namespace Dtmf
variable {fuel : Nat} {s_frameSize : Int32}

theorem copyBlock_same {b b' : SampleData} (h : b.Same b') : copyBlock b = copyBlock b' := by
  obtain ⟨signal, samples, size⟩ := b
  obtain ⟨signal', samples', size'⟩ := b'
  obtain ⟨rfl, rfl⟩ : samples = samples' ∧ size = size' := ⟨h.samples, h.size⟩
  rfl

/-- What is packed depends on the first block alone. -/
theorem pack_same (hpos : 0 < s_frameSize.toInt) {dbl dbl' : QList} (h : SameHead dbl dbl') :
    pack (fuel + 1) s_frameSize dbl = pack (fuel + 1) s_frameSize dbl' := by
  cases h with
  | nil => rfl
  | cons hhead _ =>
    rw [pack_cons hpos, pack_cons hpos, fillFrame, fillFrame]
    simp only [List.getElem?_cons_zero, copyBlock_same hhead, List.isEmpty_cons]

/-- Two threads that are at the same place, with lists that are heard alike. -/
structure Same (d d' : Dtmf) : Prop where
  sampleBuffer : SameHead d.sampleBuffer d'.sampleBuffer
  dbl : SameHead d.dbl d'.dbl
  runAt : d.runAt = d'.runAt

section Same
variable {d d' : Dtmf}

theorem Same.putData (h : Same d d') {ls ls' : QList} (hls : SameHead ls ls') : Same (d.putData ls) (d'.putData ls') :=
  ⟨h.sampleBuffer.append hls, h.dbl, h.runAt⟩

theorem Same.run (hpos : 0 < s_frameSize.toInt) (h : Same d d') :
    Same (d.run s_frameSize).1 (d'.run s_frameSize).1 ∧ (d.run s_frameSize).2 = (d'.run s_frameSize).2 := by
  obtain ⟨sampleBuffer, dbl, runAt⟩ := d
  obtain ⟨sampleBuffer', dbl', runAt'⟩ := d'
  obtain ⟨hbuffer, hdbl, hat⟩ := h
  obtain rfl : runAt = runAt' := hat
  cases runAt with
  | count =>
    rw [Dtmf.run, Dtmf.run]
    dsimp only at hbuffer ⊢
    rw [hbuffer.length_eq]
    split_ifs
    · exact ⟨⟨hbuffer, hdbl, rfl⟩, rfl⟩
    · exact ⟨⟨hbuffer, hdbl, rfl⟩, rfl⟩
  | move k =>
    have hmoved : SameHead (dbl ++ sampleBuffer.take k) (dbl' ++ sampleBuffer'.take k) := hdbl.append (hbuffer.take k)
    refine ⟨⟨.nil, hmoved, ?_⟩, rfl⟩
    show (if (dbl ++ sampleBuffer.take k).isEmpty then _ else _) = if (dbl' ++ sampleBuffer'.take k).isEmpty then _ else _
    rw [hmoved.isEmpty_eq]
  | pack =>
    rw [Dtmf.run, Dtmf.run]
    dsimp only at hdbl ⊢
    rw [pack_same hpos hdbl]
    cases pack (s_frameSize.toInt.toNat + 1) s_frameSize dbl' with
    | ok frames => exact ⟨⟨hbuffer, .nil, rfl⟩, rfl⟩
    | error e => exact ⟨⟨hbuffer, hdbl, rfl⟩, rfl⟩
  | faulted e => exact ⟨⟨hbuffer, hdbl, rfl⟩, rfl⟩

end Same
end Dtmf

namespace DtmfPlugin

/-- Two plugins in the same state, but for samples that are not heard. -/
structure Same (p p' : DtmfPlugin) : Prop where
  dtmf : p.dtmf.Same p'.dtmf
  detector : p.m_dtmfDetector = p'.m_dtmfDetector

theorem Same.run (fuel : Nat) {s_frameSize : Int32} {p p' : DtmfPlugin} (hpos : 0 < s_frameSize.toInt) (h : Same p p') :
    Same (p.run fuel s_frameSize).1 (p'.run fuel s_frameSize).1 ∧
      (p.run fuel s_frameSize).2 = (p'.run fuel s_frameSize).2 := by
  obtain ⟨hnext, hframes⟩ := h.dtmf.run hpos
  rw [DtmfPlugin.run, DtmfPlugin.run]
  dsimp only
  rw [hframes, h.detector]
  cases (p'.dtmf.run s_frameSize).2.foldlM (detectFrame fuel) (p'.m_dtmfDetector, []) with
  | ok t => exact ⟨⟨hnext, rfl⟩, rfl⟩
  | error e => exact ⟨⟨⟨hnext.sampleBuffer, hnext.dbl, rfl⟩, rfl⟩, rfl⟩

end DtmfPlugin

/-! ### The streamer -/

namespace Server
variable {next : Next} {channels smplPerChan : UInt32} {s s' : Server} {f f' : FrameData}

/-- The frames have the same counter and the same samples on the first channel. -/
structure SameFirst (channels smplPerChan : UInt32) (f f' : FrameData) : Prop where
  counter : f.counter = f'.counter
  first : ∀ j < smplPerChan.toNat, f.sample (j * channels.toNat) = f'.sample (j * channels.toNat)

/-- The inputs differ in the other channels of their frames, in the signal bytes and in datagrams that are not frames. -/
inductive SameInput (channels smplPerChan : UInt32) : Input → Input → Prop where
  | readyRead {pending pending' : List Datagram} (empty : pending = [] ↔ pending' = [])
      (frames : List.Forall₂ (SameFirst channels smplPerChan) (frames pending) (frames pending')) :
      SameInput channels smplPerChan (.readyRead pending) (.readyRead pending')
  | timeout : SameInput channels smplPerChan .timeout .timeout

/-- Two servers in multi-file mode, but for the frames that the helper has. -/
structure Same (channels smplPerChan : UInt32) (s s' : Server) : Prop where
  channels : s.channels = channels
  smplPerChan : s.smplPerChan = smplPerChan
  multi : s.singleFile = false
  same : ∃ helperBuffer, s' = { s with helperBuffer := helperBuffer }

theorem sameHead_deinterleave (signal signal' : Nat → UInt8) (h : SameFirst channels smplPerChan f f') :
    SameHead (deinterleave channels smplPerChan signal f) (deinterleave channels smplPerChan signal' f') := by
  rw [deinterleave, deinterleave]
  rcases Nat.eq_zero_or_pos channels.toNat with hzero | hpos
  · rw [hzero]
    exact .nil
  · obtain ⟨n, hn⟩ := Nat.exists_eq_succ_of_ne_zero (Nat.ne_of_gt hpos)
    have hrange : List.range channels.toNat = 0 :: (List.range n).map Nat.succ := by rw [hn, List.range_succ_eq_map]
    rw [hrange, List.map_cons, List.map_cons]
    exact .cons ⟨List.map_congr_left fun j hj => h.first j (List.mem_range.mp hj), rfl⟩
      ((List.length_map _).trans (List.length_map _).symm)

theorem receives_same {fs fs' : List FrameData} (h : List.Forall₂ (SameFirst channels smplPerChan) fs fs')
    (c : ConnInfo) : c.receives fs = c.receives fs' := by
  induction h generalizing c with
  | nil => rfl
  | @cons f f' fs fs' hf _ ih =>
    show (c.receive f.counter).receives fs = (c.receive f'.counter).receives fs'
    rw [hf.counter, ih]

theorem Same.after (h : Same channels smplPerChan s s') {fs fs' : List FrameData}
    (hfs : List.Forall₂ (SameFirst channels smplPerChan) fs fs') : Same channels smplPerChan (s.after fs) (s'.after fs') := by
  obtain ⟨hchannels, hsmpl, hmulti, helperBuffer, rfl⟩ := h
  refine ⟨hchannels, hsmpl, hmulti, ?_⟩
  rw [Server.after, Server.after, receives_same hfs]
  exact ⟨_, rfl⟩

/-- The lists of a frame are the same but for the blocks behind the first one. -/
theorem Same.sends (h : Same channels smplPerChan s s') (hf : SameFirst channels smplPerChan f f') :
    List.Forall₂ SameHead (s.sends next f) (s'.sends next f') := by
  obtain ⟨hchannels, hsmpl, hmulti, helperBuffer, rfl⟩ := h
  rw [Server.sends, Server.sends, ← hf.counter]
  split_ifs
  · have herr : errLists next { s with helperBuffer := helperBuffer } f' = errLists next s f := by
      rw [errLists, errLists, ← hf.counter]
      rfl
    rw [herr]
    exact List.forall₂_same.mpr fun ls _ => .refl ls
  · refine .cons ?_ .nil
    rw [frameList, frameList, if_pos (by rw [hmulti]; rfl), if_pos (by rw [hmulti]; rfl), hchannels, hsmpl]
    exact sameHead_deinterleave _ _ hf

theorem Same.calls (h : Same channels smplPerChan s s') {fs fs' : List FrameData}
    (hfs : List.Forall₂ (SameFirst channels smplPerChan) fs fs') :
    List.Forall₂ SameHead (s.calls next fs) (s'.calls next fs') := by
  induction hfs generalizing s s' with
  | nil => exact .nil
  | cons hf _ ih => exact List.rel_append (h.sends hf) (ih (h.after (.cons hf .nil)))

/-- A handler goes the same way in both, and its lists are the same but for the blocks behind the first ones. -/
theorem Same.step (next : Next) {i i' : Input} (h : Same channels smplPerChan s s') (hi : SameInput channels smplPerChan i i') :
    Same channels smplPerChan (s.step next i).1 (s'.step next i').1 ∧
      List.Forall₂ SameHead (putDataCalls (s.step next i).2) (putDataCalls (s'.step next i').2) := by
  have hdisconnected : Same channels smplPerChan s.disconnected s'.disconnected := by
    obtain ⟨hchannels, hsmpl, hmulti, helperBuffer, rfl⟩ := h
    exact ⟨hchannels, hsmpl, hmulti, helperBuffer, rfl⟩
  have hmonitor : ∀ m, Same channels smplPerChan { s with monitorData := m } { s' with monitorData := m } := by
    obtain ⟨hchannels, hsmpl, hmulti, helperBuffer, rfl⟩ := h
    exact fun m => ⟨hchannels, hsmpl, hmulti, helperBuffer, rfl⟩
  have hdata : s'.monitorData = s.monitorData := by
    obtain ⟨-, -, -, helperBuffer, rfl⟩ := h
    rfl
  cases hi with
  | @readyRead pending pending' hempty hframes =>
    rw [Server.step, Server.step]
    by_cases hp : pending = []
    · rw [readyReadUdp, readyReadUdp, if_neg (not_not_intro hp), if_neg (not_not_intro (hempty.mp hp))]
      exact ⟨hdisconnected, .nil⟩
    · have hp' : pending' ≠ [] := mt hempty.mpr hp
      rw [readyReadUdp_cons _ hp, readyReadUdp_cons _ hp', putDataCalls_handleDatagram, putDataCalls_handleDatagram,
        state_handleDatagram, state_handleDatagram, hdata]
      exact ⟨(hmonitor _).after hframes, (hmonitor _).calls hframes⟩
  | timeout =>
    rw [Server.step, Server.step, checkConnection, checkConnection, hdata]
    split_ifs
    · exact ⟨hdisconnected, .nil⟩
    · exact ⟨hmonitor [], .nil⟩

end Server

/-! ### Sessions -/

namespace DtmfSession
variable {chain : Chain} {fuel : Nat} {s_frameSize : Int32} {channels smplPerChan : UInt32} {s s' : DtmfSession}

/-- The plugins `ps` are behind the server, with the DTMF plugin among them once, and no recorder that frees the arrays. The
    channels fit into the frame. -/
structure Setup (chain : Chain) (ps : List Plugin) (s : Server) : Prop where
  links : chain.Links ps
  dtmf : ps.count .dtmf = 1
  recorder : Plugin.recorder ∉ ps
  multi : s.singleFile = false
  samples : s.channels.toNat * s.smplPerChan.toNat ≤ 512
  signals : s.channels.toNat ≤ 64

/-- With one DTMF plugin in the chain, its thread gets the blocks of the list. -/
theorem putData_of_hears (h : chain.Hears) (s : DtmfSession) :
    s.putData chain = match s.outbox with
      | ls :: outbox => { s with outbox := outbox, plugin := { s.plugin with dtmf := s.plugin.dtmf.putData ls } }
      | [] => s := by
  unfold putData
  cases s.outbox with
  | nil => rfl
  | cons ls outbox =>
    obtain ⟨w, hw, hbuffer⟩ := h ls
    simp only [hw, hbuffer]

/-- Two sessions that are the same to the plugin. -/
structure Same (channels smplPerChan : UInt32) (s s' : DtmfSession) : Prop where
  server : s.server.Same channels smplPerChan s'.server
  inbox : List.Forall₂ (Server.SameInput channels smplPerChan) s.inbox s'.inbox
  outbox : List.Forall₂ SameHead s.outbox s'.outbox
  plugin : s.plugin.Same s'.plugin

theorem Same.handle (h : Same channels smplPerChan s s') : Same channels smplPerChan (s.handle chain) (s'.handle chain) := by
  obtain ⟨server, inbox, outbox, plugin⟩ := s
  obtain ⟨server', inbox', outbox', plugin'⟩ := s'
  obtain ⟨hserver, hinbox, houtbox, hplugin⟩ := h
  dsimp only at hserver hinbox houtbox hplugin
  cases houtbox with
  | nil =>
    cases hinbox with
    | nil => exact ⟨hserver, .nil, .nil, hplugin⟩
    | cons hi hrest =>
      obtain ⟨hnext, hlists⟩ := hserver.step chain.next hi
      exact ⟨hnext, hrest, hlists, hplugin⟩
  | cons hls hrest => exact ⟨hserver, hinbox, .cons hls hrest, hplugin⟩

theorem Same.putData (hhears : chain.Hears) (h : Same channels smplPerChan s s') :
    Same channels smplPerChan (s.putData chain) (s'.putData chain) := by
  rw [putData_of_hears hhears, putData_of_hears hhears]
  obtain ⟨server, inbox, outbox, plugin⟩ := s
  obtain ⟨server', inbox', outbox', plugin'⟩ := s'
  obtain ⟨hserver, hinbox, houtbox, hplugin⟩ := h
  dsimp only at hserver hinbox houtbox hplugin
  cases houtbox with
  | nil => exact ⟨hserver, hinbox, .nil, hplugin⟩
  | cons hls hrest => exact ⟨hserver, hinbox, hrest, ⟨hplugin.dtmf.putData hls, hplugin.detector⟩⟩

theorem Same.step (hhears : chain.Hears) (hpos : 0 < s_frameSize.toInt) (h : Same channels smplPerChan s s')
    (act : Session.Act) :
    Same channels smplPerChan (step chain fuel s_frameSize s act).1 (step chain fuel s_frameSize s' act).1 ∧
      (step chain fuel s_frameSize s act).2 = (step chain fuel s_frameSize s' act).2 := by
  cases act with
  | handle => exact ⟨h.handle, rfl⟩
  | putData => exact ⟨h.putData hhears, rfl⟩
  | run =>
    obtain ⟨hplugin, hrounds⟩ := h.plugin.run fuel hpos
    exact ⟨⟨h.server, h.inbox, h.outbox, hplugin⟩, hrounds⟩

/-- Two sessions in multi-file mode whose frames have the same counters, and the same samples on the first channel, are the
    same to the plugin: in every interleaving it passes the same frames, prints the same lines, has found the same buttons
    and stands at the same place. -/
theorem first_channel_heard (chain : Chain) (ps : List Plugin) (fuel : Nat) (hpos : 0 < s_frameSize.toInt)
    {server : Server} (hsetup : Setup chain ps server) (plugin : DtmfPlugin) {inbox inbox' : List Server.Input}
    (h : List.Forall₂ (Server.SameInput server.channels server.smplPerChan) inbox inbox') (acts : List Session.Act) :
    let session := fun inbox => Run.state (step chain fuel s_frameSize) (start server plugin inbox) acts
    let rounds := fun inbox => Run.emits (step chain fuel s_frameSize) (start server plugin inbox) acts
    rounds inbox = rounds inbox' ∧
      (session inbox).plugin.m_dtmfDetector = (session inbox').plugin.m_dtmfDetector ∧
      (session inbox).plugin.dtmf.runAt = (session inbox').plugin.dtmf.runAt := by
  have hstart : Same server.channels server.smplPerChan (start server plugin inbox) (start server plugin inbox') :=
    ⟨⟨rfl, rfl, hsetup.multi, server.helperBuffer, rfl⟩, h, .nil, ⟨⟨.refl _, .refl _, rfl⟩, rfl⟩⟩
  obtain ⟨hsame, hrounds⟩ := Run.emits_refines (R := Same server.channels server.smplPerChan) (C := fun _ => True)
    (fun s s' act hs _ => hs.step (hsetup.links.hears hsetup.dtmf) hpos act) acts _ _ hstart fun _ => trivial
  exact ⟨hrounds, hsame.plugin.detector, hsame.plugin.dtmf.runAt⟩

/-- The DTMF plugin behind the server, in a chain that the plugin manager has loaded. -/
def dtmfChain : Chain := ⟨(Plugin.loaded [.server, .dtmf]).nextPlugin, 2⟩

theorem links_dtmfChain : dtmfChain.Links [.dtmf] := ⟨Plugin.linked_loaded (by decide), by decide, by decide⟩

/-- A frame with a sample on the second of two channels. -/
def onSecond (x : Int16) : FrameData := ⟨1, .ofFn fun k => if k.val = 1 then x else 0, .replicate 64 0, 0⟩

theorem first_channel_heard_two : ∃ plugin, DtmfPlugin.init 1 1 = .ok plugin ∧
    let server := { Server.new with channels := 2, smplPerChan := 1 }
    let rounds := fun x => Run.emits (step dtmfChain 65536 1) (start server plugin [.readyRead [(onSecond x).toBytes]])
      [.handle, .putData, .run, .run, .run]
    rounds 5 = rounds 7 := by
  refine ⟨_, rfl, ?_⟩
  have hfirst : Server.SameFirst 2 1 (onSecond 5) (onSecond 7) := by
    refine ⟨rfl, fun j hj => ?_⟩
    obtain rfl : j = 0 := Nat.lt_one_iff.mp hj
    simp [FrameData.sample, onSecond]
  have hinput : Server.SameInput 2 1 (.readyRead [(onSecond 5).toBytes]) (.readyRead [(onSecond 7).toBytes]) := by
    have hframes : ∀ x, frames [(onSecond x).toBytes] = [onSecond x] := fun x => frames_map_toBytes [onSecond x]
    refine .readyRead (by simp) ?_
    rw [hframes, hframes]
    exact .cons hfirst .nil
  have hsetup : Setup dtmfChain [.dtmf] { Server.new with channels := 2, smplPerChan := 1 } :=
    ⟨links_dtmfChain, by decide, by decide, rfl, by decide, by decide⟩
  exact (@first_channel_heard 1 dtmfChain [.dtmf] 65536 (by decide) { Server.new with channels := 2, smplPerChan := 1 }
    hsetup _ _ _ (.cons hinput .nil) [.handle, .putData, .run, .run, .run]).1

end DtmfSession
end Recd2
