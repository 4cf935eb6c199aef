import Recd2.Theorems.Handler
import Recd2.Theorems.Session
import Recd2.Theorems.Shape
import Recd2.Theorems.Timeline

/-! Connections. The server forgets its counters when the timer finds no notification since its last tick, and when a
    notification comes without datagrams. Between two such moments the frames belong to one connection, and the lists
    sent are those of one connection after the other. How long the lists get depends on the gaps of each of them. -/

namespace Recd2

namespace Server
variable {next : Next} (s : Server)

/-! ### The frames of each connection -/

/-- The frames between the moments at which the counters are forgotten. `notified` says whether there was a notification
    since the last tick, and `fs` are the frames of the connection so far. -/
def connections (notified : Bool) (fs : List FrameData) : List Input → List (List FrameData)
  | [] => [fs]
  | .readyRead pending :: is =>
    if pending = [] then fs :: connections false [] is else connections true (fs ++ frames pending) is
  | .timeout :: is => if notified then connections false fs is else fs :: connections false [] is

/-- The server behind the frames of a connection, with the texts and the peeked frames of the connections before. -/
def behind (fs : List FrameData) (monitorData : List Char) (helperBuffer : List FrameData) : Server :=
  { s.disconnected.after fs with monitorData := monitorData, helperBuffer := helperBuffer }

theorem after_append (fs gs : List FrameData) : s.after (fs ++ gs) = (s.after fs).after gs := by
  cases hp : s.peekOptions.peekOnOff <;> simp [after, hp, ConnInfo.receives_append]

theorem after_behind (fs gs : List FrameData) (m m' : List Char) (hb : List FrameData) :
    ∃ hb', Server.after { s.behind fs m hb with monitorData := m' } gs = s.behind (fs ++ gs) m' hb' :=
  ⟨_, by rw [behind, behind, after, after, after, ConnInfo.receives_append]⟩

theorem calls_behind (fs gs : List FrameData) (m : List Char) (hb : List FrameData) :
    (s.behind fs m hb).calls next gs = (s.disconnected.after fs).calls next gs := by
  induction gs generalizing fs hb with
  | nil => rfl
  | cons g gs ih =>
    obtain ⟨hb', hafter⟩ := s.after_behind fs [g] m m hb
    have hself : (s.behind fs m hb).after [g] = s.behind (fs ++ [g]) m hb' := hafter
    rw [calls, calls, hself, ← after_append, ih]
    rfl

/-- The lists sent are those of the connections, one after the other. -/
theorem putDataCalls_connections (next : Next) (is : List Input) (fs : List FrameData) (m : List Char)
    (hb : List FrameData) :
    s.disconnected.calls next fs ++ putDataCalls (Run.emits (step next) (s.behind fs m hb) is) =
      (connections (!m.isEmpty) fs is).flatMap (s.disconnected.calls next) := by
  induction is generalizing fs m hb with
  | nil =>
    rw [connections, List.flatMap_singleton]
    exact List.append_nil _
  | cons i is ih =>
    -- The counters are forgotten, and the next connection begins.
    have hforget : ∀ es, putDataCalls es = [] → s.disconnected.calls next fs ++
        putDataCalls (es ++ Run.emits (step next) (s.behind fs m hb).disconnected is) =
          (fs :: connections false [] is).flatMap (s.disconnected.calls next) := by
      intro es hes
      have hnext := ih [] [] hb
      rw [calls, List.nil_append] at hnext
      have hserver : (s.behind fs m hb).disconnected = s.behind [] [] hb := rfl
      rw [putDataCalls_append, hes, List.nil_append, List.flatMap_cons, hserver, hnext]
      rfl
    rw [Run.emits_cons]
    cases i with
    | readyRead pending =>
      rw [connections]
      by_cases hp : pending = []
      · rw [if_pos hp, step, readyReadUdp, if_neg (not_not_intro hp)]
        exact hforget [] rfl
      · obtain ⟨hb', hafter⟩ := s.after_behind fs (frames pending) m (m ++ ['.']) hb
        have hcalls : calls next { s.behind fs m hb with monitorData := m ++ ['.'] } (frames pending) =
            (s.disconnected.after fs).calls next (frames pending) := calls_behind s fs (frames pending) (m ++ ['.']) hb
        have hmonitor : (!(m ++ ['.']).isEmpty) = true := by cases m <;> rfl
        have hnext := ih (fs ++ frames pending) (m ++ ['.']) hb'
        rw [calls_append, List.append_assoc, hmonitor] at hnext
        rw [if_neg hp, step, readyReadUdp_cons _ hp, putDataCalls_append, putDataCalls_handleDatagram,
          state_handleDatagram]
        have hm : (s.behind fs m hb).monitorData = m := rfl
        rw [hm, hafter, hcalls]
        exact hnext
    | timeout =>
      rw [connections, step, checkConnection]
      cases m with
      | nil => exact hforget [.sendMessage .lostConnection] rfl
      | cons c m => exact ih fs [] hb

/-! ### Places -/

/-- The places of all connections. -/
def places (css : List (List FrameData)) : List Slot :=
  css.flatMap fun fs => (List.range' 1 (lastNum fs)).flatMap (slots fs)

theorem calls_places (hs : s.singleFile = false) {css : List (List FrameData)} (h : ∀ fs ∈ css, Increasing fs) :
    List.Forall₂ (Slot.Sent next s) (places css) (css.flatMap (s.disconnected.calls next)) := by
  induction css with
  | nil => exact .nil
  | cons fs css ih =>
    exact List.rel_append (calls_sent s hs (h fs List.mem_cons_self)) (ih fun gs hgs => h gs (List.mem_cons_of_mem fs hgs))

/-! ### Gaps -/

/-- The counters rise, and stay below 2^31. -/
def Rising : Nat → List FrameData → Prop
  | _, [] => True
  | last, f :: fs => last < f.num ∧ f.num < 2 ^ 31 ∧ Rising f.num fs

theorem rising_of_sorted {last : Nat} {fs : List FrameData} (hlast : ∀ f ∈ fs, last < f.num)
    (hsorted : fs.Pairwise fun f g => f.num < g.num) (hbounded : ∀ f ∈ fs, f.num < 2 ^ 31) : Rising last fs := by
  induction fs generalizing last with
  | nil => trivial
  | cons f fs ih =>
    obtain ⟨hf, hfs⟩ := List.pairwise_cons.mp hsorted
    exact ⟨hlast f List.mem_cons_self, hbounded f List.mem_cons_self,
      ih hf hfs fun g hg => hbounded g (List.mem_cons_of_mem f hg)⟩

theorem rising_of_increasing {fs : List FrameData} (h : Increasing fs) : Rising 0 fs := by
  refine rising_of_sorted (fun f hf => ?_) h.sorted h.bounded
  cases fs with
  | nil => cases hf
  | cons g fs =>
    have hg := h.first g rfl
    rcases List.mem_cons.mp hf with rfl | hf
    · omega
    · have := (List.pairwise_cons.mp h.sorted).1 f hf
      omega

/-- How many counters are missing in each gap. -/
def gapsFrom : Nat → List FrameData → List Nat
  | _, [] => []
  | last, f :: fs => if f.num = last + 1 then gapsFrom f.num fs else (f.num - (last + 1)) :: gapsFrom f.num fs

/-- The gaps that are filled with a list for each missing counter: all but the first one of a connection. -/
def laterGaps (synch : Bool) (last : Nat) (fs : List FrameData) : List Nat :=
  if synch then gapsFrom last fs else (gapsFrom last fs).tail

/-! ### The length of the lists -/

theorem errLoop_of_clears (h : ∀ ls, putData next ls = []) (blocks : QList) (n : Nat) :
    errLoop next blocks n [] = List.replicate n blocks := by
  induction n with
  | zero => rfl
  | succ n ih => rw [errLoop, List.nil_append, h, ih, List.replicate_succ]

/-- When the chain leaves the lists, each list of a gap repeats the blocks of the lists before it. -/
theorem length_errLoop_iff (h : ∀ ls, putData next ls = ls) (blocks : QList) (n m : Nat) (pre : QList) :
    (∀ ls ∈ errLoop next blocks n pre, ls.length ≤ m) ↔ n = 0 ∨ pre.length + n * blocks.length ≤ m := by
  induction n generalizing pre with
  | zero => exact iff_of_true (fun _ hls => (by cases hls)) (Or.inl rfl)
  | succ n ih =>
    rw [errLoop, List.forall_mem_cons, h, ih, List.length_append, Nat.succ_mul]
    constructor
    · rintro ⟨hfirst, rfl | hrest⟩
      · rw [Nat.zero_mul]
        omega
      · omega
    · rintro (hzero | hall)
      · cases hzero
      · exact ⟨by omega, Or.inr (by omega)⟩

theorem counter_eq_iff_of_lt {c : ConnInfo} {k : UInt32} (hlt : c.paketCounter.toNat < k.toNat) :
    k = c.paketCounter + 1 ↔ k.toNat = c.paketCounter.toNat + 1 := by
  have hb := k.toNat_lt
  rw [← UInt32.toNat_inj, UInt32.toNat_add]
  show _ = (_ + 1) % 2 ^ 32 ↔ _
  omega

theorem errs_of_lt {c : ConnInfo} {k : UInt32} (hlt : c.paketCounter.toNat < k.toNat) (hb : k.toNat < 2 ^ 31) :
    (c.errs k).toInt.toNat = k.toNat - (c.paketCounter.toNat + 1) := by
  have hnat : (k - (c.paketCounter + 1)).toNat = k.toNat - (c.paketCounter.toNat + 1) := by
    rw [UInt32.toNat_sub, UInt32.toNat_add, UInt32.toNat_one]
    omega
  rw [ConnInfo.errs, toInt_toInt32_of_lt (by rw [hnat]; omega), hnat, Int.toNat_natCast]

/-- No list of a gap is longer than the array of slots exactly when the chain clears the lists or the blocks of all
    its lists together are not more. -/
theorem length_errLists_iff (ps : List Plugin) {udp : FrameData} (hch : s.channels.toNat ≤ 128)
    (hsynch : s.connInfo.onetimeSynch = true) (hlt : s.connInfo.paketCounter.toNat < udp.num) (hb : udp.num < 2 ^ 31) :
    (∀ ls ∈ s.errLists (Plugin.nextOf ps) udp, ls.length ≤ 128) ↔
      Plugin.clears ps = true ∨ (udp.num - (s.connInfo.paketCounter.toNat + 1)) * s.channels.toNat ≤ 128 := by
  have hflag : (!s.connInfo.onetimeSynch) = false := by rw [hsynch]; rfl
  have herrs : (s.connInfo.errs udp.counter).toInt.toNat = udp.num - (s.connInfo.paketCounter.toNat + 1) :=
    errs_of_lt hlt hb
  rw [errLists, hflag, if_neg Bool.false_ne_true, herrs]
  cases hclears : Plugin.clears ps with
  | true =>
    refine iff_of_true (fun ls hls => ?_) (Or.inl rfl)
    rw [errLoop_of_clears (fun ls => by rw [Plugin.putData_nextOf, if_pos hclears])] at hls
    rw [List.eq_of_mem_replicate hls, length_errBlocks]
    exact hch
  | false =>
    have hkeeps : ∀ ls, putData (Plugin.nextOf ps) ls = ls := fun ls => by
      rw [Plugin.putData_nextOf, hclears, if_neg Bool.false_ne_true]
    rw [length_errLoop_iff hkeeps, length_errBlocks, List.length_nil, Nat.zero_add]
    constructor
    · rintro (hzero | hall)
      · rw [hzero, Nat.zero_mul]
        exact Or.inr (Nat.zero_le 128)
      · exact Or.inr hall
    · exact fun h => Or.inr (h.resolve_left Bool.false_ne_true)

/-- No list is longer than the array of slots exactly when the chain clears the lists, or each gap behind the first
    one is small enough. -/
theorem length_calls_iff (ps : List Plugin) {fs : List FrameData} (hch : s.channels.toNat ≤ 128)
    (h : Rising s.connInfo.paketCounter.toNat fs) :
    (∀ ls ∈ s.calls (Plugin.nextOf ps) fs, ls.length ≤ 128) ↔ Plugin.clears ps = true ∨
      ∀ n ∈ laterGaps s.connInfo.onetimeSynch s.connInfo.paketCounter.toNat fs, n * s.channels.toNat ≤ 128 := by
  induction fs generalizing s with
  | nil =>
    have hnone : laterGaps s.connInfo.onetimeSynch s.connInfo.paketCounter.toNat [] = [] := by
      rw [laterGaps, gapsFrom]
      split <;> rfl
    rw [hnone]
    exact iff_of_true (fun _ hls => (by cases hls)) (Or.inr fun _ hn => by cases hn)
  | cons f fs ih =>
    obtain ⟨hlt, hb, hrest⟩ := h
    have hcounter : (s.after [f]).connInfo.paketCounter.toNat = f.num := by
      have heq : (s.after [f]).connInfo.paketCounter = f.counter := ConnInfo.paketCounter_receive s.connInfo f.counter
      rw [heq]
      rfl
    have hlater := ih (s.after [f]) hch (by rw [hcounter]; exact hrest)
    have hchannels : (s.after [f]).channels = s.channels := rfl
    rw [hcounter, hchannels] at hlater
    rw [calls, List.forall_mem_append, hlater, laterGaps, laterGaps, gapsFrom]
    by_cases hnext : f.num = s.connInfo.paketCounter.toNat + 1
    · -- The next frame: one list, and no gap.
      have heq : f.counter = s.connInfo.paketCounter + 1 := (counter_eq_iff_of_lt hlt).mpr hnext
      have hsynch : (s.after [f]).connInfo.onetimeSynch = s.connInfo.onetimeSynch := by
        have hconn : (s.after [f]).connInfo = s.connInfo.receive f.counter := rfl
        rw [hconn, ConnInfo.receive_next _ _ heq]
      have hlen : ∀ ls ∈ s.sends (Plugin.nextOf ps) f, ls.length ≤ 128 := by
        intro ls hls
        rw [sends, if_neg (not_not_intro heq)] at hls
        rw [List.mem_singleton.mp hls, s.length_frameList, slotCount]
        split
        · decide
        · exact hch
      rw [if_pos hnext, hsynch]
      exact and_iff_right hlen
    · -- A gap: the first one only sets the flag.
      have hne : f.counter ≠ s.connInfo.paketCounter + 1 := mt (counter_eq_iff_of_lt hlt).mp hnext
      have hsynch' : (s.after [f]).connInfo.onetimeSynch = true :=
        congrArg ConnInfo.onetimeSynch (s.connInfo.receive_desynch f.counter hne)
      rw [sends, if_pos hne, if_neg hnext, hsynch', if_pos rfl, List.tail_cons]
      cases hsynch : s.connInfo.onetimeSynch with
      | true =>
        rw [if_pos rfl, length_errLists_iff s ps hch hsynch hlt hb, List.forall_mem_cons]
        tauto
      | false =>
        have hone : ∀ ls ∈ s.errLists (Plugin.nextOf ps) f, ls.length ≤ 128 := by
          intro ls hls
          rw [errLists, hsynch, Bool.not_false, if_pos rfl] at hls
          rw [List.mem_singleton.mp hls, length_errBlocks]
          exact hch
        rw [if_neg Bool.false_ne_true]
        exact and_iff_right hone

end Server
end Recd2
