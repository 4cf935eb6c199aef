import Recd2.Theorems.Queries
import Recd2.Udp

/-! The not-found pair, which all queries share. `Server::init` writes the failsafe port into it where the port is not
    found, and leaves `m_port` as it was. -/

namespace Recd2
open RecorderConfig

/-! ### The operations on the configuration -/

/-- The server, and the configuration that it shares with the other components. -/
structure Process where
  server : Server
  config : ConfigHash

namespace Process

/-- The calls that read or load the configuration. -/
inductive Op where
  | init (bind : UInt16 → Bool)
  | tagPairs (tag : String)
  | lookup (tag attrib : String)
  | load (files : Files) (fname : String)
  | loadDefaults

/-- The queries of `Server::init`, in order. -/
def initQueries : List (String × String) :=
  [("Record", "files"), ("FrameData", "channels"), ("FrameData", "samplesPerChan"), ("FrameData", "header"),
    ("Peek", "enabled"), ("Peek", "size"), ("Network", "transport"), ("Network", "port")]

/-- `none` is the exit of `Server::init`. -/
def step (p : Process) : Op → Option Process
  | .init bind => (Server.init bind p.config.view p.server).map fun (server, cfg) =>
    ⟨server, { p.config.lookups initQueries with notFound := cfg.notFound }⟩
  | .tagPairs tag => some { p with config := (p.config.getTagPairs tag).2 }
  | .lookup tag attrib => some { p with config := (p.config.getAttribPairFromTag tag attrib).2 }
  | .load files fname => some { p with config := (p.config.fastLoadFile files fname).1 }
  | .loadDefaults => some { p with config := p.config.loadDefaults }

/-! ### What is expected of a step -/

/-- No pair of the name is in the tag. -/
def Absent (c : ConfigHash) (tag attrib : String) : Prop := (c.view.tags tag).find? (·.type1 == attrib) = none

/-- What is not found is answered with two empty texts. -/
def AnswersEmpty (c : ConfigHash) : Prop := ∀ tag attrib, Absent c tag attrib → (c.getAttribPairFromTag tag attrib).1 = ⟨"", ""⟩

/-- The names of the two transports. -/
def IsTransport (text : String) : Prop := text = "udp" ∨ text = "tcp"

instance (text : String) : Decidable (IsTransport text) := inferInstanceAs (Decidable (_ ∨ _))

/-- The state behind a step answers as expected, and the server has the failsafe port where none was found. -/
def Sound (p : Process) (op : Op) : Prop :=
  ∀ q, p.step op = some q → AnswersEmpty q.config ∧
    ∀ bind, op = .init bind → Absent p.config "Network" "port" → q.server.port = 1234

/-- An initialisation of the server finds a port, or ends the program for want of a transport. -/
def Configured (p : Process) : Op → Prop
  | .init _ => ¬Absent p.config "Network" "port" ∨
      ¬IsTransport (p.config.view.getAttribPairFromTag "Network" "transport").type2
  | _ => True

theorem getAttribPairFromTag_of_absent {c : ConfigHash} {tag attrib : String} (h : Absent c tag attrib) :
    c.view.getAttribPairFromTag tag attrib = ⟨"", c.notFound⟩ := by
  rw [RecorderConfig.getAttribPairFromTag, RecorderConfig.getTagPairs, h]
  rfl

theorem answersEmpty_of_notFound {c : ConfigHash} (h : c.notFound = "") : AnswersEmpty c := fun tag attrib habsent => by
  rw [ConfigHash.answer_eq, getAttribPairFromTag_of_absent habsent, h]

/-! ### `Server::init` -/

section Init
variable {p q : Process} {bind : UInt16 → Bool}

theorem type1_of_not_absent {c : ConfigHash} {tag attrib : String} (h : ¬Absent c tag attrib) :
    (c.view.getAttribPairFromTag tag attrib).type1 = attrib := by
  obtain ⟨a, ha⟩ := Option.ne_none_iff_exists'.mp h
  have hkey := List.find?_some ha
  rw [RecorderConfig.getAttribPairFromTag, RecorderConfig.getTagPairs, ha, Option.getD_some]
  exact beq_iff_eq.mp hkey

theorem failsafePort_of_absent (h : Absent p.config "Network" "port") :
    Server.failsafePort p.config.view = { p.config.view with notFound := "1234" } := by
  rw [Server.failsafePort, getAttribPairFromTag_of_absent h, if_pos rfl]

theorem failsafePort_of_not_absent (h : ¬Absent p.config "Network" "port") :
    Server.failsafePort p.config.view = p.config.view := by
  rw [Server.failsafePort, type1_of_not_absent h, if_neg (by decide)]

/-- Where `init` returns, the configuration is the one with the failsafe. -/
theorem init_eq_some {cfg cfg' : RecorderConfig} {s s' : Server} (h : Server.init bind cfg s = some (s', cfg')) :
    cfg' = Server.failsafePort cfg ∧ IsTransport ((Server.failsafePort cfg).getAttribPairFromTag "Network" "transport").type2 := by
  rw [Server.init] at h
  split at h
  · rename_i htransport
    exact ⟨(Prod.mk.inj (Option.some.inj h)).2.symm, Or.inl htransport⟩
  · split at h
    · rename_i htransport
      exact ⟨(Prod.mk.inj (Option.some.inj h)).2.symm, Or.inr htransport⟩
    · cases h

theorem exists_init {cfg : RecorderConfig} (s : Server)
    (h : IsTransport ((Server.failsafePort cfg).getAttribPairFromTag "Network" "transport").type2) :
    ∃ s', Server.init bind cfg s = some (s', Server.failsafePort cfg) := by
  rcases h with h | h
  · exact ⟨_, if_pos h⟩
  · refine ⟨s.configure cfg, ?_⟩
    show (if _ = "udp" then _ else if _ = "tcp" then _ else _) = _
    rw [h, if_neg (by decide), if_pos rfl]

/-- The failsafe port is no transport. -/
theorem isTransport_failsafePort (hempty : p.config.notFound = "") :
    IsTransport ((Server.failsafePort p.config.view).getAttribPairFromTag "Network" "transport").type2 ↔
      IsTransport (p.config.view.getAttribPairFromTag "Network" "transport").type2 := by
  by_cases hport : Absent p.config "Network" "port"
  · rw [failsafePort_of_absent hport]
    by_cases htransport : Absent p.config "Network" "transport"
    · have hnone : ({ p.config.view with notFound := "1234" } : RecorderConfig).getAttribPairFromTag "Network" "transport" =
          ⟨"", "1234"⟩ := by
        rw [RecorderConfig.getAttribPairFromTag, RecorderConfig.getTagPairs, htransport]
        rfl
      rw [hnone, getAttribPairFromTag_of_absent htransport, hempty]
      decide
    · obtain ⟨a, ha⟩ := Option.ne_none_iff_exists'.mp htransport
      have hsome : ∀ notFound, ({ p.config.view with notFound := notFound } : RecorderConfig).getAttribPairFromTag "Network"
          "transport" = a := fun notFound => by
        rw [RecorderConfig.getAttribPairFromTag, RecorderConfig.getTagPairs, ha]
        rfl
      rw [hsome "1234", ← hsome p.config.view.notFound]
  · rw [failsafePort_of_not_absent hport]

end Init

/-! ### Runs -/

theorem absent_lookups (c : ConfigHash) (queries : List (String × String)) (notFound tag attrib : String) :
    Absent { c.lookups queries with notFound := notFound } tag attrib ↔ Absent c tag attrib := by
  show ((c.lookups queries).view.tags tag).find? (·.type1 == attrib) = none ↔ _
  rw [ConfigHash.view_lookups]
  rfl

theorem notFound_load (c : ConfigHash) (es : List StartElement) : (es.foldl ConfigHash.append c).notFound = c.notFound :=
  (congrArg RecorderConfig.notFound (ConfigHash.view_foldl_append c es)).trans (notFound_foldl_append c.view es)

/-- Only the server's initialisation writes into the pair. -/
theorem notFound_step {p q : Process} {op : Op} (h : p.step op = some q) (hop : ∀ bind, op ≠ .init bind) :
    q.config.notFound = p.config.notFound := by
  cases op with
  | init bind => exact absurd rfl (hop bind)
  | tagPairs tag =>
    cases h
    rfl
  | lookup tag attrib =>
    cases h
    rfl
  | load files fname =>
    cases h
    show (p.config.fastLoadFile files fname).1.notFound = _
    rw [ConfigHash.fastLoadFile]
    split_ifs
    · rfl
    · cases files fname with
      | none => rfl
      | some elements => exact notFound_load p.config.clear elements
  | loadDefaults =>
    cases h
    exact notFound_load p.config defaults

/-- An initialisation that finds a port leaves the pair alone. -/
theorem configured_keeps {p q : Process} {op : Op} (hempty : p.config.notFound = "") (hconfigured : Configured p op)
    (h : p.step op = some q) :
    q.config.notFound = "" ∧ ∀ bind, op = .init bind → ¬Absent p.config "Network" "port" := by
  by_cases hop : ∀ bind, op ≠ .init bind
  · exact ⟨(notFound_step h hop).trans hempty, fun bind hinit => absurd hinit (hop bind)⟩
  · obtain ⟨bind, hbind⟩ := not_forall.mp hop
    obtain rfl := not_not.mp hbind
    obtain ⟨⟨s', cfg'⟩, hinit, rfl⟩ := Option.map_eq_some_iff.mp h
    obtain ⟨rfl, htransport⟩ := init_eq_some hinit
    have hport : ¬Absent p.config "Network" "port" :=
      hconfigured.resolve_right fun h => h ((isTransport_failsafePort hempty).mp htransport)
    refine ⟨?_, fun _ _ => hport⟩
    show (Server.failsafePort p.config.view).notFound = ""
    rw [failsafePort_of_not_absent hport]
    exact hempty

/-- An initialisation without a port that returns leaves the port as the text of the pair. -/
theorem not_sound_of_absent {p : Process} {bind : UInt16 → Bool} (hempty : p.config.notFound = "")
    (habsent : Absent p.config "Network" "port")
    (htransport : IsTransport (p.config.view.getAttribPairFromTag "Network" "transport").type2) : ¬Sound p (.init bind) := by
  intro hsound
  obtain ⟨s', hs'⟩ := @exists_init bind p.config.view p.server ((isTransport_failsafePort hempty).mpr htransport)
  rw [failsafePort_of_absent habsent] at hs'
  have hstep : p.step (.init bind) = some ⟨s', { p.config.lookups initQueries with notFound := "1234" }⟩ := by
    rw [step, hs', Option.map_some]
  have hgone := (absent_lookups p.config initQueries "1234" "Network" "port").mpr habsent
  have hport := (hsound _ hstep).1 _ _ hgone
  rw [ConfigHash.answer_eq, getAttribPairFromTag_of_absent hgone, MPair.mk.injEq] at hport
  exact absurd hport.2 (show "1234" ≠ "" by decide)

/-- As long as the pair is empty, a step is sound exactly when it is no initialisation without a port. -/
theorem sound_iff (p : Process) (op : Op) (hempty : p.config.notFound = "") : Sound p op ↔ Configured p op := by
  constructor
  · intro hsound
    cases op with
    | init bind =>
      by_contra hconfigured
      obtain ⟨habsent, htransport⟩ := not_or.mp hconfigured
      exact not_sound_of_absent hempty (not_not.mp habsent) (not_not.mp htransport) hsound
    | _ => trivial
  · intro hconfigured q hq
    obtain ⟨hq, hport⟩ := configured_keeps hempty hconfigured hq
    exact ⟨answersEmpty_of_notFound hq, fun bind hinit habsent => absurd habsent (hport bind hinit)⟩

/-- In every run, from any server and any tags, the answers for what is not found stay empty and the failsafe port is
    used, exactly when each initialisation of the server finds a port, or ends the program for want of a transport. -/
theorem notFound_sound_iff (server : Server) (tags : Hash String PairList) (ops : List Op) :
    Run.AlongExec step Sound ⟨server, ⟨tags, ""⟩⟩ ops ↔ Run.AlongExec step Configured ⟨server, ⟨tags, ""⟩⟩ ops := by
  refine @Run.alongExec_iff _ _ _ (fun p => p.config.notFound = "") _ _ sound_iff ?_ _ rfl ops
  intro p op q hempty hconfigured hq
  exact (configured_keeps hempty hconfigured hq).1

/-- One initialisation with a transport and no port. -/
theorem notFound_counterexample :
    ¬∀ (server : Server) (tags : Hash String PairList) (ops : List Op),
      Run.AlongExec step Sound ⟨server, ⟨tags, ""⟩⟩ ops := by
  intro h
  have hrun := h .new (Hash.empty.modify "Network" fun _ => [⟨"transport", "udp"⟩]) [.init fun _ => true]
  have hconfigured := (sound_iff _ _ rfl).mp hrun.1
  revert hconfigured
  rw [Configured, Absent]
  decide

end Process
end Recd2
