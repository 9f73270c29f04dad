/-
  Identity binding over whole runs.

  * `ResolvedFrom o`: the options are those of startup, under at most a profile;
    `Chosen o agent` is the profile a hop into an agent acts under;
  * `Identified o` is the invariant: the open session is bound to its inventory
    and to a subject that may act through its agent (`Bound`);
  * `Hops.spec` says what a hop does from such a state, `identified_step` that
    every pass of the loop keeps it;
  * `identity_binding`: in every run, every request to the broker carries a
    consistent subject, agent and scope, and the right inventory.
-/
import DekoponConsole.Lib.Runs
import DekoponConsole.Proof.Dispatch
import DekoponConsole.Proof.Startup

namespace DekoponConsole

variable {exts : Externals}

/-! ## Options under a profile -/

/-- The options under a profile. -/
def profiled (o : ConsoleOptions) (p : OperatorProfile) : ConsoleOptions :=
  { o with
    subject := p.subject
    model := (selectedModel o.modelOverride p.model).1
    modelSource := (selectedModel o.modelOverride p.model).2
    promptLimits := {
      maxSteps := (o.stepsOverride.or p.maxSteps).getD 8
      maxCapabilityCalls := (o.callsOverride.or p.maxCapabilityCalls).getD 16 } }

theorem options_applyProfile (c : Console) (p : OperatorProfile) :
    (applyProfile c p).options = profiled c.options p := rfl

/-- What startup promises of its options. -/
structure Started (o : ConsoleOptions) : Prop where
  named : ∀ name, o.fixedProfile = some name → ∃ p ∈ o.profiles, p.name = name
  scope : o.scope = scopeOf o.smokeConversation

/-- The options of startup, under at most one of its profiles. -/
def ResolvedFrom (o o' : ConsoleOptions) : Prop := o' = o ∨ ∃ p ∈ o.profiles, o' = profiled o p

namespace ResolvedFrom
variable {o o' : ConsoleOptions} (h : ResolvedFrom o o')
include h

theorem profiles : o'.profiles = o.profiles := by
  rcases h with rfl | ⟨p, -, rfl⟩ <;> rfl

theorem fixedProfile : o'.fixedProfile = o.fixedProfile := by
  rcases h with rfl | ⟨p, -, rfl⟩ <;> rfl

theorem smokeConversation : o'.smokeConversation = o.smokeConversation := by
  rcases h with rfl | ⟨p, -, rfl⟩ <;> rfl

theorem scope : o'.scope = o.scope := by
  rcases h with rfl | ⟨p, -, rfl⟩ <;> rfl

/-- A profile replaces whatever the profile before it set. -/
theorem profiled_eq (p : OperatorProfile) : profiled o' p = profiled o p := by
  rcases h with rfl | ⟨q, -, rfl⟩ <;> rfl

/-- Without authored profiles the options never change. -/
theorem eq_of_nil (hnil : o.profiles = []) : o' = o := by
  rcases h with rfl | ⟨p, hp, -⟩
  · rfl
  · simp [hnil] at hp

end ResolvedFrom

/-- The profile a hop into an agent acts under: the fixed one, or else the only
    one bound to the agent. -/
structure Chosen (o : ConsoleOptions) (agent : AgentId) (p : OperatorProfile) : Prop where
  picked : pickProfile o.fixedProfile (o.profiles.filter fun p => p.agent == agent) = some p
  mem : p ∈ o.profiles
  bound : p.agent = agent
  binding : o.fixedProfile = some p.name ∨
    (o.fixedProfile = none ∧ (o.profiles.filter fun p => p.agent == agent) = [p])

/-- The subject may act through the agent. -/
def Bound (o : ConsoleOptions) (agent : AgentId) (subject : ExternalSubject) : Prop :=
  (o.profiles = [] ∧ subject = o.subject) ∨ ∃ p, Chosen o agent p ∧ p.subject = subject

theorem exists_find?_name {profiles : List OperatorProfile} {name : String}
    (h : ∃ p ∈ profiles, p.name = name) :
    ∃ p, profiles.find? (fun p => p.name == name) = some p := by
  obtain ⟨p, hp, hpn⟩ := h
  exact Option.isSome_iff_exists.1 (List.find?_isSome.2 ⟨p, hp, by simpa using hpn⟩)

/-- What a search finds, it finds among those that satisfy what it satisfies. -/
theorem find?_filter_of_find? {α : Type} {f q : α → Bool} {xs : List α} {a : α}
    (h : xs.find? q = some a) (hf : f a) : (xs.filter f).find? q = some a := by
  obtain ⟨hq, before, after, rfl, hbefore⟩ := List.find?_eq_some_iff_append.1 h
  rw [List.find?_eq_some_iff_append]
  exact ⟨hq, before.filter f, after.filter f, by simp [hf],
    fun b hb => hbefore b (List.mem_of_mem_filter hb)⟩

/-- A hop acts under the chosen profile, or under none when none is authored. -/
theorem Hop.chosen {o : ConsoleOptions} {c c₁ : Console} {agent : AgentId} (hs : Started o)
    (hr : ResolvedFrom o c.options) (h : Hop exts c agent c₁) :
    (∃ p, Chosen o agent p ∧ c₁ = applyProfile c p) ∨ (o.profiles = [] ∧ c₁ = c) := by
  obtain ⟨-, -, hfixed, hsingle, hres⟩ := h
  rw [hr.profiles, hr.fixedProfile] at hfixed
  rw [hr.profiles, hr.fixedProfile] at hsingle
  rw [hr.profiles, hr.fixedProfile] at hres
  rcases hres with ⟨p, hp, hc⟩ | hres
  · refine Or.inl ⟨p, ?_, hc⟩
    have hmem (q : OperatorProfile) (hq : q ∈ o.profiles.filter fun p => p.agent == agent) :
        q ∈ o.profiles ∧ q.agent = agent := by simpa using hq
    cases hf : o.fixedProfile with
    | none =>
      rw [hf, pickProfile, Option.bind_none, Option.none_or] at hp
      have hlen := hsingle hf
      have hone : (o.profiles.filter fun p => p.agent == agent) = [p] := by
        match hl : o.profiles.filter fun p => p.agent == agent with
        | [] => simp [hl] at hp
        | [q] => simpa [hl] using hp
        | _ :: _ :: _ => simp [hl] at hlen
      have := hmem p (by simp [hone])
      exact ⟨by simpa [hf, pickProfile] using hp, this.1, this.2, Or.inr ⟨hf, hone⟩⟩
    | some name =>
      obtain ⟨q, hfind⟩ := exists_find?_name (hs.named name hf)
      have hqm := List.mem_of_find?_eq_some hfind
      have hqn : q.name = name := by simpa using List.find?_some hfind
      have hqa : q.agent = agent := hfixed name hf q hqm hqn
      obtain rfl : q = p := by
        rw [hf, pickProfile, Option.bind_some,
          find?_filter_of_find? hfind (by simpa using hqa)] at hp
        simpa using hp
      exact ⟨hf ▸ hp, hqm, hqa, Or.inl (by rw [hf, hqn])⟩
  · exact Or.inr hres

/-! ## Hops -/

theorem options_prepareHop (exts : Externals) {c : Console}
    (h : c.options.scope = scopeOf c.options.smokeConversation) :
    (prepareHop exts c).options = c.options := by
  simp [prepareHop, clearAgentContext, ← h]

theorem session_prepareHop (c : Console) : (prepareHop exts c).app.session = none := rfl

/-- The invariant: the options come from startup, and the open session is bound
    to its inventory and its subject. -/
structure Identified (o : ConsoleOptions) (c : Console) : Prop where
  options : ResolvedFrom o c.options
  session : ∀ session, c.app.session = some session →
    c.app.assets = some session.leg.store ∧ Bound o session.agent c.options.subject

/-- What a hop leaves. -/
structure Entered (o : ConsoleOptions) (c : Console) (agent : AgentId) (d : Dispatched) : Prop where
  options : ResolvedFrom o d.1.options
  bound : Bound o agent d.1.options.subject
  stores : d.1.stores.length = c.stores.length + 1
  calls : d.2 = [.openLeg (attestationOf d.1.options.subject agent d.1.options.scope)
    c.stores.length]
  session : ∀ session, d.1.app.session = some session → session.agent = agent ∧
    session.leg.store = c.stores.length ∧ d.1.app.assets = some c.stores.length

theorem Hops.spec {o : ConsoleOptions} {c : Console} {d : Dispatched} (hs : Started o)
    (hi : Identified o c) (h : Hops exts c d) : ∃ agent, Entered o c agent d := by
  obtain ⟨c₀, agent, c₁, app, hc, hop, happ, rfl⟩ := h
  have hr₀ : ResolvedFrom o c₀.options := hc.options ▸ hi.options
  have hres : ResolvedFrom o c₁.options ∧ Bound o agent c₁.options.subject ∧
      c₁.stores.length = c.stores.length := by
    rcases hop.chosen hs hr₀ with ⟨p, hp, rfl⟩ | ⟨hnone, rfl⟩
    · refine ⟨Or.inr ⟨p, hp.mem, ?_⟩, Or.inr ⟨p, hp, rfl⟩, hc.stores⟩
      rw [options_applyProfile, hr₀.profiled_eq]
    · exact ⟨hr₀, Or.inl ⟨hnone, by rw [hr₀.eq_of_nil hnone]⟩, hc.stores⟩
  obtain ⟨hr₁, hb, hlen⟩ := hres
  have hopt : (prepareHop exts c₁).options = c₁.options := by
    refine options_prepareHop exts ?_
    rw [hr₁.scope, hr₁.smokeConversation, hs.scope]
  refine ⟨agent, ?_, ?_, ?_, ?_, ?_⟩
  · exact hopt ▸ hr₁
  · exact hopt ▸ hb
  · simp [prepareHop, clearAgentContext, hlen]
  · rw [hlen]
  · intro session hsession
    cases happ with
    | refused report =>
      have := (App.quiet_raise (prepareHop exts c₁).app report).context.session
      rw [session_prepareHop] at this
      exact absurd (hsession.symm.trans this) (by simp)
    | entered leg hst ha =>
      obtain rfl : AgentSession.new agent leg = session := by
        simpa [App.enter] using hsession
      exact ⟨rfl, hst.trans hlen, by simp [hlen]⟩

theorem identified_step {o : ConsoleOptions} {c : Console} (hs : Started o) (hi : Identified o c)
    (l : Label) : Identified o (step exts c l) := by
  rcases react_cases exts c l with ⟨⟨hc, -⟩, -⟩ | ⟨-, hh⟩
  · refine ⟨?_, ?_⟩
    · rw [step, hc.options]
      exact hi.options
    · intro session hsession
      rw [step, hc.app.assets, hc.options]
      exact hi.session session (hc.app.session ▸ hsession)
  · obtain ⟨agent, he⟩ := hh.spec hs hi
    refine ⟨he.options, ?_⟩
    intro session hsession
    obtain ⟨rfl, hstore, hassets⟩ := he.session session hsession
    exact ⟨hstore ▸ hassets, he.bound⟩

theorem identified_exec (exts : Externals) {o : ConsoleOptions} {c : Console} (hs : Started o)
    (hi : Identified o c) (ls : List Label) : Identified o (Runs.exec (step exts) c ls) :=
  Runs.exec_of_forall (I := Identified o) (fun _ l h => identified_step hs h l) hi ls

/-! ## Requests -/

@[simp] theorem attestationOf_agent (subject : ExternalSubject) (agent : AgentId)
    (scope : Option ChatScopeClaim) : (attestationOf subject agent scope).agent = agent := by
  cases scope <;> rfl

@[simp] theorem attestationOf_subject (subject : ExternalSubject) (agent : AgentId)
    (scope : Option ChatScopeClaim) : (attestationOf subject agent scope).subject = subject := by
  cases scope <;> rfl

@[simp] theorem attestationOf_scope (subject : ExternalSubject) (agent : AgentId)
    (scope : Option ChatScopeClaim) : (attestationOf subject agent scope).scope = scope := by
  cases scope <;> rfl

/-- A leg is attested for a subject that may act through its agent, in the scope
    of startup; a synthetic turn is recorded in the reserved scope only. -/
def Attested (o : ConsoleOptions) : BrokerCall → Prop
  | .openLeg a _ => Bound o a.agent a.subject ∧ a.scope = o.scope
  | .recordDeliveredTurn a _ =>
    o.smokeConversation = true ∧ Bound o a.agent a.subject ∧ a.scope = some smokeClaim

theorem attested_asked {o : ConsoleOptions} {c : Console} (hs : Started o) (hi : Identified o c)
    (l : Label) : ∀ call ∈ asked exts c l, Attested o call := by
  intro call hcall
  rcases react_cases exts c l with ⟨⟨-, hcalls⟩, -⟩ | ⟨-, hh⟩
  · rcases hcalls with hn | ⟨session, store, hsession, -, hcalls⟩ |
      ⟨hsmoke, session, turn, hsession, hcalls⟩
    · rw [asked, hn] at hcall
      exact absurd hcall List.not_mem_nil
    · rw [asked, hcalls, List.mem_singleton] at hcall
      subst hcall
      refine ⟨?_, ?_⟩
      · simpa using (hi.session session hsession).2
      · simpa using hi.options.scope
    · rw [asked, hcalls, List.mem_singleton] at hcall
      subst hcall
      exact ⟨hi.options.smokeConversation ▸ hsmoke, (hi.session session hsession).2, rfl⟩
  · obtain ⟨agent, he⟩ := hh.spec hs hi
    rw [asked, he.calls, List.mem_singleton] at hcall
    subst hcall
    refine ⟨?_, ?_⟩
    · simpa using he.bound
    · simpa using he.options.scope

/-- A leg that no hop opens is the open session's, over its inventory. -/
theorem leg_of_session {o : ConsoleOptions} {c : Console} (hi : Identified o c) {l : Label}
    (hl : performed exts c l ≠ some .enter) {a : Attestation} {store : StoreId}
    (h : .openLeg a store ∈ asked exts c l) :
    ∃ session, c.app.session = some session ∧ a.agent = session.agent ∧
      store = session.leg.store := by
  rcases react_cases exts c l with ⟨⟨-, hcalls⟩, -⟩ | ⟨hp, -⟩
  · rcases hcalls with hn | ⟨session, store', hsession, hassets, hcalls⟩ |
      ⟨-, session, turn, -, hcalls⟩
    · rw [asked, hn] at h
      exact absurd h List.not_mem_nil
    · rw [asked, hcalls, List.mem_singleton, BrokerCall.openLeg.injEq] at h
      obtain ⟨rfl, rfl⟩ := h
      have := hassets.symm.trans (hi.session session hsession).1
      exact ⟨session, hsession, by simp, by simpa using this⟩
    · rw [asked, hcalls] at h
      simp at h
  · exact absurd hp hl

/-- The session has been open since a hop of the run, which made the inventory:
    the one numbered by the inventories there were. -/
def OpenedBy (exts : Externals) (c₀ : Console) (ls : List Label) (session : AgentSession)
    (store : StoreId) : Prop :=
  ∃ before hop after, ls = before ++ hop :: after ∧
    performed exts (Runs.exec (step exts) c₀ before) hop = some .enter ∧
    (Runs.exec (step exts) c₀ before).stores.length = store ∧
    (Runs.exec (step exts) c₀ (before ++ [hop])).stores.length = store + 1 ∧
    ∀ mid, mid <+: after →
      (Runs.exec (step exts) c₀ (before ++ hop :: mid)).app.session = some session

theorem openedBy_exec {o : ConsoleOptions} {c₀ : Console} (hs : Started o) (hi : Identified o c₀)
    (hnone : c₀.app.session = none) (ls : List Label) {session : AgentSession}
    (h : (Runs.exec (step exts) c₀ ls).app.session = some session) :
    OpenedBy exts c₀ ls session session.leg.store := by
  obtain ⟨before, hop, after, rfl, hbefore, hopen⟩ :=
    Runs.exists_origin (P := fun c : Console => c.app.session = some session) (by simp [hnone]) h
  have hopened := hopen [] List.nil_prefix
  rw [Runs.exec_concat] at hopened
  -- whatever is no hop keeps the session, which was not open before
  rcases react_cases exts (Runs.exec (step exts) c₀ before) hop with ⟨⟨hc, -⟩, -⟩ | ⟨hp, hh⟩
  · exact absurd (hc.app.session ▸ hopened) hbefore
  · obtain ⟨agent, he⟩ := hh.spec hs (identified_exec exts hs hi before)
    obtain ⟨-, hstore, -⟩ := he.session session hopened
    refine ⟨before, hop, after, rfl, hp, hstore.symm, ?_, hopen⟩
    rw [Runs.exec_concat, hstore]
    exact he.stores

/-! ## From startup -/

section
variable {launch : Launch} {cli : Cli} {document : ProfilesDocument} {app : App}
  {options : ConsoleOptions}

theorem started_execute (h : execute exts launch cli = .ok (app, options)) : Started options := by
  obtain ⟨document, catalog, subject, socket, credential, -, hsel, -, rfl, -⟩ := execute_cases h
  exact ⟨hsel.named, rfl⟩

theorem session_execute (h : execute exts launch cli = .ok (app, options)) : app.session = none := by
  obtain ⟨document, catalog, subject, socket, credential, -, -, -, rfl, rfl⟩ := execute_cases h
  rfl

theorem identified_start (h : execute exts launch cli = .ok (app, options)) :
    Identified options (Console.start app options) :=
  ⟨Or.inl rfl, fun _ hs => absurd ((session_execute h).symm.trans hs) (by simp)⟩

/-- The subject may act through the agent: it is that of a profile bound to the
    agent, which is the `--profile` one or the only one bound to it; or, when no
    profile is authored, that of the command line. -/
structure Permitted (cli : Cli) (document : ProfilesDocument) (agent : AgentId)
    (subject : ExternalSubject) : Prop where
  authored : document.profiles ≠ [] → ∃ p ∈ document.profiles, p.agent = agent ∧
    p.subject = subject ∧
      (cli.profile = some p.name ∨ (document.profiles.filter fun q => q.agent == agent) = [p])
  subjectOnly : document.profiles = [] → cli.subject = some subject

/-- The triple of subject, agent and scope that a request carries is consistent. -/
def Consistent (cli : Cli) (document : ProfilesDocument) : BrokerCall → Prop
  | .openLeg a _ => Permitted cli document a.agent a.subject ∧
      a.scope = if cli.smokeConversation then some smokeClaim else none
  | .recordDeliveredTurn a _ => cli.smokeConversation = true ∧
      Permitted cli document a.agent a.subject ∧ a.scope = some smokeClaim

theorem initialProfile_nil (cli : Cli) (hnil : document.profiles = []) :
    initialProfile cli document = none := by
  cases hp : cli.profile <;> cases ha : cli.agent <;>
    simp [initialProfile, chosenProfile, matchingProfiles, hnil, hp, ha]

theorem Bound.permitted (h : execute exts launch cli = .ok (app, options))
    (hd : loadDocument launch cli = .ok document) {agent : AgentId} {subject : ExternalSubject}
    (hb : Bound options agent subject) : Permitted cli document agent subject := by
  obtain ⟨document', catalog, subject', socket, credential, hd', -, hsubject, rfl, -⟩ :=
    execute_cases h
  obtain rfl : document = document' := Except.ok.inj (hd.symm.trans hd')
  refine ⟨?_, ?_⟩
  · intro hne
    rcases hb with ⟨hnil, -⟩ | ⟨p, hp, hps⟩
    · exact absurd hnil hne
    · exact ⟨p, hp.mem, hp.bound, hps, hp.binding.imp_right And.right⟩
  · intro hnil
    rcases hb with ⟨-, rfl⟩ | ⟨p, hp, -⟩
    · simpa [initialProfile_nil cli hnil] using hsubject
    · exact absurd hp.mem (by simp [startOptions, hnil])

theorem Attested.consistent (h : execute exts launch cli = .ok (app, options))
    (hd : loadDocument launch cli = .ok document) {call : BrokerCall}
    (hc : Attested options call) : Consistent cli document call := by
  have hoptions : options.scope = scopeOf cli.smokeConversation ∧
      options.smokeConversation = cli.smokeConversation := by
    obtain ⟨document', catalog, subject, socket, credential, -, -, -, rfl, -⟩ := execute_cases h
    exact ⟨rfl, rfl⟩
  cases call with
  | openLeg a store => exact ⟨hc.1.permitted h hd, hc.2.trans hoptions.1⟩
  | recordDeliveredTurn a turn =>
    exact ⟨hoptions.2 ▸ hc.1, hc.2.1.permitted h hd, hc.2.2⟩

/-- **Identity binding.**  After any run from an accepted startup, whatever the
    next pass of the loop asks of the broker carries a consistent triple, and a
    leg that no hop opens names the agent of the open session and the inventory
    that the hop which opened it made. -/
theorem identity_binding (h : execute exts launch cli = .ok (app, options))
    (hd : loadDocument launch cli = .ok document) (ls : List Label) (l : Label) :
    let c := Runs.exec (step exts) (Console.start app options) ls
    (∀ call ∈ asked exts c l, Consistent cli document call) ∧
      (performed exts c l ≠ some .enter → ∀ a store, .openLeg a store ∈ asked exts c l →
        ∃ session, c.app.session = some session ∧ a.agent = session.agent ∧
          OpenedBy exts (Console.start app options) ls session store) := by
  have hs := started_execute h
  have hi := identified_exec exts hs (identified_start h) ls
  refine ⟨fun call hcall => (attested_asked hs hi l call hcall).consistent h hd, ?_⟩
  intro hl a store hcall
  obtain ⟨session, hsession, hagent, rfl⟩ := leg_of_session hi hl hcall
  exact ⟨session, hsession, hagent,
    openedBy_exec hs (identified_start h) (session_execute h) ls hsession⟩

end

/-- A hop into `ops` and a script there. -/
theorem identity_binding_sample :
    let c := Runs.exec (step .plain) (Console.start Sample.app Sample.options)
      [.action .enter Sample.answers]
    (∀ call ∈ asked .plain c (.action (.shell "files") Sample.answers),
      Consistent Sample.cli Sample.document call) ∧
    ∃ session, c.app.session = some session ∧ ⟨"ops"⟩ = session.agent ∧
      OpenedBy .plain (Console.start Sample.app Sample.options) [.action .enter Sample.answers]
        session 0 := by
  obtain ⟨hcalls, hleg⟩ := identity_binding Sample.execute_eq Sample.loadDocument_eq
    [.action .enter Sample.answers] (.action (.shell "files") Sample.answers)
  exact ⟨hcalls, hleg (by decide) (.forSubject ⟨"operator"⟩ ⟨"ops"⟩) 0 (List.mem_singleton.2 rfl)⟩

end DekoponConsole
