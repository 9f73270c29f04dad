/-
  What the header tells.

  * `Shown`: the header names the subject, the scope and the model of the options;
    `Profiled`: and the profile the open session acts under;
  * `TellsOf app a`: header and report of an application identify an attestation;
  * `header_truthful`: whatever a pass asks of the broker is attested as the header of the
    state it leaves tells;
  * `Traced` lists what an action makes of the broker trace, and `trace_provenance` finds
    the leg whose answer brought the trace that is shown.
-/
import DekoponConsole.Proof.Flight
import DekoponConsole.Proof.Identity
import DekoponConsole.Proof.Pass

namespace DekoponConsole

open App

variable {exts : Externals}

/-! ## The header -/

/-- The header names the subject, the scope and the model of the options. -/
structure Shown (exts : Externals) (c : Console) : Prop where
  subject : c.app.subject = c.options.subject.asStr
  scope : c.app.scopeLabel = scopeLabelOf exts c.options.scope
  model : c.app.model = c.options.model
  modelSource : c.app.modelSource = c.options.modelSource

/-- The header names the profile that lets the subject act through the agent, or none
    where none is authored. -/
def NamesProfile (o : ConsoleOptions) (profile : Option String) (agent : AgentId)
    (subject : ExternalSubject) : Prop :=
  (o.profiles = [] ∧ profile = none) ∨
    ∃ p, Chosen o agent p ∧ profile = some p.name ∧ p.subject = subject

/-- Without authored profiles the header names none, and otherwise that of the session. -/
structure Profiled (o : ConsoleOptions) (c : Console) : Prop where
  none : o.profiles = [] → c.app.profile = none
  session : ∀ session, c.app.session = some session →
    NamesProfile o c.app.profile session.agent c.options.subject

/-- Header and report identify whom a request is attested for. -/
structure TellsOf (exts : Externals) (o : ConsoleOptions) (app : App) (a : Attestation) : Prop where
  subject : app.subject = a.subject.asStr
  agent : app.reportAgent exts = a.agent.asStr
  scope : app.scopeLabel = scopeLabelOf exts a.scope
  profile : NamesProfile o app.profile a.agent a.subject

/-- The attestation of a request. -/
def BrokerCall.attestation : BrokerCall → Attestation
  | .openLeg a _ => a
  | .recordDeliveredTurn a _ => a

theorem Shown.of_sameContext {c c' : Console} (h : Shown exts c) (hc : c.SameContext c') :
    Shown exts c' := by
  refine ⟨?_, ?_, ?_, ?_⟩
  · rw [hc.app.subject, hc.options, h.subject]
  · rw [hc.app.scopeLabel, hc.options, h.scope]
  · rw [hc.app.model, hc.options, h.model]
  · rw [hc.app.modelSource, hc.options, h.modelSource]

theorem Profiled.of_sameContext {o : ConsoleOptions} {c c' : Console} (h : Profiled o c)
    (hc : c.SameContext c') : Profiled o c' := by
  refine ⟨fun hnil => hc.app.profile.trans (h.none hnil), fun session hs => ?_⟩
  rw [hc.app.profile, hc.options]
  exact h.session session (hc.app.session ▸ hs)

theorem shown_prepareHop (exts : Externals) (c : Console) : Shown exts (prepareHop exts c) :=
  ⟨rfl, rfl, rfl, rfl⟩

/-- What a hop leaves of the header: that of the prepared state, with the agent's name. -/
structure HopHeader (exts : Externals) (c₁ : Console) (agent : AgentId) (app : App) : Prop where
  subject : app.subject = (prepareHop exts c₁).app.subject
  scopeLabel : app.scopeLabel = (prepareHop exts c₁).app.scopeLabel
  model : app.model = (prepareHop exts c₁).app.model
  modelSource : app.modelSource = (prepareHop exts c₁).app.modelSource
  profile : app.profile = c₁.app.profile
  reported : app.reportAgent exts = agent.asStr
  session : ∀ session, app.session = some session → session.agent = agent

theorem Hopped.header {c₁ : Console} {agent : AgentId} {app : App}
    (ha : c₁.app.highlightedId exts = some agent) (h : Hopped exts c₁ agent app) :
    HopHeader exts c₁ agent app := by
  cases h with
  | refused report =>
    have hc := (quiet_raise (prepareHop exts c₁).app report).context
    refine ⟨hc.subject, hc.scopeLabel, hc.model, hc.modelSource, hc.profile, ?_, ?_⟩
    · have hagent : ((prepareHop exts c₁).app.raise report).highlightedId exts = some agent := by
        rw [← ha]
        unfold raise showError
        split_ifs <;> rfl
      have hnone : ((prepareHop exts c₁).app.raise report).session = none := hc.session
      simp only [reportAgent, hnone, hagent]
      rfl
    · intro session hs
      cases hc.session.symm.trans hs
  | entered leg hs hatt =>
    refine ⟨rfl, rfl, rfl, rfl, rfl, rfl, ?_⟩
    intro session hsession
    obtain rfl := Option.some.inj hsession
    rfl

/-- A hop leaves a header that tells of the leg it asked for. -/
theorem Hops.header {o : ConsoleOptions} {c : Console} {d : Dispatched} (hs : Started o)
    (hi : Identified o c) (hp : Profiled o c) (h : Hops exts c d) :
    Shown exts d.1 ∧ Profiled o d.1 ∧ ∀ call ∈ d.2, TellsOf exts o d.1.app call.attestation := by
  obtain ⟨c₀, agent, c₁, app, hc, hop, happ, rfl⟩ := h
  have hr₀ : ResolvedFrom o c₀.options := hc.options ▸ hi.options
  obtain ⟨hres, ha₁, hprofile⟩ : ResolvedFrom o c₁.options ∧ c₁.app.highlightedId exts = some agent ∧
      NamesProfile o c₁.app.profile agent c₁.options.subject := by
    rcases hop.chosen hs hr₀ with ⟨p, hp', rfl⟩ | ⟨hnil, rfl⟩
    · refine ⟨Or.inr ⟨p, hp'.mem, ?_⟩, hop.highlighted, Or.inr ⟨p, hp', rfl, rfl⟩⟩
      rw [options_applyProfile, hr₀.profiled_eq]
    · refine ⟨hr₀, hop.highlighted, Or.inl ⟨hnil, ?_⟩⟩
      rw [hc.app.profile, hp.none hnil]
  have hopt : (prepareHop exts c₁).options = c₁.options := by
    refine options_prepareHop exts ?_
    rw [hres.scope, hres.smokeConversation, hs.scope]
  have hh := happ.header ha₁
  have hshown := shown_prepareHop exts c₁
  refine ⟨⟨?_, ?_, ?_, ?_⟩, ⟨?_, ?_⟩, ?_⟩
  · exact hh.subject.trans hshown.subject
  · exact hh.scopeLabel.trans hshown.scope
  · exact hh.model.trans hshown.model
  · exact hh.modelSource.trans hshown.modelSource
  · intro hnil
    rcases hprofile with ⟨-, hnone⟩ | ⟨p, hp', -⟩
    · exact hh.profile.trans hnone
    · have hmem := hp'.mem
      rw [hnil] at hmem
      cases hmem
  · intro session hsession
    show NamesProfile o app.profile session.agent (prepareHop exts c₁).options.subject
    rw [hh.session session hsession, hh.profile, hopt]
    exact hprofile
  · intro call hcall
    obtain rfl := List.mem_singleton.1 hcall
    refine ⟨?_, ?_, ?_, ?_⟩
    · rw [BrokerCall.attestation, attestationOf_subject]
      exact hh.subject.trans hshown.subject
    · rw [BrokerCall.attestation, attestationOf_agent]
      exact hh.reported
    · rw [BrokerCall.attestation, attestationOf_scope]
      exact hh.scopeLabel.trans hshown.scope
    · rw [BrokerCall.attestation, attestationOf_agent, attestationOf_subject, hopt]
      show NamesProfile o app.profile agent c₁.options.subject
      rw [hh.profile]
      exact hprofile

/-- A request for the open session is attested as its header tells. -/
theorem Stays.header {o : ConsoleOptions} {c : Console} {d : Dispatched} (hst : Started o)
    (hi : Identified o c) (hs : Shown exts c) (hp : Profiled o c) (h : Stays c d) :
    ∀ call ∈ d.2, TellsOf exts o d.1.app call.attestation := by
  intro call hcall
  have hs' := hs.of_sameContext h.context
  have hp' := hp.of_sameContext h.context
  have htells (session : AgentSession) (hsession : c.app.session = some session)
      (a : Attestation) (hsub : a.subject = c.options.subject) (hagent : a.agent = session.agent)
      (hscope : a.scope = c.options.scope) : TellsOf exts o d.1.app a := by
    have hsession' : d.1.app.session = some session := h.context.app.session.trans hsession
    refine ⟨?_, ?_, ?_, ?_⟩
    · rw [hsub, hs'.subject, h.context.options]
    · rw [reportAgent, hsession', hagent]
    · rw [hscope, hs'.scope, h.context.options]
    · rw [hagent, hsub, ← h.context.options]
      exact hp'.session session hsession'
  rcases h.calls with hn | ⟨session, store, hsession, -, hcalls⟩ |
    ⟨hsmoke, session, turn, hsession, hcalls⟩
  · rw [hn] at hcall
    cases hcall
  · rw [hcalls] at hcall
    obtain rfl := List.mem_singleton.1 hcall
    refine htells session hsession _ ?_ ?_ ?_ <;> simp [BrokerCall.attestation]
  · rw [hcalls] at hcall
    obtain rfl := List.mem_singleton.1 hcall
    refine htells session hsession _ rfl rfl ?_
    show some smokeClaim = c.options.scope
    rw [hi.options.scope, hst.scope, ← hi.options.smokeConversation, hsmoke]
    rfl

/-- The invariant of the header. -/
structure Headed (exts : Externals) (o : ConsoleOptions) (c : Console) : Prop where
  identified : Identified o c
  shown : Shown exts c
  profiled : Profiled o c

/-- **One pass** keeps the header truthful, and whatever it asks is attested as the header
    it leaves tells. -/
theorem headed_step {o : ConsoleOptions} {c : Console} (hst : Started o) (h : Headed exts o c)
    (l : Label) : Headed exts o (step exts c l) ∧
      ∀ call ∈ asked exts c l, TellsOf exts o (step exts c l).app call.attestation := by
  have hi : Identified o (step exts c l) := identified_step hst h.identified l
  rcases react_cases exts c l with ⟨hstays, -⟩ | ⟨-, hh⟩
  · exact ⟨⟨hi, h.shown.of_sameContext hstays.context, h.profiled.of_sameContext hstays.context⟩,
      hstays.header hst h.identified h.shown h.profiled⟩
  · obtain ⟨hs, hp, hcalls⟩ := hh.header hst h.identified h.profiled
    exact ⟨⟨hi, hs, hp⟩, hcalls⟩

theorem headed_start {launch : Launch} {cli : Cli} {app : App} {options : ConsoleOptions}
    (h : execute exts launch cli = .ok (app, options)) :
    Headed exts options (Console.start app options) := by
  have hnone := session_execute h
  obtain ⟨document, catalog, subject, socket, credential, -, -, -, rfl, rfl⟩ := id (execute_cases h)
  refine ⟨identified_start h, ⟨rfl, rfl, rfl, rfl⟩, ⟨?_, ?_⟩⟩
  · intro hnil
    show (initialProfile cli document).map OperatorProfile.name = none
    rw [initialProfile_nil cli hnil]
    rfl
  · intro session hs
    cases hnone.symm.trans hs

/-- **The header tells the truth.**  After any run from an accepted startup, the next pass
    leaves a header that names the subject, the scope and the model of its options, and
    everything it asks of the broker is attested for the subject, the agent, the scope and
    the profile that the header and the reports of the state it leaves name. -/
theorem header_truthful {launch : Launch} {cli : Cli} {app : App} {options : ConsoleOptions}
    (h : execute exts launch cli = .ok (app, options)) (ls : List Label) (l : Label) :
    let c := Runs.exec (step exts) (Console.start app options) ls
    Shown exts (step exts c l) ∧
      ∀ call ∈ asked exts c l, TellsOf exts options (step exts c l).app call.attestation := by
  intro c
  have hst := started_execute h
  have hc : Headed exts options c :=
    Runs.exec_of_forall (I := Headed exts options) (fun _ l h => (headed_step hst h l).1)
      (headed_start h) ls
  obtain ⟨hc', hcalls⟩ := headed_step hst hc l
  exact ⟨hc'.shown, hcalls⟩

/-- A script sent after a hop into `ops`. -/
theorem header_truthful_sample :
    let c := Runs.exec (step .plain) (Console.start Sample.app Sample.options)
      [.action .enter Sample.answers]
    Shown .plain (step .plain c (.action (.shell "files") Sample.answers)) ∧
      ∀ call ∈ asked .plain c (.action (.shell "files") Sample.answers),
        TellsOf .plain Sample.options (step .plain c (.action (.shell "files") Sample.answers)).app
          call.attestation :=
  header_truthful Sample.execute_eq [.action .enter Sample.answers]
    (.action (.shell "files") Sample.answers)

/-! ## The broker trace -/

section
variable (app : App)

@[simp] theorem brokerTrace_raise (report : ErrorReport) :
    (app.raise report).brokerTrace = app.brokerTrace := by
  unfold raise showError
  split_ifs <;> rfl

@[simp] theorem brokerTrace_modifyPending (f : ShellEntry → ShellEntry) :
    (app.modifyPending f).brokerTrace = app.brokerTrace := by
  unfold modifyPending
  split
  · split_ifs <;> rfl
  · rfl

@[simp] theorem brokerTrace_failShell (report : ErrorReport) :
    (app.failShell exts report).brokerTrace = app.brokerTrace :=
  brokerTrace_modifyPending app _

@[simp] theorem brokerTrace_onSessionEvent (event : SessionEvent) :
    (app.onSessionEvent event).brokerTrace = app.brokerTrace := by
  unfold onSessionEvent
  split <;> rfl

@[simp] theorem brokerTrace_onSessionComplete (remembered : ℕ) :
    (app.onSessionComplete remembered).brokerTrace = app.brokerTrace := by
  unfold onSessionComplete
  simp only
  split
  · split_ifs <;> rfl
  · rfl

theorem brokerTrace_submitTurn : app.submitTurn.2.brokerTrace = app.brokerTrace := by
  unfold submitTurn
  cases app.session with
  | none => rfl
  | some session =>
    simp only
    split_ifs <;> rfl

theorem brokerTrace_onEvent (event : SessionEvent) :
    (onEvent app event).brokerTrace = app.brokerTrace := by
  unfold onEvent
  split
  · rfl
  · exact brokerTrace_modifyPending app _
  · exact brokerTrace_onSessionEvent app _

end

theorem brokerTrace_settleTurn (shell : Bool) (joined : Joined) (c : Console) :
    (settleTurn exts shell joined c).app.brokerTrace = c.app.brokerTrace := by
  have hreported : (reportJoined exts shell joined c.app).brokerTrace = c.app.brokerTrace := by
    unfold reportJoined
    cases joinedReport shell joined with
    | none => rfl
    | some report => cases shell <;> simp
  rw [settleTurn_eq]
  cases shell with
  | true =>
    show (settleShell exts _).brokerTrace = _
    unfold settleShell
    split_ifs
    · rw [brokerTrace_failShell, hreported]
    · exact hreported
  | false =>
    show (onSessionComplete _ _).brokerTrace = _
    rw [brokerTrace_onSessionComplete, hreported]

/-- **What an action makes of the broker trace.** -/
inductive Traced (answers : Answers) (c : Console) (d : Dispatched) : Prop
  /-- the trace stays, with the session and the options -/
  | same (ht : d.1.app.brokerTrace = c.app.brokerTrace) (hs : d.1.app.session = c.app.session)
      (ho : d.1.options = c.options)
  /-- a hop was refused -/
  | cleared (ht : d.1.app.brokerTrace = none) (hs : d.1.app.session = none)
  /-- a leg that grants something was opened for the session that is open now -/
  | opened (surface : Surface) (session : AgentSession) (store : StoreId)
      (ha : answers.leg = .ok surface) (hg : surface.effective ≠ [])
      (hs : d.1.app.session = some session) (ht : d.1.app.brokerTrace = some surface.sessionTrace)
      (hc : d.2 = [.openLeg (attestationOf d.1.options.subject session.agent d.1.options.scope)
        store])

theorem traced_enter (answers : Answers) (c : Console) :
    Traced answers c (dispatchEnter exts answers c) := by
  rcases dispatchEnter_cases exts answers c with ⟨text, -, h⟩ | ⟨agent, c₁, -, h⟩
  · rw [h]
    exact .same rfl rfl rfl
  · rw [h]
    have hraise (report : ErrorReport) (calls : List BrokerCall) : Traced answers c
        ({ prepareHop exts c₁ with app := (prepareHop exts c₁).app.raise report }, calls) := by
      refine .cleared (brokerTrace_raise _ report) ?_
      exact (quiet_raise (prepareHop exts c₁).app report).context.session
    unfold openHop openAgentWithAssets
    cases ha : answers.leg with
    | error error => exact hraise _ _
    | ok surface =>
      simp only
      split_ifs with hempty
      · exact hraise _ _
      · refine .opened surface _ _ ha ?_ rfl rfl rfl
        simpa [BrokerLeg.isEmpty] using hempty

theorem traced_turn (answers : Answers) (c : Console) (prompt : String) :
    Traced answers c (dispatchTurn exts answers c prompt) := by
  have hrefused (app : App) (report : ErrorReport) (hs : app.session = c.app.session) :
      (refuseTurn app report).brokerTrace = app.brokerTrace ∧
        (refuseTurn app report).session = c.app.session := by
    refine ⟨by simp [refuseTurn], ?_⟩
    rw [refuseTurn, (quiet_raise _ report).context.session,
      (sameContext_onSessionEvent _ _).session, hs]
  unfold dispatchTurn openAgentWithAssets
  split
  next session store hs hassets =>
    cases ha : answers.leg with
    | error error =>
      obtain ⟨ht, hs'⟩ := hrefused c.app (sessionRefusal exts c.app
        "open broker session for a model turn" (.leg error)) rfl
      exact .same ht hs' rfl
    | ok surface =>
      simp only
      split_ifs with hempty
      · obtain ⟨ht, hs'⟩ := hrefused c.app (emptySurface exts c.app
          "open broker session for a model turn") rfl
        exact .same ht hs' rfl
      · have hg : surface.effective ≠ [] := by simpa [BrokerLeg.isEmpty] using hempty
        cases answers.model with
        | error error =>
          obtain ⟨ht, hs'⟩ := hrefused { c.app with brokerTrace := some surface.sessionTrace }
            (App.report exts { c.app with brokerTrace := some surface.sessionTrace }
              (.fromError "build model client" error.toError)) rfl
          exact .opened surface session store ha hg (hs'.trans hs) ht rfl
        | ok => exact .opened surface session store ha hg hs rfl rfl
  · exact .same rfl rfl rfl

theorem traced_completeLocally (answers : Answers) (c : Console) {d : Console}
    (calls : List BrokerCall) (ht : d.app.brokerTrace = c.app.brokerTrace)
    (hs : d.app.session = c.app.session) (ho : d.options = c.options) (input output : String) (exitCode : ℕ) :
    Traced answers c (completeLocally d input output exitCode, calls) := by
  rw [completeLocally_eq]
  exact .same ht hs ho

theorem traced_script (answers : Answers) {c : Console} {session : AgentSession}
    (hs : c.app.session = some session) (line : String) :
    Traced answers c (dispatchScript exts answers c session.agent line) := by
  have hfailed (report : ErrorReport) (calls : List BrokerCall) : Traced answers c
      ({ c with app := { (c.app.startShell line).failShell exts report with busy := false } },
        calls) := by
    refine .same (brokerTrace_failShell _ report) ?_ rfl
    exact (sameContext_failShell exts (c.app.startShell line) report).session
  unfold dispatchScript openAgentWithAssets
  dsimp only
  split
  next => exact .same rfl rfl rfl
  next store _ =>
    cases ha : answers.leg with
    | error error => exact hfailed _ _
    | ok surface =>
      simp only
      split_ifs with hempty
      · exact hfailed _ _
      · refine .opened surface session store ha ?_ hs rfl rfl
        simpa [BrokerLeg.isEmpty] using hempty

theorem traced_smoke (answers : Answers) (c : Console) (agent : AgentId) (line text : String) :
    Traced answers c (dispatchSmoke exts answers c agent line text) := by
  unfold dispatchSmoke
  split_ifs
  · exact .same rfl rfl rfl
  split
  · exact .same rfl rfl rfl
  split_ifs
  · simp only [smokeRecord]
    split <;> refine traced_completeLocally answers c _ ?_ ?_ ?_ _ _ _ <;> rfl
  · refine traced_completeLocally answers c _ ?_ ?_ ?_ _ _ _ <;> rfl

theorem traced_asset (answers : Answers) (c : Console) (command : String) :
    Traced answers c (dispatchAsset exts answers c command) := by
  unfold dispatchAsset
  split
  · exact .same rfl rfl rfl
  dsimp only
  split <;> refine traced_completeLocally answers c _ ?_ ?_ ?_ _ _ _ <;> rfl

theorem traced_shell (answers : Answers) (c : Console) (line : String) :
    Traced answers c (dispatchShell exts answers c line) := by
  unfold dispatchShell
  cases hs : c.app.session with
  | none => exact .same rfl rfl rfl
  | some session =>
    dsimp only
    by_cases hb : c.app.busy
    · rw [if_pos hb]
      exact .same rfl rfl rfl
    rw [if_neg hb]
    split
    · exact traced_smoke answers c session.agent line _
    split
    · exact .same rfl rfl rfl
    split
    · exact traced_asset answers c _
    split
    · exact .same rfl rfl rfl
    · exact traced_script answers hs line

theorem traced_dispatch (answers : Answers) (c : Console) (action : Action) :
    Traced answers c (dispatch exts answers c action) := by
  cases action with
  | enter => exact traced_enter answers c
  | turn prompt => exact traced_turn answers c prompt
  | shell line => exact traced_shell answers c line

/-- The pass asked for a leg under these options, for the agent of the session, and the
    broker's answer grants something in this trace. -/
def BringsTrace (exts : Externals) (c : Console) (l : Label) (options : ConsoleOptions)
    (session : AgentSession) (trace : String) : Prop :=
  ∃ answers surface store, l.answers = some answers ∧ answers.leg = .ok surface ∧
    surface.effective ≠ [] ∧ surface.sessionTrace = trace ∧
    asked exts c l =
      [.openLeg (attestationOf options.subject session.agent options.scope) store]

/-- The trace and the session after a pass: as before, both gone, or brought by the pass. -/
inductive TraceAfter (exts : Externals) (c : Console) (l : Label) : Prop
  | same (ht : (step exts c l).app.brokerTrace = c.app.brokerTrace)
      (hs : (step exts c l).app.session = c.app.session)
      (ho : (step exts c l).options = c.options)
  | cleared (ht : (step exts c l).app.brokerTrace = none) (hs : (step exts c l).app.session = none)
  | brought (session : AgentSession) (trace : String)
      (hs : (step exts c l).app.session = some session)
      (ht : (step exts c l).app.brokerTrace = some trace)
      (hb : BringsTrace exts c l (step exts c l).options session trace)

/-- The trace after a pass that leaves it. -/
theorem TraceAfter.of_same {c : Console} {l : Label}
    (ht : (step exts c l).app.brokerTrace = c.app.brokerTrace)
    (hc : c.SameContext (step exts c l)) : TraceAfter exts c l :=
  .same ht hc.app.session hc.options

/-- The trace after a pass that dispatches an action. -/
theorem TraceAfter.of_traced {c c' : Console} {l : Label} {answers : Answers} {action : Action}
    (hl : l.answers = some answers) (hr : react exts c l = dispatch exts answers c' action)
    (ht : c'.app.brokerTrace = c.app.brokerTrace) (hc : c.SameContext c') :
    TraceAfter exts c l := by
  have h : Traced answers c' (react exts c l) := hr ▸ traced_dispatch answers c' action
  cases h with
  | same ht' hs' ho' =>
    exact .same (ht'.trans ht) (hs'.trans hc.app.session) (ho'.trans hc.options)
  | cleared ht' hs' => exact .cleared ht' hs'
  | opened surface session store ha hg hs' ht' hcalls =>
    exact .brought session _ hs' ht' ⟨answers, surface, store, hl, ha, hg, rfl, hcalls⟩

theorem traceAfter_step (exts : Externals) (c : Console) (l : Label) : TraceAfter exts c l := by
  cases l with
  | key key answers =>
    have ht : (c.keyed exts key).app.brokerTrace = c.app.brokerTrace :=
      (undisplayed_onKey exts c.app key c.stop).brokerTrace
    have hc := c.sameContext_keyed exts key
    cases ha : (onKey exts c.app key c.stop).1 with
    | none =>
      have hstep : step exts c (.key key answers) = c.keyed exts key := by
        rw [step, react_key_none ha]
      exact .of_same (hstep ▸ ht) (hstep ▸ hc)
    | some action => exact .of_traced rfl (react_key_some ha) ht hc
  | action action answers => exact .of_traced rfl rfl rfl (.refl c)
  | submitTurn answers =>
    have ht := brokerTrace_submitTurn c.app
    have hc := c.sameContext_submitted
    cases hp : c.app.submitTurn.1 with
    | none =>
      have hstep : step exts c (.submitTurn answers) = c.submitted := by
        rw [step, react_submit_none hp]
      exact .of_same (hstep ▸ ht) (hstep ▸ hc)
    | some prompt => exact .of_traced rfl (react_submit_some hp) ht hc
  | event event =>
    exact .of_same (brokerTrace_onEvent c.app event) ⟨sameContext_onEvent c.app event, rfl, rfl⟩
  | close joined =>
    cases hr : c.running with
    | none => exact .of_same (by rw [step_close_none hr]) (by rw [step_close_none hr]; exact .refl c)
    | some turn =>
      have ht : (settleTurn exts turn.shell joined { c with running := none }).app.brokerTrace =
          c.app.brokerTrace := brokerTrace_settleTurn turn.shell joined { c with running := none }
      have hc := sameContext_settleTurn exts turn.shell joined { c with running := none }
      rw [← step_close_some hr] at ht hc
      exact .of_same ht ⟨hc.app, hc.options, hc.stores⟩
  | intake intake =>
    rcases step_intake with h | ⟨turn, inventory, -, -, h⟩
    · exact .of_same (by rw [h]) (by rw [h]; exact .refl c)
    · exact .of_same (by rw [h]) (by rw [h]; exact ⟨.refl _, rfl, List.length_set⟩)
  | resize width height => exact .of_same rfl ⟨by constructor <;> rfl, rfl, rfl⟩

/-- **Where a trace comes from.**  In every state of every run a broker trace is shown
    exactly while a session is open, and it was brought by the answer to a leg asked for
    under the options of that state for the agent of that session; trace and session have
    stood since. -/
theorem trace_provenance (exts : Externals) (agents : List Agent)
    (subject socketPath credentialPath : String) (options : ConsoleOptions) (ls : List Label) :
    let c₀ := Console.start (App.new agents subject socketPath credentialPath) options
    let c := Runs.exec (step exts) c₀ ls
    (c.app.brokerTrace.isSome ↔ c.app.session.isSome) ∧
      ∀ trace session, c.app.brokerTrace = some trace → c.app.session = some session →
        ∃ before l after, ls = before ++ l :: after ∧
          BringsTrace exts (Runs.exec (step exts) c₀ before) l c.options session trace ∧
          ∀ mid, mid <+: after →
            (Runs.exec (step exts) c₀ (before ++ l :: mid)).app.brokerTrace = some trace ∧
              (Runs.exec (step exts) c₀ (before ++ l :: mid)).app.session = some session := by
  intro c₀ c
  refine ⟨?_, ?_⟩
  · refine Runs.exec_of_forall
      (I := fun c : Console => c.app.brokerTrace.isSome ↔ c.app.session.isSome) ?_ ?_ ls
    · intro c l h
      cases traceAfter_step exts c l with
      | same ht hs ho => rw [ht, hs, h]
      | cleared ht hs => simp [ht, hs]
      | brought session trace hs ht hb => simp [ht, hs]
    · exact Iff.rfl
  · intro trace session ht hs
    obtain ⟨before, l, after, rfl, hbefore, hsince⟩ :=
      Runs.exists_origin (P := fun d : Console => d.app.brokerTrace = some trace ∧
        d.app.session = some session ∧ d.options = c.options)
        (by rintro ⟨h, -⟩; cases h) ⟨ht, hs, rfl⟩
    refine ⟨before, l, after, rfl, ?_, fun mid hmid => ⟨(hsince mid hmid).1, (hsince mid hmid).2.1⟩⟩
    obtain ⟨ht', hs', ho'⟩ := hsince [] List.nil_prefix
    rw [Runs.exec_concat] at ht' hs' ho'
    cases traceAfter_step exts (Runs.exec (step exts) c₀ before) l with
    | same ht'' hs'' ho'' =>
      exact absurd ⟨ht''.symm.trans ht', hs''.symm.trans hs', ho''.symm.trans ho'⟩ hbefore
    | cleared ht'' _ => cases ht''.symm.trans ht'
    | brought session' trace' hs'' ht'' hb =>
      obtain rfl := Option.some.inj (hs''.symm.trans hs')
      obtain rfl := Option.some.inj (ht''.symm.trans ht')
      rw [ho'] at hb
      exact hb

end DekoponConsole
