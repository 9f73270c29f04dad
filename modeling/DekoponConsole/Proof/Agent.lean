/-
  Whom a task runs as.

  * `Makes` lists the tasks that an action makes in a state, with all they are given, and
    `inFlight_step` that a pass puts no other task in flight;
  * `ActsUnder o agent`: the options are those of startup under the profile of the agent;
  * `RunsAs`: a leg attested for an agent of the catalog under these options, and
    `Staffed` the invariant that session and task in flight have one;
  * `turn_runs_as_its_agent`: what the model of a turn is told.
-/
import DekoponConsole.Task
import DekoponConsole.Proof.Identity
import DekoponConsole.Proof.Stop

namespace DekoponConsole

open App

variable {exts : Externals}

/-! ## The tasks of an action -/

/-- The leg that the broker opens for the session. -/
def Console.opened (c : Console) (session : AgentSession) (store : StoreId) (surface : Surface) :
    BrokerLeg :=
  ⟨attestationOf c.options.subject session.agent c.options.scope, store, surface⟩

/-- **The tasks that an action makes**, on a leg that grants something. -/
inductive Makes (c : Console) : Task → Prop
  | shell (line : String) {session : AgentSession} {store : StoreId} {surface : Surface}
      (hs : c.app.session = some session) (ha : c.app.assets = some store)
      (hg : surface.effective ≠ []) :
      Makes c (.shell line (c.opened session store surface) c.nextCancel c.history)
  | turn (prompt : String) {session : AgentSession} {store : StoreId} {surface : Surface}
      (hs : c.app.session = some session) (ha : c.app.assets = some store)
      (hg : surface.effective ≠ []) :
      Makes c (.turn prompt (c.opened session store surface) c.nextCancel (instructions c.app)
        (c.app.agents.find? fun agent => agent.name == session.agent.asStr) c.options c.history)

/-- The task in flight stays, or one of an action takes its place. -/
def Tasked (c c' : Console) : Prop :=
  c'.inFlight = c.inFlight ∨ ∃ task, Makes c task ∧ c'.inFlight = some task

section
variable (exts : Externals) (answers : Answers) (c : Console)

theorem tasked_turn (prompt : String) : Tasked c (dispatchTurn exts answers c prompt).1 := by
  unfold dispatchTurn openAgentWithAssets
  cases hs : c.app.session with
  | none => exact Or.inl rfl
  | some session =>
    cases ha : c.app.assets with
    | none => exact Or.inl rfl
    | some store =>
      cases answers.leg with
      | error error => exact Or.inl rfl
      | ok surface =>
        simp only
        split_ifs with he
        · exact Or.inl rfl
        · cases answers.model with
          | error error => exact Or.inl rfl
          | ok =>
            exact Or.inr ⟨_, .turn prompt hs ha fun h => he (List.isEmpty_iff.2 h), rfl⟩

theorem tasked_script {session : AgentSession} (hs : c.app.session = some session) (line : String) :
    Tasked c (dispatchScript exts answers c session.agent line).1 := by
  unfold dispatchScript openAgentWithAssets
  dsimp only
  split
  next => exact Or.inl rfl
  next store ha =>
    cases answers.leg with
    | error error => exact Or.inl rfl
    | ok surface =>
      simp only
      split_ifs with he
      · exact Or.inl rfl
      · exact Or.inr ⟨_, .shell line hs ha fun h => he (List.isEmpty_iff.2 h), rfl⟩

theorem tasked_smoke (agent : AgentId) (line text : String) :
    Tasked c (dispatchSmoke exts answers c agent line text).1 := by
  unfold dispatchSmoke
  split_ifs
  · exact Or.inl rfl
  split
  · exact Or.inl rfl
  split_ifs
  · simp only [smokeRecord]
    cases answers.record <;> exact Or.inl rfl
  · exact Or.inl rfl

theorem tasked_asset (command : String) : Tasked c (dispatchAsset exts answers c command).1 := by
  unfold dispatchAsset
  cases c.app.assets with
  | none => exact Or.inl rfl
  | some store =>
    dsimp only
    split <;> exact Or.inl rfl

theorem tasked_shell (line : String) : Tasked c (dispatchShell exts answers c line).1 := by
  unfold dispatchShell
  cases hs : c.app.session with
  | none => exact Or.inl rfl
  | some session =>
    dsimp only
    split
    · exact Or.inl rfl
    split
    · exact tasked_smoke exts answers c session.agent line _
    split
    · exact Or.inl rfl
    split
    · exact tasked_asset exts answers c _
    split
    · exact Or.inl rfl
    · exact tasked_script exts answers c hs line

theorem tasked_dispatch (action : Action) : Tasked c (dispatch exts answers c action).1 := by
  cases action with
  | enter => exact Or.inl (congrArg (Option.map RunningTurn.task) running_dispatchEnter)
  | turn prompt => exact tasked_turn exts answers c prompt
  | shell line => exact tasked_shell exts answers c line

end

/-- **What is in flight after a pass**: what was, nothing, or a task of an action. -/
theorem inFlight_step (exts : Externals) (c : Console) (l : Label) :
    (step exts c l).inFlight = c.inFlight ∨ (step exts c l).inFlight = none ∨
      ∃ c₀ task, c.SameContext c₀ ∧ Makes c₀ task ∧ (step exts c l).inFlight = some task := by
  have hdispatched (c₀ : Console) (hc : c.SameContext c₀) (hr : c₀.running = c.running)
      (answers : Answers) (action : Action)
      (hstep : step exts c l = (dispatch exts answers c₀ action).1) :
      (step exts c l).inFlight = c.inFlight ∨ (step exts c l).inFlight = none ∨
        ∃ c₀ task, c.SameContext c₀ ∧ Makes c₀ task ∧ (step exts c l).inFlight = some task := by
    rcases tasked_dispatch exts answers c₀ action with h | ⟨task, hm, h⟩
    · exact Or.inl (hstep ▸ h.trans (congrArg (Option.map RunningTurn.task) hr))
    · exact Or.inr (Or.inr ⟨c₀, task, hc, hm, hstep ▸ h⟩)
  cases l with
  | key key answers =>
    cases ha : (onKey exts c.app key c.stop).1 with
    | none => exact Or.inl (by rw [step, react_key_none ha]; rfl)
    | some action =>
      exact hdispatched _ (Console.sameContext_keyed exts c key) rfl answers action
        (by rw [step, react_key_some ha])
  | action action answers => exact hdispatched c (.refl c) rfl answers action rfl
  | submitTurn answers =>
    cases hp : c.app.submitTurn.1 with
    | none => exact Or.inl (by rw [step, react_submit_none hp]; rfl)
    | some prompt =>
      exact hdispatched _ (Console.sameContext_submitted c) rfl answers (.turn prompt)
        (by rw [step, react_submit_some hp])
  | event event =>
    left
    simp only [step, react, receive, Console.inFlight]
    cases c.running <;> rfl
  | close joined =>
    cases hr : c.running with
    | none => exact Or.inl (by rw [step_close_none hr])
    | some turn =>
      right; left
      rw [step_close_some hr, settleTurn_eq]
      rfl
  | intake intake =>
    left
    obtain ⟨stores, hd⟩ := stores_intake exts c intake
    rw [hd]
    rfl
  | resize width height => exact Or.inl rfl

/-! ## The agent and its options -/

/-- The id of an agent of the catalog. -/
def Listed (exts : Externals) (agents : List Agent) (id : AgentId) : Prop :=
  ∃ a ∈ agents, exts.parseAgentId a.name = some id

/-- The options are those of startup, under the agent's profile where any is authored. -/
def ActsUnder (o : ConsoleOptions) (agent : AgentId) (options : ConsoleOptions) : Prop :=
  (o.profiles = [] ∧ options = o) ∨ ∃ p, Chosen o agent p ∧ options = profiled o p

/-- A leg that grants something, attested for an agent of the catalog under its options. -/
structure RunsAs (exts : Externals) (o : ConsoleOptions) (agents : List Agent) (leg : BrokerLeg)
    (options : ConsoleOptions) : Prop where
  listed : Listed exts agents leg.attestation.agent
  under : ActsUnder o leg.attestation.agent options
  attested : leg.attestation = attestationOf options.subject leg.attestation.agent options.scope
  granted : leg.surface.effective ≠ []

/-- A task runs as an agent: a turn with the entry and the orders of that agent. -/
def Task.RunsAs (exts : Externals) (o : ConsoleOptions) (agents : List Agent) : Task → Prop
  | .shell _ leg _ _ => ∃ options, DekoponConsole.RunsAs exts o agents leg options
  | .turn _ leg _ instructions agent options _ =>
    DekoponConsole.RunsAs exts o agents leg options ∧
      agent = agents.find? (fun a => a.name == leg.attestation.agent.asStr) ∧
      instructions = agent.bind Agent.instructions

/-- The open session is that of an agent of the catalog, under its options. -/
structure Staffed (exts : Externals) (o : ConsoleOptions) (catalog : List Agent) (c : Console) :
    Prop where
  resolved : ResolvedFrom o c.options
  agents : c.app.agents = catalog
  session : ∀ session, c.app.session = some session →
    Listed exts catalog session.agent ∧ ActsUnder o session.agent c.options

theorem listed_highlightedId {app : App} {id : AgentId} (h : app.highlightedId exts = some id) :
    Listed exts app.agents id := by
  obtain ⟨a, ha, hid⟩ := Option.bind_eq_some_iff.1 h
  exact ⟨a, List.mem_of_getElem? ha, hid⟩

section
variable {o : ConsoleOptions} {agents : List Agent} {c : Console}

theorem Staffed.of_sameContext {c' : Console} (h : Staffed exts o agents c)
    (hc : c.SameContext c') : Staffed exts o agents c' := by
  refine ⟨hc.options ▸ h.resolved, hc.app.agents.trans h.agents, fun session hs => ?_⟩
  rw [hc.options]
  exact h.session session (hc.app.session ▸ hs)

/-- The task that an action makes runs as the agent of the session. -/
theorem Makes.runsAs {task : Task} (h : Staffed exts o agents c) (hm : Makes c task) :
    task.RunsAs exts o agents := by
  have hleg {session : AgentSession} (hs : c.app.session = some session) (store : StoreId)
      {surface : Surface} (hg : surface.effective ≠ []) :
      RunsAs exts o agents (c.opened session store surface) c.options := by
    obtain ⟨hlisted, hoptions⟩ := h.session session hs
    have hagent : (c.opened session store surface).attestation.agent = session.agent :=
      attestationOf_agent ..
    exact ⟨hagent ▸ hlisted, hagent ▸ hoptions, by rw [hagent, Console.opened], hg⟩
  cases hm with
  | shell line hs ha hg => exact ⟨c.options, hleg hs _ hg⟩
  | @turn prompt session store surface hs ha hg =>
    refine ⟨hleg hs _ hg, ?_, ?_⟩
    · rw [h.agents, Console.opened, attestationOf_agent]
    · rw [instructions, hs]
      rfl

/-- A hop leaves a session of an agent of the catalog, under its options. -/
theorem Hops.staffed {d : Dispatched} (hst : Started o) (h : Staffed exts o agents c)
    (hh : Hops exts c d) : Staffed exts o agents d.1 := by
  obtain ⟨c₀, agent, c₁, app, hc, hop, happ, rfl⟩ := hh
  have hr₀ : ResolvedFrom o c₀.options := hc.options ▸ h.resolved
  have hagents₀ : c₀.app.agents = agents := hc.app.agents.trans h.agents
  have hlisted : Listed exts agents agent := hagents₀ ▸ listed_highlightedId hop.highlighted
  obtain ⟨hunder, hr₁, hagents₁⟩ : ActsUnder o agent c₁.options ∧ ResolvedFrom o c₁.options ∧
      c₁.app.agents = agents := by
    rcases hop.chosen hst hr₀ with ⟨p, hp, rfl⟩ | ⟨hnil, rfl⟩
    · have heq : (applyProfile c₀ p).options = profiled o p := by
        rw [options_applyProfile, hr₀.profiled_eq]
      exact ⟨Or.inr ⟨p, hp, heq⟩, Or.inr ⟨p, hp.mem, heq⟩, hagents₀⟩
    · exact ⟨Or.inl ⟨hnil, hr₀.eq_of_nil hnil⟩, hr₀, hagents₀⟩
  have hopt : (prepareHop exts c₁).options = c₁.options := by
    refine options_prepareHop exts ?_
    rw [hr₁.scope, hr₁.smokeConversation, hst.scope]
  refine ⟨hopt ▸ hr₁, ?_, fun session hs => ?_⟩
  · cases happ with
    | refused report => exact ((quiet_raise _ report).context.agents).trans hagents₁
    | entered leg => exact hagents₁
  · show _ ∧ ActsUnder o session.agent (prepareHop exts c₁).options
    rw [hopt]
    cases happ with
    | refused report =>
      cases (quiet_raise (prepareHop exts c₁).app report).context.session.symm.trans hs
    | entered leg =>
      obtain rfl := Option.some.inj hs
      exact ⟨hlisted, hunder⟩

theorem staffed_step (hst : Started o) (h : Staffed exts o agents c) (l : Label) :
    Staffed exts o agents (step exts c l) := by
  rcases react_cases exts c l with ⟨hstays, -⟩ | ⟨-, hh⟩
  · exact h.of_sameContext hstays.context
  · exact hh.staffed hst h

/-- The task in flight runs as an agent of the catalog. -/
def Console.RunsAs (exts : Externals) (o : ConsoleOptions) (agents : List Agent) (c : Console) :
    Prop :=
  ∀ task, c.inFlight = some task → task.RunsAs exts o agents

/-- **One pass** puts no task in flight but one that runs as an agent of the catalog. -/
theorem runsAs_step (h : Staffed exts o agents c) (ht : c.RunsAs exts o agents) (l : Label) :
    (step exts c l).RunsAs exts o agents := by
  intro task htask
  rcases inFlight_step exts c l with heq | hnone | ⟨c₀, made, hc, hm, heq⟩
  · exact ht task (heq ▸ htask)
  · cases hnone.symm.trans htask
  · obtain rfl := Option.some.inj (heq.symm.trans htask)
    exact hm.runsAs (h.of_sameContext hc)

theorem runsAs_exec (hst : Started o) (h : Staffed exts o agents c) (ht : c.RunsAs exts o agents)
    (ls : List Label) : (Runs.exec (step exts) c ls).RunsAs exts o agents :=
  (Runs.exec_of_forall (I := fun c => Staffed exts o agents c ∧ c.RunsAs exts o agents)
    (fun _ l h => ⟨staffed_step hst h.1 l, runsAs_step h.1 h.2 l⟩) ⟨h, ht⟩ ls).2

end

/-! ## Bounds -/

/-- Bounds that a prompt session may be given. -/
structure PromptLimits.Within (limits : PromptLimits) : Prop where
  steps : 1 ≤ limits.maxSteps ∧ limits.maxSteps ≤ 64
  calls : 1 ≤ limits.maxCapabilityCalls ∧ limits.maxCapabilityCalls ≤ 256

/-- What the parser of the command line lets through. -/
structure Cli.Ranged (cli : Cli) : Prop where
  steps : ∀ n, cli.maxSteps = some n → 1 ≤ n ∧ n ≤ 64
  calls : ∀ n, cli.maxCapabilityCalls = some n → 1 ≤ n ∧ n ≤ 256

theorem or_getD_mem {n m : Option ℕ} {d high : ℕ} (hn : ∀ i, n = some i → 1 ≤ i ∧ i ≤ high)
    (hm : ∀ i, m = some i → 1 ≤ i ∧ i ≤ high) (hd : 1 ≤ d ∧ d ≤ high) :
    1 ≤ (n.or m).getD d ∧ (n.or m).getD d ≤ high := by
  cases n with
  | some i => exact hn i rfl
  | none =>
    cases m with
    | some i => exact hm i rfl
    | none => exact hd

section
variable {launch : Launch} {cli : Cli} {app : App} {options : ConsoleOptions}

/-- Whatever a task acts under keeps its bounds. -/
theorem ActsUnder.within (h : execute exts launch cli = .ok (app, options)) (hcli : cli.Ranged)
    {agent : AgentId} {opts : ConsoleOptions} (hu : ActsUnder options agent opts) :
    opts.promptLimits.Within := by
  obtain ⟨document, catalog, subject, socket, credential, hd, -, -, rfl, -⟩ := execute_cases h
  have hdefault : ∀ i, (none : Option ℕ) = some i → False := fun i h => by cases h
  rcases hu with ⟨hnil, rfl⟩ | ⟨p, hp, rfl⟩
  · have hinitial : initialProfile cli document = none := initialProfile_nil cli hnil
    rw [hinitial]
    exact ⟨or_getD_mem hcli.steps (fun i h => (hdefault i h).elim) (by decide),
      or_getD_mem hcli.calls (fun i h => (hdefault i h).elim) (by decide)⟩
  · have hvalid := (wellFormed_of_loadDocument hd).valid p hp.mem
    exact ⟨or_getD_mem hcli.steps hvalid.steps (by decide),
      or_getD_mem hcli.calls hvalid.calls (by decide)⟩

theorem staffed_start (h : execute exts launch cli = .ok (app, options)) :
    Staffed exts options app.agents (Console.start app options) := by
  refine ⟨Or.inl rfl, rfl, fun session hs => ?_⟩
  cases (session_execute h).symm.trans hs

/-! ## Turns -/

/-- The leg of a turn and what its model is told are those of an agent. -/
structure Briefed (exts : Externals) (o opts : ConsoleOptions) (a : Agent) (leg : BrokerLeg)
    (inputs : SessionInputs) : Prop where
  parses : exts.parseAgentId a.name = some leg.attestation.agent
  under : ActsUnder o leg.attestation.agent opts
  attested : leg.attestation = attestationOf opts.subject leg.attestation.agent opts.scope
  name : inputs.config.name = leg.attestation.agent.asStr
  orders : inputs.system = a.instructions
  granted : inputs.config.effective = leg.surface.effective ∧ leg.surface.effective ≠ []
  bounds : inputs.limits.Within

/-- **A turn runs as its agent.**  In every run from an accepted startup a model turn in
    flight has an entry of the catalog: its leg was attested for that agent under the
    options of the agent's profile, and the model is told this agent's name and orders, what
    was granted on this very leg, and bounds within their ranges. -/
theorem turn_runs_as_its_agent (h : execute exts launch cli = .ok (app, options))
    (hcli : cli.Ranged) (hparse : ∀ name id, exts.parseAgentId name = some id → id.asStr = name)
    (ls : List Label) {prompt : String} {leg : BrokerLeg} {signal : CancelId}
    {instructions : Option String} {agent : Option Agent} {opts : ConsoleOptions}
    {history : History}
    (hturn : (Runs.exec (step exts) (Console.start app options) ls).inFlight =
      some (.turn prompt leg signal instructions agent opts history)) :
    ∃ a ∈ app.agents, agent = some a ∧
      Briefed exts options opts a leg (sessionInputs leg prompt instructions a opts) := by
  have hstaffed := staffed_start h
  have hidle : (Console.start app options).RunsAs exts options app.agents := fun task ht => by
    cases ht
  obtain ⟨⟨hlisted, hunder, hattested, hgranted⟩, hagent, horders⟩ :=
    runsAs_exec (started_execute h) hstaffed hidle ls _ hturn
  obtain ⟨b, hb, hid⟩ := hlisted
  -- the entry found by name is parsed to the same id as the one that was highlighted
  have hname : b.name = leg.attestation.agent.asStr := (hparse _ _ hid).symm
  have hsome : (app.agents.find? fun a => a.name == leg.attestation.agent.asStr).isSome :=
    List.find?_isSome.2 ⟨b, hb, by simpa using hname⟩
  obtain ⟨a, ha⟩ := Option.isSome_iff_exists.1 hsome
  have haname : a.name = leg.attestation.agent.asStr := by simpa using List.find?_some ha
  obtain rfl : agent = some a := hagent.trans ha
  refine ⟨a, List.mem_of_find?_eq_some ha, rfl, ?_, hunder, hattested, haname, horders,
    ⟨rfl, hgranted⟩, hunder.within h hcli⟩
  rw [haname, ← hname, hid]

end

/-- The leg that `ops` is granted. -/
def Sample.leg : BrokerLeg :=
  ⟨.forSubject ⟨"operator"⟩ ⟨"ops"⟩, 0, ⟨[⟨"files.read", "read", "low", ""⟩], [], [], "trace"⟩⟩

/-- A turn of `ops`, under the profile `night`. -/
theorem turn_runs_as_its_agent_sample :
    ∃ a ∈ Sample.app.agents, Sample.app.agents[0]? = some a ∧
      Briefed .plain Sample.options Sample.options a Sample.leg
        (sessionInputs Sample.leg "status" none a Sample.options) := by
  have hcli : Sample.cli.Ranged := ⟨(fun n h => by cases h), (fun n h => by cases h)⟩
  have hparse : ∀ name id, Externals.plain.parseAgentId name = some id → id.asStr = name := by
    intro name id h
    simp only [Externals.plain] at h
    split_ifs at h
    exact congrArg AgentId.asStr (Option.some.inj h.symm)
  exact turn_runs_as_its_agent Sample.execute_eq hcli hparse
    [.action .enter Sample.answers, .action (.turn "status") Sample.answers] rfl

end DekoponConsole
