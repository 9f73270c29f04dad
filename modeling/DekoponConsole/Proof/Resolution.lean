/-
  Hop resolution: path independence, and agreement with startup.

  * `Context` is what a hop resolves, with what the header shows of it;
    `resolvedContext o profile` is it as a function of the options of startup
    and the profile picked;
  * `Anchored o` is the invariant: the options come from startup, and without
    authored profiles the header names none;
  * `context_dispatchEnter`: a hop that passes the local checks resolves to the
    context of the profile `picked` for its agent, wherever it starts from;
  * `picked_initialAgent`: for the agent of startup that is startup's profile;
  * `hop_path_independent` puts these together.
-/
import DekoponConsole.Proof.Identity

namespace DekoponConsole

variable {exts : Externals}

/-! ## The resolved context -/

/-- What a hop resolves, and what the header shows. -/
structure Context where
  subject : ExternalSubject
  scope : Option ChatScopeClaim
  model : String
  modelSource : ModelSource
  promptLimits : PromptLimits
  shownSubject : String
  shownProfile : Option String
  shownModel : String
  shownModelSource : ModelSource
  shownScope : String
  deriving DecidableEq, Repr

/-- The context a console is in. -/
def Console.context (c : Console) : Context where
  subject := c.options.subject
  scope := c.options.scope
  model := c.options.model
  modelSource := c.options.modelSource
  promptLimits := c.options.promptLimits
  shownSubject := c.app.subject
  shownProfile := c.app.profile
  shownModel := c.app.model
  shownModelSource := c.app.modelSource
  shownScope := c.app.scopeLabel

/-- The context of some options when a profile is shown. -/
def contextOf (exts : Externals) (o : ConsoleOptions) (profile : Option String) : Context where
  subject := o.subject
  scope := o.scope
  model := o.model
  modelSource := o.modelSource
  promptLimits := o.promptLimits
  shownSubject := o.subject.asStr
  shownProfile := profile
  shownModel := o.model
  shownModelSource := o.modelSource
  shownScope := scopeLabelOf exts o.scope

/-- The context a profile resolves to, from the options of startup. -/
def resolvedContext (exts : Externals) (o : ConsoleOptions) (profile : Option OperatorProfile) :
    Context :=
  match profile with
  | some p => contextOf exts (profiled o p) (some p.name)
  | none => contextOf exts o none

/-- The profile a hop into an agent picks. -/
def picked (o : ConsoleOptions) (agent : AgentId) : Option OperatorProfile :=
  pickProfile o.fixedProfile (o.profiles.filter fun p => p.agent == agent)

theorem picked_nil {o : ConsoleOptions} (h : o.profiles = []) (agent : AgentId) :
    picked o agent = none := by
  cases hf : o.fixedProfile <;> simp [picked, pickProfile, h, hf]

/-! ## One hop -/

theorem context_of_sameContext {c c' : Console} (h : App.SameContext c.app c'.app)
    (ho : c'.options = c.options) : c'.context = c.context := by
  simp [Console.context, ho, h.subject, h.profile, h.model, h.modelSource, h.scopeLabel]

/-- The header a hop prepares shows the options it resolved. -/
theorem context_prepareHop {c : Console}
    (h : c.options.scope = scopeOf c.options.smokeConversation) :
    (prepareHop exts c).context = contextOf exts c.options c.app.profile := by
  simp [Console.context, contextOf, prepareHop, clearAgentContext, ← h]

/-- Neither a refused leg nor an entered agent changes the context. -/
theorem Hopped.context {c : Console} {agent : AgentId} {app : App} (h : Hopped exts c agent app) :
    ({ prepareHop exts c with app := app } : Console).context = (prepareHop exts c).context := by
  cases h with
  | refused report => exact context_of_sameContext (App.quiet_raise _ report).context rfl
  | entered leg _ _ => rfl

/-- The options come from startup; without authored profiles none is shown. -/
structure Anchored (o : ConsoleOptions) (c : Console) : Prop where
  options : ResolvedFrom o c.options
  profile : o.profiles = [] → c.app.profile = none

/-- **A hop that passes the local checks resolves its agent's context**, from
    whichever state it starts. -/
theorem Hop.context {o : ConsoleOptions} {c c₁ : Console} {agent : AgentId} {app : App}
    (hs : Started o) (ht : Anchored o c) (hop : Hop exts c agent c₁) (happ : Hopped exts c₁ agent app) :
    ({ prepareHop exts c₁ with app := app } : Console).context =
        resolvedContext exts o (picked o agent) ∧ ResolvedFrom o c₁.options := by
  have hresolved : ResolvedFrom o c₁.options ∧
      contextOf exts c₁.options c₁.app.profile = resolvedContext exts o (picked o agent) := by
    rcases hop.chosen hs ht.options with ⟨p, hp, rfl⟩ | ⟨hnil, rfl⟩
    · have ho : (applyProfile c p).options = profiled o p := ht.options.profiled_eq p
      refine ⟨Or.inr ⟨p, hp.mem, ho⟩, ?_⟩
      rw [picked, hp.picked, ho]
      rfl
    · refine ⟨ht.options, ?_⟩
      rw [picked_nil hnil, ht.options.eq_of_nil hnil, ht.profile hnil]
      rfl
  have hscope : c₁.options.scope = scopeOf c₁.options.smokeConversation := by
    rw [hresolved.1.scope, hresolved.1.smokeConversation, hs.scope]
  refine ⟨?_, hresolved.1⟩
  rw [happ.context, context_prepareHop hscope, hresolved.2]

theorem context_dispatchEnter {o : ConsoleOptions} {c : Console} (hs : Started o)
    (ht : Anchored o c) {answers : Answers} (hpass : (dispatchEnter exts answers c).2 ≠ []) :
    ∃ agent, c.app.highlightedId exts = some agent ∧
      (dispatchEnter exts answers c).1.context = resolvedContext exts o (picked o agent) := by
  rcases dispatchEnter_cases exts answers c with ⟨text, -, h⟩ | ⟨agent, c₁, hop, h⟩
  · exact absurd (by rw [h]) hpass
  · obtain ⟨app, happ, ho⟩ := openHop_cases exts answers c₁ agent
    refine ⟨agent, hop.highlighted, ?_⟩
    rw [h, ho]
    exact (hop.context hs ht happ).1

theorem Anchored.of_sameContext {o : ConsoleOptions} {c c' : Console} (ht : Anchored o c)
    (h : c.SameContext c') : Anchored o c' :=
  ⟨h.options ▸ ht.options, fun hnil => h.app.profile.trans (ht.profile hnil)⟩

theorem anchored_step {o : ConsoleOptions} {c : Console} (hs : Started o) (ht : Anchored o c)
    (l : Label) : Anchored o (step exts c l) := by
  rcases react_cases exts c l with ⟨⟨hc, -⟩, -⟩ | ⟨-, c₀, agent, c₁, app, hc, hop, happ, hd⟩
  · exact ht.of_sameContext hc
  · obtain ⟨hcontext, hresolved⟩ := hop.context hs (ht.of_sameContext hc) happ
    rw [step, hd]
    have hscope : c₁.options.scope = scopeOf c₁.options.smokeConversation := by
      rw [hresolved.scope, hresolved.smokeConversation, hs.scope]
    refine ⟨?_, ?_⟩
    · exact options_prepareHop exts hscope ▸ hresolved
    · intro hnil
      rw [picked_nil hnil] at hcontext
      exact congrArg Context.shownProfile hcontext

theorem anchored_exec {o : ConsoleOptions} {c : Console} (hs : Started o) (ht : Anchored o c)
    (ls : List Label) : Anchored o (Runs.exec (step exts) c ls) :=
  Runs.exec_of_forall (I := Anchored o) (fun _ l h => anchored_step hs h l) ht ls

/-! ## Startup -/

section
variable {launch : Launch} {cli : Cli} {document : ProfilesDocument} {app : App}
  {options : ConsoleOptions}

theorem anchored_start (h : execute exts launch cli = .ok (app, options)) :
    Anchored options (Console.start app options) := by
  refine ⟨Or.inl rfl, ?_⟩
  intro hnil
  obtain ⟨document, catalog, subject, socket, credential, -, -, -, rfl, rfl⟩ := execute_cases h
  simp [Console.start, startApp, initialProfile_nil cli hnil]

/-- The agent selected at startup, by `--agent` or by `--profile`. -/
def SelectedAtStartup (cli : Cli) (document : ProfilesDocument) (agent : AgentId) : Prop :=
  cli.agent = some agent ∨ ∃ p ∈ document.profiles, cli.profile = some p.name ∧ p.agent = agent

/-- For the agent selected at startup a hop picks the profile of startup. -/
theorem picked_startOptions {subject : ExternalSubject} (hsel : Selected cli document)
    (hnodup : (document.profiles.map OperatorProfile.name).Nodup) {agent : AgentId}
    (ha : SelectedAtStartup cli document agent) :
    picked (startOptions cli document (initialProfile cli document) subject) agent =
      initialProfile cli document := by
  cases hp : cli.profile with
  | none =>
    have hagent : cli.agent = some agent := by simpa [SelectedAtStartup, hp] using ha
    simp [picked, pickProfile, startOptions, initialProfile, chosenProfile, matchingProfiles, hp,
      hagent]
  | some name =>
    obtain ⟨p, hfind⟩ := exists_find?_name (hsel.named name hp)
    have hmem := List.mem_of_find?_eq_some hfind
    have hname : p.name = name := by simpa using List.find?_some hfind
    have hinitial : initialProfile cli document = some p := by
      simp [initialProfile, chosenProfile, hp, hfind]
    have hagent : p.agent = agent := by
      rcases ha with ha | ⟨q, hq, hqp, hqa⟩
      · exact (hsel.agrees agent p ha hinitial).symm
      · have hqn : q.name = p.name := by
          rw [hname]
          exact (Option.some.inj (hp.symm.trans hqp)).symm
        rw [← List.inj_on_of_nodup_map hnodup hq hmem hqn, hqa]
    have hamong : (document.profiles.filter fun p => p.agent == agent).find?
        (fun p => p.name == name) = some p := find?_filter_of_find? hfind (by simpa using hagent)
    rw [picked, pickProfile, hinitial, startOptions, hp, Option.bind_some, hamong]
    rfl

/-- Startup resolves the context of its profile. -/
theorem context_start (h : execute exts launch cli = .ok (app, options))
    (hd : loadDocument launch cli = .ok document) :
    (Console.start app options).context =
      resolvedContext exts options (initialProfile cli document) := by
  obtain ⟨document', catalog, subject, socket, credential, hd', -, hsubject, rfl, rfl⟩ :=
    execute_cases h
  obtain rfl : document = document' := Except.ok.inj (hd.symm.trans hd')
  cases hp : initialProfile cli document with
  | none => rfl
  | some p =>
    obtain rfl : p.subject = subject := by simpa [hp] using hsubject
    rfl

/-- The hop passes the local checks: it asks the broker. -/
def Passes (exts : Externals) (answers : Answers) (c : Console) : Prop :=
  (dispatchEnter exts answers c).2 ≠ []

/-- **Hops resolve independently of their path, and as startup does.**  Two runs
    that hop last into the same agent end in the same context, the one that startup's
    options resolve to under the agent's profile; if it is the agent selected at startup,
    in the context of startup. -/
theorem hop_path_independent (h : execute exts launch cli = .ok (app, options))
    (hd : loadDocument launch cli = .ok document) (ls ls' : List Label) (answers answers' : Answers)
    (agent : AgentId) :
    let c := Runs.exec (step exts) (Console.start app options) ls
    let c' := Runs.exec (step exts) (Console.start app options) ls'
    c.app.highlightedId exts = some agent → c'.app.highlightedId exts = some agent →
    Passes exts answers c → Passes exts answers' c' →
    (dispatchEnter exts answers c).1.context = (dispatchEnter exts answers' c').1.context ∧
      (dispatchEnter exts answers c).1.context =
        resolvedContext exts options (picked options agent) ∧
      (SelectedAtStartup cli document agent →
        (dispatchEnter exts answers c).1.context = (Console.start app options).context) := by
  intro c c' ha ha' hpass hpass'
  have hs := started_execute h
  have hresolves {ls : List Label} {answers : Answers}
      (ha : (Runs.exec (step exts) (Console.start app options) ls).app.highlightedId exts = some agent)
      (hpass : Passes exts answers (Runs.exec (step exts) (Console.start app options) ls)) :
      (dispatchEnter exts answers (Runs.exec (step exts) (Console.start app options) ls)).1.context =
        resolvedContext exts options (picked options agent) := by
    obtain ⟨agent', ha', hcontext⟩ :=
      context_dispatchEnter hs (anchored_exec hs (anchored_start h) ls) hpass
    rw [hcontext, Option.some.inj (ha.symm.trans ha')]
  refine ⟨(hresolves ha hpass).trans (hresolves ha' hpass').symm, hresolves ha hpass, ?_⟩
  intro hsel
  have hpicked : picked options agent = initialProfile cli document := by
    obtain ⟨document', catalog, subject, socket, credential, hd', hselected, -, rfl, -⟩ :=
      execute_cases h
    obtain rfl : document = document' := Except.ok.inj (hd.symm.trans hd')
    exact picked_startOptions hselected (names_nodup hd) hsel
  rw [hresolves ha hpass, context_start h hd, hpicked]

end

/-- A visit to `ops` and to `dev`, and the cursor back on `ops`. -/
def Sample.visit : List Label :=
  [.enter, .backTab, .char 'j', .enter, .backTab, .char 'k'].map fun code =>
    .key ⟨code, .none⟩ answers

/-- The hop into `ops`, after the visit and at once. -/
theorem hop_path_independent_sample :
    let c := Runs.exec (step .plain) (Console.start Sample.app Sample.options) Sample.visit
    (dispatchEnter .plain Sample.answers c).1.context =
        (dispatchEnter .plain Sample.answers (Console.start Sample.app Sample.options)).1.context ∧
      (dispatchEnter .plain Sample.answers c).1.context =
        (Console.start Sample.app Sample.options).context := by
  obtain ⟨hsame, -, hstart⟩ := hop_path_independent Sample.execute_eq Sample.loadDocument_eq
    Sample.visit [] Sample.answers Sample.answers ⟨"ops"⟩ rfl rfl (List.cons_ne_nil _ _)
    (List.cons_ne_nil _ _)
  exact ⟨hsame, hstart (Or.inl rfl)⟩

end DekoponConsole
