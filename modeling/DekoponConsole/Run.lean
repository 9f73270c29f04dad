/-
  The event loop (`run.rs`): keys, dispatched actions, and the task in flight.

  `Console` is everything the loop owns.  `onKey` maps a key press onto a state
  change and possibly an action; `dispatch` performs an action, given what the
  broker and the other crates answer while it waits (`Answers`), and lists what
  it asked of the broker; `settleTurn` takes a joined task back.  `Label` is
  what one pass of the loop reacts to and `step` the reaction.
-/
import DekoponConsole.Ui

namespace DekoponConsole

variable (exts : Externals)

/-! ## The loop's state -/

/-- What a spawned task was given. -/
inductive Task
  /-- one manual script: it reports `ShellFinished` once and hands `previous` back -/
  | shell (line : String) (leg : BrokerLeg) (signal : CancelId) (previous : History)
  /-- one model turn over the replay window -/
  | turn (prompt : String) (leg : BrokerLeg) (signal : CancelId) (instructions : Option String)
      (agent : Option Agent) (options : ConsoleOptions) (history : History)

namespace Task

def leg : Task → BrokerLeg
  | shell _ leg _ _ => leg
  | turn _ leg _ _ _ _ _ => leg

/-- The cancel signal of the task's leg. -/
def signal : Task → CancelId
  | shell _ _ signal _ => signal
  | turn _ _ signal _ _ _ _ => signal

/-- The history moved into the task. -/
def given : Task → History
  | shell _ _ _ previous => previous
  | turn _ _ _ _ _ _ history => history

def isShell : Task → Bool
  | shell .. => true
  | turn .. => false

end Task

/-- One turn in flight.  `reported` says that the last event its task sends has
    been received. -/
structure RunningTurn where
  task : Task
  shell : Bool
  reported : Bool

/-- How a joined task ended. -/
inductive Joined
  | returned (history : History)
  | failed (error : SessionError)
  | died (error : DynError)

/-- What the loop owns, with the inventories made so far, the next cancel
    handle, and the process's synthetic identity. -/
structure Console where
  app : App
  options : ConsoleOptions
  running : Option RunningTurn
  history : History
  stop : StopFlag
  stores : List Inventory
  nextCancel : CancelId
  identity : Option SmokeIdentity

namespace Console

/-- The loop's state over a fresh application. -/
def start (app : App) (options : ConsoleOptions) : Console where
  app := app
  options := options
  running := none
  history := .new
  stop := .default
  stores := []
  nextCancel := 0
  identity := none

/-- Refuses with a notice and changes nothing else. -/
def refuse (c : Console) (text : String) : Console :=
  { c with app := c.app.setNotice (.refusal text) }

end Console

/-! ## Keys -/

inductive KeyCode
  | char (c : Char)
  | up
  | down
  | pageUp
  | pageDown
  | home
  | endKey
  | esc
  | enter
  | tab
  | backTab
  | backspace
  | other
  deriving DecidableEq, Repr

structure KeyModifiers where
  shift : Bool
  control : Bool
  alt : Bool
  super : Bool
  hyper : Bool
  metaKey : Bool
  deriving DecidableEq, Repr

def KeyModifiers.none : KeyModifiers := ⟨false, false, false, false, false, false⟩

def KeyModifiers.onlyShift : KeyModifiers := ⟨true, false, false, false, false, false⟩

structure KeyEvent where
  code : KeyCode
  modifiers : KeyModifiers
  deriving DecidableEq, Repr

/-- Something the loop must do that needs more than the state machine. -/
inductive Action
  | enter
  | turn (prompt : String)
  | shell (line : String)
  deriving DecidableEq, Repr

/-- What a key press leaves: an action to dispatch, the application, the stop
    flag. -/
abbrev Keyed := Option Action × App × StopFlag

/-- `KeyCode::Esc if app.request_stop() => stop.request()`, or else what follows
    it. -/
def escOr (app : App) (stop : StopFlag) (otherwise : App) : Keyed :=
  let r := app.requestStop
  if r.1 then (none, r.2, stop.request) else (none, otherwise, stop)

/-- Enter while composing: the line to run, if it is accepted. -/
def onComposingEnter (app : App) (stop : StopFlag) : Keyed :=
  match app.pane with
  | .shell =>
    if app.busy then
      (none, app.setNotice (.refusal "another command is running; press Esc to stop it"), stop)
    else if app.session.isNone then
      (none, app.setNotice (.refusal "hop into an agent first"), stop)
    else
      let line := trim app.composer
      if line.isEmpty then (none, app, stop)
      else (some (.shell line), { app with composer := "", shellTop := none }, stop)
  | _ => (none, app, stop)

/-- `on_composing_key`. -/
def onComposingKey (app : App) (key : KeyEvent) (stop : StopFlag) : Keyed :=
  match key.code with
  | .esc => escOr app stop { app with mode := .browsing, composer := "" }
  | .tab => (none, { app with mode := .browsing, pane := app.pane.next }, stop)
  | .backTab => (none, { app with mode := .browsing, pane := app.pane.previous }, stop)
  | .backspace => (none, { app with composer := String.ofList app.composer.toList.dropLast }, stop)
  | .char c =>
    if key.modifiers = .none ∨ key.modifiers = .onlyShift then
      (none, { app with composer := app.composer.push c }, stop)
    else (none, app, stop)
  | .enter => onComposingEnter app stop
  | _ => (none, app, stop)

/-- A key of the error pane. -/
def onErrorKey (app : App) (key : KeyEvent) : App :=
  let page := max app.shellViewport.2 1
  let scrollTo (scroll : ℕ) : App :=
    { app with errorScroll := min scroll (errorMaxScroll exts app) }
  match key.code with
  | .char 'j' | .down => scrollTo (saturatingAdd u16Size app.errorScroll 1)
  | .char 'k' | .up => scrollTo (app.errorScroll - 1)
  | .pageDown => scrollTo (saturatingAdd u16Size app.errorScroll page)
  | .pageUp => scrollTo (app.errorScroll - page)
  | .home => scrollTo 0
  | .esc | .enter | .char 'q' | .char 'e' => { app with mode := .browsing }
  | _ => app

/-- The paging keys of the shell pane, which work while composing too. -/
def onPagingKey (app : App) (key : KeyEvent) : Option App :=
  if app.pane = .shell then
    match key.code with
    | .pageUp => some (Shell.page exts app true)
    | .pageDown => some (Shell.page exts app false)
    | .home => some (Shell.home app)
    | .endKey => some { app with shellTop := none }
    | _ => none
  else none

/-- A key while browsing. -/
def onBrowsingKey (app : App) (key : KeyEvent) (stop : StopFlag) : Keyed :=
  match key.code with
  | .char 'q' => (none, { app with shouldQuit := true }, stop)
  | .char '?' => (none, { app with mode := .help }, stop)
  | .char 'e' => (none, app.showError, stop)
  | .tab => (none, { app with pane := app.pane.next }, stop)
  | .backTab => (none, { app with pane := app.pane.previous }, stop)
  | .char 'j' | .down => (none, app.moveSelection 1, stop)
  | .char 'k' | .up => (none, app.moveSelection (-1), stop)
  | .char 'i' => (none, if app.pane = .shell then { app with mode := .composing } else app, stop)
  | .enter => (if app.pane = .agents then some .enter else none, app, stop)
  | .esc => escOr app stop app
  | _ => (none, app, stop)

/-- Maps one key press onto a state change, and possibly an action. -/
def onKey (app : App) (key : KeyEvent) (stop : StopFlag) : Keyed :=
  if key.modifiers.control ∧ key.code = .char 'c' then (none, { app with shouldQuit := true }, stop)
  else
    match app.mode with
    | .help => (none, { app with mode := .browsing }, stop)
    | .error => (none, onErrorKey exts app key, stop)
    | .composing =>
      match onPagingKey exts app key with
      | some app => (none, app, stop)
      | none => onComposingKey app key stop
    | .browsing =>
      match onPagingKey exts app key with
      | some app => (none, app, stop)
      | none => onBrowsingKey app key stop

/-! ## Refusals -/

/-- A failed `capabilitiesFor`, with the broker's refusal and where its reason is
    logged. -/
def sessionRefusal (app : App) (operation : String) (error : SessionError) : ErrorReport :=
  let report := app.report exts (.fromError operation error.toError)
  match report.refusal with
  | some (code, _) =>
    if code = errorUnauthenticated then
      report.withNote ("brokerd keeps the refusal reason off the wire so a refused caller cannot " ++
        "probe the subject directory or agent grants. It logs it: a WARN with " ++
        "event=broker_capabilities_refused, subject=" ++ (report.fact "subject").getD "" ++
        ", agent=" ++ (report.fact "agent").getD "" ++ ", a reason (attestation-denied, " ++
        "unmapped-subject, agent-denied or policy-error) and the determining policy_ids")
    else report
  | none => report

/-- The broker answered, and policy grants this context nothing. -/
def emptySurface (app : App) (operation : String) : ErrorReport :=
  let report := app.report exts (.fromMessage operation
    "broker grants no capabilities for this context; no model call or command will be sent")
  report.withNote ("the broker accepted the attestation and permitted agent.prompt, but Cedar " ++
    "authorizes no provider capability for this subject's principal with context.agent == \"" ++
    (report.fact "agent").getD "" ++ "\" in scope " ++ (report.fact "scope").getD "" ++
    ". Check the permit policies for that agent, including any context.transport or " ++
    "context.conversation condition")

/-- Closes the transcript when a fresh gate or model setup refuses before
    inference. -/
def refuseTurn (app : App) (report : ErrorReport) : App :=
  (app.onSessionEvent (.finished (.error report.toString))).raise report

/-- The agent's standing orders, handed to the model fresh on every turn. -/
def instructions (app : App) : Option String :=
  app.session.bind fun session =>
    (app.agents.find? fun agent => agent.name == session.agent.asStr).bind Agent.instructions

/-! ## Dispatch -/

/-- What the broker and the other crates answer while an action is performed. -/
structure Answers where
  /-- `BrokerLeg::connect` -/
  leg : Except DynError Surface
  /-- `record_delivered_turn` -/
  record : Except DynError RecordedTurn
  /-- `session_trace_parent` -/
  parent : TraceParent
  /-- `build_model` -/
  model : Except SessionError Unit
  /-- `DiskBlob::from_bytes` -/
  blob : List UInt8 → Except BlobError DiskBlob

/-- What a dispatched action leaves, and what it asked of the broker. -/
abbrev Dispatched := Console × List BrokerCall

/-- `clear_agent_context`. -/
def clearAgentContext (c : Console) : Console :=
  { c with
    app := { c.app with
      session := none
      assets := none
      brokerTrace := none
      transcript := .empty
      shellHistory := []
      shellTop := none
      composer := ""
      mode := .browsing }
    history := .new }

/-- The profile a hop acts under: the fixed one, or else the first one bound to
    the agent. -/
def pickProfile (fixedProfile : Option String) (candidates : List OperatorProfile) :
    Option OperatorProfile :=
  (fixedProfile.bind fun name => candidates.find? fun p => p.name == name).or candidates.head?

/-- The options and the header under a profile. -/
def applyProfile (c : Console) (profile : OperatorProfile) : Console :=
  let selected := selectedModel c.options.modelOverride profile.model
  { c with
    options := { c.options with
      subject := profile.subject
      model := selected.1
      modelSource := selected.2
      promptLimits := {
        maxSteps := (c.options.stepsOverride.or profile.maxSteps).getD 8
        maxCapabilityCalls := (c.options.callsOverride.or profile.maxCapabilityCalls).getD 16 } }
    app := { c.app with profile := some profile.name } }

/-- The header's scope. -/
def scopeLabelOf (scope : Option ChatScopeClaim) : String :=
  match scope with
  | some scope => exts.scopeToString scope
  | none => "subject-only"

/-- The state a hop opens its leg in: the previous agent's context is gone, the
    header shows the resolved one, and an empty inventory is made. -/
def prepareHop (c : Console) : Console :=
  let scope := scopeOf c.options.smokeConversation
  let c := clearAgentContext { c with options := { c.options with scope := scope } }
  { c with
    app := { c.app with
      subject := c.options.subject.asStr
      scopeLabel := scopeLabelOf exts c.options.scope
      model := c.options.model
      modelSource := c.options.modelSource }
    stores := c.stores ++ [.default] }

/-- The hop into an agent once its context is resolved. -/
def openHop (answers : Answers) (c : Console) (agent : AgentId) : Dispatched :=
  let store : StoreId := c.stores.length
  let c := prepareHop exts c
  let (call, opened) :=
    openAgentWithAssets answers.leg c.options.subject agent c.options.scope store
  match opened with
  | .ok leg =>
    if leg.isEmpty then
      ({ c with app := c.app.raise (emptySurface exts c.app "open broker session") }, [call])
    else
      ({ c with app := { c.app.enter (.new agent leg) with assets := some store } }, [call])
  | .error error =>
    ({ c with app := c.app.raise (sessionRefusal exts c.app "open broker session" error) }, [call])

/-- Why a hop is refused before anything is asked of the broker. -/
inductive HopRefusal
  | busy
  | noAgents
  | bound
  | several (agent : AgentId)
  | unauthored (agent : AgentId)

/-- The notice of a hop that is refused. -/
def HopRefusal.text : HopRefusal → String
  | busy => "stop the current turn before switching agents"
  | noAgents => "the catalog contains no agents"
  | bound => "--profile is bound to its agent; restart with a matching profile"
  | several agent => "multiple profiles for " ++ agent.asStr ++ "; restart with --profile <NAME>"
  | unauthored agent => "no authored profile for " ++ agent.asStr ++
      "; restart without --profiles and with --subject for subject-only use"

/-- The checks of `Action::Enter`: the agent it goes to and the profile it goes under,
    or why it is refused. -/
def hopTarget (options : ConsoleOptions) (busy : Bool) (highlighted : Option AgentId) :
    Except HopRefusal (AgentId × Option OperatorProfile) :=
  if busy then .error .busy
  else
    match highlighted with
    | none => .error .noAgents
    | some agent =>
      if options.fixedProfile.any fun name =>
          options.profiles.any fun p => p.name == name && p.agent != agent then .error .bound
      else
        let candidates := options.profiles.filter fun p => p.agent == agent
        if candidates.length > 1 ∧ options.fixedProfile.isNone then .error (.several agent)
        else
          match pickProfile options.fixedProfile candidates with
          | some profile => .ok (agent, some profile)
          | none =>
            if !options.profiles.isEmpty then .error (.unauthored agent) else .ok (agent, none)

/-- `Action::Enter`. -/
def dispatchEnter (answers : Answers) (c : Console) : Dispatched :=
  match hopTarget c.options c.app.busy (c.app.highlightedId exts) with
  | .error refusal => (c.refuse refusal.text, [])
  | .ok (agent, profile) => openHop exts answers (profile.elim c (applyProfile c)) agent

/-- Spawns a task: the stop flag is bound to its leg, the history moves into it. -/
def spawn (c : Console) (task : CancelId → History → Task) : Console :=
  let handle := c.nextCancel
  let task := task handle c.history
  { c with
    stop := c.stop.reset.bindBroker handle
    nextCancel := handle + 1
    history := .new
    running := some ⟨task, task.isShell, false⟩ }

/-- `Action::Turn`. -/
def dispatchTurn (answers : Answers) (c : Console) (prompt : String) : Dispatched :=
  match c.app.session, c.app.assets with
  | some session, some store =>
    let (call, opened) :=
      openAgentWithAssets answers.leg c.options.subject session.agent c.options.scope store
    match opened with
    | .error error =>
      let report := sessionRefusal exts c.app "open broker session for a model turn" error
      ({ c with app := refuseTurn c.app report }, [call])
    | .ok leg =>
      if leg.isEmpty then
        let report := emptySurface exts c.app "open broker session for a model turn"
        ({ c with app := refuseTurn c.app report }, [call])
      else
        let c := { c with app := { c.app with brokerTrace := some leg.surface.sessionTrace } }
        match answers.model with
        | .error error =>
          let report := c.app.report exts (.fromError "build model client" error.toError)
          ({ c with app := refuseTurn c.app report }, [call])
        | .ok () =>
          let agent := c.app.agents.find? fun agent => agent.name == session.agent.asStr
          (spawn c fun handle history =>
            .turn prompt leg handle (instructions c.app) agent c.options history, [call])
  | _, _ => (c, [])

/-- A local command that completed at once: its entry is opened and completed. -/
def completeLocally (c : Console) (input output : String) (exitCode : ℕ) : Console :=
  let app := (c.app.startShell input).finishShell ⟨input, output, some exitCode, false⟩
  { c with app := { app with busy := false } }

/-- `:smoke record <text>`. -/
def dispatchSmoke (answers : Answers) (c : Console) (agent : AgentId) (line text : String) :
    Dispatched :=
  if !c.options.smokeConversation then
    (c.refuse "restart with --smoke-conversation to record a synthetic turn", [])
  else
    match (stripPrefix text "'").bind fun s => stripSuffix s "'" with
    | none => (c.refuse "use :smoke record '<text>'", [])
    | some text =>
      if byteLen text.toList ≤ 64 * 1024 then
        let (call, result, identity) :=
          smokeRecord exts answers.record answers.parent c.identity c.options.subject agent text
        let c := { c with identity := some identity }
        match result with
        | .ok (message, succeeded) =>
          (completeLocally c line message (if succeeded then 0 else 1), [call])
        | .error error => (completeLocally c line ("refused: " ++ error.link.display) 1, [call])
      else (completeLocally c line "refused: smoke text exceeds 64 KiB" 1, [])

/-- What an `:asset` command answers, and what it makes of its inventory. -/
def attach (answers : Answers) (command : String) (inventory : Inventory) :
    Except String ℕ × Inventory :=
  match (stripPrefix command "attach-base64 --type ").bind fun args => splitOnce args ' ' with
  | none => (.error "use :asset attach-base64 --type <mime> <BASE64>", inventory)
  | some (mime, encoded) => inventory.attachBase64 exts answers.blob mime encoded

/-- How an asset command appears in the shell history. -/
def assetLabel : String := ":asset attach-base64 [input redacted]"

/-- `:asset <command>`. -/
def dispatchAsset (answers : Answers) (c : Console) (command : String) : Dispatched :=
  match c.app.assets with
  | none => (c, [])
  | some store =>
    let (result, inventory) := attach exts answers command (c.stores.getD store .default)
    let c := { c with stores := c.stores.set store inventory }
    match result with
    | .ok id => (completeLocally c assetLabel ("chat-asset:" ++ toString id) 0, [])
    | .error error => (completeLocally c assetLabel ("refused: " ++ error) 1, [])

/-- A line for the interpreter: echoed, then run on a fresh leg. -/
def dispatchScript (answers : Answers) (c : Console) (agent : AgentId) (line : String) :
    Dispatched :=
  let c := { c with app := c.app.startShell line }
  match c.app.assets with
  | none => (c, [])
  | some store =>
    let (call, opened) :=
      openAgentWithAssets answers.leg c.options.subject agent c.options.scope store
    match opened with
    | .error error =>
      let report := sessionRefusal exts c.app "open broker session for a shell command" error
      ({ c with app := { c.app.failShell exts report with busy := false } }, [call])
    | .ok leg =>
      if leg.isEmpty then
        let report := emptySurface exts c.app "open broker session for a shell command"
        ({ c with app := { c.app.failShell exts report with busy := false } }, [call])
      else
        let c := { c with app := { c.app with brokerTrace := some leg.surface.sessionTrace } }
        (spawn c fun handle history => .shell line leg handle history, [call])

/-- `Action::Shell`. -/
def dispatchShell (answers : Answers) (c : Console) (line : String) : Dispatched :=
  match c.app.session with
  | none => (c.refuse "hop into an agent first", [])
  | some session =>
    if c.app.busy then
      (c.refuse "another command or turn is running; press Esc to stop it", [])
    else
      match stripPrefix line ":smoke record " with
      | some text => dispatchSmoke exts answers c session.agent line text
      | none =>
        if startsWith line ":smoke" then
          (c.refuse "unknown local smoke command; use :smoke record '<text>'", [])
        else
          match stripPrefix line ":asset " with
          | some command => dispatchAsset exts answers c command
          | none =>
            if startsWith line ":asset" then
              (c.refuse ("unknown local asset command; use :asset attach-base64 --type <mime> " ++
                "<BASE64>"), [])
            else dispatchScript exts answers c session.agent line

/-- Performs one action. -/
def dispatch (answers : Answers) (c : Console) : Action → Dispatched
  | .enter => dispatchEnter exts answers c
  | .turn prompt => dispatchTurn exts answers c prompt
  | .shell line => dispatchShell exts answers c line

/-! ## Dropped actions

An action waits for the broker once at most.  A caller that drops it there leaves what it
did before. -/

/-- `Action::Enter`, dropped while it waits for its leg. -/
def droppedEnter (c : Console) : Console :=
  match hopTarget c.options c.app.busy (c.app.highlightedId exts) with
  | .error refusal => c.refuse refusal.text
  | .ok (_, profile) => prepareHop exts (profile.elim c (applyProfile c))

/-- What a command line has done where it waits, by what it waits for: its synthetic turn is
    made, or its line is echoed.  One that asks nothing of the broker does not wait. -/
def awaiting (c : Console) (line : String) : Dispatched → Console
  | (done, []) => done
  | (done, .recordDeliveredTurn _ _ :: _) => { c with identity := done.identity }
  | (_, .openLeg _ _ :: _) => { c with app := c.app.startShell line }

/-- `Action::Shell`, dropped while it waits. -/
def droppedShell (answers : Answers) (c : Console) (line : String) : Console :=
  awaiting c line (dispatchShell exts answers c line)

/-! ## The task in flight -/

/-- The failure a joined task is reported as, if it is one. -/
def joinedReport (shell : Bool) : Joined → Option ErrorReport
  | .returned _ => none
  | .failed error =>
    some (.fromError (if shell then "run shell command" else "run model turn") error.toError)
  | .died error =>
    some (.fromError
      (if shell then "run shell command (the shell task died)"
        else "run model turn (the session task died)") error)

/-- Reports how a joined turn ended and releases its stop binding. -/
def settleTurn (shell : Bool) (joined : Joined) (c : Console) : Console :=
  let c := match joined with
    | .returned history => { c with history := history }
    | _ => c
  let app := match joinedReport shell joined with
    | none => c.app
    | some report =>
      if shell then c.app.failShell exts report else c.app.raise (c.app.report exts report)
  let c := { c with app := app, stop := c.stop.reset }
  if shell then
    let app :=
      if c.app.shellHistory.getLast?.any fun entry => entry.exitCode.isNone then
        c.app.failShell exts
          (.fromMessage "run shell command" "shell ended without reporting an outcome")
      else c.app
    { c with app := { app with busy := false } }
  else { c with app := c.app.onSessionComplete c.history.len }

/-- Collects a finished turn's history back and reports how it ended. -/
def finishTurn (joined : Joined) (c : Console) : Console :=
  match c.running with
  | none => c
  | some turn => settleTurn exts turn.shell joined { c with running := none }

/-- What the loop does with an event of the task in flight. -/
def onEvent (app : App) : SessionEvent → App
  | .progress message => app.setNotice (.info message)
  | .shellFinished entry => app.finishShell entry
  | event => app.onSessionEvent event

/-- Whether an event is the last its task sends. -/
def SessionEvent.isLast : SessionEvent → Bool
  | .shellFinished _ | .finished _ => true
  | _ => false

/-- Receives one event of the task in flight. -/
def receive (c : Console) (event : SessionEvent) : Console :=
  { c with
    app := onEvent c.app event
    running := c.running.map fun turn => { turn with reported := turn.reported || event.isLast } }

/-! ## The loop -/

/-- What a leg's provider does to the inventory it is bound to. -/
inductive Intake
  | register (descriptor : Except BlobError DiskBlob) (metadata : NewAsset)
  | remove (pinned : DiskBlob → Bool) (id : ℕ)

def Intake.apply (inv : Inventory) : Intake → Inventory
  | register descriptor metadata => (inv.register descriptor metadata).2
  | remove pinned id => (inv.remove pinned id).2

/-- What one pass of the loop reacts to. -/
inductive Label
  /-- a key press, with the answers for the action it may produce -/
  | key (key : KeyEvent) (answers : Answers)
  /-- an action dispatched directly -/
  | action (action : Action) (answers : Answers)
  /-- the composer submitted as a model turn, and dispatched if accepted -/
  | submitTurn (answers : Answers)
  /-- an event of the task in flight -/
  | event (event : SessionEvent)
  /-- the channel of the task in flight closed, and the task was joined -/
  | close (joined : Joined)
  /-- a provider of the task in flight changed its inventory -/
  | intake (intake : Intake)
  | resize (width height : ℕ)

/-- One pass of the loop, and what it asked of the broker. -/
def react (c : Console) : Label → Dispatched
  | .key key answers =>
    let (action, app, stop) := onKey exts c.app key c.stop
    let c := { c with app := app, stop := stop }
    match action with
    | some action => dispatch exts answers c action
    | none => (c, [])
  | .action action answers => dispatch exts answers c action
  | .submitTurn answers =>
    let (prompt, app) := c.app.submitTurn
    let c := { c with app := app }
    match prompt with
    | some prompt => dispatch exts answers c (.turn prompt)
    | none => (c, [])
  | .event event => (receive c event, [])
  | .close joined => (finishTurn exts joined c, [])
  | .intake intake =>
    match c.running with
    | some turn =>
      let store := turn.task.leg.store
      ({ c with stores := c.stores.set store (intake.apply (c.stores.getD store .default)) }, [])
    | none => (c, [])
  | .resize width height =>
    ({ c with app := { c.app with shellViewport := (width - 2, height - 11) } }, [])

/-- The state one pass of the loop leaves. -/
def step (c : Console) (l : Label) : Console := (react exts c l).1

/-- What one pass of the loop asks of the broker. -/
def asked (c : Console) (l : Label) : List BrokerCall := (react exts c l).2

/-- The state that the providers of the task in flight leave, one change after another. -/
def provide (c : Console) (intakes : List Intake) : Console :=
  intakes.foldl (fun c intake => step exts c (.intake intake)) c

/-- The events a task sends: a shell task the entry of its own line, a model
    turn anything but that. -/
def Task.sends : Task → SessionEvent → Prop
  | .shell line _ _ _, .shellFinished entry => entry.input = line ∧ entry.exitCode.isSome
  | .shell .., _ => False
  | .turn .., .shellFinished _ => False
  | .turn .., _ => True

/-- What a task that did not fail returns: a shell task the history it was
    given. -/
def Task.returns : Task → History → Prop
  | .shell _ _ _ previous, history => history = previous
  | .turn .., _ => True

/-- The labels the loop can meet in a state: events come from the task in flight
    until its last one, a channel closes when there is one. -/
def Admits (c : Console) : Label → Prop
  | .event event => ∃ turn, c.running = some turn ∧ turn.reported = false ∧ turn.task.sends event
  | .close joined => ∃ turn, c.running = some turn ∧
      ∀ history, joined = .returned history → turn.task.returns history
  | .intake _ => c.running.isSome
  | _ => True

end DekoponConsole
