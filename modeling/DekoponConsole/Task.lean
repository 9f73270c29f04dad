/-
  The tasks the loop spawns (`run_turn` of `session.rs`, the shell task of
  `run.rs`), with the observers of a turn's progress and usage (`record.rs`).

  The prompt loop is another crate's: a `PromptBehaviour` is what it does next,
  given what its scripts answer.  The leg it dispatches to may report progress
  while it serves an invocation (`TurnLeg`).  A turn's scripts make their
  invocations one after another here; overlapping ones are `Overlap`'s.
-/
import DekoponConsole.Run

namespace DekoponConsole

/-! ## Progress and usage -/

/-- `dekopon_agent::progress::ProgressEvent`, with the fields the console reads;
    classes and outcomes are their debug renderings. -/
inductive ProgressEvent
  | started
  | modelTurn (turn limit : ℕ)
  | toolStarted (word : String) (callsUsed callsMax : ℕ)
  | toolFinished (word outcome : String)
  | note (text : String)
  | steered
  | answered
  | textDelta
  | attachment
  | keepAlive
  | cancelled
  | failed (class_ : String)
  | finished (outcome : String) (turns toolCalls : ℕ)
  deriving DecidableEq, Repr

/-- What `RecordingProgress` says of an event, if anything. -/
def ProgressEvent.message : ProgressEvent → Option String
  | .modelTurn turn limit => some ("model turn " ++ toString turn ++ "/" ++ toString limit)
  | .toolStarted word callsUsed callsMax =>
    some (word ++ " started · calls " ++ toString callsUsed ++ "/" ++ toString callsMax)
  | .toolFinished word outcome => some (word ++ ": " ++ outcome)
  | .note text => some text
  | .cancelled => some "stopped; sent effects are not rolled back"
  | .failed class_ => some ("turn failed: " ++ class_)
  | .finished outcome turns toolCalls =>
    some (outcome ++ " · " ++ toString turns ++ " model turns · " ++ toString toolCalls ++ " tools")
  | .started | .steered | .answered | .textDelta | .attachment | .keepAlive => none

/-- `RecordingProgress::emit`. -/
def recordProgress (env : Surroundings) (event : ProgressEvent) (r : Recorder) : Recorder :=
  match event.message with
  | some message => emit env (.progress message) r
  | none => r

/-- `RecordingUsage::observe`. -/
def recordUsage (env : Surroundings) (usage : Option ModelUsage) (r : Recorder) : Recorder :=
  emit env (.modelUsage usage) r

/-! ## Model turns -/

variable {σ π : Type}

/-- A leg that reports progress: what an invocation answers and does to the
    state, and what it reports meanwhile. -/
abbrev TurnLeg (σ π : Type) :=
  CommandProposal π → σ → List ProgressEvent × CapabilityCallResult × σ

/-- What the prompt loop does next. -/
inductive PromptBehaviour (σ π : Type)
  | finish (outcome : Except DynError PromptOutcome) (history : History) (state : σ)
  | progress (event : ProgressEvent) (next : PromptBehaviour σ π)
  | usage (usage : Option ModelUsage) (next : PromptBehaviour σ π)
  /-- it runs a model-authored script, and goes on with its outcome -/
  | script (text : String) (state : σ) (next : ScriptOutcome → σ → PromptBehaviour σ π)

/-- What a turn returns: its scripts with their runs, the usage reported, its
    outcome, the history and the state. -/
structure Turned (σ π : Type) where
  scripts : List (String × Ran σ π)
  usages : List (Option ModelUsage)
  outcome : Except DynError PromptOutcome
  history : History
  state : σ

/-- A turn without observers. -/
def PromptBehaviour.run (runtime : Runtime σ π) (leg : TurnLeg σ π) :
    PromptBehaviour σ π → Turned σ π
  | .finish outcome history s => ⟨[], [], outcome, history, s⟩
  | .progress _ next => next.run runtime leg
  | .usage reported next =>
    let rest := next.run runtime leg
    { rest with usages := reported :: rest.usages }
  | .script text s next =>
    let ran := bareRunScript runtime (fun proposal s => (leg proposal s).2) text s
    let rest := (next ran.outcome ran.state).run runtime leg
    { rest with scripts := (text, ran) :: rest.scripts }

/-- `RecordingInvoker::invoke` over a leg that reports progress, no other invocation
    being in flight. -/
def turnInvoke (env : Surroundings) (leg : TurnLeg σ π) (proposal : CommandProposal π)
    (sr : σ × Recorder) : CapabilityCallResult × (σ × Recorder) :=
  let (sequence, r) := sr.2.take
  let (events, result, s) := leg proposal sr.1
  let r := events.foldl (fun r event => recordProgress env event r) r
  (result, (s, emit env (.capability {
    sequence := sequence
    capability := proposal.capability
    input := proposal.input
    outcome := .ofResult result
    elapsed := env.elapsed sequence }) r))

/-- `RecordingRuntime::run_script` of a turn, the script making its invocations one after
    another. -/
def turnRunScript (env : Surroundings) (runtime : Runtime σ π) (leg : TurnLeg σ π)
    (script : String) (s : σ) (r : Recorder) : Ran σ π × Recorder :=
  let (sequence, r) := r.take
  let r := emit env (.scriptStarted sequence script) r
  let ran := (runtime script s).run (turnInvoke env leg) r
  (ran.1, emit env
    (.scriptFinished (scriptRun sequence script ran.1.outcome (env.elapsed sequence))) ran.2)

/-- A turn behind its observers. -/
def PromptBehaviour.record (env : Surroundings) (runtime : Runtime σ π) (leg : TurnLeg σ π) :
    PromptBehaviour σ π → Recorder → Turned σ π × Recorder
  | .finish outcome history s, r => (⟨[], [], outcome, history, s⟩, r)
  | .progress event next, r => next.record env runtime leg (recordProgress env event r)
  | .usage reported next, r =>
    let rest := next.record env runtime leg (recordUsage env reported r)
    ({ rest.1 with usages := reported :: rest.1.usages }, rest.2)
  | .script text s next, r =>
    let ran := turnRunScript env runtime leg text s r
    let rest := (next ran.1.outcome ran.1.state).record env runtime leg ran.2
    ({ rest.1 with scripts := (text, ran.1) :: rest.1.scripts }, rest.2)

/-- What the model is told of the agent it runs as (`AgentConfigView`). -/
structure AgentConfigView where
  name : String
  description : String
  modelClass : Option String
  instructions : Option String
  maxSteps : ℕ
  maxCapabilityCalls : ℕ
  effective : List EffectiveCapabilityView
  deriving DecidableEq, Repr

/-- What `run_prompt_session` is given, its observers and skills apart. -/
structure SessionInputs where
  prompt : String
  limits : PromptLimits
  system : Option String
  config : AgentConfigView
  deriving DecidableEq, Repr

/-- The inputs `run_turn` builds. -/
def sessionInputs (leg : BrokerLeg) (prompt : String) (system : Option String) (agent : Agent)
    (options : ConsoleOptions) : SessionInputs where
  prompt := prompt
  limits := options.promptLimits
  system := system
  config := {
    name := agent.name
    description := agent.description
    modelClass := agent.modelClass
    instructions := system
    maxSteps := options.promptLimits.maxSteps
    maxCapabilityCalls := options.promptLimits.maxCapabilityCalls
    effective := leg.surface.effective }

/-- The prompt loop of a turn: what it does with its inputs, the history moved
    into it, and its state. -/
abbrev PromptSession (σ π : Type) := SessionInputs → History → σ → PromptBehaviour σ π

/-- The blocking part of `run_turn`: what the turn returns, and the channel once
    its outcome is sent. -/
def runTurn (env : Surroundings) (session : PromptSession σ π) (runtime : Runtime σ π)
    (invoker : TurnLeg σ π) (inputs : SessionInputs) (history : History) (s : σ) (r : Recorder) :
    Turned σ π × Recorder :=
  let (turned, r) := (session inputs history s).record env runtime invoker r
  (turned, emit env (.finished (turned.outcome.mapError chain)) r)

/-! ## Shell tasks -/

/-- The blocking part of a shell task: the script's entry is sent once, and the
    history handed back. -/
def runShell (env : Surroundings) (runtime : Runtime σ π) (invoker : Invoker σ π) (line : String)
    (previous : History) (s : σ) (r : Recorder) : History × Ran σ π × Recorder :=
  let ran := bareRunScript runtime invoker line s
  (previous, ran, emit env (.shellFinished
    ⟨line, ran.outcome.output, some ran.outcome.exitCode, ran.outcome.truncated⟩) r)

end DekoponConsole
