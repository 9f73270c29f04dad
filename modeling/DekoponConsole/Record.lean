/-
  Observation decorators (`record.rs`): the events of a session, and the two
  wrappers that emit them around the interpreter and its invoker.

  An inner runtime is an arbitrary stateful behaviour: on a script and a state
  it either finishes or proposes an invocation, whose result it continues with
  (`ScriptBehaviour`).  The decorators share a counter and a channel
  (`Recorder`); whether the receiver is open is asked at every send.

  A script's stages may invoke concurrently: `Overlap.step` is one step of one
  invocation, and an `Interleaving` is an order their steps may come in.
-/
import DekoponConsole.External

namespace DekoponConsole

/-! ## Events -/

/-- One line of console-visible history in the shell pane. -/
structure ShellEntry where
  input : String
  output : String
  /-- `none` while the interpreter is running -/
  exitCode : Option ℕ
  truncated : Bool
  deriving DecidableEq, Repr

/-- Which half of a capability call a payload is. -/
inductive Payload
  | input
  | output
  deriving DecidableEq, Repr

def Payload.label : Payload → String
  | .input => "input"
  | .output => "output"

/-- What one capability invocation did. -/
inductive CallOutcome
  | succeeded
  | succeededWithStderr (stderr : String)
  | exited (status : ℕ) (stderr : String)
  | denied (reason : String)
  | failed (error : String)
  | notFound
  deriving DecidableEq, Repr

/-- `From<&CapabilityCallResult> for CallOutcome`. -/
def CallOutcome.ofResult : CapabilityCallResult → CallOutcome
  | .succeeded => .succeeded
  | .succeededWithStderr stderr => .succeededWithStderr stderr
  | .exited status stderr => .exited status stderr
  | .denied reason => .denied reason
  | .failed error => .failed error
  | .notFound => .notFound

/-- One capability invocation, observed at the dispatch seam. -/
structure CapabilityCall where
  sequence : ℕ
  capability : String
  input : Value
  outcome : CallOutcome
  elapsed : ℕ

def CapabilityCall.payloads (call : CapabilityCall) : List (Payload × Value) :=
  [(.input, call.input)]

/-- One model-authored script, observed at the runtime seam. -/
structure ScriptRun where
  sequence : ℕ
  script : String
  output : String
  exitCode : ℕ
  truncated : Bool
  capabilityCalls : ℕ
  steps : ℕ
  elapsed : ℕ
  deriving DecidableEq, Repr

/-- Everything the console learns while a session runs, in the order it
    happened. -/
inductive SessionEvent
  | scriptStarted (sequence : ℕ) (script : String)
  | capability (call : CapabilityCall)
  | scriptFinished (run : ScriptRun)
  | modelUsage (usage : Option ModelUsage)
  | progress (message : String)
  | shellFinished (entry : ShellEntry)
  | finished (outcome : Except String PromptOutcome)

/-! ## The decorators -/

/-- What the decorators share: the next ordinal (of the 2 ^ 64 there are, more than
    a session can hold), the sends attempted, and the events that reached the
    receiver. -/
structure Recorder where
  next : ℕ
  attempts : ℕ
  sent : List SessionEvent

/-- What the decorators meet: whether the receiver is open at each send, and
    the time each observed interval takes. -/
structure Surroundings where
  isOpen : ℕ → Bool
  elapsed : ℕ → ℕ

/-- `Sequence::next`: `fetch_add(1)`. -/
def Recorder.take (r : Recorder) : ℕ × Recorder := (r.next, { r with next := r.next + 1 })

/-- Reports one event; a closed receiver loses it and nothing else. -/
def emit (env : Surroundings) (event : SessionEvent) (r : Recorder) : Recorder where
  next := r.next
  attempts := r.attempts + 1
  sent := if env.isOpen r.attempts then r.sent ++ [event] else r.sent

variable {σ π ρ : Type}

/-- A `CapabilityInvoker`: what an invocation answers and does to the state. -/
abbrev Invoker (σ π : Type) := CommandProposal π → σ → CapabilityCallResult × σ

/-- The behaviour of an interpreter run: it finishes, or proposes an invocation
    and goes on with its result and the state that left. -/
inductive ScriptBehaviour (σ π : Type)
  | finish (outcome : ScriptOutcome) (state : σ)
  | invoke (proposal : CommandProposal π) (state : σ)
      (next : CapabilityCallResult → σ → ScriptBehaviour σ π)

/-- A `ScriptRuntime` over an invoker it does not look into. -/
abbrev Runtime (σ π : Type) := String → σ → ScriptBehaviour σ π

/-- What a run of a script returns: its outcome and the results of its calls,
    with the proposals they answer, and the state it leaves. -/
structure Ran (σ π : Type) where
  outcome : ScriptOutcome
  calls : List (CommandProposal π × CapabilityCallResult)
  state : σ

/-- Runs a behaviour with an invoker that may carry a state `ρ` of its own. -/
def ScriptBehaviour.run (invoke : CommandProposal π → σ × ρ → CapabilityCallResult × (σ × ρ)) :
    ScriptBehaviour σ π → ρ → Ran σ π × ρ
  | .finish outcome s, r => (⟨outcome, [], s⟩, r)
  | .invoke proposal s next, r =>
    let answer := invoke proposal (s, r)
    let rest := (next answer.1 answer.2.1).run invoke answer.2.2
    (⟨rest.1.outcome, (proposal, answer.1) :: rest.1.calls, rest.1.state⟩, rest.2)

/-- The invoker on its own. -/
def bareInvoke (inner : Invoker σ π) (proposal : CommandProposal π) (sr : σ × Unit) :
    CapabilityCallResult × (σ × Unit) :=
  let answer := inner proposal sr.1
  (answer.1, (answer.2, ()))

/-- `RecordingInvoker::invoke`. -/
def recordingInvoke (env : Surroundings) (inner : Invoker σ π) (proposal : CommandProposal π)
    (sr : σ × Recorder) : CapabilityCallResult × (σ × Recorder) :=
  let (sequence, r) := sr.2.take
  let answer := inner proposal sr.1
  (answer.1, (answer.2, emit env (.capability {
    sequence := sequence
    capability := proposal.capability
    input := proposal.input
    outcome := .ofResult answer.1
    elapsed := env.elapsed sequence }) r))

/-- `ScriptRuntime::run_script` without observation. -/
def bareRunScript (runtime : Runtime σ π) (inner : Invoker σ π) (script : String) (s : σ) :
    Ran σ π :=
  ((runtime script s).run (bareInvoke inner) ()).1

/-- The report of a script that ended. -/
def scriptRun (sequence : ℕ) (script : String) (outcome : ScriptOutcome) (elapsed : ℕ) :
    ScriptRun where
  sequence := sequence
  script := script
  output := outcome.output
  exitCode := outcome.exitCode
  truncated := outcome.truncated
  capabilityCalls := outcome.capabilityCalls
  steps := outcome.steps
  elapsed := elapsed

/-- `RecordingRuntime::run_script` over a runtime whose invoker is a
    `RecordingInvoker`. -/
def recordingRunScript (env : Surroundings) (runtime : Runtime σ π) (inner : Invoker σ π)
    (script : String) (s : σ) (r : Recorder) : Ran σ π × Recorder :=
  let (sequence, r) := r.take
  let r := emit env (.scriptStarted sequence script) r
  let ran := (runtime script s).run (recordingInvoke env inner) r
  (ran.1, emit env
    (.scriptFinished (scriptRun sequence script ran.1.outcome (env.elapsed sequence))) ran.2)

/-- A session's scripts, one after another, without observation. -/
def bareSession (runtime : Runtime σ π) (inner : Invoker σ π) :
    List String → σ → List (Ran σ π) × σ
  | [], s => ([], s)
  | script :: scripts, s =>
    let ran := bareRunScript runtime inner script s
    let rest := bareSession runtime inner scripts ran.state
    (ran :: rest.1, rest.2)

/-- The same session, observed. -/
def recordedSession (env : Surroundings) (runtime : Runtime σ π) (inner : Invoker σ π) :
    List String → σ → Recorder → List (Ran σ π) × σ × Recorder
  | [], s, r => ([], s, r)
  | script :: scripts, s, r =>
    let ran := recordingRunScript env runtime inner script s r
    let rest := recordedSession env runtime inner scripts ran.1.state ran.2
    (ran.1 :: rest.1, rest.2)

/-! ## Overlapping invocations -/

/-- One step of `RecordingInvoker::invoke` among the invocations in flight, which
    `κ` tells apart: it takes its ordinal and enters the inner invoker, or the
    inner invoker returned and it reports. -/
inductive Stage (κ π : Type)
  | dispatch (call : κ) (proposal : CommandProposal π)
  | complete (call : κ) (result : CapabilityCallResult)

/-- The shared recorder, and the ordinal and the proposal each invocation in flight
    holds. -/
structure Overlap (κ π : Type) where
  recorder : Recorder
  inFlight : κ → Option (ℕ × CommandProposal π)

/-- No invocation is in flight. -/
def Overlap.start (κ π : Type) (r : Recorder) : Overlap κ π := ⟨r, fun _ => none⟩

/-- The call an invocation reports. -/
def observedInvocation (env : Surroundings) (sequence : ℕ) (proposal : CommandProposal π)
    (result : CapabilityCallResult) : CapabilityCall where
  sequence := sequence
  capability := proposal.capability
  input := proposal.input
  outcome := .ofResult result
  elapsed := env.elapsed sequence

/-- A step of one invocation, whatever the others do. -/
def Overlap.step {κ : Type} [DecidableEq κ] (env : Surroundings) (o : Overlap κ π) :
    Stage κ π → Overlap κ π
  | .dispatch call proposal =>
    let (sequence, r) := o.recorder.take
    ⟨r, Function.update o.inFlight call (some (sequence, proposal))⟩
  | .complete call result =>
    match o.inFlight call with
    | none => o
    | some (sequence, proposal) =>
      ⟨emit env (.capability (observedInvocation env sequence proposal result)) o.recorder,
        Function.update o.inFlight call none⟩

/-- The invocations in the order of their dispatch. -/
def dispatched {κ : Type} (stages : List (Stage κ π)) : List κ :=
  stages.filterMap fun
    | .dispatch call _ => some call
    | .complete _ _ => none

/-- The invocations in the order of their completion. -/
def completed {κ : Type} (stages : List (Stage κ π)) : List κ :=
  stages.filterMap fun
    | .dispatch _ _ => none
    | .complete call _ => some call

/-- An interleaving: every invocation is dispatched once, and completes at most
    once and after its dispatch. -/
structure Interleaving (κ π : Type) where
  stages : List (Stage κ π)
  nodup_dispatched : (dispatched stages).Nodup
  nodup_completed : (completed stages).Nodup
  dispatched_first : ∀ before call result after,
    stages = before ++ .complete call result :: after → call ∈ dispatched before

end DekoponConsole
