/-
  The console's state machine (`app.rs`), kept clear of every drawing call.
-/
import DekoponConsole.Redact
import DekoponConsole.Transcript
import DekoponConsole.Session

namespace DekoponConsole

/-! ## Panes, modes and notices -/

/-- Which pane has focus. -/
inductive Pane
  | agents
  | detail
  | shell
  deriving DecidableEq, Repr

namespace Pane

/-- Panes in cycling order. -/
def order : List Pane := [agents, shell, detail]

def title : Pane → String
  | agents => "agents"
  | detail => "capabilities"
  | shell => "shell"

def next : Pane → Pane
  | agents => shell
  | shell => detail
  | detail => agents

def previous : Pane → Pane
  | agents => detail
  | shell => agents
  | detail => shell

end Pane

/-- Where the console is in its own lifecycle. -/
inductive Mode
  | browsing
  | composing
  | help
  | error
  deriving DecidableEq, Repr

/-- A message shown on the status line until the next action replaces it. -/
structure Notice where
  text : String
  isRefusal : Bool
  deriving DecidableEq, Repr

def Notice.info (text : String) : Notice := ⟨text, false⟩

def Notice.refusal (text : String) : Notice := ⟨text, true⟩

/-- A capability call of the transcript, as `(turn, script, call)`. -/
abbrev CallTarget := ℕ × ℕ × ℕ

/-- One redacted field the operator deliberately revealed. -/
structure RevealedField where
  call : CallTarget
  payload : Payload
  path : String
  deriving DecidableEq, Repr

def RevealedField.describe (f : RevealedField) : String :=
  if f.path.isEmpty then f.payload.label else f.payload.label ++ "." ++ f.path

/-! ## The console -/

/-- A catalog agent: its name, and what its specification tells. -/
structure Agent where
  name : String
  description : String
  enabled : Bool
  instructions : Option String
  modelClass : Option String
  deriving DecidableEq, Repr

/-- The whole console. -/
structure App where
  agents : List Agent
  selectedAgent : ℕ
  session : Option AgentSession
  transcript : Transcript
  shellHistory : List ShellEntry
  shellTop : Option ℕ
  shellViewport : ℕ × ℕ
  composer : String
  pane : Pane
  mode : Mode
  notice : Option Notice
  busy : Bool
  shouldQuit : Bool
  expandedCall : Option CallTarget
  selectedCall : ℕ
  revealed : List RevealedField
  credentialPath : String
  socketPath : String
  subject : String
  profile : Option String
  scopeLabel : String
  model : String
  modelSource : ModelSource
  brokerTrace : Option String
  assets : Option StoreId
  lastError : Option ErrorReport
  errorScroll : ℕ

namespace App

/-- Builds a console over one catalog. -/
def new (agents : List Agent) (subject socketPath credentialPath : String) : App where
  agents := agents
  selectedAgent := 0
  session := none
  transcript := .empty
  shellHistory := []
  shellTop := none
  shellViewport := (0, 0)
  composer := ""
  pane := .agents
  mode := .browsing
  notice := none
  busy := false
  shouldQuit := false
  expandedCall := none
  selectedCall := 0
  revealed := []
  credentialPath := credentialPath
  socketPath := socketPath
  subject := subject
  profile := none
  scopeLabel := "subject-only"
  model := ""
  modelSource := .default_
  brokerTrace := none
  assets := none
  lastError := none
  errorScroll := 0

/-- The highlighted agent, if the catalog has any. -/
def highlighted (app : App) : Option Agent := app.agents[app.selectedAgent]?

/-- The identifier of the highlighted agent. -/
def highlightedId (exts : Externals) (app : App) : Option AgentId :=
  app.highlighted.bind fun agent => exts.parseAgentId agent.name

/-- `self.notice = Some(..)`. -/
def setNotice (app : App) (notice : Notice) : App := { app with notice := some notice }

/-! ### Failures -/

/-- The agent a report names: the open session's, or else the highlighted one. -/
def reportAgent (exts : Externals) (app : App) : String :=
  match app.session with
  | some session => session.agent.asStr
  | none => ((app.highlightedId exts).map AgentId.asStr).getD ""

/-- A report pre-filled with who attempted the operation and through what. -/
def report (exts : Externals) (app : App) (report : ErrorReport) : ErrorReport :=
  let report := report
    |>.withFact "subject" app.subject
    |>.withFact "agent" (app.reportAgent exts)
    |>.withFact "profile" (app.profile.getD "subject-only")
    |>.withFact "scope" app.scopeLabel
    |>.withFact "broker socket" app.socketPath
  match app.brokerTrace with
  | some trace => report.withFact "broker trace" trace
  | none => report

/-- Records a failure: summarised on the status line, kept for `e`. -/
def recordError (app : App) (report : ErrorReport) : App :=
  { app with notice := some (.refusal report.summary), lastError := some report }

/-- Opens the last error's full report, if there is one. -/
def showError (app : App) : App :=
  if app.lastError.isSome then { app with mode := .error, errorScroll := 0 }
  else app.setNotice (.info "no error to show")

/-- Records a failure and opens its full report. -/
def raise (app : App) (report : ErrorReport) : App := (app.recordError report).showError

/-! ### Selection -/

/-- Moves the agent cursor, saturating rather than wrapping. -/
def moveSelection (app : App) (delta : ℤ) : App :=
  if app.agents.isEmpty then app
  else
    let last : ℤ := app.agents.length - 1
    { app with selectedAgent := (max 0 (min (app.selectedAgent + delta) last)).toNat }

/-- The calls of one script at its place, in order. -/
def scriptTargets (turn script : ℕ) (node : ScriptNode) : List CallTarget :=
  (List.range node.calls.length).map fun call => (turn, script, call)

/-- Every capability call in the transcript, in document order. -/
def calls (app : App) : List CallTarget :=
  (app.transcript.turns.mapIdx fun turnIndex turn =>
    (turn.scripts.mapIdx fun scriptIndex script =>
      scriptTargets turnIndex scriptIndex script).flatten).flatten

/-- The capability call the cursor is on. -/
def cursorCall (app : App) : Option CallTarget := app.calls[app.selectedCall]?

/-- One capability call by target. -/
def callAt (app : App) (target : CallTarget) : Option CapabilityCall := do
  let turn ← app.transcript.turns[target.1]?
  let script ← turn.scripts[target.2.1]?
  script.calls[target.2.2]?

/-! ### Revealing -/

/-- Whether one field of one call has been deliberately revealed. -/
def isRevealed (app : App) (call : CallTarget) (payload : Payload) (path : String) : Bool :=
  app.revealed.any fun r => r.call = call && r.payload = payload && r.path = path

/-- Reveals one redacted field of one call. -/
def reveal (app : App) (field : RevealedField) : App :=
  if app.isRevealed field.call field.payload field.path then app
  else
    { app with
      notice := some (.info ("revealed " ++ field.describe ++ "; it is in your scrollback now"))
      revealed := app.revealed ++ [field] }

/-- The redacted fields of a call, in document order. -/
def revealCandidates (exts : Externals) (target : CallTarget) (call : CapabilityCall) :
    List RevealedField :=
  call.payloads.flatMap fun (payload, value) =>
    (redact exts value).redactions.map fun redaction => ⟨target, payload, redaction.path⟩

/-- Reveals the next still-hidden redacted field of the call under the cursor. -/
def revealNext (exts : Externals) (app : App) : App :=
  match app.cursorCall with
  | none => app.setNotice (.refusal "no capability call is selected")
  | some target =>
    match app.callAt target with
    | none => app
    | some call =>
      match (revealCandidates exts target call).find? fun field =>
          !app.isRevealed field.call field.payload field.path with
      | none => app.setNotice (.info "nothing left to reveal in this call")
      | some field => app.reveal field

/-! ### Sessions and turns -/

/-- Records a hop into one agent, replacing whatever was open. -/
def enter (app : App) (session : AgentSession) : App :=
  { app with
    brokerTrace := some session.leg.surface.sessionTrace
    notice := some (
      if session.isEmpty then
        .refusal ("policy grants " ++ app.subject ++ " nothing through " ++ session.agent.asStr ++
          "; the broker answered, it just said no")
      else
        .info (session.agent.asStr ++ ": " ++ toString session.effective.length ++
          " capabilities granted"))
    session := some session
    transcript := .empty
    shellHistory := []
    shellTop := none
    composer := ""
    mode := .composing
    expandedCall := none
    selectedCall := 0
    revealed := []
    pane := .shell }

/-- Submits the composer as a turn: the prompt to run, or a notice saying why
    not. -/
def submitTurn (app : App) : Option String × App :=
  match app.session with
  | none => (none, app.setNotice (.refusal "hop into an agent first"))
  | some session =>
    if session.isEmpty then
      (none, app.setNotice
        (.refusal "broker grants no capabilities; no model request will be sent"))
    else if app.busy then
      (none, app.setNotice (.refusal "a turn is already running; press Esc to stop it"))
    else
      let prompt := trim app.composer
      if prompt.isEmpty then (none, app.setNotice (.refusal "nothing to send"))
      else
        (some prompt, { app with
          composer := ""
          mode := .browsing
          busy := true
          transcript := app.transcript.opened prompt
          notice := none })

/-- Folds one session event into the open turn. -/
def onSessionEvent (app : App) (event : SessionEvent) : App :=
  let app := { app with transcript := app.transcript.absorb event }
  match event with
  | .finished _ => { app with busy := false }
  | _ => app

/-- Records that a turn's task has fully returned, with the live history's
    size. -/
def onSessionComplete (app : App) (remembered : ℕ) : App :=
  let app := { app with
    busy := false
    transcript := app.transcript.markReplayWindow remembered }
  match app.transcript.turns.getLast? with
  | some turn =>
    if turn.status.isRunning then
      app.setNotice
        (.refusal ("turn " ++ toString turn.ordinal ++ " ended without reporting an outcome"))
    else app
  | none => app

/-- Requests a cooperative stop; whether there was anything to stop. -/
def requestStop (app : App) : Bool × App :=
  if !app.busy then (false, app)
  else
    (true, { app with
      transcript := app.transcript.modifyRunning fun turn => { turn with stopRequested := true }
      notice := some (.info
        "stopping at the next boundary; calls already sent to the broker still complete") })

/-! ### The shell pane -/

/-- Changes the last shell entry if it is still pending. -/
def modifyPending (app : App) (f : ShellEntry → ShellEntry) : App :=
  match app.shellHistory.getLast? with
  | some entry =>
    if entry.exitCode.isNone then
      { app with shellHistory := app.shellHistory.dropLast ++ [f entry] }
    else app
  | none => app

/-- Echoes an accepted command before opening its fresh broker leg. -/
def startShell (app : App) (input : String) : App :=
  { app with
    shellTop := none
    busy := true
    notice := none
    shellHistory := app.shellHistory ++ [⟨input, "", none, false⟩] }

/-- Completes the pending echo rather than appending a second command. -/
def finishShell (app : App) (entry : ShellEntry) : App := app.modifyPending fun _ => entry

/-- Reports a failed gate or task in full in the same transcript entry. -/
def failShell (exts : Externals) (app : App) (report : ErrorReport) : App :=
  let report := app.report exts report
  (app.modifyPending fun entry =>
    { entry with output := report.toString, exitCode := some 1 }).recordError report

end App

end DekoponConsole
