/-
  Drawing (`ui.rs` and `ui/`): the texts every widget of a frame is given.

  Layout, styles, wrapping and scrolling decide where a text stands and in which
  colour, not what it is, and are left out.
-/
import DekoponConsole.Ui

namespace DekoponConsole

/-- What one widget is given: the titles of its block, and its lines or rows with
    their spans or cells. -/
structure Widget where
  titles : List String
  lines : List (List String)
  deriving DecidableEq, Repr

/-- A paragraph without a block. -/
def Widget.paragraph (lines : List (List String)) : Widget := ⟨[], lines⟩

/-- The texts of a widget. -/
def Widget.fragments (w : Widget) : List String := w.titles ++ w.lines.flatten

/-! ## The frame around the panes -/

namespace Chrome

section
variable (app : App)

/-- The rows of the header; `uid` is the effective user of the process. -/
def headerLabels (uid : ℕ) : List String :=
  let agent := (app.session.map fun session => session.agent.asStr).getD "picker"
  ["LIVE PROVIDERS — effects are real",
    "model (" ++ app.modelSource.label ++ "): " ++ app.model,
    "agent: " ++ agent ++ " · profile: " ++ app.profile.getD "subject-only",
    "subject: " ++ app.subject ++ " · console: dekopon-console (uid " ++ toString uid ++ ")",
    "session: " ++ app.scopeLabel]

/-- Shows the represented identity separately from the authenticated console
    peer. -/
def drawHeader (uid : ℕ) : List Widget :=
  (headerLabels app uid).map fun label => .paragraph [[sanitizeLine label]]

/-- Draws the pane tabs. -/
def drawTabs : Widget :=
  .paragraph [(Pane.order.flatMap fun pane => [" " ++ pane.title ++ " ", " "]) ++
    if app.busy then ["· running"] else []]

/-- The credential file's own name (`path.rsplit('/').next()`). -/
def credentialLabel (path : String) : String := (split path '/').getLast?.getD path

/-- Draws the status lines: the notice, then the subject and the credential. -/
def drawStatus : List Widget :=
  let notice := match app.notice with
    | none => "? for keys"
    | some notice => sanitizeLine notice.text
  [.paragraph [[notice]],
    .paragraph [[app.subject ++ " · " ++ credentialLabel app.credentialPath]]]

end

def keys : List (String × String) := [
  ("tab / shift-tab", "next / previous pane"),
  ("j k  ↑ ↓", "move agent selection"),
  ("enter", "hop into agent; shell opens ready to type"),
  ("i", "resume typing in shell"),
  ("enter (typing)", "run one script"),
  ("esc", "request stop if busy, else leave input"),
  ("page up / down", "page wrapped shell rows (also while typing)"),
  ("home / end", "shell start / follow bottom (Fn arrows on Mac)"),
  ("e", "show the last error in full"),
  ("?", "this"),
  ("q", "quit")]

/-- Draws the keybinding overlay. -/
def drawHelp : Widget where
  titles := [" keys "]
  lines := (keys.map fun (key, meaning) => [padLeft 18 key ++ "  ", meaning]) ++
    [[""], ["  terminals may intercept Fn/Command keys"],
      ["  stop is cooperative: calls already sent still complete"],
      ["  errors open in full; the last one is printed again on quit"]]

/-- The last error, full-screen. -/
def drawError (app : App) : Widget where
  titles := [" error · select to copy · also on stderr and printed again on quit ",
    " j/k ↑↓ PgUp/PgDn scroll · Esc/Enter/q close · e reopens "]
  lines := errorLines app

end Chrome

/-! ## The panes -/

namespace Agents

/-- The row of one catalog agent. -/
def row (app : App) (agent : Agent) : List String :=
  let hopped := app.session.any fun session => session.agent.asStr == agent.name
  [if hopped then "▸" else " ", sanitizeLine agent.name,
    if agent.enabled then "enabled" else "disabled",
    (agent.modelClass.map sanitizeLine).getD "-", sanitizeLine agent.description]

/-- Draws the agent list. -/
def draw (app : App) : Widget where
  titles := [" agents · enter to hop in "]
  lines := ["", "NAME", "STATUS", "MODEL CLASS", "DESCRIPTION"] :: app.agents.map (row app)

end Agents

namespace Detail

/-- The granted capabilities by identifier.  The source's sort is not stable;
    capabilities of one identifier stand here as they came. -/
def granted (session : AgentSession) : List EffectiveCapabilityView :=
  session.effective.mergeSort fun left right => left.id ≤ right.id

def row (view : EffectiveCapabilityView) : List String :=
  [sanitizeLine view.id, view.effect, view.risk, sanitizeLine view.description]

/-- The granted capabilities, under a title naming the agent. -/
def table (session : AgentSession) : Widget where
  titles := [if session.isEmpty then
      " " ++ session.agent.asStr ++ " · policy grants this subject nothing here "
    else " " ++ session.agent.asStr ++ " · " ++ toString session.effective.length ++ " granted "]
  lines := ["CAPABILITY", "EFFECT", "RISK", "DESCRIPTION"] :: (granted session).map row

/-- The provider-authored help pages. -/
def helpLines (session : AgentSession) : List (List String) :=
  let help := session.commandWordHelp.flatMap fun (word, page) =>
    [sanitizeLine word] :: (strLines page).map fun line => [sanitizeLine line]
  if help.isEmpty then [["the broker sent no help pages"]] else help

/-- The command words, and the trace the leg was opened in. -/
def words (app : App) (session : AgentSession) : Widget where
  titles := [" command words the bash tool will accept "]
  lines := [
    [if session.commandWords.isEmpty then "none"
      else sanitizeLine ("  ".intercalate session.commandWords)],
    ["broker trace: " ++ app.brokerTrace.getD "not opened"]]

/-- Draws the capability surfaces of the open session. -/
def draw (app : App) : List Widget :=
  match app.session with
  | none => [⟨[" capabilities "], [["no agent open — go to the agents pane and press enter"]]⟩]
  | some session =>
    [table session, ⟨[" command help "], helpLines session⟩, words app session]

end Detail

namespace Shell

/-- Draws the commands, their output and the editable prompt. -/
def draw (app : App) : Widget where
  titles := [
    sanitizeLine (match app.session with
      | some session => " shell as " ++ session.agent.asStr ++
          " · each line is its own script; variables do not carry over "
      | none => " shell · hop into an agent first "),
    if app.mode = .composing then " type · Enter runs · Tab switches · Esc leaves input "
    else " i to type · ? for keys "]
  lines := lines app

end Shell

/-- Draws the whole console for one frame. -/
def draw (uid : ℕ) (app : App) : List Widget :=
  Chrome.drawHeader app uid ++ [Chrome.drawTabs app] ++
    (match app.pane with
      | .agents => [Agents.draw app]
      | .detail => Detail.draw app
      | .shell => [Shell.draw app]) ++
    Chrome.drawStatus app ++
    match app.mode with
    | .help => [Chrome.drawHelp]
    | .error => [Chrome.drawError app]
    | _ => []

end DekoponConsole
