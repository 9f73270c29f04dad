/-
  The interactive console from terminal to terminal (`run` and
  `drive_event_loop` of `run.rs`).

  `driveEventLoop` makes one pass after another until one returns; what a pass
  meets in the terminal, the keys and the task in flight is a `Pass`.  `run`
  takes the terminal, hops if an agent was named, drives the loop, and gives the
  terminal back.
-/
import DekoponConsole.Structured

namespace DekoponConsole

variable (exts : Externals)

/-! ## One pass -/

/-- What `select!` wakes with. -/
inductive Wake
  /-- `Event::Key`, with its kind and the answers for the action it may produce -/
  | key (key : KeyEvent) (isPress : Bool) (answers : Answers)
  | resized (width height : ℕ)
  /-- any other terminal event -/
  | otherEvent
  | keysFailed (error : String)
  | keysEnded
  /-- an event of the task in flight, or the end of its channel and its join -/
  | received (event : SessionEvent)
  | closed (joined : Joined)

/-- What one pass meets: the terminal's size if it is known, how the drawing
    goes, what the task in flight does to its inventory meanwhile, what wakes the
    loop, and how that task is joined if the loop returns. -/
structure Pass where
  size : Option (ℕ × ℕ)
  draw : Except String Unit
  intakes : List Intake
  wake : Wake
  joined : Joined

/-- What a pass leaves, what it asked of the broker, the result if the loop
    returned, and the join that is dropped then. -/
structure Passed where
  console : Console
  calls : List BrokerCall
  result : Option (Except ConsoleExit Unit)
  dropped : Option Joined

/-- A pass the loop goes on after. -/
def Passed.going (c : Console) (calls : List BrokerCall) : Passed := ⟨c, calls, none, none⟩

/-- `app.shell_viewport = (width - 2, height - 11)`. -/
def setViewport (c : Console) (size : ℕ × ℕ) : Console :=
  { c with app := { c.app with shellViewport := (size.1 - 2, size.2 - 11) } }

/-- `if let Ok(size) = terminal.size()`. -/
def fitViewport (c : Console) (size : Option (ℕ × ℕ)) : Console :=
  match size with
  | some size => setViewport c size
  | none => c

/-- Stops the task in flight and joins it.  A failed join is at most warned of, and what was
    joined is dropped. -/
def stopRunning (joined : Joined) (c : Console) : Console × Option Joined :=
  match c.running with
  | some _ => ({ c with running := none, stop := c.stop.request }, some joined)
  | none => (c, none)

/-- `stop_running(..).await`, and the loop returns. -/
def returnWith (joined : Joined) (c : Console) (result : Except ConsoleExit Unit) : Passed :=
  let (c, dropped) := stopRunning joined c
  ⟨c, [], some result, dropped⟩

/-- The arm of `select!` that what woke the loop takes. -/
def selectArm (joined : Joined) (c : Console) : Wake → Passed
  | .key key isPress answers =>
    if isPress then
      let (action, app, stop) := onKey exts c.app key c.stop
      let c := { c with app := app, stop := stop }
      match action with
      | some action =>
        let (c, calls) := dispatch exts answers c action
        .going c calls
      | none => .going c []
    else .going c []
  | .resized width height => .going (setViewport c (width, height)) []
  | .otherEvent => .going c []
  | .keysFailed error => returnWith joined c (.error (.terminal error))
  | .keysEnded => .going { c with app := { c.app with shouldQuit := true } } []
  | .received event => .going (receive c event) []
  | .closed joined => .going (finishTurn exts joined c) []

/-- The body of the loop. -/
def pass (c : Console) (p : Pass) : Passed :=
  let c := fitViewport c p.size
  match p.draw with
  | .error error => returnWith p.joined c (.error (.terminal error))
  | .ok () =>
    if c.app.shouldQuit then returnWith p.joined c (.ok ())
    else
      -- the task goes on while the loop waits
      selectArm exts p.joined (provide exts c p.intakes) p.wake

/-- The loop over the passes it meets; without a result it is still waiting. -/
def driveEventLoop (c : Console) : List Pass → Passed
  | [] => .going c []
  | p :: ps =>
    let passed := pass exts c p
    if passed.result.isSome then passed
    else
      let rest := driveEventLoop passed.console ps
      { rest with calls := passed.calls ++ rest.calls }

/-! ## The terminal -/

/-- The modes of the terminal that the console changes. -/
structure Screen where
  rawMode : Bool
  alternate : Bool
  deriving DecidableEq, Repr

/-- What the terminal answers; a call that fails changes nothing. -/
structure TerminalAnswers where
  enableRawMode : Except String Unit
  enterAlternateScreen : Except String Unit
  newTerminal : Except String Unit
  disableRawMode : Except String Unit
  leaveAlternateScreen : Except String Unit

/-- The effect of one call. -/
def Screen.apply (s : Screen) (answer : Except String Unit) (effect : Screen → Screen) : Screen :=
  match answer with
  | .ok () => effect s
  | .error _ => s

/-- Puts the terminal back the way it was found; failures are printed only. -/
def restore (t : TerminalAnswers) (s : Screen) : Screen :=
  (s.apply t.disableRawMode fun s => { s with rawMode := false }).apply t.leaveAlternateScreen
    fun s => { s with alternate := false }

/-- `TerminalGuard::enter`. -/
def enterTerminal (t : TerminalAnswers) (s : Screen) : Screen × Except String Unit :=
  match t.enableRawMode with
  | .error error => (s, .error error)
  | .ok () =>
    let s := { s with rawMode := true }
    match t.enterAlternateScreen with
    | .error error => (s.apply t.disableRawMode fun s => { s with rawMode := false }, .error error)
    | .ok () =>
      let s := { s with alternate := true }
      match t.newTerminal with
      | .error error => (restore t s, .error error)
      | .ok () => (s, .ok ())

/-! ## The console -/

/-- What a console that ended leaves: the loop's state, what was asked of the
    broker, the terminal, the text printed on the ordinary screen, the result, and
    the join that was dropped. -/
structure Exited where
  console : Console
  calls : List BrokerCall
  screen : Screen
  printed : Option String
  result : Except ConsoleExit Unit
  dropped : Option Joined

/-- What is printed of the last failure, back on the ordinary screen. -/
def lastConsoleError (app : App) : Option String :=
  app.lastError.map fun report => "last console error:\n" ++ report.toString ++ "\n"

/-- The hop of a console for which an agent was named. -/
def initialHop (hop : Answers) (c : Console) : Dispatched :=
  if c.options.initialAgent.isSome then dispatch exts hop c .enter else (c, [])

/-- Runs the console until the operator quits; `none` while it still waits. -/
def run (t : TerminalAnswers) (hop : Answers) (app : App) (options : ConsoleOptions)
    (ps : List Pass) (s : Screen) : Option Exited :=
  let c := Console.start app options
  match enterTerminal t s with
  | (s, .error error) => some ⟨c, [], s, none, .error (.terminal error), none⟩
  | (s, .ok ()) =>
    let (c, calls) := initialHop exts hop c
    let passed := driveEventLoop exts c ps
    passed.result.map fun result => {
      console := passed.console
      calls := calls ++ passed.calls
      screen := restore t s
      printed := lastConsoleError passed.console.app
      result := result
      dropped := passed.dropped }

end DekoponConsole
