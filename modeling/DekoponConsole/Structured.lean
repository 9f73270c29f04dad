/-
  The bounded line transport over the shell dispatcher (`structured.rs`).

  `writeResult` is the text of one result frame, `readLine` takes one command
  from a buffered reader (a list of the chunks its source delivers), and
  `runWithLimits` is the session: the hop, at most `maxCommands` commands, and
  the refusal of one more.  What the session meets outside it (deadlines, the
  broker, the spawned scripts, failing writes) is a `SessionOracle`; the model
  keeps, besides the output, the lines it dispatched and the frames it wrote.
-/
import DekoponConsole.Run

namespace DekoponConsole

def maxLine : ℕ := 16 * 1024
def maxOutput : ℕ := 64 * 1024
def maxCommands : ℕ := 64

/-! ## Result frames -/

/-- The lines that could be taken for the session's own. -/
def markers (nonce : String) : List String :=
  ["READY " ++ nonce, "RESULT " ++ nonce, "END " ++ nonce]

/-- A sanitised line, prefixed if it begins like a marker. -/
def escapeLine (nonce line : String) : String :=
  let safe := sanitizeLine line
  if (markers nonce).any fun m => startsWith safe m then "> " ++ safe else safe

/-- The loop of `write_result` over the lines of the text: the lines written,
    and the budget left. -/
def writeLines (nonce : String) (remaining : ℕ) : List String → List String × ℕ
  | [] => ([], remaining)
  | line :: lines =>
    if remaining = 0 then ([], remaining)
    else
      let clipped := (escapeLine nonce line).toList.take remaining
      let rest := writeLines nonce (remaining - clipped.length) lines
      (String.ofList clipped :: rest.1, rest.2)

/-- What the frame says when its budget is spent. -/
def truncationLine : String := "[output truncated]"

/-- The lines between the `RESULT` line and the `END` line. -/
def bodyLines (nonce text : String) : List String :=
  let r := writeLines nonce maxOutput (split text '\n')
  r.1 ++ if r.2 = 0 then [truncationLine] else []

def resultLine (nonce status : String) : String := "RESULT " ++ nonce ++ " " ++ status

def endLine (nonce : String) : String := "END " ++ nonce

/-- The lines of one frame. -/
def frameLines (nonce status text : String) : List String :=
  resultLine nonce status :: (bodyLines nonce text ++ [endLine nonce])

/-- `writeln!` of each line. -/
def writeln (lines : List String) : List Char := lines.flatMap fun line => line.toList ++ ['\n']

/-- What `write_result` writes. -/
def writeResult (nonce status text : String) : List Char := writeln (frameLines nonce status text)

/-! ## Reading commands -/

/-- What one read of the source delivers. -/
abbrev Chunk := Except String (List UInt8)

/-- A buffered reader: the chunks still to come.  At their end, and at an empty
    chunk, the input ends. -/
abbrev Reader := List Chunk

/-- Leaves what was not consumed of a chunk. -/
def unread (bytes : List UInt8) (rest : Reader) : Reader :=
  if bytes.isEmpty then rest else .ok bytes :: rest

def newline : UInt8 := 10
def carriageReturn : UInt8 := 13

/-- `bytes.last() == Some(&byte)`, then `bytes.pop()`. -/
def popByte (byte : UInt8) (bytes : List UInt8) : List UInt8 :=
  if bytes.getLast? = some byte then bytes.dropLast else bytes

/-- `String::from_utf8`. -/
def fromUtf8 (bytes : List UInt8) : Option String := String.fromUTF8? ⟨bytes.toArray⟩

/-- A complete line, its terminator included, as a command. -/
def decodeLine (bytes : List UInt8) : Except String (Option String) :=
  match fromUtf8 (popByte carriageReturn (popByte newline bytes)) with
  | some line => .ok (some line)
  | none => .error "invalid utf-8"

/-- The end of the input: fine between commands only. -/
def atEnd (bytes : List UInt8) : Except String (Option String) :=
  if bytes.isEmpty then .ok none else .error "unterminated command"

/-- The loop of `read_line`, with the bytes read so far. -/
def readLineLoop (bytes : List UInt8) : Reader → Except String (Option String) × Reader
  | [] => (atEnd bytes, [])
  | .error error :: rest => (.error error, rest)
  | .ok available :: rest =>
    if available.isEmpty then (atEnd bytes, .ok available :: rest)
    else
      match available.idxOf? newline with
      | some i =>
        let count := i + 1
        if bytes.length + count > maxLine then
          (.error "command exceeds 16 KiB", .ok available :: rest)
        else
          (decodeLine (bytes ++ available.take count), unread (available.drop count) rest)
      -- without a newline the whole chunk is taken, and the line goes on
      | none =>
        if bytes.length + available.length > maxLine then
          (.error "command exceeds 16 KiB", .ok available :: rest)
        else readLineLoop (bytes ++ available) rest

def readLine (input : Reader) : Except String (Option String) × Reader := readLineLoop [] input

/-! ## The session -/

/-- Why the console stopped. -/
inductive ConsoleExit
  | terminal (error : String)
  | structured (reason : String)
  deriving DecidableEq, Repr

/-- How the join of a shell task ends. -/
inductive JoinResult
  | returned
  | failed (error : SessionError)
  | died (error : DynError)

/-- What a command does when its own deadline passes: its dispatch waits for the broker, or
    its script runs. -/
inductive Cut
  | dispatching
  | running
  deriving DecidableEq, Repr

/-- What one command meets: whether the session's deadline passes while it is
    read, the answers to its dispatch, whether and where its own deadline cuts it,
    and, if it spawned a script, what its providers do to its inventory, what it reports
    and how its task is joined. -/
structure CommandOracle where
  readDeadline : Bool
  answers : Answers
  timeout : Bool
  cut : Cut
  intakes : List Intake
  script : Option ScriptOutcome
  join : JoinResult

/-- What a session meets.  A write that fails has written a prefix. -/
structure SessionOracle where
  hop : Answers
  hopDeadline : Bool
  command : ℕ → CommandOracle
  write : ℕ → Option ℕ

/-- One result frame: its status and the text it is written for. -/
structure Frame where
  status : String
  text : String
  deriving DecidableEq, Repr

/-- A session under way: the loop's state, the input, what was written, and the
    record of the lines dispatched and the frames written in full. -/
structure Session where
  console : Console
  input : Reader
  out : List Char
  writes : ℕ
  dispatched : List String
  frames : List Frame

/-- Writes a text, or a prefix of it and an error. -/
def Session.write (orc : SessionOracle) (s : Session) (text : List Char) :
    Session × Except ConsoleExit Unit :=
  match orc.write s.writes with
  | none => ({ s with out := s.out ++ text, writes := s.writes + 1 }, .ok ())
  | some n =>
    ({ s with out := s.out ++ text.take n, writes := s.writes + 1 }, .error (.terminal "write"))

/-- `write_result(..).map_err(ConsoleExit::Terminal)`. -/
def Session.writeFrame (orc : SessionOracle) (nonce : String) (s : Session) (frame : Frame) :
    Session × Except ConsoleExit Unit :=
  match s.write orc (writeResult nonce frame.status frame.text) with
  | (s, .ok ()) => ({ s with frames := s.frames ++ [frame] }, .ok ())
  | (s, .error error) => (s, .error error)

variable (exts : Externals)

/-- The entry a script's report makes of its line. -/
def shellReport (line : String) (outcome : ScriptOutcome) : ShellEntry :=
  ⟨line, outcome.output, some outcome.exitCode, outcome.truncated⟩

/-- `complete`: drains the task's events to channel close, then joins it. -/
def complete (o : CommandOracle) (line : String) (turn : RunningTurn) (c : Console) :
    Console × Joined :=
  -- the script runs meanwhile
  let c := provide exts c o.intakes
  (match o.script with
    | some outcome => { c with app := c.app.finishShell (shellReport line outcome) }
    | none => c,
   match o.join with
    | .returned => .returned turn.task.given
    | .failed error => .failed error
    | .died error => .died error)

/-- One command that does not time out: dispatched, drained, joined and settled. -/
def runCommand (o : CommandOracle) (line : String) (c : Console) : Console :=
  let c := { c with app := { c.app with notice := none } }
  let c := (dispatch exts o.answers c (.shell line)).1
  match c.running with
  | some turn =>
    let (c, joined) := complete exts o line turn c
    settleTurn exts turn.shell joined { c with running := none }
  | none => c

/-- `cancel_turn`. -/
def cancelTurn (c : Console) : Console :=
  match c.running with
  | none => c
  | some _ => { c with running := none, stop := c.stop.request.reset }

/-- One command that times out, and is cancelled: its dispatch is dropped where it waits, or
    its script has reported what it reports before the deadline. -/
def cutCommand (o : CommandOracle) (line : String) (c : Console) : Console :=
  let c := { c with app := { c.app with notice := none } }
  match o.cut with
  | .dispatching => cancelTurn (droppedShell exts o.answers c line)
  | .running =>
    let c := (dispatch exts o.answers c (.shell line)).1
    match c.running with
    | some turn => cancelTurn (complete exts o line turn c).1
    | none => cancelTurn c

/-- The frame of a command that started with `before` entries in the history. -/
def commandFrame (before : ℕ) (app : App) : Frame where
  status :=
    match app.shellHistory[before]?.bind ShellEntry.exitCode with
    | some 0 => "ok"
    | _ => "error"
  text :=
    match app.shellHistory[before]? with
    | some entry => entry.output
    | none => (app.notice.map Notice.text).getD "command refused"

def timeoutFrame : Frame :=
  ⟨"timeout", "outcome unknown: the command timed out and may have run"⟩

def limitFrame : Frame := ⟨"error", "command limit exceeded; command not run"⟩

/-- Reads the next line before the session's deadline. -/
def Session.read (orc : SessionOracle) (s : Session) :
    Session × Except ConsoleExit (Option String) :=
  if (orc.command s.dispatched.length).readDeadline then
    (s, .error (.structured "session deadline exceeded"))
  else
    let r := readLine s.input
    ({ s with input := r.2 }, r.1.mapError .terminal)

/-- One command, up to its frame. -/
def Session.command (orc : SessionOracle) (nonce : String) (s : Session) (line : String) :
    Session × Except ConsoleExit Unit :=
  let o := orc.command s.dispatched.length
  let before := s.console.app.shellHistory.length
  let s := { s with dispatched := s.dispatched ++ [line] }
  if o.timeout then
    let s := { s with console := cutCommand exts o line s.console }
    match s.writeFrame orc nonce timeoutFrame with
    | (s, .ok ()) => (s, .error (.structured
        "command deadline exceeded; outcome uncertain; remaining commands refused"))
    | (s, .error error) => (s, .error error)
  else
    let s := { s with console := runCommand exts o line s.console }
    s.writeFrame orc nonce (commandFrame before s.console.app)

/-- The read after the last command: a further command is refused. -/
def Session.refuseFurther (orc : SessionOracle) (nonce : String) (s : Session) :
    Session × Except ConsoleExit Unit :=
  match s.read orc with
  | (s, .error error) => (s, .error error)
  | (s, .ok none) => (s, .ok ())
  | (s, .ok (some _)) =>
    match s.writeFrame orc nonce limitFrame with
    | (s, .ok ()) => (s, .error (.structured "session command limit exceeded"))
    | (s, .error error) => (s, .error error)

/-- The loop over the commands, `fuel` of which may still be accepted. -/
def Session.commands (orc : SessionOracle) (nonce : String) :
    ℕ → Session → Session × Except ConsoleExit Unit
  | 0, s => s.refuseFurther orc nonce
  | fuel + 1, s =>
    match s.read orc with
    | (s, .error error) => (s, .error error)
    | (s, .ok none) => (s, .ok ())
    | (s, .ok (some line)) =>
      match s.command exts orc nonce line with
      | (s, .error error) => (s, .error error)
      | (s, .ok ()) => Session.commands orc nonce fuel s

def readyLine (nonce : String) : String := "READY " ++ nonce

/-- The session once its agent is entered. -/
def Session.afterHop (orc : SessionOracle) (nonce : String) (s : Session) :
    Session × Except ConsoleExit Unit :=
  match s.write orc (writeln [readyLine nonce]) with
  | (s, .error error) => (s, .error error)
  | (s, .ok ()) => s.commands exts orc nonce maxCommands

/-- `run_with_limits`. -/
def runWithLimits (orc : SessionOracle) (nonce : String) (app : App) (options : ConsoleOptions)
    (input : Reader) : Session × Except ConsoleExit Unit :=
  let opened (console : Console) : Session := ⟨console, input, [], 0, [], []⟩
  if orc.hopDeadline then
    (opened (droppedEnter exts (Console.start app options)),
      .error (.structured "agent entry deadline exceeded"))
  else
    let s := opened (dispatch exts orc.hop (Console.start app options) .enter).1
    if s.console.app.session.isNone then (s, .error (.structured "agent entry refused"))
    else s.afterHop exts orc nonce

end DekoponConsole
