/-
  The parts of the panes that decide the console's state (`ui/shell.rs`,
  `ui/chrome.rs`): the lines they lay out, and how far they scroll.  How many
  visual rows wrapped lines take is the answer of `Externals.lineCount`.
-/
import DekoponConsole.App

namespace DekoponConsole

variable (exts : Externals)

/-! ## The shell pane -/

namespace Shell

/-- The lines of one entry, as their spans. -/
def entryLines (entry : ShellEntry) : List (List String) :=
  ["> ", sanitizeLine entry.input] ::
    ((if entry.output.isEmpty then []
      else (split entry.output '\n').map fun line => [sanitizeLine line]) ++
    match entry.exitCode with
    | some exit =>
      ["[exit code: " ++ toString exit ++ "]"] ::
        (if entry.truncated then [["[output truncated by interpreter limits]"]] else [])
    | none => [["[running · Esc requests stop]"]])

/-- The transcript and the trailing prompt. -/
def lines (app : App) : List (List String) :=
  app.shellHistory.flatMap entryLines ++ [["> ", sanitizeLine app.composer]]

/-- The first row that leaves no row below the viewport. -/
def maxTop (app : App) : ℕ :=
  exts.lineCount (lines app) (max app.shellViewport.1 1) - app.shellViewport.2

/-- Pages by visible rows, up where `up` and down otherwise. -/
def page (app : App) (up : Bool) : App :=
  let last := maxTop exts app
  let top := min (app.shellTop.getD last) last
  let distance := max app.shellViewport.2 1
  let next := if up then top - distance else min (saturatingAdd u64Size top distance) last
  { app with shellTop := if next ≠ last then some next else none }

/-- Jumps to the first visual row. -/
def home (app : App) : App := { app with shellTop := some 0 }

/-- The scroll offset `draw` gives its paragraph, a `u16`, in an inner area. -/
def drawTop (app : App) (inner : ℕ × ℕ) : ℕ :=
  let count := exts.lineCount (lines app) (max inner.1 1)
  let last := count - inner.2
  let top := min (app.shellTop.getD last) last
  min top (u16Size - 1)

/-- The visual rows `draw` shows in an inner area. -/
def drawnRows (app : App) (inner : ℕ × ℕ) : List ℕ :=
  let count := exts.lineCount (lines app) (max inner.1 1)
  let top := drawTop exts app inner
  List.range' top (min inner.2 (count - top))

end Shell

/-! ## The error pane -/

/-- The full report as sanitised lines. -/
def errorLines (app : App) : List (List String) :=
  (split ((app.lastError.map ErrorReport.toString).getD "") '\n').map fun line =>
    [sanitizeLine line]

/-- How far the error pane can scroll at the current terminal size. -/
def errorMaxScroll (app : App) : ℕ :=
  let width := max (saturatingAdd u16Size app.shellViewport.1 2) 1
  let visible := saturatingAdd u16Size app.shellViewport.2 9
  min (exts.lineCount (errorLines app) width - visible) (u16Size - 1)

end DekoponConsole
