/-
  Error reports (`report.rs`): the text of an error chain, and the report of a
  failure with its context, refusal and note.
-/
import DekoponConsole.External

namespace DekoponConsole

/-- One link of `chain`: skipped when the text already ends with it. -/
def chainExtend (text : String) (cause : String) : String :=
  if cause.toList.isSuffixOf text.toList then text else text ++ ": " ++ cause

/-- The loop of `chain` over the remaining causes. -/
def chainLoop (text : String) : DynError → String
  | .root l => chainExtend text l.display
  | .caused l e => chainLoop (chainExtend text l.display) e

/-- The message of an error followed by each source, joined with `": "`. -/
def chain : DynError → String
  | .root l => l.display
  | .caused l e => chainLoop l.display e

/-- The broker's own `(code, message)` when the chain holds a wire refusal. -/
def brokerRefusal (error : DynError) : Option (String × String) :=
  error.links.findSome? ErrorLink.remote

/-- One failure, with everything needed to reproduce or explain it. -/
structure ErrorReport where
  operation : String
  context : List (String × String)
  error : String
  refusal : Option (String × String)
  note : Option String
  deriving DecidableEq, Repr

namespace ErrorReport

def fromError (operation : String) (error : DynError) : ErrorReport where
  operation := operation
  context := []
  error := chain error
  refusal := brokerRefusal error
  note := none

def fromMessage (operation message : String) : ErrorReport where
  operation := operation
  context := []
  error := message
  refusal := none
  note := none

/-- `ErrorReport::with`: adds one labelled fact. -/
def withFact (r : ErrorReport) (label value : String) : ErrorReport :=
  { r with context := r.context ++ [(label, value)] }

def withNote (r : ErrorReport) (note : String) : ErrorReport := { r with note := some note }

/-- One line for the status bar. -/
def summary (r : ErrorReport) : String :=
  match r.refusal with
  | some (code, message) =>
    "[e: full error] " ++ r.operation ++ " refused by broker: " ++ code ++ ": " ++ message
  | none => "[e: full error] " ++ r.operation ++ " failed: " ++ r.error

/-- Looks a context fact up by label. -/
def fact (r : ErrorReport) (label : String) : Option String :=
  (r.context.find? fun entry => entry.1 == label).map Prod.snd

/-- `<ErrorReport as Display>::fmt`. -/
def toString (r : ErrorReport) : String :=
  "dekopon-console: " ++ r.operation ++ " failed\n" ++
    (r.context.foldl (fun text entry => text ++ entry.1 ++ ": " ++ entry.2 ++ "\n") "") ++
    "error: " ++ r.error ++
    (match r.refusal with
      | some (code, message) =>
        "\nbroker refusal code: " ++ code ++ "\nbroker refusal message: " ++ message
      | none => "") ++
    (match r.note with
      | some note => "\nnote: " ++ note
      | none => "")

end ErrorReport

end DekoponConsole
