/-
  What can fail.

  * `Fault`: a leg, its grants, the model client, or the task in flight;
  * `Fault.told`: what the operator is told of it;
  * `faults`: those of a pass, read off what it asked of the broker, the answers it was
    given and the task it joined.
-/
import DekoponConsole.Proof.Composer
import DekoponConsole.Proof.Pass

namespace DekoponConsole

open App

variable {exts : Externals}

/-! ## Faults -/

/-- What a report tells of the failure itself. -/
structure Told where
  operation : String
  error : String
  refusal : Option (String × String)
  deriving DecidableEq, Repr

def ErrorReport.told (r : ErrorReport) : Told := ⟨r.operation, r.error, r.refusal⟩

/-- What a leg is opened for. -/
inductive Purpose
  | hop
  | turn
  | command

def Purpose.operation : Purpose → String
  | hop => "open broker session"
  | turn => "open broker session for a model turn"
  | command => "open broker session for a shell command"

/-- What is run as a task. -/
def taskOperation (shell : Bool) : String := if shell then "run shell command" else "run model turn"

/-- What can fail. -/
inductive Fault
  /-- the broker refuses a leg -/
  | refused (purpose : Purpose) (error : DynError)
  /-- the broker grants nothing on a leg -/
  | nothingGranted (purpose : Purpose)
  /-- no model client can be built -/
  | noClient (error : SessionError)
  /-- the task in flight fails -/
  | failed (shell : Bool) (error : SessionError)
  /-- the task in flight dies -/
  | died (shell : Bool) (error : DynError)
  /-- a command returns, and has not said how it ended -/
  | silent

/-- What the operator is told of a fault. -/
def Fault.told : Fault → Told
  | .refused purpose error =>
    ⟨purpose.operation, chain (SessionError.leg error).toError,
      brokerRefusal (SessionError.leg error).toError⟩
  | .nothingGranted purpose =>
    ⟨purpose.operation,
      "broker grants no capabilities for this context; no model call or command will be sent", none⟩
  | .noClient error => ⟨"build model client", chain error.toError, brokerRefusal error.toError⟩
  | .failed shell error => ⟨taskOperation shell, chain error.toError, brokerRefusal error.toError⟩
  | .died shell error =>
    ⟨if shell then "run shell command (the shell task died)"
      else "run model turn (the session task died)", chain error, brokerRefusal error⟩
  | .silent => ⟨"run shell command", "shell ended without reporting an outcome", none⟩

/-- The fault in the answers to a leg; only a turn builds a model client. -/
def Answers.faults (answers : Answers) (purpose : Purpose) : List Fault :=
  match answers.leg with
  | .error error => [.refused purpose error]
  | .ok surface =>
    if surface.effective.isEmpty then [.nothingGranted purpose]
    else match purpose with
      | .turn => match answers.model with
        | .error error => [.noClient error]
        | .ok () => []
      | _ => []

/-- The faults in the answers to what was asked of the broker. -/
def Answers.faultsOf (answers : Answers) (purpose : Purpose) (calls : List BrokerCall) :
    List Fault :=
  calls.flatMap fun
    | .openLeg _ _ => answers.faults purpose
    | .recordDeliveredTurn _ _ => []

/-- The fault of a joined task. -/
def Joined.faults (shell pending : Bool) : Joined → List Fault
  | .returned _ => if shell && pending then [.silent] else []
  | .failed error => [.failed shell error]
  | .died error => [.died shell error]

def Action.purpose : Action → Purpose
  | .enter => .hop
  | .turn _ => .turn
  | .shell _ => .command

/-- Whether the last command of the history has not ended. -/
def App.pendingShell (app : App) : Bool :=
  app.shellHistory.getLast?.any fun entry => entry.exitCode.isNone

/-- The faults of a pass. -/
def faults (exts : Externals) (c : Console) : Label → List Fault
  | .close joined =>
    c.running.toList.flatMap fun turn => joined.faults turn.shell c.app.pendingShell
  | l => match l.answers, performed exts c l with
    | some answers, some action => answers.faultsOf action.purpose (asked exts c l)
    | _, _ => []

/-! ## What is told of them -/

section
variable (exts : Externals) (app : App)

@[simp] theorem told_report (r : ErrorReport) : (app.report exts r).told = r.told := by
  unfold App.report
  cases app.brokerTrace <;> rfl

@[simp] theorem told_sessionRefusal (operation : String) (error : SessionError) :
    (sessionRefusal exts app operation error).told =
      ⟨operation, chain error.toError, brokerRefusal error.toError⟩ := by
  have h : (app.report exts (.fromError operation error.toError)).told =
      (ErrorReport.fromError operation error.toError).told := told_report exts app _
  unfold sessionRefusal
  dsimp only
  split
  · split_ifs <;> exact h
  · exact h

@[simp] theorem told_emptySurface (operation : String) :
    (emptySurface exts app operation).told = ⟨operation,
      "broker grants no capabilities for this context; no model call or command will be sent",
      none⟩ :=
  told_report exts app _

end

theorem told_joinedReport (shell : Bool) (joined : Joined) (pending : Bool) {report : ErrorReport}
    (h : joinedReport shell joined = some report) :
    ∃ f, joined.faults shell pending = [f] ∧ report.told = f.told := by
  cases joined with
  | returned history => cases h
  | failed error =>
    obtain rfl := Option.some.inj h
    exact ⟨.failed shell error, rfl, rfl⟩
  | died error =>
    obtain rfl := Option.some.inj h
    exact ⟨.died shell error, rfl, rfl⟩

/-! ## In the answers -/

@[simp] theorem faultsOf_nil (answers : Answers) (purpose : Purpose) :
    answers.faultsOf purpose [] = [] := rfl

@[simp] theorem faultsOf_openLeg (answers : Answers) (purpose : Purpose) (a : Attestation)
    (store : StoreId) : answers.faultsOf purpose [.openLeg a store] = answers.faults purpose :=
  List.append_nil _

@[simp] theorem faultsOf_record (answers : Answers) (purpose : Purpose) (a : Attestation)
    (turn : DeliveredTurnRequest) :
    answers.faultsOf purpose [.recordDeliveredTurn a turn] = [] := rfl

section
variable {answers : Answers} {purpose : Purpose} {surface : Surface}

theorem faults_refused {error : DynError} (h : answers.leg = .error error) :
    answers.faults purpose = [.refused purpose error] := by
  simp only [Answers.faults, h]

theorem faults_empty (h : answers.leg = .ok surface) (he : surface.effective.isEmpty = true) :
    answers.faults purpose = [.nothingGranted purpose] := by
  simp only [Answers.faults, h, he, if_true]

theorem faults_noClient {error : SessionError} (h : answers.leg = .ok surface)
    (he : surface.effective.isEmpty = false) (hm : answers.model = .error error) :
    answers.faults .turn = [.noClient error] := by
  simp only [Answers.faults, h, he, hm, Bool.false_eq_true, if_false]

theorem faults_granted (h : answers.leg = .ok surface) (he : surface.effective.isEmpty = false)
    (hm : purpose ≠ .turn ∨ answers.model = .ok ()) : answers.faults purpose = [] := by
  simp only [Answers.faults, h, he, Bool.false_eq_true, if_false]
  cases purpose with
  | turn =>
    have hbuilt : answers.model = .ok () := hm.resolve_left (fun h => h rfl)
    simp only [hbuilt]
  | _ => rfl

end

end DekoponConsole
