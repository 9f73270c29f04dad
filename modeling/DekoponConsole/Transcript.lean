/-
  The console's own record of what an agent did (`transcript.rs`), assembled
  from session events.
-/
import DekoponConsole.Record

namespace DekoponConsole

/-- How a turn ended. -/
inductive TurnStatus
  | running
  | answered (answer : String)
  | suppressed
  | failed (error : String)
  deriving DecidableEq, Repr

def TurnStatus.isRunning : TurnStatus → Bool
  | .running => true
  | _ => false

/-- One script the model wrote, with the capabilities it dispatched inside it. -/
structure ScriptNode where
  sequence : ℕ
  script : String
  calls : List CapabilityCall
  outcome : Option ScriptRun

def ScriptNode.isRunning (n : ScriptNode) : Bool := n.outcome.isNone

/-- Token accounting of a turn; `none` is not reported, which is not zero. -/
structure TurnTokens where
  input : Option ℕ
  output : Option ℕ
  unreported : ℕ
  deriving DecidableEq, Repr

/-- `TurnTokens::absorb`. -/
def TurnTokens.absorb (t : TurnTokens) (usage : Option ModelUsage) : TurnTokens :=
  match usage with
  | none => { t with unreported := saturatingAdd u32Size t.unreported 1 }
  | some usage =>
    let t := match usage.inputTokens with
      | some input => { t with input := some (saturatingAdd u64Size (t.input.getD 0) input) }
      | none => t
    let t := match usage.outputTokens with
      | some output => { t with output := some (saturatingAdd u64Size (t.output.getD 0) output) }
      | none => t
    if usage.inputTokens.isNone && usage.outputTokens.isNone then
      { t with unreported := saturatingAdd u32Size t.unreported 1 }
    else t

/-- One exchange: what was asked, everything that happened, and how it ended. -/
structure Turn where
  ordinal : ℕ
  prompt : String
  scripts : List ScriptNode
  tokens : TurnTokens
  status : TurnStatus
  stopRequested : Bool
  elapsed : Option ℕ
  inReplayWindow : Bool

namespace Turn

def opened (ordinal : ℕ) (prompt : String) : Turn where
  ordinal := ordinal
  prompt := prompt
  scripts := []
  tokens := ⟨none, none, 0⟩
  status := .running
  stopRequested := false
  elapsed := none
  inReplayWindow := true

/-- Capability invocations across every script. -/
def capabilityCalls (t : Turn) : ℕ := (t.scripts.map fun script => script.calls.length).sum

end Turn

/-- Applies `f` to the first element satisfying `p`, if there is one
    (`iter_mut().find(p)`). -/
def modifyFirst {α : Type} (p : α → Bool) (f : α → α) : List α → Option (List α)
  | [] => none
  | a :: l => if p a then some (f a :: l) else (modifyFirst p f l).map (a :: ·)

/-- Applies `f` to the last element satisfying `p`, if there is one
    (`iter_mut().rev().find(p)`). -/
def modifyLast {α : Type} (p : α → Bool) (f : α → α) (l : List α) : Option (List α) :=
  (modifyFirst p f l.reverse).map List.reverse

theorem modifyFirst_append {α : Type} {p : α → Bool} {f : α → α} {l l' : List α}
    (h : ∀ a ∈ l, p a = false) : modifyFirst p f (l ++ l') = (modifyFirst p f l').map (l ++ ·) := by
  induction l with
  | nil => simp
  | cons a l ih =>
    have ha : p a = false := h a (by simp)
    rw [List.cons_append, modifyFirst, if_neg (by simp [ha]), ih fun b hb => h b (by simp [hb])]
    cases modifyFirst p f l' <;> simp

theorem modifyLast_append_singleton {α : Type} {p : α → Bool} {f : α → α} {l : List α} {a : α}
    (h : p a) : modifyLast p f (l ++ [a]) = some (l ++ [f a]) := by
  simp [modifyLast, modifyFirst, h]

/-- `Turn::absorb`: folds one event into the turn. -/
def Turn.absorb (t : Turn) (event : SessionEvent) : Turn :=
  match event with
  | .scriptStarted sequence script =>
    { t with scripts := t.scripts ++ [⟨sequence, script, [], none⟩] }
  | .capability call =>
    match modifyLast ScriptNode.isRunning (fun n => { n with calls := n.calls ++ [call] })
        t.scripts with
    | some scripts => { t with scripts := scripts }
    -- a call with no script open is kept under a synthetic node
    | none => { t with scripts := t.scripts ++ [⟨call.sequence, "", [call], none⟩] }
  | .scriptFinished run =>
    match modifyFirst (fun n => n.sequence == run.sequence)
        (fun n => { n with outcome := some run }) t.scripts with
    | some scripts => { t with scripts := scripts }
    | none => { t with scripts := t.scripts ++ [⟨run.sequence, run.script, [], some run⟩] }
  | .modelUsage usage => { t with tokens := t.tokens.absorb usage }
  | .progress _ | .shellFinished _ => t
  | .finished outcome =>
    { t with
      status := match outcome with
        | .ok outcome =>
          match outcome.disposition with
          | .send => .answered outcome.answer
          | .suppress => .suppressed
        | .error error => .failed error }

/-- Every turn of one agent conversation, in order. -/
structure Transcript where
  turns : List Turn

namespace Transcript

def empty : Transcript := ⟨[]⟩

/-- `Transcript::open`. -/
def opened (t : Transcript) (prompt : String) : Transcript :=
  ⟨t.turns ++ [Turn.opened (t.turns.length + 1) prompt]⟩

/-- Changes the turn currently accepting events (`running_mut`), if one is open. -/
def modifyRunning (t : Transcript) (f : Turn → Turn) : Transcript :=
  ⟨(modifyLast (fun turn => turn.status.isRunning) f t.turns).getD t.turns⟩

/-- Where the last turn is open, it is the one changed. -/
theorem turns_modifyRunning {t : Transcript} {before : List Turn} {turn : Turn}
    (ht : t.turns = before ++ [turn]) (h : turn.status.isRunning) (f : Turn → Turn) :
    (t.modifyRunning f).turns = before ++ [f turn] := by
  have hlast : modifyLast (fun turn => turn.status.isRunning) f t.turns =
      some (before ++ [f turn]) := by
    rw [ht]
    exact modifyLast_append_singleton h
  rw [modifyRunning, hlast]
  rfl

/-- Folds one event into the open turn, if there is one. -/
def absorb (t : Transcript) (event : SessionEvent) : Transcript :=
  t.modifyRunning fun turn => turn.absorb event

/-- Marks how far back the model's replay window reaches: the last `remembered`
    turns. -/
def markReplayWindow (t : Transcript) (remembered : ℕ) : Transcript :=
  ⟨t.turns.mapIdx fun index turn =>
    { turn with inReplayWindow := t.turns.length - remembered ≤ index }⟩

end Transcript

end DekoponConsole
