/-
  One pass of the loop, label by label.

  * A key press and a submitted composer first change the application (`Console.keyed`,
    `Console.submitted`) and may then dispatch an action there; every other pass is one
    operation.  The equations here take a pass apart without opening `react`;
  * `SameDesk` is what only keys and the terminal change, and `sameDesk_step` that no
    other pass does.
-/
import DekoponConsole.Proof.Dispatch

namespace DekoponConsole

open App

/-- What the broker and the other crates answer in a pass. -/
def Label.answers : Label → Option Answers
  | .key _ answers | .action _ answers | .submitTurn answers => some answers
  | _ => none

namespace Console

/-- The state a key press leaves before its action, if it yields one. -/
def keyed (exts : Externals) (c : Console) (key : KeyEvent) : Console :=
  { c with
    app := (onKey exts c.app key c.stop).2.1
    stop := (onKey exts c.app key c.stop).2.2 }

/-- The state a submitted composer leaves before its turn, if it yields one. -/
def submitted (c : Console) : Console := { c with app := c.app.submitTurn.2 }

theorem sameContext_keyed (exts : Externals) (c : Console) (key : KeyEvent) :
    c.SameContext (c.keyed exts key) :=
  ⟨(keyEffect_onKey exts c.app key c.stop).quiet.context, rfl, rfl⟩

theorem sameContext_submitted (c : Console) : c.SameContext c.submitted := by
  refine ⟨?_, rfl, rfl⟩
  rcases submitTurn_cases c.app with ⟨-, h⟩ | ⟨_, _, -, -, -, h, -⟩
  · exact h.context
  · exact h

end Console

section
variable {exts : Externals} {c : Console} {key : KeyEvent} {answers : Answers}

theorem react_key_none (h : (onKey exts c.app key c.stop).1 = none) :
    react exts c (.key key answers) = (c.keyed exts key, []) := by
  simp only [react, Console.keyed, h]

theorem react_key_some {action : Action} (h : (onKey exts c.app key c.stop).1 = some action) :
    react exts c (.key key answers) = dispatch exts answers (c.keyed exts key) action := by
  simp only [react, Console.keyed, h]

theorem react_submit_none (h : c.app.submitTurn.1 = none) :
    react exts c (.submitTurn answers) = (c.submitted, []) := by
  simp only [react, Console.submitted, h]

theorem react_submit_some {prompt : String} (h : c.app.submitTurn.1 = some prompt) :
    react exts c (.submitTurn answers) = dispatch exts answers c.submitted (.turn prompt) := by
  simp only [react, Console.submitted, h]

theorem step_close_none {joined : Joined} (h : c.running = none) :
    step exts c (.close joined) = c := by
  simp only [step, react, finishTurn, h]

theorem step_close_some {joined : Joined} {turn : RunningTurn} (h : c.running = some turn) :
    step exts c (.close joined) =
      settleTurn exts turn.shell joined { c with running := none } := by
  simp only [step, react, finishTurn, h]

/-- A provider changes the inventory of its own leg only. -/
theorem step_intake {intake : Intake} :
    step exts c (.intake intake) = c ∨ ∃ turn inventory, c.running = some turn ∧
      inventory = intake.apply (c.stores.getD turn.task.leg.store .default) ∧
      step exts c (.intake intake) =
        { c with stores := c.stores.set turn.task.leg.store inventory } := by
  cases hr : c.running with
  | none => exact Or.inl (by simp only [step, react, hr])
  | some turn => exact Or.inr ⟨turn, _, rfl, rfl, by simp only [step, react, hr]⟩

theorem exec_intakes (exts : Externals) (c : Console) (intakes : List Intake) :
    Runs.exec (step exts) c (intakes.map .intake) = provide exts c intakes := by
  rw [provide, Runs.exec, List.foldl_map]

theorem stores_intake (exts : Externals) (c : Console) (intake : Intake) :
    ∃ stores, step exts c (.intake intake) = { c with stores := stores } := by
  rcases step_intake with hs | ⟨turn, inventory, -, -, hs⟩
  · exact ⟨c.stores, hs⟩
  · exact ⟨_, hs⟩

/-- Providers change inventories only. -/
theorem provide_eq (exts : Externals) (c : Console) (intakes : List Intake) :
    ∃ stores, provide exts c intakes = { c with stores := stores } := by
  induction intakes generalizing c with
  | nil => exact ⟨c.stores, rfl⟩
  | cons intake intakes ih =>
    obtain ⟨stores, hs⟩ := stores_intake exts c intake
    obtain ⟨stores', hrest⟩ := ih { c with stores := stores }
    refine ⟨stores', ?_⟩
    rw [provide, List.foldl_cons, hs]
    exact hrest

/-- The changes that providers make satisfy what no inventory matters to. -/
theorem steps_intakes {C : Console → Label → Prop}
    (h : ∀ stores intake, C { c with stores := stores } (.intake intake)) (intakes : List Intake) :
    Runs.Steps (step exts) C c (intakes.map .intake) := by
  induction intakes generalizing c with
  | nil => trivial
  | cons intake intakes ih =>
    obtain ⟨stores, hs⟩ := stores_intake exts c intake
    refine ⟨h c.stores intake, ?_⟩
    rw [hs]
    exact ih h

end

/-! ## A turn that completed -/

theorem App.busy_onSessionComplete (app : App) (remembered : ℕ) :
    (app.onSessionComplete remembered).busy = false := by
  unfold onSessionComplete
  simp only
  split
  · split_ifs <;> rfl
  · rfl

theorem App.transcript_onSessionComplete (app : App) (remembered : ℕ) :
    (app.onSessionComplete remembered).transcript = app.transcript.markReplayWindow remembered := by
  unfold onSessionComplete
  simp only
  split
  · split_ifs <;> rfl
  · rfl

/-! ## What only keys and the terminal change -/

namespace App

/-- The agent list with its cursor, the viewport, the wish to quit and the paths stay. -/
structure SameDesk (app app' : App) : Prop where
  agents : app'.agents = app.agents
  selectedAgent : app'.selectedAgent = app.selectedAgent
  shellViewport : app'.shellViewport = app.shellViewport
  shouldQuit : app'.shouldQuit = app.shouldQuit
  socketPath : app'.socketPath = app.socketPath
  credentialPath : app'.credentialPath = app.credentialPath

theorem SameDesk.refl (app : App) : SameDesk app app := ⟨rfl, rfl, rfl, rfl, rfl, rfl⟩

theorem SameDesk.trans {app app' app'' : App} (h : SameDesk app app') (h' : SameDesk app' app'') :
    SameDesk app app'' :=
  ⟨h'.1.trans h.1, h'.2.trans h.2, h'.3.trans h.3, h'.4.trans h.4, h'.5.trans h.5, h'.6.trans h.6⟩

section
variable (exts : Externals) (app : App)

theorem sameDesk_raise (report : ErrorReport) : SameDesk app (app.raise report) := by
  unfold raise showError
  split_ifs <;> exact ⟨rfl, rfl, rfl, rfl, rfl, rfl⟩

theorem sameDesk_modifyPending (f : ShellEntry → ShellEntry) : SameDesk app (app.modifyPending f) := by
  unfold modifyPending
  split
  · split_ifs <;> exact ⟨rfl, rfl, rfl, rfl, rfl, rfl⟩
  · exact .refl app

theorem sameDesk_failShell (report : ErrorReport) : SameDesk app (app.failShell exts report) :=
  (sameDesk_modifyPending app _).trans ⟨rfl, rfl, rfl, rfl, rfl, rfl⟩

theorem sameDesk_onSessionEvent (event : SessionEvent) : SameDesk app (app.onSessionEvent event) := by
  unfold onSessionEvent
  split <;> exact ⟨rfl, rfl, rfl, rfl, rfl, rfl⟩

theorem sameDesk_onSessionComplete (remembered : ℕ) :
    SameDesk app (app.onSessionComplete remembered) := by
  unfold onSessionComplete
  simp only
  split
  · split_ifs <;> exact ⟨rfl, rfl, rfl, rfl, rfl, rfl⟩
  · exact ⟨rfl, rfl, rfl, rfl, rfl, rfl⟩

theorem sameDesk_submitTurn : SameDesk app app.submitTurn.2 := by
  unfold submitTurn
  cases app.session with
  | none => exact ⟨rfl, rfl, rfl, rfl, rfl, rfl⟩
  | some session =>
    simp only
    split_ifs <;> exact ⟨rfl, rfl, rfl, rfl, rfl, rfl⟩

theorem sameDesk_onEvent (event : SessionEvent) : SameDesk app (onEvent app event) := by
  unfold onEvent
  split
  · exact ⟨rfl, rfl, rfl, rfl, rfl, rfl⟩
  · exact sameDesk_modifyPending app _
  · exact sameDesk_onSessionEvent app _

end

end App

theorem sameDesk_settleTurn (exts : Externals) (shell : Bool) (joined : Joined) (c : Console) :
    SameDesk c.app (settleTurn exts shell joined c).app := by
  have hreported : SameDesk c.app (reportJoined exts shell joined c.app) := by
    unfold reportJoined
    cases joinedReport shell joined with
    | none => exact .refl c.app
    | some report =>
      cases shell with
      | true => exact sameDesk_failShell exts c.app report
      | false => exact sameDesk_raise c.app _
  rw [settleTurn_eq]
  cases shell with
  | true =>
    refine hreported.trans ?_
    show SameDesk _ { settleShell exts _ with busy := false }
    unfold settleShell
    split_ifs
    · exact (sameDesk_failShell exts _ _).trans ⟨rfl, rfl, rfl, rfl, rfl, rfl⟩
    · exact ⟨rfl, rfl, rfl, rfl, rfl, rfl⟩
  | false => exact hreported.trans (sameDesk_onSessionComplete _ _)

theorem sameDesk_dispatch (exts : Externals) (answers : Answers) (c : Console) (action : Action) :
    SameDesk c.app (dispatch exts answers c action).1.app := by
  cases action with
  | enter =>
    show SameDesk c.app (dispatchEnter exts answers c).1.app
    rcases dispatchEnter_cases exts answers c with ⟨text, -, h⟩ | ⟨agent, c₁, hop, h⟩
    · rw [h]
      exact ⟨rfl, rfl, rfl, rfl, rfl, rfl⟩
    · obtain ⟨app, happ, ho⟩ := openHop_cases exts answers c₁ agent
      have hc₁ : SameDesk c.app (prepareHop exts c₁).app := by
        rcases hop.resolved with ⟨p, -, rfl⟩ | ⟨-, rfl⟩ <;> exact ⟨rfl, rfl, rfl, rfl, rfl, rfl⟩
      rw [h, ho]
      cases happ with
      | refused report => exact hc₁.trans (sameDesk_raise _ report)
      | entered leg hs ha => exact hc₁.trans ⟨rfl, rfl, rfl, rfl, rfl, rfl⟩
  | turn prompt =>
    show SameDesk c.app (dispatchTurn exts answers c prompt).1.app
    rcases dispatchTurn_cases exts answers c prompt with
      ⟨-, h⟩ | ⟨-, ⟨-, trace, report, h⟩ | ⟨-, leg, instructions, agent, -, trace, h⟩⟩
    · rw [h]
      exact .refl c.app
    · rw [h]
      have htrace : SameDesk c.app { c.app with brokerTrace := trace } := ⟨rfl, rfl, rfl, rfl, rfl, rfl⟩
      exact htrace.trans ((sameDesk_onSessionEvent _ _).trans (sameDesk_raise _ report))
    · rw [h]
      exact ⟨rfl, rfl, rfl, rfl, rfl, rfl⟩
  | shell line =>
    show SameDesk c.app (dispatchShell exts answers c line).1.app
    have h := dispatchShell_effect exts answers c line
    generalize dispatchShell exts answers c line = d at h
    obtain ⟨c', calls⟩ := d
    cases h with
    | refused text => exact ⟨rfl, rfl, rfl, rfl, rfl, rfl⟩
    | missing hm app ha => rcases ha with rfl | rfl <;> exact ⟨rfl, rfl, rfl, rfl, rfl, rfl⟩
    | completed hb identity stores hl input output exitCode hi _ hc =>
      have hstart : SameDesk c.app (c.app.startShell input) := ⟨rfl, rfl, rfl, rfl, rfl, rfl⟩
      exact hstart.trans ((sameDesk_modifyPending _ _).trans ⟨rfl, rfl, rfl, rfl, rfl, rfl⟩)
    | failed hb report _ hl =>
      have hstart : SameDesk c.app (c.app.startShell line) := ⟨rfl, rfl, rfl, rfl, rfl, rfl⟩
      exact hstart.trans ((sameDesk_failShell exts _ report).trans ⟨rfl, rfl, rfl, rfl, rfl, rfl⟩)
    | spawned hb leg hs _ hl _ hspawned =>
      obtain ⟨trace, rfl⟩ := hspawned
      exact ⟨rfl, rfl, rfl, rfl, rfl, rfl⟩

/-- **No pass but a key press or a resize touches the desk**, and of a key press only the
    key does. -/
theorem sameDesk_step (exts : Externals) (c : Console) (l : Label) :
    (∃ key answers, l = .key key answers ∧
        SameDesk (onKey exts c.app key c.stop).2.1 (step exts c l).app) ∨
      (∃ width height, l = .resize width height) ∨ SameDesk c.app (step exts c l).app := by
  cases l with
  | key key answers =>
    refine Or.inl ⟨key, answers, rfl, ?_⟩
    cases ha : (onKey exts c.app key c.stop).1 with
    | none =>
      rw [step, react_key_none ha]
      exact .refl _
    | some action =>
      rw [step, react_key_some ha]
      exact sameDesk_dispatch exts answers (c.keyed exts key) action
  | action action answers => exact Or.inr (Or.inr (sameDesk_dispatch exts answers c action))
  | submitTurn answers =>
    refine Or.inr (Or.inr ((sameDesk_submitTurn c.app).trans ?_))
    cases hp : c.app.submitTurn.1 with
    | none =>
      rw [step, react_submit_none hp]
      exact .refl _
    | some prompt =>
      rw [step, react_submit_some hp]
      exact sameDesk_dispatch exts answers c.submitted (.turn prompt)
  | event event => exact Or.inr (Or.inr (sameDesk_onEvent c.app event))
  | close joined =>
    refine Or.inr (Or.inr ?_)
    cases hr : c.running with
    | none =>
      rw [step_close_none hr]
      exact .refl c.app
    | some turn =>
      rw [step_close_some hr]
      exact sameDesk_settleTurn exts turn.shell joined { c with running := none }
  | intake intake =>
    refine Or.inr (Or.inr ?_)
    obtain ⟨stores, h⟩ := stores_intake exts c intake
    rw [h]
    exact .refl c.app
  | resize width height => exact Or.inr (Or.inl ⟨width, height, rfl⟩)

end DekoponConsole
