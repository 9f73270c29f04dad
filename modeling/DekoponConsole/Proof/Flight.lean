/-
  What keys, hops and commands do to the task in flight.

  * `Effect` lists what a key press with its action, or an action dispatched
    directly, can do to the task in flight, the history, the stop flag and the
    shell history, model turns apart;
  * `effect_enter`, `effect_shell` and `effect_key` derive it from the inversions
    of `Dispatch`;
  * `Submitted` lists what submitting a model turn can do;
  * `Settled.settleTurn`, `Pending.settleTurn`: a join leaves no shell entry pending.
-/
import DekoponConsole.Proof.Dispatch

namespace DekoponConsole

open App

variable (exts : Externals)

/-! ## Effects -/

/-- The task in flight and the replay window stay. -/
structure SameFlight (c c' : Console) : Prop where
  running : c'.running = c.running
  history : c'.history = c.history

/-- **What a key press, a hop or a command can do.** -/
inductive Effect (c c' : Console) : Prop
  /-- nothing but the display, and a stop request while busy -/
  | quiet (hq : Quiet c.app c'.app) (hf : SameFlight c c')
      (hs : c'.stop = c.stop ∨ (c.app.busy = true ∧ c'.stop = c.stop.request))
  /-- a command for a session without an inventory -/
  | missing (h : c.app.session.isSome ∧ c.app.assets = none)
  /-- a command whose entry is complete at once -/
  | completed (hb : c.app.busy = false) (hf : SameFlight c c') (hs : c'.stop = c.stop)
      (hc : SameContext c.app c'.app) (hb' : c'.app.busy = false)
      (hm : c.app.Composes → c'.app.Composes) (entry : ShellEntry) (he : entry.exitCode.isSome)
      (hh : c'.app.shellHistory = c.app.shellHistory ++ [entry])
      (ht : c'.app.marks = c.app.marks)
  /-- a hop, refused by the broker or entered -/
  | hopped (hb : c.app.busy = false) (hr : c'.running = c.running) (hn : c'.history = .new)
      (hs : c'.stop = c.stop) (ha : c'.app.session.isSome = c'.app.assets.isSome)
      (hb' : c'.app.busy = false) (hm : c'.app.Composes) (hh : c'.app.shellHistory = [])
      (ht : c'.app.marks = [])
  /-- a script under way, with the history moved into it -/
  | spawned (hb : c.app.busy = false) (line : String) (leg : BrokerLeg) (signal : CancelId)
      (hl : some leg.store = c.app.assets)
      (hr : c'.running = some ⟨.shell line leg signal c.history, true, false⟩)
      (hn : c'.history = .new) (hs : c'.stop = StopFlag.default.bindBroker signal)
      (hc : SameContext c.app c'.app) (hb' : c'.app.busy = true)
      (hm : c.app.Composes → c'.app.Composes)
      (hh : c'.app.shellHistory = c.app.shellHistory ++ [⟨line, "", none, false⟩])
      (ht : c'.app.marks = c.app.marks)

theorem Effect.of_quiet {c c' : Console} {app : App} {stop : StopFlag} (hq : Quiet c.app app)
    (hs : stop = c.stop ∨ (c.app.busy = true ∧ stop = c.stop.request))
    (h : Effect { c with app := app, stop := stop } c') : Effect c c' := by
  have hstop (hb : app.busy = false) : stop = c.stop := by
    rcases hs with hs | ⟨hbusy, -⟩
    · exact hs
    · exact absurd (hq.shell.busy.symm.trans hb) (by simp [hbusy])
  cases h with
  | quiet hq' hf hs' =>
    refine .quiet (hq.trans hq') ⟨hf.running, hf.history⟩ ?_
    rcases hs' with hs' | ⟨hbusy, hs'⟩
    · rcases hs with hs | ⟨hbusy, hs⟩
      · exact Or.inl (hs'.trans hs)
      · exact Or.inr ⟨hbusy, hs'.trans hs⟩
    · refine Or.inr ⟨hq.shell.busy ▸ hbusy, hs'.trans ?_⟩
      rcases hs with hs | ⟨-, hs⟩
      · rw [hs]
      · rw [hs]
        rfl
  | missing h => exact .missing ⟨hq.context.session ▸ h.1, hq.context.assets.symm.trans h.2⟩
  | completed hb hf hs' hc hb' hm entry he hh ht =>
    exact .completed (hq.shell.busy.symm.trans hb) ⟨hf.running, hf.history⟩ (hs'.trans (hstop hb))
      (hq.context.trans hc) hb' (fun h => hm (hq.composes h)) entry he
      (hh.trans (by rw [hq.shell.shellHistory])) (ht.trans hq.marks)
  | hopped hb hr hn hs' ha hb' hm hh ht =>
    exact .hopped (hq.shell.busy.symm.trans hb) hr hn (hs'.trans (hstop hb)) ha hb' hm hh ht
  | spawned hb line leg signal hl hr hn hs' hc hb' hm hh ht =>
    exact .spawned (hq.shell.busy.symm.trans hb) line leg signal (hl.trans hq.context.assets) hr hn
      hs' (hq.context.trans hc) hb' (fun h => hm (hq.composes h))
      (hh.trans (by rw [hq.shell.shellHistory])) (ht.trans hq.marks)

theorem Effect.refuse (c : Console) (text : String) : Effect c (c.refuse text) :=
  .quiet (quiet_setNotice c.app _) ⟨rfl, rfl⟩ (Or.inl rfl)

/-! ## Hops -/

theorem effect_enter (answers : Answers) (c : Console) :
    Effect c (dispatchEnter exts answers c).1 := by
  rcases dispatchEnter_cases exts answers c with ⟨text, -, h⟩ | ⟨agent, c₁, hop, h⟩
  · rw [h]
    exact .refuse c text.text
  · obtain ⟨app, happ, ho⟩ := openHop_cases exts answers c₁ agent
    have hc₁ : c₁.app.busy = c.app.busy ∧ c₁.running = c.running ∧ c₁.stop = c.stop := by
      rcases hop.resolved with ⟨p, -, rfl⟩ | ⟨-, rfl⟩ <;> exact ⟨rfl, rfl, rfl⟩
    obtain ⟨hb, hr, hs⟩ := hc₁
    rw [h, ho]
    rcases happ with ⟨report⟩ | ⟨leg, -, -⟩
    · have hq := quiet_raise (prepareHop exts c₁).app report
      refine .hopped hop.idle hr rfl hs ?_ ?_ ?_ ?_ hq.marks
      · rw [hq.context.session, hq.context.assets]
        rfl
      · exact hq.shell.busy.trans (hb.trans hop.idle)
      · exact hq.composes fun h => by cases h
      · exact hq.shell.shellHistory
    · exact .hopped hop.idle hr rfl hs rfl (hb.trans hop.idle) (fun _ => rfl) rfl rfl

/-! ## Commands -/

/-- A local command leaves one entry, complete. -/
theorem completeLocally_eq (c : Console) (input output : String) (exitCode : ℕ) :
    completeLocally c input output exitCode = { c with app := { c.app with
      shellTop := none
      busy := false
      notice := none
      shellHistory := c.app.shellHistory ++ [⟨input, output, some exitCode, false⟩] } } := by
  rw [completeLocally, (pending_startShell c.app input).finishShell]
  rfl

theorem effect_completeLocally {c : Console} (hb : c.app.busy = false)
    (identity : Option SmokeIdentity) (stores : List Inventory) (input output : String)
    (exitCode : ℕ) :
    Effect c
      (completeLocally { c with identity := identity, stores := stores } input output exitCode) := by
  rw [completeLocally_eq]
  exact .completed hb ⟨rfl, rfl⟩ rfl (by constructor <;> rfl) rfl id _ rfl rfl rfl

theorem effect_shell (answers : Answers) (c : Console) (line : String) :
    Effect c (dispatchShell exts answers c line).1 := by
  have h := dispatchShell_effect exts answers c line
  generalize dispatchShell exts answers c line = d at h
  obtain ⟨c', calls⟩ := d
  cases h with
  | refused text => exact .refuse c text
  | missing h => exact .missing h
  | completed hb identity stores hl input output exitCode hi _ hc =>
    exact effect_completeLocally hb identity stores input output exitCode
  | failed hb report _ hl =>
    have hc := (sameContext_startShell c.app line).trans (sameContext_failShell exts _ report)
    refine .completed hb ⟨rfl, rfl⟩ rfl (hc.trans (sameContext_busy _ false)) rfl ?_ _ ?_
      ((pending_startShell c.app line).shellHistory_failShell report) ?_
    · intro hm
      have hm' : (c.app.startShell line).Composes := hm
      exact composes_failShell exts hm' report
    · rfl
    · exact marks_eq (transcript_failShell exts _ report)
  | spawned hb leg hs _ hl _ h =>
    obtain ⟨trace, rfl⟩ := h
    exact .spawned hb line leg c.nextCancel hs rfl rfl rfl (by constructor <;> rfl) rfl id rfl rfl

/-- A key press with the action it yields, whatever the broker answers. -/
theorem effect_key (key : KeyEvent) (answers : Answers) (c : Console) :
    Effect c (step exts c (.key key answers)) := by
  have hk := keyEffect_onKey exts c.app key c.stop
  simp only [step, react]
  generalize onKey exts c.app key c.stop = keyed at hk
  obtain ⟨action, app, stop⟩ := keyed
  refine .of_quiet hk.quiet hk.stop ?_
  rcases hk.action with rfl | rfl | ⟨line, rfl⟩
  · exact .quiet (.refl app) ⟨rfl, rfl⟩ (Or.inl rfl)
  · exact effect_enter exts answers _
  · exact effect_shell exts answers _ line

/-- An intake of the task in flight changes its inventory only. -/
theorem effect_intake {c : Console} (hr : c.running.isSome) (intake : Intake) :
    Effect c (step exts c (.intake intake)) := by
  obtain ⟨turn, hr⟩ := Option.isSome_iff_exists.1 hr
  simp only [step, react, hr]
  exact .quiet (.refl _) ⟨hr.symm, rfl⟩ (Or.inl rfl)

theorem effect_resize (c : Console) (width height : ℕ) :
    Effect c (step exts c (.resize width height)) :=
  .quiet (quiet_display c.app) ⟨rfl, rfl⟩ (Or.inl rfl)

/-! ## Model turns -/

/-- **What submitting the composer as a model turn can do.** -/
inductive Submitted (answers : Answers) (c c' : Console) : Prop
  /-- nothing is sent -/
  | unsent (hp : c.app.submitTurn.1 = none) (hq : Quiet c.app c'.app) (hf : SameFlight c c')
  /-- a turn for a session without an inventory -/
  | missing (h : c.app.session.isSome ∧ c.app.assets = none)
  /-- a turn refused before inference -/
  | refused (hp : c.app.submitTurn.1.isSome) (hg : ¬answers.Granted) (hb : c.app.busy = false)
      (hf : SameFlight c c') (hc : SameContext c.app c'.app)
      (ht : c'.app.marks = c.app.marks ++ [true])
  /-- a turn under way, with the history moved into it -/
  | spawned (hp : c.app.submitTurn.1.isSome) (hg : answers.Granted) (hb : c.app.busy = false)
      (task : Task) (htask : task.isShell = false) (hgiven : task.given = c.history)
      (hl : some task.leg.store = c.app.assets) (hr : c'.running = some ⟨task, false, false⟩)
      (hn : c'.history = .new) (hc : SameContext c.app c'.app)
      (ht : c'.app.marks = c.app.marks ++ [true])

theorem marks_refuseTurn (app : App) (report : ErrorReport) :
    (refuseTurn app report).marks = app.marks :=
  (quiet_raise _ report).marks.trans (marks_onSessionEvent app _)

theorem submitted_submitTurn (answers : Answers) (c : Console) :
    Submitted answers c (step exts c (.submitTurn answers)) := by
  have hsub := submitTurn_cases c.app
  cases hsubmit : c.app.submitTurn with
  | mk prompt app =>
    simp only [step, react, hsubmit]
    rw [hsubmit] at hsub
    rcases hsub with ⟨rfl, hq⟩ | ⟨prompt', session, rfl, hs, hb, hc, -, ht⟩
    · exact .unsent (by rw [hsubmit]) hq ⟨rfl, rfl⟩
    · have hp : c.app.submitTurn.1.isSome := by rw [hsubmit]; rfl
      obtain ⟨hcontext, -⟩ := sameContext_dispatchTurn exts answers { c with app := app } prompt'
      have hkept := hc.trans hcontext.app
      rcases dispatchTurn_cases exts answers { c with app := app } prompt' with
        ⟨hnone, -⟩ | ⟨-, ⟨hg, trace, report, h⟩ | ⟨hg, leg, instructions, agent, hl, trace, h⟩⟩
      · refine .missing ⟨by simp [hs], ?_⟩
        rcases hnone with hnone | hnone
        · cases hnone.symm.trans (hc.session.trans hs)
        · exact hc.assets.symm.trans hnone
      · refine .refused hp hg hb ⟨?_, ?_⟩ hkept ?_
        · simp only [dispatch, h]
        · simp only [dispatch, h]
        · simp only [dispatch, h]
          exact (marks_refuseTurn _ report).trans ht
      · refine .spawned hp hg hb (.turn prompt' leg c.nextCancel instructions agent c.options
          c.history) rfl rfl (hl.trans hc.assets) ?_ ?_ hkept ?_
        · simp only [dispatch, h]
          rfl
        · simp only [dispatch, h]
          rfl
        · simp only [dispatch, h]
          exact ht

/-! ## Joins -/

section
variable {c : Console} (joined : Joined)

/-- A join leaves completed entries alone. -/
theorem App.Settled.settleTurn (h : c.app.Settled) :
    (settleTurn exts true joined c).app.shellHistory = c.app.shellHistory := by
  have hreported : (reportJoined exts true joined c.app).shellHistory = c.app.shellHistory := by
    unfold reportJoined
    cases joinedReport true joined with
    | none => rfl
    | some report => exact h.shellHistory_failShell report
  have hsettled : (reportJoined exts true joined c.app).Settled := by rwa [Settled, hreported]
  rw [settleTurn_eq]
  change (settleShell exts (reportJoined exts true joined c.app)).shellHistory = _
  unfold settleShell
  split_ifs
  · rw [hsettled.shellHistory_failShell, hreported]
  · exact hreported

/-- **A join completes the entry that is still pending**, however it ended. -/
theorem App.Pending.settleTurn {before : List ShellEntry} {entry : ShellEntry}
    (h : c.app.Pending before entry) : ∃ done, done.exitCode.isSome ∧ done.input = entry.input ∧
      (settleTurn exts true joined c).app.shellHistory = before ++ [done] := by
  rw [settleTurn_eq]
  change ∃ done, _ ∧ _ ∧ (settleShell exts (reportJoined exts true joined c.app)).shellHistory = _
  unfold reportJoined settleShell
  cases joinedReport true joined with
  | none =>
    rw [if_pos (by simp [h.1, h.2])]
    exact ⟨failedEntry exts c.app _ entry, rfl, rfl, h.shellHistory_failShell _⟩
  | some report =>
    simp only [if_true]
    rw [if_neg (by simp [h.shellHistory_failShell, failedEntry])]
    exact ⟨failedEntry exts c.app report entry, rfl, rfl, h.shellHistory_failShell report⟩

end

theorem composes_settleTurn {c : Console} (h : c.app.Composes) (joined : Joined) :
    (settleTurn exts true joined c).app.Composes := by
  have hreported : (reportJoined exts true joined c.app).Composes := by
    unfold reportJoined
    cases joinedReport true joined with
    | none => exact h
    | some report => exact composes_failShell exts h report
  rw [settleTurn_eq]
  show (settleShell exts (reportJoined exts true joined c.app)).Composes
  unfold settleShell
  split_ifs
  · exact composes_failShell exts hreported _
  · exact hreported

end DekoponConsole
