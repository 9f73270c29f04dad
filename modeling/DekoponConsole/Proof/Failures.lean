/-
  What is recorded of a failure.

  * `Identified`: a report names each part of its identity context once;
  * `Recorded`: a failure is stored, and written into the entry it completes;
  * `RecordsWell`: a step records its last fault, in a report that is identified, and
    nothing without one;
  * `RefusedScript` is the one pass that does not, a script on a leg that the
    broker refuses or grants nothing on: its report is given its context twice;
  * `identifies_iff`: every other pass records well, from every state.
-/
import DekoponConsole.Proof.Faults

namespace DekoponConsole

open App

variable {exts : Externals}

/-! ## The context of a report -/

/-- The labels of a report's facts. -/
def ErrorReport.labels (r : ErrorReport) : List String := r.context.map Prod.fst

/-- Each label of the identity context stands once, that of the trace at most once. -/
structure ErrorReport.Identified (r : ErrorReport) : Prop where
  identity : ∀ label ∈ ["subject", "agent", "profile", "scope", "broker socket"],
    r.labels.count label = 1
  trace : r.labels.count "broker trace" ≤ 1

/-- The labels a report is given. -/
def App.identityLabels (app : App) : List String :=
  ["subject", "agent", "profile", "scope", "broker socket"] ++
    if app.brokerTrace.isSome then ["broker trace"] else []

theorem labels_report (exts : Externals) (app : App) (r : ErrorReport) :
    (app.report exts r).labels = r.labels ++ app.identityLabels := by
  unfold App.report App.identityLabels
  cases app.brokerTrace <;> simp [ErrorReport.labels, ErrorReport.withFact]

section
variable {r : ErrorReport}

theorem identified_of_labels (app : App) (h : r.labels = app.identityLabels) : r.Identified := by
  unfold App.identityLabels at h
  refine ⟨fun label hlabel => ?_, ?_⟩
  · rw [h]
    simp only [List.mem_cons, List.not_mem_nil, or_false] at hlabel
    rcases hlabel with rfl | rfl | rfl | rfl | rfl <;> split_ifs <;> decide
  · rw [h]
    split_ifs <;> decide

/-- A report that was given its context twice is not identified. -/
theorem not_identified_twice (app app' : App)
    (h : r.labels = app.identityLabels ++ app'.identityLabels) :
    ¬r.Identified := by
  intro hi
  have hcount (app : App) : app.identityLabels.count "subject" = 1 := by
    unfold App.identityLabels
    split_ifs <;> decide
  have := hi.identity "subject" (by simp)
  rw [h, List.count_append, hcount, hcount] at this
  omega

theorem identified_report (app : App) (h : r.context = []) : (app.report exts r).Identified := by
  refine identified_of_labels app ?_
  rw [labels_report, ErrorReport.labels, h]
  rfl

theorem labels_sessionRefusal (app : App) (operation : String) (error : SessionError) :
    (sessionRefusal exts app operation error).labels = app.identityLabels := by
  have h : (app.report exts (.fromError operation error.toError)).labels = app.identityLabels :=
    labels_report exts app _
  unfold sessionRefusal
  simp only
  split
  · split_ifs <;> exact h
  · exact h

theorem labels_emptySurface (app : App) (operation : String) :
    (emptySurface exts app operation).labels = app.identityLabels :=
  labels_report exts app _

end

/-! ## Recording -/

/-- A failure is stored, and written into the entry that is completed with it. -/
structure Recorded (app app' : App) (report : ErrorReport) : Prop where
  stored : app'.lastError = some report
  written : ∀ entry, app'.shellHistory.getLast? = some entry →
    app'.shellHistory = app.shellHistory ∨ entry.output = report.toString

/-- The last of the faults is recorded, with its identity context once; without any, what
    was on record stays. -/
def RecordsWell (app : App) (fs : List Fault) (app' : App) : Prop :=
  match fs.getLast? with
  | none => app'.lastError = app.lastError
  | some f => ∃ report, Recorded app app' report ∧ report.Identified ∧ report.told = f.told

section
variable {app app' app'' : App} {report : ErrorReport} {fs : List Fault}

theorem RecordsWell.nothing (h : app'.lastError = app.lastError) (hfs : fs = []) :
    RecordsWell app fs app' := by
  rw [hfs]
  exact h

theorem RecordsWell.fault {f : Fault} (hr : Recorded app app' report) (hi : report.Identified)
    (ht : report.told = f.told) : RecordsWell app [f] app' :=
  ⟨report, hr, hi, ht⟩

/-- What comes before a step and leaves failures and entries alone changes nothing
    about what it records. -/
theorem RecordsWell.of_same (he : app'.lastError = app.lastError)
    (hh : app'.shellHistory = app.shellHistory) (h : RecordsWell app' fs app'') :
    RecordsWell app fs app'' := by
  unfold RecordsWell at h ⊢
  cases hf : fs.getLast? with
  | none =>
    rw [hf] at h
    exact h.trans he
  | some f =>
    rw [hf] at h
    obtain ⟨report, ⟨hs, hw⟩, hi, ht⟩ := h
    exact ⟨report, ⟨hs, fun entry hentry => hh ▸ hw entry hentry⟩, hi, ht⟩

/-- Nor does what comes after it and leaves them alone. -/
theorem RecordsWell.to_same (h : RecordsWell app fs app') (he : app''.lastError = app'.lastError)
    (hh : app''.shellHistory = app'.shellHistory) : RecordsWell app fs app'' := by
  unfold RecordsWell at h ⊢
  cases hf : fs.getLast? with
  | none =>
    rw [hf] at h
    exact he.trans h
  | some f =>
    rw [hf] at h
    obtain ⟨report, ⟨hs, hw⟩, hi, ht⟩ := h
    refine ⟨report, ⟨he.trans hs, ?_⟩, hi, ht⟩
    rw [hh]
    exact hw

/-- A failure that is raised is stored, and no entry is written. -/
theorem recorded_raise (hh : app'.shellHistory = app.shellHistory) :
    Recorded app (app'.raise report) report :=
  ⟨rfl, fun _ _ => Or.inl ((quiet_raise app' report).shell.shellHistory.trans hh)⟩

/-- A command that fails is stored with its context, as it is written. -/
theorem recorded_failShell (exts : Externals) (app : App) (report : ErrorReport) :
    Recorded app (app.failShell exts report) (app.report exts report) := by
  refine ⟨rfl, fun entry hentry => ?_⟩
  unfold failShell recordError modifyPending at hentry ⊢
  simp only at hentry ⊢
  split at hentry
  · split_ifs at hentry with hpending
    · right
      rw [List.getLast?_concat, Option.some.injEq] at hentry
      rw [← hentry]
    · left
      simp [hpending]
  · left
    rfl

end

/-! ## Hops and turns -/

/-- What a dispatched action records of the faults in its answers. -/
def AnsweredWell (app : App) (answers : Answers) (purpose : Purpose) (d : Dispatched) : Prop :=
  RecordsWell app (answers.faultsOf purpose d.2) d.1.app

section
variable (exts : Externals) (answers : Answers) (c : Console)

theorem answeredWell_openHop (agent : AgentId) :
    AnsweredWell c.app answers .hop (openHop exts answers c agent) := by
  have hraised {report : ErrorReport} {f : Fault}
      (hr : report.labels = (prepareHop exts c).app.identityLabels) (ht : report.told = f.told) :
      RecordsWell c.app [f] ((prepareHop exts c).app.raise report) := by
    refine .fault ⟨rfl, fun entry hentry => ?_⟩ (identified_of_labels _ hr) ht
    -- a hop forgets the entries
    have hnone : ((prepareHop exts c).app.raise report).shellHistory = [] :=
      (quiet_raise _ report).shell.shellHistory
    simp [hnone] at hentry
  unfold openHop openAgentWithAssets AnsweredWell
  dsimp only
  cases hleg : answers.leg with
  | error error =>
    dsimp only
    rw [faultsOf_openLeg, faults_refused hleg]
    exact hraised (labels_sessionRefusal _ _ _) (told_sessionRefusal exts _ _ _)
  | ok surface =>
    cases he : surface.effective.isEmpty with
    | true =>
      simp only [BrokerLeg.isEmpty, he, if_true, faultsOf_openLeg, faults_empty hleg he]
      exact hraised (labels_emptySurface _ _) (told_emptySurface exts _ _)
    | false =>
      simp only [BrokerLeg.isEmpty, he, Bool.false_eq_true, if_false, faultsOf_openLeg]
      exact .nothing rfl (faults_granted hleg he (Or.inl (by simp)))

theorem answeredWell_enter : AnsweredWell c.app answers .hop (dispatchEnter exts answers c) := by
  rcases dispatchEnter_cases exts answers c with ⟨refusal, -, h⟩ | ⟨agent, c₁, hop, h⟩
  · rw [h]
    exact .nothing rfl rfl
  · rw [h]
    have hw := answeredWell_openHop exts answers c₁ agent
    rcases hop.resolved with ⟨profile, -, rfl⟩ | ⟨-, rfl⟩
    · have he : (applyProfile c profile).app.lastError = c.app.lastError := rfl
      exact hw.of_same he rfl
    · exact hw

theorem answeredWell_turn (prompt : String) :
    AnsweredWell c.app answers .turn (dispatchTurn exts answers c prompt) := by
  have hrefused (trace : Option String) {report : ErrorReport} {f : Fault}
      (hi : report.Identified) (ht : report.told = f.told) :
      RecordsWell c.app [f] (refuseTurn { c.app with brokerTrace := trace } report) :=
    .fault (recorded_raise rfl) hi ht
  unfold dispatchTurn openAgentWithAssets AnsweredWell
  split
  · dsimp only
    cases hleg : answers.leg with
    | error error =>
      dsimp only
      rw [faultsOf_openLeg, faults_refused hleg]
      exact hrefused c.app.brokerTrace (identified_of_labels _ (labels_sessionRefusal _ _ _))
        (told_sessionRefusal exts _ _ _)
    | ok surface =>
      cases he : surface.effective.isEmpty with
      | true =>
        simp only [BrokerLeg.isEmpty, he, if_true, faultsOf_openLeg, faults_empty hleg he]
        exact hrefused c.app.brokerTrace (identified_of_labels _ (labels_emptySurface _ _))
          (told_emptySurface exts _ _)
      | false =>
        simp only [BrokerLeg.isEmpty, he, Bool.false_eq_true, if_false]
        cases hmodel : answers.model with
        | error error =>
          dsimp only
          rw [faultsOf_openLeg, faults_noClient hleg he hmodel]
          exact hrefused _ (identified_report _ rfl) (told_report exts _ _)
        | ok =>
          dsimp only
          rw [faultsOf_openLeg]
          exact .nothing rfl (faults_granted hleg he (Or.inr hmodel))
  · exact .nothing rfl rfl

end

/-! ## Commands -/

/-- A script that the open, idle session dispatches, on a leg that the broker
    refuses or grants nothing on. -/
structure RefusedLeg (answers : Answers) (c : Console) (line : String) : Prop where
  idle : c.app.busy = false
  session : c.app.session.isSome
  assets : c.app.assets.isSome
  script : startsWith line ":smoke" = false ∧ startsWith line ":asset" = false
  leg : ¬∃ surface, answers.leg = .ok surface ∧ surface.effective ≠ []

theorem lastError_completeLocally (c : Console) (input output : String) (exitCode : ℕ) :
    (completeLocally c input output exitCode).app.lastError = c.app.lastError := by
  rw [completeLocally_eq]

section
variable (exts : Externals) (answers : Answers) (c : Console)

theorem answeredWell_smoke (agent : AgentId) (line text : String) :
    AnsweredWell c.app answers .command (dispatchSmoke exts answers c agent line text) := by
  unfold dispatchSmoke
  split_ifs
  · exact .nothing rfl rfl
  split
  · exact .nothing rfl rfl
  · split_ifs
    · simp only [smokeRecord]
      cases answers.record with
      | ok result => exact .nothing (lastError_completeLocally _ _ _ _) rfl
      | error error => exact .nothing (lastError_completeLocally _ _ _ _) rfl
    · exact .nothing (lastError_completeLocally _ _ _ _) rfl

theorem answeredWell_asset (command : String) :
    AnsweredWell c.app answers .command (dispatchAsset exts answers c command) := by
  unfold dispatchAsset
  split
  · exact .nothing rfl rfl
  · simp only
    split <;> exact .nothing (lastError_completeLocally _ _ _ _) rfl

/-- A script with a leg of its own, or without an inventory, has no fault. -/
theorem answeredWell_script (agent : AgentId) (line : String)
    (h : c.app.assets.isSome → ∃ surface, answers.leg = .ok surface ∧ surface.effective ≠ []) :
    AnsweredWell c.app answers .command (dispatchScript exts answers c agent line) := by
  unfold dispatchScript openAgentWithAssets AnsweredWell
  dsimp only
  split
  · exact .nothing rfl rfl
  next store hstore =>
    have hassets : c.app.assets = some store := hstore
    obtain ⟨surface, hleg, heffective⟩ := h (by simp [hassets])
    have he : surface.effective.isEmpty = false := by simpa using heffective
    rw [hleg]
    simp only [BrokerLeg.isEmpty, he, Bool.false_eq_true, if_false, faultsOf_openLeg]
    exact .nothing rfl (faults_granted hleg he (Or.inl (by simp)))

theorem answeredWell_shell {line : String} (h : ¬RefusedLeg answers c line) :
    AnsweredWell c.app answers .command (dispatchShell exts answers c line) := by
  unfold dispatchShell
  cases hs : c.app.session with
  | none => exact .nothing rfl rfl
  | some session =>
    dsimp only
    by_cases hb : c.app.busy
    · rw [if_pos hb]
      exact .nothing rfl rfl
    rw [if_neg hb]
    split
    · exact answeredWell_smoke exts answers c _ line _
    split
    · exact .nothing rfl rfl
    next hsmoke =>
      split
      · exact answeredWell_asset exts answers c _
      split
      · exact .nothing rfl rfl
      next hasset =>
        refine answeredWell_script exts answers c _ _ fun ha => ?_
        by_contra hleg
        exact h ⟨by simpa using hb, by simp [hs], ha, by simp [hsmoke, hasset], hleg⟩

end

/-- A fault is recorded in a report that is not identified. -/
def RecordsTwice (fs : List Fault) (app : App) : Prop :=
  ∃ f report, fs = [f] ∧ app.lastError = some report ∧ report.told = f.told ∧ ¬report.Identified

/-- A script whose leg is refused fails with a report that is given its context
    twice: where it is made, and where it is recorded. -/
theorem twice_dispatchScript {answers : Answers} {c : Console} (agent : AgentId) (line : String)
    (ha : c.app.assets.isSome)
    (h : ¬∃ surface, answers.leg = .ok surface ∧ surface.effective ≠ []) :
    RecordsTwice (answers.faultsOf .command (dispatchScript exts answers c agent line).2)
      (dispatchScript exts answers c agent line).1.app := by
  have htwice {report : ErrorReport}
      (hr : report.labels = (c.app.startShell line).identityLabels) :
      ¬((c.app.startShell line).report exts report).Identified := by
    refine not_identified_twice (c.app.startShell line) (c.app.startShell line) ?_
    rw [labels_report, hr]
  unfold dispatchScript openAgentWithAssets
  dsimp only
  split
  next hnone =>
    have : c.app.assets = none := hnone
    simp [this] at ha
  · cases hleg : answers.leg with
    | error error =>
      exact ⟨_, _, (faultsOf_openLeg ..).trans (faults_refused hleg), rfl,
        (told_report exts _ _).trans (told_sessionRefusal exts _ _ _),
        htwice (labels_sessionRefusal _ _ _)⟩
    | ok surface =>
      cases he : surface.effective.isEmpty with
      | true =>
        simp only [BrokerLeg.isEmpty, he, if_true]
        exact ⟨_, _, (faultsOf_openLeg ..).trans (faults_empty hleg he), rfl,
          (told_report exts _ _).trans (told_emptySurface exts _ _),
          htwice (labels_emptySurface _ _)⟩
      | false => exact absurd ⟨surface, hleg, by simpa using he⟩ h

/-! ## Joins and events -/

theorem context_joinedReport {shell : Bool} {joined : Joined} {report : ErrorReport}
    (h : joinedReport shell joined = some report) : report.context = [] := by
  cases joined with
  | returned history => cases h
  | failed error =>
    obtain rfl := Option.some.inj h
    rfl
  | died error =>
    obtain rfl := Option.some.inj h
    rfl

/-- Once a command has failed there is no entry left to settle. -/
theorem settleShell_failShell (exts : Externals) (app : App) (report : ErrorReport) :
    settleShell exts (app.failShell exts report) = app.failShell exts report := by
  unfold settleShell
  rw [if_neg]
  unfold failShell recordError modifyPending
  simp only
  split
  · split_ifs with hpending
    · simp
    · simp_all
  · simp_all

theorem recordsWell_failShell (exts : Externals) (app : App) {report : ErrorReport} {f : Fault}
    (h : report.context = []) (ht : report.told = f.told) :
    RecordsWell app [f] (app.failShell exts report) :=
  .fault (recorded_failShell exts app report) (identified_report app h)
    ((told_report exts app report).trans ht)

theorem recordsWell_settleTurn (shell : Bool) (joined : Joined) (c : Console) :
    RecordsWell c.app (joined.faults shell c.app.pendingShell)
      (settleTurn exts shell joined c).app := by
  rw [settleTurn_eq]
  cases shell with
  | true =>
    have hw : RecordsWell c.app (joined.faults true c.app.pendingShell)
        (settleShell exts (reportJoined exts true joined c.app)) := by
      unfold reportJoined
      cases hreport : joinedReport true joined with
      | none =>
        cases joined with
        | returned history =>
          unfold settleShell
          rw [Joined.faults, Bool.true_and, pendingShell]
          dsimp only
          split_ifs
          · exact recordsWell_failShell exts c.app rfl rfl
          · exact .nothing rfl rfl
        | _ => cases hreport
      | some report =>
        obtain ⟨f, hf, ht⟩ := told_joinedReport true joined c.app.pendingShell hreport
        simp only [if_true]
        rw [settleShell_failShell, hf]
        exact recordsWell_failShell exts c.app (context_joinedReport hreport) ht
    exact hw.to_same rfl rfl
  | false =>
    have hw : RecordsWell c.app (joined.faults false c.app.pendingShell)
        (reportJoined exts false joined c.app) := by
      unfold reportJoined
      cases hreport : joinedReport false joined with
      | none =>
        cases joined with
        | returned history => exact .nothing rfl rfl
        | _ => cases hreport
      | some report =>
        obtain ⟨f, hf, ht⟩ := told_joinedReport false joined c.app.pendingShell hreport
        rw [hf]
        exact .fault (recorded_raise rfl) (identified_report _ (context_joinedReport hreport))
          ((told_report exts _ _).trans ht)
    have hcomplete (app : App) (remembered : ℕ) :
        (app.onSessionComplete remembered).lastError = app.lastError ∧
          (app.onSessionComplete remembered).shellHistory = app.shellHistory := by
      unfold onSessionComplete
      simp only
      split
      · split_ifs <;> exact ⟨rfl, rfl⟩
      · exact ⟨rfl, rfl⟩
    exact hw.to_same (hcomplete _ _).1 (hcomplete _ _).2

theorem lastError_onEvent (app : App) (event : SessionEvent) :
    (onEvent app event).lastError = app.lastError := by
  unfold onEvent
  split
  · rfl
  · unfold finishShell modifyPending
    split
    · split_ifs <;> rfl
    · rfl
  · unfold onSessionEvent
    split <;> rfl

/-! ## Every pass -/

/-- The console, with another failure recorded last. -/
def Console.failedWith (c : Console) (earlier : Option ErrorReport) : Console :=
  { c with app := { c.app with lastError := earlier } }

/-- Whatever was recorded last, the pass records its last fault well, and nothing without
    one. -/
def Identifies (exts : Externals) (c : Console) (l : Label) : Prop :=
  ∀ earlier, RecordsWell (c.failedWith earlier).app (faults exts (c.failedWith earlier) l)
    (step exts (c.failedWith earlier) l).app

/-- The pass dispatches a script whose leg is refused. -/
def RefusedScript (c : Console) : Label → Prop
  | .key key answers => key.code = .enter ∧ c.app.mode = .composing ∧ c.app.pane = .shell ∧
      trim c.app.composer ≠ "" ∧ RefusedLeg answers c (trim c.app.composer)
  | .action (.shell line) answers => RefusedLeg answers c line
  | _ => False

/-- A key yields a command line when it is Enter, on a line that is not blank. -/
theorem onKey_shell (exts : Externals) (app : App) (key : KeyEvent) (stop : StopFlag)
    (line : String) (h : (onKey exts app key stop).1 = some (.shell line)) :
    key.code = .enter ∧ app.mode = .composing ∧ app.pane = .shell ∧ trim app.composer = line ∧
      line ≠ "" := by
  have hesc (otherwise : App) : (escOr app stop otherwise).1 ≠ some (.shell line) := by
    unfold escOr
    simp only
    split_ifs <;> simp
  unfold onKey at h
  split_ifs at h
  split at h
  · cases h
  · cases h
  next hmode =>
    split at h
    · cases h
    cases hcode : key.code with
    | enter =>
      rw [onComposingKey, hcode] at h
      cases hpane : app.pane with
      | shell =>
        rcases onComposingEnter_cases hpane stop with
          ⟨-, app', henter, -⟩ | ⟨⟨-, -, hne⟩, henter⟩
        · simp [henter] at h
        · obtain rfl : trim app.composer = line := by simpa [henter] using h
          exact ⟨rfl, hmode, rfl, rfl, hne⟩
      | _ => simp [onComposingEnter, hpane] at h
    | esc =>
      rw [onComposingKey, hcode] at h
      exact absurd h (hesc _)
    | char =>
      rw [onComposingKey, hcode] at h
      simp only at h
      split_ifs at h
    | _ =>
      rw [onComposingKey, hcode] at h
      cases h
  · split at h
    · cases h
    · unfold onBrowsingKey at h
      split at h
      case h_11 =>
        split_ifs at h
        cases h
      case h_12 => exact absurd h (hesc _)
      all_goals cases h

theorem RefusedLeg.of_quiet {answers : Answers} {c : Console} {app : App} {stop : StopFlag}
    {line : String} (hq : Quiet c.app app)
    (h : RefusedLeg answers { c with app := app, stop := stop } line) :
    RefusedLeg answers c line where
  idle := hq.shell.busy.symm.trans h.idle
  session := hq.context.session ▸ h.session
  assets := hq.context.assets ▸ h.assets
  script := h.script
  leg := h.leg

theorem recordsWell_key {c : Console} {key : KeyEvent} {answers : Answers}
    (h : ¬RefusedScript c (.key key answers)) :
    RecordsWell c.app (faults exts c (.key key answers))
      (step exts c (.key key answers)).app := by
  have hk := keyEffect_onKey exts c.app key c.stop
  have he : (c.keyed exts key).app.lastError = c.app.lastError :=
    (undisplayed_onKey exts c.app key c.stop).lastError
  have hh : (c.keyed exts key).app.shellHistory = c.app.shellHistory :=
    hk.quiet.shell.shellHistory
  cases ha : (onKey exts c.app key c.stop).1 with
  | none =>
    simp only [faults, Label.answers, performed, ha, step, react_key_none ha]
    exact .nothing he rfl
  | some action =>
    simp only [faults, Label.answers, performed, ha, step, asked, react_key_some ha]
    refine RecordsWell.of_same he hh ?_
    cases action with
    | enter => exact answeredWell_enter exts answers _
    | turn prompt => exact answeredWell_turn exts answers _ prompt
    | shell line =>
      obtain ⟨hcode, hmode, hpane, rfl, hne⟩ := onKey_shell exts c.app key c.stop line ha
      exact answeredWell_shell exts answers _ fun hrefused =>
        h ⟨hcode, hmode, hpane, hne, hrefused.of_quiet hk.quiet⟩

/-- What is not a refused script records well. -/
theorem recordsWell_step {c : Console} {l : Label} (h : ¬RefusedScript c l) :
    RecordsWell c.app (faults exts c l) (step exts c l).app := by
  cases l with
  | key key answers => exact recordsWell_key h
  | action action answers =>
    cases action with
    | enter => exact answeredWell_enter exts answers c
    | shell line => exact answeredWell_shell exts answers c h
    | turn prompt => exact answeredWell_turn exts answers c prompt
  | submitTurn answers =>
    have hsame : c.submitted.app.lastError = c.app.lastError ∧
        c.submitted.app.shellHistory = c.app.shellHistory := by
      unfold Console.submitted submitTurn
      cases c.app.session with
      | none => exact ⟨rfl, rfl⟩
      | some session =>
        simp only
        split_ifs <;> exact ⟨rfl, rfl⟩
    cases hp : c.app.submitTurn.1 with
    | none =>
      simp only [faults, Label.answers, performed, hp, Option.map_none, step, react_submit_none hp]
      exact .nothing hsame.1 rfl
    | some prompt =>
      simp only [faults, Label.answers, performed, hp, Option.map_some, step, asked,
        react_submit_some hp]
      exact RecordsWell.of_same hsame.1 hsame.2 (answeredWell_turn exts answers _ prompt)
  | event event => exact .nothing (lastError_onEvent c.app event) rfl
  | close joined =>
    cases hr : c.running with
    | none =>
      rw [step_close_none hr, faults, hr]
      exact .nothing rfl rfl
    | some turn =>
      rw [step_close_some hr, faults, hr, Option.toList_some, List.flatMap_singleton]
      exact recordsWell_settleTurn turn.shell joined { c with running := none }
  | intake intake =>
    obtain ⟨stores, h⟩ := stores_intake exts c intake
    rw [h]
    exact .nothing rfl rfl
  | resize width height => exact .nothing rfl rfl

/-- A refused script is recorded with its identity context twice. -/
theorem twice_step {c : Console} {l : Label} (h : RefusedScript c l) :
    RecordsTwice (faults exts c l) (step exts c l).app := by
  have hshell {answers : Answers} {c : Console} {line : String} (h : RefusedLeg answers c line) :
      RecordsTwice (answers.faultsOf .command (dispatchShell exts answers c line).2)
        (dispatchShell exts answers c line).1.app := by
    obtain ⟨session, hs⟩ := Option.isSome_iff_exists.1 h.session
    rw [dispatchShell_script exts answers hs h.idle h.script.1 h.script.2]
    exact twice_dispatchScript session.agent line h.assets h.leg
  cases l with
  | key key answers =>
    obtain ⟨code, modifiers⟩ := key
    obtain ⟨rfl, hmode, hpane, hne, hleg⟩ := h
    rcases onComposingEnter_cases hpane c.stop with ⟨hnot, -⟩ | ⟨-, henter⟩
    · exact absurd ⟨hleg.idle, hleg.session, hne⟩ hnot
    · simp only [faults, Label.answers, performed, step, asked, react, onKey_enter exts hmode hpane,
        henter, dispatch]
      exact hshell ⟨hleg.idle, hleg.session, hleg.assets, hleg.script, hleg.leg⟩
  | action action answers =>
    cases action with
    | shell line => exact hshell h
    | _ => exact h.elim
  | _ => exact h.elim

theorem refusedScript_failedWith (c : Console) (earlier : Option ErrorReport) (l : Label) :
    RefusedScript (c.failedWith earlier) l ↔ RefusedScript c l := by
  have hleg {answers : Answers} {line : String} :
      RefusedLeg answers (c.failedWith earlier) line ↔ RefusedLeg answers c line :=
    ⟨fun h => ⟨h.idle, h.session, h.assets, h.script, h.leg⟩,
      fun h => ⟨h.idle, h.session, h.assets, h.script, h.leg⟩⟩
  cases l with
  | key key answers =>
    show (_ ∧ _ ∧ _ ∧ _ ∧ RefusedLeg answers (c.failedWith earlier) (trim c.app.composer)) ↔ _
    rw [hleg]
    exact Iff.rfl
  | action action answers =>
    cases action with
    | shell line => exact hleg
    | _ => exact Iff.rfl
  | _ => exact Iff.rfl

/-- **Exactly when a failure carries its identity once.**  From every state, and
    whatever was recorded last, a pass records the last of its faults, in a report with
    each label of its identity context once, and nothing if it has none, if and only if
    it is not the dispatch of a script whose leg the broker refuses or grants nothing on. -/
theorem identifies_iff (exts : Externals) (c : Console) (l : Label) :
    Identifies exts c l ↔ ¬RefusedScript c l := by
  constructor
  · intro hi hrefused
    obtain ⟨f, report, hf, hs, -, hn⟩ :
        RecordsTwice (faults exts (c.failedWith none) l) (step exts (c.failedWith none) l).app :=
      twice_step ((refusedScript_failedWith c none l).2 hrefused)
    have hw := hi none
    rw [hf] at hw
    obtain ⟨report', hrecorded, hidentified, -⟩ := hw
    obtain rfl := Option.some.inj (hs.symm.trans hrecorded.stored)
    exact hn hidentified
  · intro hn earlier
    exact recordsWell_step (mt (refusedScript_failedWith c earlier l).1 hn)

/-- A command that the broker refuses a leg for is reported with each part of its
    identity twice. -/
theorem refused_script_labelled_twice :
    (step .plain (Sample.composing ['l', 's'])
        (.key ⟨.enter, .none⟩ Sample.gone)).app.lastError.map ErrorReport.labels =
      some ["subject", "agent", "profile", "scope", "broker socket", "broker trace",
        "subject", "agent", "profile", "scope", "broker socket", "broker trace"] ∧
      ¬Identifies .plain (Sample.composing ['l', 's']) (.key ⟨.enter, .none⟩ Sample.gone) := by
  have hlabels : (step .plain ((Sample.composing ['l', 's']).failedWith none)
      (.key ⟨.enter, .none⟩ Sample.gone)).app.lastError.map ErrorReport.labels =
        some ["subject", "agent", "profile", "scope", "broker socket", "broker trace",
          "subject", "agent", "profile", "scope", "broker socket", "broker trace"] := by decide
  refine ⟨by decide, fun hi => ?_⟩
  have hw := hi none
  unfold RecordsWell at hw
  split at hw
  · rw [hw] at hlabels
    cases hlabels
  · obtain ⟨report, hrecorded, hidentified, -⟩ := hw
    rw [hrecorded.stored] at hlabels
    have hcount := hidentified.identity "subject" (by simp)
    rw [Option.some.inj hlabels] at hcount
    exact absurd hcount (by decide)

end DekoponConsole
