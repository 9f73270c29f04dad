/-
  The panes are a front end.

  * `Console.core`: the console without what only the front end has, the failure on record
    and the request to quit among it;
  * `Deed` is what a pass does to the core, `perform` does it, and `deeds` lists those of a
    pass: at most a stop request and one action, one event or one join;
  * `core_perform`: a deed does the same to a console and to its core;
  * `front_end`: a run does to the core what its deeds do, and asks the broker what they ask.
-/
import DekoponConsole.Lib.Runs
import DekoponConsole.Proof.Flight
import DekoponConsole.Proof.Stop

namespace DekoponConsole

open App

variable {exts : Externals}

/-! ## The core -/

/-- The application without what only the front end has: its cursors, pane, mode, composer,
    notice and scrolling, the open call and the fields revealed in it, the request to quit, and
    the failure on record, which names the highlighted agent where no session is open. -/
def App.core (app : App) : App :=
  { app with
    selectedAgent := 0
    shellTop := none
    shellViewport := (0, 0)
    composer := ""
    pane := .agents
    mode := .browsing
    notice := none
    shouldQuit := false
    expandedCall := none
    selectedCall := 0
    revealed := []
    lastError := none
    errorScroll := 0 }

def Console.core (c : Console) : Console := { c with app := c.app.core }

/-- What a pass of the loop does to the core. -/
inductive Deed
  | hop (cursor : ℕ) (answers : Answers)
  | turn (prompt : String) (answers : Answers)
  /-- a turn with its entry in the transcript -/
  | submit (prompt : String) (answers : Answers)
  | shell (line : String) (answers : Answers)
  | stop
  | event (event : SessionEvent)
  | close (joined : Joined)
  | intake (intake : Intake)

/-- The application once a prompt is accepted. -/
def App.accepted (app : App) (prompt : String) : App :=
  { app with busy := true, transcript := app.transcript.opened prompt }

/-- Does a deed, and lists what it asks of the broker. -/
def perform (exts : Externals) (c : Console) : Deed → Dispatched
  | .hop cursor answers =>
    dispatchEnter exts answers { c with app := { c.app with selectedAgent := cursor } }
  | .turn prompt answers => dispatchTurn exts answers c prompt
  | .submit prompt answers =>
    dispatchTurn exts answers { c with app := c.app.accepted prompt } prompt
  | .shell line answers => dispatchShell exts answers c line
  | .stop => ({ c with app := c.app.requestStop.2, stop := c.stop.request }, [])
  | .event event => (receive c event, [])
  | .close joined => (finishTurn exts joined c, [])
  | .intake intake => react exts c (.intake intake)

/-- The core a deed leaves. -/
def coreStep (exts : Externals) (c : Console) (d : Deed) : Console := (perform exts c d).1.core

/-- What a deed asks of the broker. -/
def coreAsked (exts : Externals) (c : Console) (d : Deed) : List BrokerCall := (perform exts c d).2

/-- The deed of an action dispatched in a state. -/
def Action.deed (c : Console) (answers : Answers) : Action → Deed
  | .enter => .hop c.app.selectedAgent answers
  | .turn prompt => .turn prompt answers
  | .shell line => .shell line answers

/-- The stop request of a pass, if it makes one. -/
def stopDeed (c : Console) (l : Label) : List Deed := if AsksToStop c l then [.stop] else []

/-- The deeds of a pass. -/
def deeds (exts : Externals) (c : Console) (l : Label) : List Deed :=
  match l with
  | .key key answers =>
    stopDeed c (.key key answers) ++
      ((onKey exts c.app key c.stop).1.map (Action.deed (c.keyed exts key) answers)).toList
  | .action action answers => [action.deed c answers]
  | .submitTurn answers => (c.app.submitTurn.1.map fun prompt => .submit prompt answers).toList
  | .event event => [.event event]
  | .close joined => [.close joined]
  | .intake intake => [.intake intake]
  | .resize _ _ => []

/-- The same requests, and the same core. -/
def SameCoreAfter (d d' : Dispatched) : Prop := d'.1.core = d.1.core ∧ d'.2 = d.2

theorem SameCoreAfter.symm {d d' : Dispatched} (h : SameCoreAfter d d') : SameCoreAfter d' d :=
  ⟨h.1.symm, h.2.symm⟩

theorem SameCoreAfter.trans {d d' d'' : Dispatched} (h : SameCoreAfter d d')
    (h' : SameCoreAfter d' d'') : SameCoreAfter d d'' :=
  ⟨h'.1.trans h.1, h'.2.trans h.2⟩

/-! ## The application's operations -/

section
variable (app : App)

@[simp] theorem core_core : app.core.core = app.core := rfl

@[simp] theorem core_raise (report : ErrorReport) : (app.raise report).core = app.core := rfl

theorem core_modifyPending (f : ShellEntry → ShellEntry) :
    (app.modifyPending f).core = app.core.modifyPending f := by
  have hs : app.core.shellHistory = app.shellHistory := rfl
  unfold modifyPending
  rw [hs]
  split
  · split_ifs <;> rfl
  · rfl

/-- A report names the agent of the open session, wherever the cursor is. -/
theorem report_core (exts : Externals) (app : App) (h : app.session.isSome) (report : ErrorReport) :
    app.core.report exts report = app.report exts report := by
  obtain ⟨session, hs⟩ := Option.isSome_iff_exists.1 h
  have hs' : app.core.session = some session := hs
  have hagent : app.core.reportAgent exts = app.reportAgent exts := by
    simp only [reportAgent, hs, hs']
  unfold App.report
  rw [hagent]
  rfl

end

theorem sessionRefusal_core (exts : Externals) {app : App} (h : app.session.isSome)
    (operation : String) (error : SessionError) :
    sessionRefusal exts app.core operation error = sessionRefusal exts app operation error := by
  unfold sessionRefusal
  rw [report_core exts app h]

theorem emptySurface_core (exts : Externals) {app : App} (h : app.session.isSome)
    (operation : String) :
    emptySurface exts app.core operation = emptySurface exts app operation := by
  unfold emptySurface
  rw [report_core exts app h]

/-! ## Actions -/

section
variable (exts : Externals) (answers : Answers) (c : Console)

/-- A refused turn leaves one core, whichever of two equal reports closes it. -/
theorem core_refuseTurn (app : App) {report report' : ErrorReport} (h : report' = report) :
    (refuseTurn app.core report').core = (refuseTurn app report).core := by
  rw [h]
  rfl

theorem core_turn (prompt : String) : SameCoreAfter (dispatchTurn exts answers c prompt)
    (dispatchTurn exts answers c.core prompt) := by
  have hs' : c.core.app.session = c.app.session := rfl
  have ha' : c.core.app.assets = c.app.assets := rfl
  unfold dispatchTurn openAgentWithAssets
  rw [hs', ha']
  cases hs : c.app.session with
  | none => exact ⟨rfl, rfl⟩
  | some session =>
    have hsome : c.app.session.isSome := by rw [hs]; rfl
    have hrefused (app : App) {report report' : ErrorReport} (h : report' = report) :
        ({ c with app := refuseTurn app.core report' } : Console).core =
          ({ c with app := refuseTurn app report } : Console).core :=
      congrArg (fun app => { c with app := app }) (core_refuseTurn app h)
    cases c.app.assets with
    | none => exact ⟨rfl, rfl⟩
    | some store =>
      cases answers.leg with
      | error error => exact ⟨hrefused _ (sessionRefusal_core exts hsome _ _), rfl⟩
      | ok surface =>
        dsimp only [Console.core]
        split_ifs
        · exact ⟨hrefused _ (emptySurface_core exts hsome _), rfl⟩
        · cases answers.model with
          | error error =>
            let app : App := { c.app with brokerTrace := some surface.sessionTrace }
            exact ⟨hrefused app (report_core exts app hsome _), rfl⟩
          | ok => exact ⟨rfl, rfl⟩

end

/-- Without a session there is no command to fail. -/
def Hushed (app : App) : Prop := app.session = none → app.shellHistory = []

theorem core_failShell (exts : Externals) {app : App} (h : Hushed app) (report : ErrorReport) :
    (app.core.failShell exts report).core = (app.failShell exts report).core := by
  show (app.core.modifyPending _).core = (app.modifyPending _).core
  rw [core_modifyPending, core_modifyPending, core_core]
  cases hs : app.session with
  | none =>
    have hnil : app.core.shellHistory = [] := h hs
    simp only [modifyPending, hnil, List.getLast?_nil]
  | some session => rw [report_core exts app (by rw [hs]; rfl)]

section
variable (exts : Externals) (answers : Answers) (c : Console)

theorem core_openHop (agent : AgentId) : SameCoreAfter (openHop exts answers c agent)
    (openHop exts answers c.core agent) := by
  have hprepared : (prepareHop exts c.core).core = (prepareHop exts c).core := rfl
  have hraised (report report' : ErrorReport) :
      ({ prepareHop exts c.core with
          app := (prepareHop exts c.core).app.raise report' } : Console).core =
        ({ prepareHop exts c with app := (prepareHop exts c).app.raise report } : Console).core :=
    hprepared
  unfold openHop openAgentWithAssets
  dsimp only
  cases answers.leg with
  | error error => exact ⟨hraised _ _, rfl⟩
  | ok surface =>
    cases he : surface.effective.isEmpty with
    | true =>
      simp only [BrokerLeg.isEmpty, he, if_true]
      exact ⟨hraised _ _, rfl⟩
    | false =>
      simp only [BrokerLeg.isEmpty, he, Bool.false_eq_true, if_false]
      exact ⟨rfl, rfl⟩

theorem core_hop (cursor : ℕ) : SameCoreAfter (perform exts c (.hop cursor answers))
    (perform exts c.core (.hop cursor answers)) := by
  let c₁ : Console := { c with app := { c.app with selectedAgent := cursor } }
  let c₂ : Console := { c.core with app := { c.core.app with selectedAgent := cursor } }
  show SameCoreAfter (dispatchEnter exts answers c₁) (dispatchEnter exts answers c₂)
  have htarget : hopTarget c₂.options c₂.app.busy (c₂.app.highlightedId exts) =
      hopTarget c₁.options c₁.app.busy (c₁.app.highlightedId exts) := rfl
  unfold dispatchEnter
  rw [htarget]
  cases hopTarget c₁.options c₁.app.busy (c₁.app.highlightedId exts) with
  | error refusal => exact ⟨rfl, rfl⟩
  | ok target =>
    obtain ⟨agent, profile⟩ := target
    have hcore : (profile.elim c₂ (applyProfile c₂)).core =
        (profile.elim c₁ (applyProfile c₁)).core := by
      cases profile <;> rfl
    have h₁ := core_openHop exts answers (profile.elim c₁ (applyProfile c₁)) agent
    have h₂ := core_openHop exts answers (profile.elim c₂ (applyProfile c₂)) agent
    rw [hcore] at h₂
    exact h₁.trans h₂.symm

theorem core_script (hsome : c.app.session.isSome) (agent : AgentId) (line : String) :
    SameCoreAfter (dispatchScript exts answers c agent line)
      (dispatchScript exts answers c.core agent line) := by
  have hfailed (app : App) (hs : app.session.isSome) {report report' : ErrorReport}
      (h : report' = report) :
      ({ c with app := { app.core.failShell exts report' with busy := false } } : Console).core =
        ({ c with app := { app.failShell exts report with busy := false } } : Console).core := by
    have hushed : Hushed app := fun hnone => by rw [hnone] at hs; cases hs
    rw [h]
    exact congrArg (fun app => { c with app := { app with busy := false } })
      (core_failShell exts hushed report)
  let echoed : App := c.app.startShell line
  have ha : (c.app.startShell line).assets = c.app.assets := rfl
  have ha' : (c.core.app.startShell line).assets = c.app.assets := rfl
  unfold dispatchScript openAgentWithAssets
  dsimp only
  rw [ha, ha']
  cases c.app.assets with
  | none => exact ⟨rfl, rfl⟩
  | some store =>
    cases answers.leg with
    | error error =>
      exact ⟨hfailed echoed hsome (sessionRefusal_core exts hsome _ _), rfl⟩
    | ok surface =>
      dsimp only [Console.core]
      split_ifs
      · exact ⟨hfailed echoed hsome (emptySurface_core exts hsome _), rfl⟩
      · exact ⟨rfl, rfl⟩

theorem core_completeLocally (identity : Option SmokeIdentity) (stores : List Inventory)
    (input output : String) (exitCode : ℕ) :
    (completeLocally { c.core with identity := identity, stores := stores } input output
        exitCode).core =
      (completeLocally { c with identity := identity, stores := stores } input output
        exitCode).core := by
  rw [completeLocally_eq, completeLocally_eq]
  rfl

theorem core_smoke (agent : AgentId) (line text : String) :
    SameCoreAfter (dispatchSmoke exts answers c agent line text)
      (dispatchSmoke exts answers c.core agent line text) := by
  have ho : c.core.options = c.options := rfl
  have hi : c.core.identity = c.identity := rfl
  unfold dispatchSmoke
  rw [ho, hi]
  split
  · exact ⟨rfl, rfl⟩
  split
  · exact ⟨rfl, rfl⟩
  split
  · simp only [smokeRecord]
    cases answers.record with
    | error error => exact ⟨core_completeLocally c _ c.stores _ _ _, rfl⟩
    | ok result => exact ⟨core_completeLocally c _ c.stores _ _ _, rfl⟩
  · exact ⟨core_completeLocally c c.identity c.stores _ _ _, rfl⟩

theorem core_asset (command : String) : SameCoreAfter (dispatchAsset exts answers c command)
    (dispatchAsset exts answers c.core command) := by
  have ha : c.core.app.assets = c.app.assets := rfl
  have hs : c.core.stores = c.stores := rfl
  unfold dispatchAsset
  rw [ha, hs]
  cases c.app.assets with
  | none => exact ⟨rfl, rfl⟩
  | some store =>
    dsimp only
    split
    · exact ⟨core_completeLocally c c.identity _ _ _ _, rfl⟩
    · exact ⟨core_completeLocally c c.identity _ _ _ _, rfl⟩

theorem core_shell (line : String) : SameCoreAfter (dispatchShell exts answers c line)
    (dispatchShell exts answers c.core line) := by
  have hs : c.core.app.session = c.app.session := rfl
  have hb : c.core.app.busy = c.app.busy := rfl
  unfold dispatchShell
  rw [hs, hb]
  cases hsession : c.app.session with
  | none => exact ⟨rfl, rfl⟩
  | some session =>
    dsimp only
    split
    · exact ⟨rfl, rfl⟩
    split
    · exact core_smoke exts answers c _ line _
    split
    · exact ⟨rfl, rfl⟩
    split
    · exact core_asset exts answers c _
    split
    · exact ⟨rfl, rfl⟩
    · exact core_script exts answers c (by rw [hsession]; rfl) _ line

end

/-! ## The task in flight -/

theorem core_requestStop (app : App) : app.core.requestStop.2.core = app.requestStop.2.core := by
  have hb : app.core.busy = app.busy := rfl
  unfold requestStop
  rw [hb]
  split_ifs <;> rfl

theorem core_onEvent (app : App) (event : SessionEvent) :
    (onEvent app.core event).core = (onEvent app event).core := by
  cases event with
  | shellFinished entry =>
    show (app.core.modifyPending _).core = (app.modifyPending _).core
    rw [core_modifyPending, core_modifyPending, core_core]
  | _ => rfl

theorem core_onSessionComplete (app : App) (remembered : ℕ) :
    (app.core.onSessionComplete remembered).core = (app.onSessionComplete remembered).core := by
  have hcore (app : App) : (app.onSessionComplete remembered).core =
      { app.core with
        busy := false
        transcript := app.transcript.markReplayWindow remembered } := by
    unfold onSessionComplete
    dsimp only
    split
    · split_ifs <;> rfl
    · rfl
  rw [hcore, hcore]
  rfl

theorem hushed_modifyPending {app : App} (h : Hushed app) (f : ShellEntry → ShellEntry) :
    Hushed (app.modifyPending f) := by
  intro hs
  have hsession : app.session = none := (sameContext_modifyPending app f).session.symm.trans hs
  have hnil : app.shellHistory = [] := h hsession
  simp only [modifyPending, hnil, List.getLast?_nil]

theorem hushed_core {app : App} (h : Hushed app) : Hushed app.core := h

theorem hushed_reportJoined (exts : Externals) {app : App} (h : Hushed app) (shell : Bool)
    (joined : Joined) : Hushed (reportJoined exts shell joined app) := by
  unfold reportJoined
  cases joinedReport shell joined with
  | none => exact h
  | some report =>
    cases shell with
    | true => exact hushed_modifyPending h _
    | false =>
      have hcore := core_raise app (app.report exts report)
      exact (congrArg Hushed hcore).mpr h

theorem core_reportJoined (exts : Externals) {app : App} (h : Hushed app) (shell : Bool)
    (joined : Joined) :
    (reportJoined exts shell joined app.core).core = (reportJoined exts shell joined app).core := by
  unfold reportJoined
  cases joinedReport shell joined with
  | none => rfl
  | some report =>
    cases shell with
    | true => exact core_failShell exts h report
    | false => rfl

theorem core_settleShell (exts : Externals) {app : App} (h : Hushed app) :
    (settleShell exts app.core).core = (settleShell exts app).core := by
  have hs : app.core.shellHistory = app.shellHistory := rfl
  unfold settleShell
  rw [hs]
  split_ifs
  · exact core_failShell exts h _
  · rfl

/-- What is done alike to applications and their cores is done alike to those of one core. -/
theorem core_congr {f : App → App} {app app' : App} (h : app'.core = app.core)
    (hf : (f app.core).core = (f app).core) (hf' : (f app'.core).core = (f app').core) :
    (f app').core = (f app).core := by
  rw [← hf, ← hf', h]

theorem core_settleTurn (exts : Externals) {c : Console} (h : Hushed c.app) (shell : Bool)
    (joined : Joined) :
    (settleTurn exts shell joined c.core).core = (settleTurn exts shell joined c).core := by
  have hreported := core_reportJoined exts h shell joined
  have hushed := hushed_reportJoined exts h shell joined
  have hushed' := hushed_reportJoined exts (hushed_core h) shell joined
  let history := joinedHistory joined c.history
  rw [settleTurn_eq, settleTurn_eq]
  cases shell with
  | true =>
    have hsettled := core_congr hreported (core_settleShell exts hushed)
      (core_settleShell exts hushed')
    exact congrArg (fun app => { c with
      history := history
      stop := .default
      app := { app with busy := false } }) hsettled
  | false =>
    have hcomplete := core_congr (f := fun app => app.onSessionComplete history.len) hreported
      (core_onSessionComplete _ _) (core_onSessionComplete _ _)
    exact congrArg (fun app => { c with
      history := history
      stop := .default
      app := app }) hcomplete

/-- **A deed** does the same to a console and to its core. -/
theorem core_perform (exts : Externals) {c : Console} (h : Hushed c.app) (d : Deed) :
    SameCoreAfter (perform exts c d) (perform exts c.core d) := by
  cases d with
  | hop cursor answers => exact core_hop exts answers c cursor
  | turn prompt answers => exact core_turn exts answers c prompt
  | submit prompt answers =>
    exact core_turn exts answers { c with app := c.app.accepted prompt } prompt
  | shell line answers => exact core_shell exts answers c line
  | stop =>
    exact ⟨congrArg (fun app => { c with app := app, stop := c.stop.request })
      (core_requestStop c.app), rfl⟩
  | event event =>
    have happ := core_onEvent c.app event
    exact ⟨congrArg (fun app => { receive c event with app := app }) happ, rfl⟩
  | close joined =>
    refine ⟨?_, rfl⟩
    have hr : c.core.running = c.running := rfl
    show (finishTurn exts joined c.core).core = (finishTurn exts joined c).core
    unfold finishTurn
    rw [hr]
    cases c.running with
    | none => rfl
    | some turn =>
      exact core_settleTurn exts (c := { c with running := none }) h turn.shell joined
  | intake intake =>
    have hr : c.core.running = c.running := rfl
    simp only [perform, react]
    rw [hr]
    cases c.running with
    | none => exact ⟨rfl, rfl⟩
    | some turn => exact ⟨rfl, rfl⟩

/-! ## Keys -/

theorem Displays.core_eq {app app' : App} (h : Displays app app') : app'.core = app.core := by
  cases h
  rfl

section
variable (exts : Externals) (app : App) (key : KeyEvent) (stop : StopFlag)

theorem core_escOr (otherwise : App) : (escOr app stop otherwise).2.1.core =
    if app.busy then app.requestStop.2.core else otherwise.core := by
  unfold escOr requestStop
  cases app.busy <;> rfl

theorem displays_onComposingKey (h : key.code ≠ .esc) :
    Displays app (onComposingKey app key stop).2.1 := by
  unfold onComposingKey
  cases hcode : key.code with
  | esc => exact absurd hcode h
  | char c =>
    dsimp only
    split_ifs <;> exact .mk ..
  | enter =>
    simp only [onComposingEnter]
    split
    · split_ifs <;> exact .mk ..
    · exact .mk ..
  | _ => exact .mk ..

theorem displays_onBrowsingKey (h : key.code ≠ .esc) :
    Displays app (onBrowsingKey app key stop).2.1 := by
  unfold onBrowsingKey
  split
  case h_3 => exact displays_showError app
  case h_6 | h_7 | h_8 | h_9 => exact displays_moveSelection app _
  case h_10 => split_ifs <;> exact .mk ..
  case h_12 hcode => exact absurd hcode h
  all_goals exact .mk ..

theorem core_onPagingKey {app' : App} (h : onPagingKey exts app key = some app') :
    app'.core = app.core := by
  unfold onPagingKey at h
  split_ifs at h
  split at h <;> cases h <;> rfl

theorem core_onErrorKey : (onErrorKey exts app key).core = app.core := by
  unfold onErrorKey
  dsimp only
  split <;> rfl

end

/-- A key press does to the core what a stop request does, if it asks for one, and
    otherwise nothing. -/
theorem core_onKey (exts : Externals) (c : Console) (key : KeyEvent) (answers : Answers) :
    (onKey exts c.app key c.stop).2.1.core =
      if AsksToStop c (.key key answers) then c.app.requestStop.2.core else c.app.core := by
  by_cases hcode : key.code = .esc
  · have hquit : ¬(key.modifiers.control = true ∧ key.code = .char 'c') := by
      rintro ⟨-, h⟩
      cases hcode.symm.trans h
    have hpaging := onPagingKey_esc exts c.app key hcode
    have hasks : AsksToStop c (.key key answers) ↔
        c.app.busy = true ∧ (c.app.mode = .browsing ∨ c.app.mode = .composing) := by
      simp only [AsksToStop, hcode, true_and]
    unfold onKey
    rw [if_neg hquit]
    cases hmode : c.app.mode with
    | help =>
      rw [if_neg (by simp [hasks, hmode])]
      rfl
    | error =>
      rw [if_neg (by simp [hasks, hmode])]
      exact core_onErrorKey exts c.app key
    | composing =>
      have hbusy : AsksToStop c (.key key answers) ↔ c.app.busy = true := by simp [hasks, hmode]
      simp only [hpaging, onComposingKey, hcode, core_escOr, hbusy]
      rfl
    | browsing =>
      have hbusy : AsksToStop c (.key key answers) ↔ c.app.busy = true := by simp [hasks, hmode]
      simp only [hpaging, onBrowsingKey, hcode, core_escOr, hbusy]
  · have hasks : ¬AsksToStop c (.key key answers) := fun h => hcode h.2.1
    rw [if_neg hasks]
    unfold onKey
    split_ifs
    · rfl
    cases c.app.mode with
    | help => rfl
    | error => exact core_onErrorKey exts c.app key
    | composing =>
      dsimp only
      split
      next app h => exact core_onPagingKey exts c.app key h
      · exact (displays_onComposingKey c.app key c.stop hcode).core_eq
    | browsing =>
      dsimp only
      split
      next app h => exact core_onPagingKey exts c.app key h
      · exact (displays_onBrowsingKey c.app key c.stop hcode).core_eq

/-! ## Hushed consoles -/

theorem Hushed.of_same {app app' : App} (h : Hushed app) (hs : app'.session = app.session)
    (hh : app'.shellHistory = app.shellHistory) : Hushed app' :=
  fun hnone => hh.trans (h (hs.symm.trans hnone))

theorem Hushed.of_quiet {app app' : App} (h : Hushed app) (hq : Quiet app app') : Hushed app' :=
  h.of_same hq.context.session hq.shell.shellHistory

theorem Hushed.of_session {app : App} (h : app.session.isSome) : Hushed app := by
  intro hnone
  rw [hnone] at h
  cases h

section
variable (exts : Externals) (answers : Answers) {c : Console} (h : Hushed c.app)
include h

theorem hushed_enter : Hushed (dispatchEnter exts answers c).1.app := by
  rcases dispatchEnter_cases exts answers c with ⟨text, -, hd⟩ | ⟨agent, c₁, hop, hd⟩
  · rw [hd]
    exact h.of_same rfl rfl
  · obtain ⟨app, happ, ho⟩ := openHop_cases exts answers c₁ agent
    rw [hd, ho]
    cases happ with
    | refused report => exact fun _ => (quiet_raise _ report).shell.shellHistory
    | entered leg hs ha => exact .of_session rfl

theorem hushed_turn (prompt : String) : Hushed (dispatchTurn exts answers c prompt).1.app := by
  rcases dispatchTurn_cases exts answers c prompt with
    ⟨-, hd⟩ | ⟨⟨session, store, hs, -⟩, -⟩
  · rw [hd]
    exact h
  · have hsame := (sameContext_dispatchTurn exts answers c prompt).1.app.session
    exact .of_session (by rw [hsame, hs]; rfl)

theorem hushed_shell (line : String) : Hushed (dispatchShell exts answers c line).1.app := by
  cases hs : c.app.session with
  | none =>
    unfold dispatchShell
    rw [hs]
    exact h.of_same rfl rfl
  | some session =>
    have hsame := (dispatchShell_effect exts answers c line).sameContext.1.app.session
    exact .of_session (by rw [hsame, hs]; rfl)

end

theorem hushed_onEvent {app : App} (h : Hushed app) (event : SessionEvent) :
    Hushed (onEvent app event) := by
  cases event with
  | shellFinished entry => exact hushed_modifyPending h _
  | _ => exact h.of_same rfl rfl

theorem hushed_settleTurn (exts : Externals) {c : Console} (h : Hushed c.app) (shell : Bool)
    (joined : Joined) : Hushed (settleTurn exts shell joined c).app := by
  have hreported := hushed_reportJoined exts h shell joined
  rw [settleTurn_eq]
  cases shell with
  | true =>
    show Hushed { settleShell exts _ with busy := false }
    unfold settleShell
    split_ifs
    · exact (hushed_modifyPending hreported _).of_same rfl rfl
    · exact hreported.of_same rfl rfl
  | false =>
    refine hreported.of_same (sameContext_onSessionComplete _ _).session ?_
    show (onSessionComplete _ _).shellHistory = _
    unfold onSessionComplete
    dsimp only
    split
    · split_ifs <;> rfl
    · rfl

theorem hushed_perform (exts : Externals) {c : Console} (h : Hushed c.app) (d : Deed) :
    Hushed (perform exts c d).1.app := by
  cases d with
  | hop cursor answers =>
    have hmoved : Hushed { c.app with selectedAgent := cursor } := h.of_same rfl rfl
    exact hushed_enter exts answers hmoved
  | turn prompt answers => exact hushed_turn exts answers h prompt
  | submit prompt answers =>
    have haccepted : Hushed (c.app.accepted prompt) := h.of_same rfl rfl
    exact hushed_turn exts answers (c := { c with app := c.app.accepted prompt }) haccepted prompt
  | shell line answers => exact hushed_shell exts answers h line
  | stop => exact h.of_quiet (quiet_requestStop c.app)
  | event event => exact hushed_onEvent h event
  | close joined =>
    show Hushed (finishTurn exts joined c).app
    unfold finishTurn
    cases c.running with
    | none => exact h
    | some turn =>
      exact hushed_settleTurn exts (c := { c with running := none }) h turn.shell joined
  | intake intake =>
    simp only [perform, react]
    cases c.running with
    | none => exact h
    | some turn => exact h

/-! ## Every run -/

section
variable (exts : Externals) {c : Console} (h : Hushed c.app)
include h

theorem coreStep_core (d : Deed) : coreStep exts c.core d = (perform exts c d).1.core :=
  (core_perform exts h d).1

theorem coreAsked_core (d : Deed) : coreAsked exts c.core d = (perform exts c d).2 :=
  (core_perform exts h d).2

/-- A pass that does one deed, and what else it does is not of the core. -/
theorem core_of_deed {l : Label} {d : Deed}
    (hd : (react exts c l).1.core = (perform exts c d).1.core)
    (hasked : (react exts c l).2 = (perform exts c d).2) :
    (step exts c l).core = Runs.exec (coreStep exts) c.core [d] ∧
      asked exts c l = Runs.outputs (coreStep exts) (coreAsked exts) c.core [d] := by
  rw [Runs.exec_cons, Runs.exec_nil, Runs.outputs_cons, Runs.outputs_nil, List.append_nil,
    coreStep_core exts h, coreAsked_core exts h]
  exact ⟨hd, hasked⟩

end

/-- An action dispatched in a state is its deed there. -/
theorem perform_deed (exts : Externals) (answers : Answers) (c : Console) (action : Action) :
    perform exts c (action.deed c answers) = dispatch exts answers c action := by
  cases action <;> rfl

theorem core_keyed (exts : Externals) (c : Console) (key : KeyEvent) (answers : Answers) :
    (c.keyed exts key).core =
        Runs.exec (coreStep exts) c.core (stopDeed c (.key key answers)) ∧
      Runs.outputs (coreStep exts) (coreAsked exts) c.core (stopDeed c (.key key answers)) = [] := by
  have happ := core_onKey exts c key answers
  have hstop := stop_onKey exts c key answers
  have hkeyed : (c.keyed exts key).core = { c with
      app := (onKey exts c.app key c.stop).2.1.core
      stop := (onKey exts c.app key c.stop).2.2 } := rfl
  rw [hkeyed, happ, hstop]
  unfold stopDeed
  split_ifs with hasks
  · refine ⟨?_, rfl⟩
    rw [Runs.exec_cons, Runs.exec_nil]
    exact congrArg (fun app => { c with app := app, stop := c.stop.request })
      (core_requestStop c.app).symm
  · exact ⟨rfl, rfl⟩

theorem hushed_keyed (exts : Externals) {c : Console} (h : Hushed c.app) (key : KeyEvent) :
    Hushed (c.keyed exts key).app :=
  h.of_quiet (keyEffect_onKey exts c.app key c.stop).quiet

/-- What a submitted composer leaves in the core: its turn, if it is accepted. -/
theorem core_submitTurn (app : App) : app.submitTurn.2.core =
    (app.submitTurn.1.elim app app.accepted).core := by
  unfold submitTurn
  cases hs : app.session with
  | none => rfl
  | some session =>
    dsimp only
    split_ifs
    · rfl
    · rfl
    · rfl
    · simp only [Option.elim_some, App.core, accepted, hs]

/-- **One pass** does to the core what its deeds do, and asks what they ask. -/
theorem core_step (exts : Externals) (c : Console) (l : Label) (h : Hushed c.app) :
    (step exts c l).core = Runs.exec (coreStep exts) c.core (deeds exts c l) ∧
      asked exts c l = Runs.outputs (coreStep exts) (coreAsked exts) c.core (deeds exts c l) := by
  cases l with
  | key key answers =>
    obtain ⟨hkeyed, hquiet⟩ := core_keyed exts c key answers
    have hushed := hushed_keyed exts h key
    simp only [deeds, Runs.exec_append, Runs.outputs_append, hquiet, ← hkeyed, List.nil_append,
      step, asked]
    cases ha : (onKey exts c.app key c.stop).1 with
    | none =>
      rw [react_key_none ha]
      exact ⟨rfl, rfl⟩
    | some action =>
      have hdone := perform_deed exts answers (c.keyed exts key) action
      rw [react_key_some ha, Option.map_some, Option.toList_some, Runs.exec_cons, Runs.exec_nil,
        Runs.outputs_cons, Runs.outputs_nil, List.append_nil, coreStep_core exts hushed,
        coreAsked_core exts hushed, hdone]
      exact ⟨rfl, rfl⟩
  | action action answers =>
    have hdone := perform_deed exts answers c action
    exact core_of_deed exts h (by rw [hdone]; rfl) (by rw [hdone]; rfl)
  | submitTurn answers =>
    have happ := core_submitTurn c.app
    cases hp : c.app.submitTurn.1 with
    | none =>
      simp only [deeds, hp, step, asked, react_submit_none hp]
      rw [hp] at happ
      exact ⟨congrArg (fun app => { c with app := app }) happ, rfl⟩
    | some prompt =>
      rw [hp] at happ
      have hcore : c.submitted.core = ({ c with app := c.app.accepted prompt } : Console).core :=
        congrArg (fun app => { c with app := app }) happ
      obtain ⟨hleft, haskedLeft⟩ := core_turn exts answers c.submitted prompt
      obtain ⟨hright, haskedRight⟩ :=
        core_turn exts answers { c with app := c.app.accepted prompt } prompt
      simp only [deeds, hp, Option.map_some, Option.toList_some]
      refine core_of_deed exts h ?_ ?_
      · rw [react_submit_some hp]
        exact hleft.symm.trans (by rw [hcore]; exact hright)
      · rw [react_submit_some hp]
        exact haskedLeft.symm.trans (by rw [hcore]; exact haskedRight)
  | event event => exact core_of_deed exts h rfl rfl
  | close joined => exact core_of_deed exts h rfl rfl
  | intake intake => exact core_of_deed exts h rfl rfl
  | resize width height => exact ⟨rfl, rfl⟩

theorem hushed_step (exts : Externals) (c : Console) (l : Label) (h : Hushed c.app) :
    Hushed (step exts c l).app := by
  have hkept (c : Console) (d : Deed) (h : Hushed c.app) : Hushed (coreStep exts c d).app :=
    hushed_core (hushed_perform exts h d)
  have hrun : Hushed (Runs.exec (coreStep exts) c.core (deeds exts c l)).app :=
    Runs.exec_of_forall (I := fun c : Console => Hushed c.app) (s := c.core) hkept (hushed_core h) _
  rw [← (core_step exts c l h).1] at hrun
  exact hrun

/-- The deeds of a run. -/
def deedsOf (exts : Externals) (c : Console) (ls : List Label) : List Deed :=
  Runs.outputs (step exts) (deeds exts) c ls

/-- **The panes are a front end.**  Whatever is typed, a run does to the console's core what
    its deeds do, from the core it starts with, and asks of the broker what they ask. -/
theorem front_end (exts : Externals) (agents : List Agent)
    (subject socketPath credentialPath : String) (options : ConsoleOptions) (ls : List Label) :
    let c := Console.start (App.new agents subject socketPath credentialPath) options
    (Runs.exec (step exts) c ls).core =
        Runs.exec (coreStep exts) c.core (deedsOf exts c ls) ∧
      Runs.outputs (step exts) (asked exts) c ls =
        Runs.outputs (coreStep exts) (coreAsked exts) c.core (deedsOf exts c ls) :=
  Runs.exec_refines (I := fun c : Console => Hushed c.app) (hushed_step exts) (core_step exts)
    (fun _ => rfl) ls

end DekoponConsole
