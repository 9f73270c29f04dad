/-
  What the operations of the application keep.

  * `SameContext`: the open agent's context (session, inventory) and the header;
  * `SameShell`: whether the console is busy, and its shell history;
  * `marks`: the replay marks of the transcript;
  * `Composes`: composing happens in the shell pane only;
  * `Pending`: the shell history whose last entry is still running, and what
    `finishShell` and `failShell` make of it.
-/
import DekoponConsole.App

namespace DekoponConsole.App

/-! ## The open context -/

/-- The catalog, the open session with its inventory, and the header stay. -/
structure SameContext (app app' : App) : Prop where
  agents : app'.agents = app.agents
  session : app'.session = app.session
  assets : app'.assets = app.assets
  subject : app'.subject = app.subject
  profile : app'.profile = app.profile
  scopeLabel : app'.scopeLabel = app.scopeLabel
  model : app'.model = app.model
  modelSource : app'.modelSource = app.modelSource

theorem SameContext.refl (app : App) : SameContext app app := ⟨rfl, rfl, rfl, rfl, rfl, rfl, rfl, rfl⟩

theorem SameContext.trans {app app' app'' : App} (h : SameContext app app')
    (h' : SameContext app' app'') : SameContext app app'' :=
  ⟨h'.1.trans h.1, h'.2.trans h.2, h'.3.trans h.3, h'.4.trans h.4, h'.5.trans h.5, h'.6.trans h.6,
    h'.7.trans h.7, h'.8.trans h.8⟩

/-- In the same context a session has its inventory where it had it before. -/
theorem SameContext.inventory {app app' : App} (h : SameContext app app')
    (ha : app.session.isSome = app.assets.isSome) : app'.session.isSome = app'.assets.isSome := by
  rw [h.session, h.assets, ha]

/-- A session that is open has its inventory. -/
theorem not_missing {app : App} (h : app.session.isSome = app.assets.isSome) :
    ¬(app.session.isSome ∧ app.assets = none) := by
  rintro ⟨hs, ha⟩
  simp [hs, ha] at h

/-- The console stays as busy as it is, with the shell history it has. -/
structure SameShell (app app' : App) : Prop where
  busy : app'.busy = app.busy
  shellHistory : app'.shellHistory = app.shellHistory

theorem SameShell.trans {app app' app'' : App} (h : SameShell app app')
    (h' : SameShell app' app'') : SameShell app app'' := ⟨h'.1.trans h.1, h'.2.trans h.2⟩

/-- The replay marks of the transcript's turns. -/
def marks (app : App) : List Bool := app.transcript.turns.map Turn.inReplayWindow

theorem marks_eq {app app' : App} (h : app'.transcript = app.transcript) : app'.marks = app.marks := by
  rw [marks, h, marks]

/-- Composing happens in the shell pane. -/
def Composes (app : App) : Prop := app.mode = .composing → app.pane = .shell

/-- What changes neither context nor shell nor marks, and composes where that
    did. -/
structure Quiet (app app' : App) : Prop where
  context : SameContext app app'
  shell : SameShell app app'
  marks : app'.marks = app.marks
  composes : app.Composes → app'.Composes

theorem Quiet.refl (app : App) : Quiet app app :=
  ⟨by constructor <;> rfl, by constructor <;> rfl, rfl, id⟩

theorem Quiet.trans {app app' app'' : App} (h : Quiet app app') (h' : Quiet app' app'') :
    Quiet app app'' :=
  ⟨h.context.trans h'.context, h.shell.trans h'.shell, h'.marks.trans h.marks,
    fun hc => h'.composes (h.composes hc)⟩

/-! ## The transcript -/

theorem map_modifyFirst {α β : Type} {p : α → Bool} {f : α → α} {g : α → β}
    (h : ∀ a, g (f a) = g a) {l l' : List α} (hl : modifyFirst p f l = some l') :
    l'.map g = l.map g := by
  induction l generalizing l' with
  | nil => cases hl
  | cons a l ih =>
    unfold modifyFirst at hl
    split_ifs at hl
    · obtain rfl := Option.some.inj hl
      simp [h]
    · obtain ⟨l'', hl'', rfl⟩ := Option.map_eq_some_iff.1 hl
      simp [ih hl'']

/-- A change of the open turn that keeps something about it keeps that of all turns. -/
theorem map_modifyRunning {β : Type} {f : Turn → Turn} {g : Turn → β}
    (h : ∀ turn, g (f turn) = g turn) (t : Transcript) :
    (t.modifyRunning f).turns.map g = t.turns.map g := by
  unfold Transcript.modifyRunning modifyLast
  cases hm : modifyFirst (fun turn => turn.status.isRunning) f t.turns.reverse with
  | none => rfl
  | some turns => simp [List.map_reverse, map_modifyFirst h hm]

theorem marks_absorb (t : Transcript) (event : SessionEvent) :
    (t.absorb event).turns.map Turn.inReplayWindow = t.turns.map Turn.inReplayWindow := by
  refine map_modifyRunning (fun turn => ?_) t
  unfold Turn.absorb
  split <;> first
    | rfl
    | split <;> rfl

section
variable (exts : Externals) (app : App)

/-- What only changes the display is quiet. -/
theorem quiet_display {selectedAgent errorScroll : ℕ} {shellTop : Option ℕ}
    {shellViewport : ℕ × ℕ} {composer : String} {notice : Option Notice}
    {shouldQuit : Bool} {lastError : Option ErrorReport} :
    Quiet app { app with
      selectedAgent := selectedAgent
      errorScroll := errorScroll
      shellTop := shellTop
      shellViewport := shellViewport
      composer := composer
      notice := notice
      shouldQuit := shouldQuit
      lastError := lastError } :=
  ⟨by constructor <;> rfl, by constructor <;> rfl, rfl, id⟩

theorem quiet_setNotice (notice : Notice) : Quiet app (app.setNotice notice) := quiet_display app

theorem quiet_showError : Quiet app app.showError := by
  unfold showError
  split_ifs
  · exact ⟨by constructor <;> rfl, by constructor <;> rfl, rfl, fun _ h => by cases h⟩
  · exact quiet_setNotice app _

theorem quiet_recordError (report : ErrorReport) : Quiet app (app.recordError report) :=
  quiet_display app

theorem quiet_raise (report : ErrorReport) : Quiet app (app.raise report) :=
  (quiet_recordError app report).trans (quiet_showError _)

theorem transcript_raise (report : ErrorReport) :
    (app.raise report).transcript = app.transcript := by
  unfold raise showError
  split_ifs <;> rfl

theorem quiet_moveSelection (delta : ℤ) : Quiet app (app.moveSelection delta) := by
  unfold moveSelection
  split_ifs
  · exact .refl app
  · exact quiet_display app

theorem quiet_requestStop : Quiet app app.requestStop.2 := by
  unfold requestStop
  split_ifs
  · exact .refl app
  · refine ⟨by constructor <;> rfl, by constructor <;> rfl, ?_, id⟩
    exact map_modifyRunning (f := fun turn => { turn with stopRequested := true })
      (fun _ => rfl) app.transcript

/-! ## The shell history -/

theorem sameContext_modifyPending (f : ShellEntry → ShellEntry) :
    SameContext app (app.modifyPending f) := by
  unfold modifyPending
  split
  · split_ifs <;> constructor <;> rfl
  · exact .refl _

@[simp] theorem transcript_modifyPending (f : ShellEntry → ShellEntry) :
    (app.modifyPending f).transcript = app.transcript := by
  unfold modifyPending
  split
  · split_ifs <;> rfl
  · rfl

@[simp] theorem busy_modifyPending (f : ShellEntry → ShellEntry) :
    (app.modifyPending f).busy = app.busy := by
  unfold modifyPending
  split
  · split_ifs <;> rfl
  · rfl

theorem composes_modifyPending (f : ShellEntry → ShellEntry) (h : app.Composes) :
    (app.modifyPending f).Composes := by
  unfold modifyPending
  split
  · split_ifs <;> exact h
  · exact h

end

/-- The history up to its last entry, which is still running. -/
def Pending (app : App) (before : List ShellEntry) (entry : ShellEntry) : Prop :=
  app.shellHistory = before ++ [entry] ∧ entry.exitCode = none

/-- Every entry is completed. -/
def Settled (app : App) : Prop := ∀ entry ∈ app.shellHistory, entry.exitCode.isSome

section
variable {exts : Externals} {app : App} {before : List ShellEntry} {entry : ShellEntry}

theorem Pending.modifyPending (h : app.Pending before entry) (f : ShellEntry → ShellEntry) :
    app.modifyPending f = { app with shellHistory := before ++ [f entry] } := by
  obtain ⟨hs, he⟩ := h
  simp [App.modifyPending, hs, he]

theorem Settled.modifyPending (h : app.Settled) (f : ShellEntry → ShellEntry) :
    app.modifyPending f = app := by
  unfold App.modifyPending
  split
  next entry he =>
    have := h entry (List.mem_of_getLast? he)
    rw [if_neg (by simpa using Option.isSome_iff_ne_none.1 this)]
  · rfl

theorem Pending.finishShell (h : app.Pending before entry) (done : ShellEntry) :
    app.finishShell done = { app with shellHistory := before ++ [done] } :=
  h.modifyPending _

/-- The entry a failure makes of a pending one. -/
def failedEntry (exts : Externals) (app : App) (report : ErrorReport) (entry : ShellEntry) :
    ShellEntry :=
  { entry with output := (app.report exts report).toString, exitCode := some 1 }

theorem sameContext_failShell (exts : Externals) (app : App) (report : ErrorReport) :
    SameContext app (app.failShell exts report) :=
  (sameContext_modifyPending app _).trans (quiet_recordError _ _).context

theorem transcript_failShell (exts : Externals) (app : App) (report : ErrorReport) :
    (app.failShell exts report).transcript = app.transcript :=
  transcript_modifyPending app _

theorem composes_failShell (exts : Externals) {app : App} (h : app.Composes)
    (report : ErrorReport) : (app.failShell exts report).Composes :=
  (quiet_recordError _ _).composes (composes_modifyPending app _ h)

theorem Pending.shellHistory_failShell (h : app.Pending before entry) (report : ErrorReport) :
    (app.failShell exts report).shellHistory = before ++ [failedEntry exts app report entry] := by
  simp [App.failShell, recordError, h.modifyPending, failedEntry]

theorem Settled.shellHistory_failShell (h : app.Settled) (report : ErrorReport) :
    (app.failShell exts report).shellHistory = app.shellHistory := by
  simp [App.failShell, recordError, h.modifyPending]

theorem pending_startShell (app : App) (line : String) :
    (app.startShell line).Pending app.shellHistory ⟨line, "", none, false⟩ := ⟨rfl, rfl⟩

end

/-! ## Turns -/

section
variable (exts : Externals) (app : App)

theorem sameContext_onSessionEvent (event : SessionEvent) :
    SameContext app (app.onSessionEvent event) := by
  unfold onSessionEvent
  split <;> constructor <;> rfl

theorem sameContext_onSessionComplete (remembered : ℕ) :
    SameContext app (app.onSessionComplete remembered) := by
  unfold onSessionComplete
  simp only
  split
  · split_ifs <;> constructor <;> rfl
  · constructor <;> rfl

theorem transcript_onSessionEvent (event : SessionEvent) :
    (app.onSessionEvent event).transcript = app.transcript.absorb event := by
  unfold onSessionEvent
  split <;> rfl

theorem marks_onSessionEvent (event : SessionEvent) :
    (app.onSessionEvent event).marks = app.marks := by
  rw [marks, transcript_onSessionEvent]
  exact marks_absorb app.transcript event

/-- After a turn the marks are those of the last `remembered` turns. -/
theorem marks_onSessionComplete (remembered : ℕ) :
    (app.onSessionComplete remembered).marks =
      (app.transcript.markReplayWindow remembered).turns.map Turn.inReplayWindow := by
  unfold onSessionComplete
  simp only
  split
  · split_ifs <;> rfl
  · rfl

/-- A submitted composer opens a turn with the prompt it yields, if it yields one. -/
theorem transcript_submitTurn :
    (app.submitTurn.1 = none → app.submitTurn.2.transcript = app.transcript) ∧
      ∀ prompt, app.submitTurn.1 = some prompt →
        app.submitTurn.2.transcript = app.transcript.opened prompt := by
  unfold submitTurn
  cases app.session with
  | none => simp [setNotice]
  | some session =>
    simp only
    split_ifs <;> simp [setNotice]

/-- What a submitted composer leaves: a notice, or a turn under way. -/
theorem submitTurn_cases :
    ((app.submitTurn).1 = none ∧ Quiet app app.submitTurn.2) ∨
      ∃ prompt session, app.submitTurn.1 = some prompt ∧ app.session = some session ∧
        app.busy = false ∧ SameContext app app.submitTurn.2 ∧ app.submitTurn.2.busy = true ∧
        app.submitTurn.2.marks = app.marks ++ [true] := by
  unfold submitTurn
  cases hs : app.session with
  | none => exact Or.inl ⟨rfl, quiet_setNotice app _⟩
  | some session =>
    simp only
    split_ifs with he hb hp
    · exact Or.inl ⟨rfl, quiet_setNotice app _⟩
    · exact Or.inl ⟨rfl, quiet_setNotice app _⟩
    · exact Or.inl ⟨rfl, quiet_setNotice app _⟩
    · exact Or.inr ⟨_, session, rfl, rfl, by simpa using hb,
        ⟨rfl, hs.symm, rfl, rfl, rfl, rfl, rfl, rfl⟩, rfl,
        by simp [marks, Transcript.opened, Turn.opened]⟩

end

end DekoponConsole.App
