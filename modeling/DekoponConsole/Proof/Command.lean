/-
  A command, from its spawn to the shell history.

  * `InCommand`: a command is in flight, and its entry stands last, pending until its end
    is reported;
  * `inCommand_spawned`: a pass that spawns a command echoes its line;
  * `command_reported`: whatever the loop meets meanwhile, the entry is completed with what
    the script put out, and the history comes back as it was.
-/
import DekoponConsole.Proof.Stop
import DekoponConsole.Proof.Task

namespace DekoponConsole

open App

variable {σ π : Type} {exts : Externals}

/-- A command is in flight after the entries `before`; `done` says that its end was
    received. -/
structure InCommand (before : List ShellEntry) (entry : ShellEntry) (task : Task) (done : Bool)
    (c : Console) : Prop where
  running : c.running = some ⟨task, true, done⟩
  shell : c.app.shellHistory = before ++ [entry]
  completed : entry.exitCode.isSome = done

section
variable {before : List ShellEntry} {entry : ShellEntry} {task : Task} {done : Bool}
  {c c' : Console}

theorem InCommand.of_eq (h : InCommand before entry task done c) (hr : c'.running = c.running)
    (hs : c'.app.shellHistory = c.app.shellHistory) : InCommand before entry task done c' :=
  ⟨hr.trans h.running, hs.trans h.shell, h.completed⟩

/-- A pass that neither dispatches nor receives leaves the command as it is. -/
theorem InCommand.pass (h : InCommand before entry task done c) {l : Label}
    (hl : Meanwhile exts c l) (hn : l.received = none) :
    InCommand before entry task done (step exts c l) ∧ Admits c l := by
  obtain ⟨hclose, hperformed⟩ := hl
  cases l with
  | key key answers =>
    refine ⟨?_, trivial⟩
    rw [step, react_key_none hperformed]
    exact h.of_eq rfl (keyEffect_onKey exts c.app key c.stop).quiet.shell.shellHistory
  | action action answers => cases hperformed
  | submitTurn answers =>
    refine ⟨?_, trivial⟩
    have hnone : c.app.submitTurn.1 = none := by simpa [performed] using hperformed
    rw [step, react_submit_none hnone]
    rcases submitTurn_cases c.app with ⟨-, hq⟩ | ⟨prompt, session, hp, -⟩
    · exact h.of_eq rfl hq.shell.shellHistory
    · cases hnone.symm.trans hp
  | event event => cases hn
  | close joined => exact absurd rfl (hclose joined)
  | intake intake =>
    refine ⟨?_, by rw [Admits, h.running]; rfl⟩
    obtain ⟨stores, hs⟩ := stores_intake exts c intake
    rw [hs]
    exact h.of_eq rfl rfl
  | resize width height => exact ⟨h.of_eq rfl rfl, trivial⟩

/-- The end of the command completes its entry. -/
theorem InCommand.finish (exts : Externals) {line : String} {leg : BrokerLeg} {signal : CancelId}
    {previous : History} (h : InCommand before entry (.shell line leg signal previous) false c)
    {completed : ShellEntry} (hline : completed.input = line) (hcode : completed.exitCode.isSome) :
    InCommand before completed (.shell line leg signal previous) true
        (step exts c (.event (.shellFinished completed))) ∧
      Admits c (.event (.shellFinished completed)) := by
  have hpending : c.app.Pending before entry :=
    ⟨h.shell, by simpa using h.completed⟩
  refine ⟨⟨?_, ?_, hcode⟩, _, h.running, rfl, hline, hcode⟩
  · simp [step, react, receive, h.running, SessionEvent.isLast]
  · show (c.app.finishShell completed).shellHistory = _
    rw [hpending.finishShell]

end

/-! ## The spawn -/

/-- A command under way leaves its echo and takes the history. -/
structure Commanded (c : Console) (line : String) (previous : History) (c' : Console) : Prop where
  previous : previous = c.history
  echoed : c'.app.shellHistory = c.app.shellHistory ++ [⟨line, "", none, false⟩]

/-- A turn is no command. -/
theorem running_dispatchTurn_ne {answers : Answers} {c : Console} {prompt line : String}
    {leg : BrokerLeg} {signal : CancelId} {previous : History}
    (hnew : (dispatchTurn exts answers c prompt).1.running ≠ c.running) :
    (dispatchTurn exts answers c prompt).1.running ≠
      some ⟨.shell line leg signal previous, true, false⟩ := by
  intro h
  rcases dispatchTurn_cases exts answers c prompt with
    ⟨-, hd⟩ | ⟨-, ⟨-, trace, report, hd⟩ | ⟨-, leg, instructions, agent, -, trace, hd⟩⟩
  · exact hnew (by rw [hd])
  · exact hnew (by rw [hd])
  · rw [hd] at h
    cases h

theorem commanded_dispatch {answers : Answers} {c : Console} {action : Action} {line : String}
    {leg : BrokerLeg} {signal : CancelId} {previous : History}
    (hnew : (dispatch exts answers c action).1.running ≠ c.running)
    (h : (dispatch exts answers c action).1.running =
      some ⟨.shell line leg signal previous, true, false⟩) :
    Commanded c line previous (dispatch exts answers c action).1 := by
  cases action with
  | enter => exact absurd running_dispatchEnter hnew
  | turn prompt => exact absurd h (running_dispatchTurn_ne hnew)
  | shell input =>
    rw [dispatch] at h hnew ⊢
    have he := dispatchShell_effect exts answers c input
    generalize dispatchShell exts answers c input = d at h hnew he
    obtain ⟨c', calls⟩ := d
    cases he with
    | refused text => exact absurd rfl hnew
    | missing hm app ha => exact absurd rfl hnew
    | completed hb identity stores hl input output exitCode hi _ hc => exact absurd rfl hnew
    | failed hb report _ hl => exact absurd rfl hnew
    | spawned hb leg hs _ hl _ hspawned =>
      obtain ⟨trace, rfl⟩ := hspawned
      obtain ⟨rfl⟩ := Option.some.inj h
      exact ⟨rfl, rfl⟩

/-- **A pass that spawns a command** echoes its line, and is admitted. -/
theorem inCommand_spawned {c : Console} {l : Label} {line : String} {leg : BrokerLeg}
    {signal : CancelId} {previous : History} (hnew : (step exts c l).running ≠ c.running)
    (h : (step exts c l).running = some ⟨.shell line leg signal previous, true, false⟩) :
    previous = c.history ∧ Admits c l ∧
      InCommand c.app.shellHistory ⟨line, "", none, false⟩ (.shell line leg signal previous) false
        (step exts c l) := by
  have hcommanded (c₀ : Console) (hr : c₀.running = c.running) (hh : c₀.history = c.history)
      (hs : c₀.app.shellHistory = c.app.shellHistory) (answers : Answers) (action : Action)
      (hstep : step exts c l = (dispatch exts answers c₀ action).1) :
      previous = c.history ∧
        InCommand c.app.shellHistory ⟨line, "", none, false⟩ (.shell line leg signal previous) false
          (step exts c l) := by
    rw [hstep] at h hnew ⊢
    obtain ⟨hprevious, hechoed⟩ := commanded_dispatch (hr ▸ hnew) h
    exact ⟨hprevious.trans hh, h, hs ▸ hechoed, rfl⟩
  cases l with
  | key key answers =>
    cases ha : (onKey exts c.app key c.stop).1 with
    | none =>
      rw [step, react_key_none ha] at hnew
      exact absurd rfl hnew
    | some action =>
      have hquiet := (keyEffect_onKey exts c.app key c.stop).quiet
      obtain ⟨hp, hin⟩ := hcommanded (c.keyed exts key) rfl rfl hquiet.shell.shellHistory
        answers action (by rw [step, react_key_some ha])
      exact ⟨hp, trivial, hin⟩
  | action action answers =>
    obtain ⟨hp, hin⟩ := hcommanded c rfl rfl rfl answers action rfl
    exact ⟨hp, trivial, hin⟩
  | submitTurn answers =>
    cases hp : c.app.submitTurn.1 with
    | none =>
      rw [step, react_submit_none hp] at hnew
      exact absurd rfl hnew
    | some prompt =>
      rw [step, react_submit_some hp] at h hnew
      exact absurd h (running_dispatchTurn_ne (c := c.submitted) hnew)
  | event event =>
    -- an event spawns nothing; it may mark the task it came from
    refine absurd ?_ hnew
    cases hr : c.running with
    | none => simp [step, react, receive, hr]
    | some turn =>
      simp only [step, react, receive, hr, Option.map_some, Option.some.injEq] at h ⊢
      have hlast : event.isLast = false :=
        (Bool.or_eq_false_iff.1 (congrArg RunningTurn.reported h)).2
      rw [hlast, Bool.or_false]
  | close joined =>
    cases hr : c.running with
    | none =>
      rw [step_close_none hr] at hnew
      exact absurd rfl hnew
    | some turn =>
      rw [step_close_some hr, settleTurn_eq] at h
      cases h
  | intake intake =>
    obtain ⟨stores, hs⟩ := stores_intake exts c intake
    exact absurd (by rw [hs]) hnew
  | resize width height => exact absurd rfl hnew

/-! ## The run -/

/-- **A command in flight**, over any run that meets its end and whatever else comes
    meanwhile. -/
theorem InCommand.run {before : List ShellEntry} {entry completed : ShellEntry} {line : String}
    {leg : BrokerLeg} {signal : CancelId} {previous : History} {done : Bool} {c : Console}
    (h : InCommand before entry (.shell line leg signal previous) done c)
    (hline : completed.input = line) (hcode : completed.exitCode.isSome)
    {ls : List Label} (hls : Runs.Steps (step exts) (Meanwhile exts) c ls)
    (hevents : ls.filterMap Label.received = if done then [] else [.shellFinished completed]) :
    InCommand before (if done then entry else completed) (.shell line leg signal previous) true
        (Runs.exec (step exts) c ls) ∧ Runs.Steps (step exts) Admits c ls := by
  induction ls generalizing c entry done with
  | nil =>
    cases done with
    | true => exact ⟨h, trivial⟩
    | false => cases hevents
  | cons l ls ih =>
    cases hl : l.received with
    | none =>
      obtain ⟨hpass, hadmits⟩ := h.pass hls.1 hl
      rw [List.filterMap_cons_none hl] at hevents
      obtain ⟨hrest, hsteps⟩ := ih hpass hls.2 hevents
      exact ⟨hrest, hadmits, hsteps⟩
    | some event =>
      rw [List.filterMap_cons_some hl] at hevents
      cases done with
      | true => cases hevents
      | false =>
        obtain ⟨rfl, hnone⟩ := List.cons.inj hevents
        obtain rfl : l = .event (.shellFinished completed) := by
          cases l <;> cases hl
          rfl
        obtain ⟨hfinish, hadmits⟩ := h.finish exts hline hcode
        obtain ⟨hrest, hsteps⟩ := ih hfinish hls.2 hnone
        exact ⟨hrest, hadmits, hsteps⟩

/-- **A command in the shell history is the script it ran.**  From a pass that spawns a
    command, over any run in which the loop receives what `runShell` sends and meets anything
    else that dispatches nothing, to the join: every pass is one the loop admits; nothing
    runs any more; the shell history has one more entry, the line with what the script put
    out; and the replay window is the one the console had. -/
theorem command_reported (elapsed : ℕ → ℕ) (runtime : Runtime σ π) (invoker : Invoker σ π) (s : σ)
    {c : Console} {l : Label} {line : String} {leg : BrokerLeg} {signal : CancelId}
    {previous : History} (hnew : (step exts c l).running ≠ c.running)
    (hspawned : (step exts c l).running = some ⟨.shell line leg signal previous, true, false⟩)
    {ls : List Label} (hls : Runs.Steps (step exts) (Meanwhile exts) (step exts c l) ls)
    (hevents : ls.filterMap Label.received =
      (runShell (receiving elapsed) runtime invoker line previous s ⟨0, 0, []⟩).2.2.sent) :
    let outcome := (bareRunScript runtime invoker line s).outcome
    let passes := l :: ls ++ [.close (.returned previous)]
    let c' := Runs.exec (step exts) c passes
    Runs.Steps (step exts) Admits c passes ∧ c'.running = none ∧ c'.app.busy = false ∧
      c'.stop = .default ∧ c'.history = c.history ∧
      c'.app.shellHistory = c.app.shellHistory ++
        [⟨line, outcome.output, some outcome.exitCode, outcome.truncated⟩] := by
  intro outcome passes c'
  obtain ⟨hprevious, hadmitted, hstart⟩ := inCommand_spawned hnew hspawned
  have hinput : (⟨line, outcome.output, some outcome.exitCode, outcome.truncated⟩ : ShellEntry).input =
      line := rfl
  obtain ⟨hend, hadmits⟩ := hstart.run hinput rfl hls hevents
  have hrunning := hend.running
  have hshell := hend.shell
  set d := Runs.exec (step exts) (step exts c l) ls with hd
  have hc' : c' = settleTurn exts true (.returned previous) { d with running := none } := by
    show Runs.exec (step exts) c (l :: ls ++ _) = _
    rw [Runs.exec_concat, Runs.exec_cons, ← hd, step_close_some hrunning]
  have hsteps : Runs.Steps (step exts) Admits c passes := by
    show Runs.Steps (step exts) Admits c (l :: (ls ++ _))
    refine ⟨hadmitted, ?_⟩
    rw [Runs.steps_append]
    refine ⟨hadmits, ⟨_, hrunning, fun history hh => ?_⟩, trivial⟩
    exact (Joined.returned.inj hh).symm
  have hsettled : settleShell exts d.app = d.app := by
    unfold settleShell
    rw [hshell]
    simp
  rw [settleTurn_eq] at hc'
  refine ⟨hsteps, ?_, ?_, ?_, ?_, ?_⟩
  · rw [hc']
  · rw [hc']
    rfl
  · rw [hc']
  · rw [hc', ← hprevious]
    rfl
  · rw [hc']
    show (settleShell exts d.app).shellHistory = _
    rw [hsettled, hshell]
    rfl

/-- A command that prints one line. -/
def Sample.printing : Runtime Unit Unit := fun _ s => .finish ⟨"a.txt", 0, false, 0, 1⟩ s

/-- A command of `ops`, while the operator leaves the composer. -/
theorem command_reported_sample :
    let c := Runs.exec (step .plain) (Console.start Sample.app Sample.options)
      [.action .enter Sample.answers]
    let c' := Runs.exec (step .plain) c [.action (.shell "ls") Sample.answers,
      .key ⟨.tab, .none⟩ Sample.answers, .event (.shellFinished ⟨"ls", "a.txt", some 0, false⟩),
      .close (.returned .new)]
    c'.running = none ∧ c'.app.shellHistory = [⟨"ls", "a.txt", some 0, false⟩] := by
  intro c c'
  have hspawned : (step .plain c (.action (.shell "ls") Sample.answers)).running =
      some ⟨.shell "ls" _ _ .new, true, false⟩ := rfl
  have hls : Runs.Steps (step .plain) (Meanwhile .plain)
      (step .plain c (.action (.shell "ls") Sample.answers))
      [.key ⟨.tab, .none⟩ Sample.answers,
        .event (.shellFinished ⟨"ls", "a.txt", some 0, false⟩)] :=
    ⟨⟨(fun _ h => by cases h), rfl⟩, ⟨(fun _ h => by cases h), rfl⟩, trivial⟩
  obtain ⟨-, hr, -, -, -, hs⟩ := command_reported (fun _ => 0) Sample.printing
    (fun _ s => (.succeeded, s)) () (fun h => by cases h) hspawned hls rfl
  exact ⟨hr, hs⟩

end DekoponConsole
