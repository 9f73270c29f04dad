/-
  The stop flag and the cancel handles, over every run.

  * `AsksToStop`: the key presses that request a stop, and `stop_onKey` that a key
    press does nothing else to the flag;
  * `Handled`: a pass spawns a task under the next handle, joins the task in flight, or
    keeps both, with a stop request if the operator asked for one (`handled_step`);
  * `FlagBound`: the flag is bound to the handle of the task in flight, and every handle
    given out lies below the next one;
  * `stop_reaches_its_task`: a stop is pending exactly if it was so asked for while this
    very task was in flight.
-/
import DekoponConsole.Proof.Pass

namespace DekoponConsole

open App

/-- The key presses that ask for a stop: Esc while browsing or composing, with the console
    busy.  The help and error panes take the key for themselves. -/
def AsksToStop (c : Console) : Label → Prop
  | .key key _ =>
    c.app.busy = true ∧ key.code = .esc ∧ (c.app.mode = .browsing ∨ c.app.mode = .composing)
  | _ => False

instance (c : Console) (l : Label) : Decidable (AsksToStop c l) :=
  match l with
  | .key _ _ => inferInstanceAs (Decidable (_ ∧ _ ∧ _))
  | .action _ _ | .submitTurn _ | .event _ | .close _ | .intake _ | .resize _ _ =>
    inferInstanceAs (Decidable False)

namespace Console

/-- The task in flight. -/
def inFlight (c : Console) : Option Task := c.running.map RunningTurn.task

/-- The cancel handle of the task in flight. -/
def handle (c : Console) : Option CancelId := c.inFlight.map Task.signal

end Console

/-! ## Keys -/

section
variable (exts : Externals) (app : App) (key : KeyEvent) (stop : StopFlag)

theorem escOr_eq (otherwise : App) : (escOr app stop otherwise).2.2 =
    if app.busy then stop.request else stop := by
  unfold escOr requestStop
  cases app.busy <;> rfl

theorem stop_onComposingEnter : (onComposingEnter app stop).2.2 = stop := by
  unfold onComposingEnter
  split
  · dsimp only
    split_ifs <;> rfl
  · rfl

theorem stop_onComposingKey (h : key.code ≠ .esc) : (onComposingKey app key stop).2.2 = stop := by
  unfold onComposingKey
  cases hcode : key.code with
  | esc => exact absurd hcode h
  | char c =>
    dsimp only
    split_ifs <;> rfl
  | enter => exact stop_onComposingEnter app stop
  | _ => rfl

theorem stop_onBrowsingKey (h : key.code ≠ .esc) : (onBrowsingKey app key stop).2.2 = stop := by
  unfold onBrowsingKey
  split
  case h_12 hcode => exact absurd hcode h
  all_goals rfl

theorem onPagingKey_esc (h : key.code = .esc) : onPagingKey exts app key = none := by
  unfold onPagingKey
  rw [h]
  split_ifs <;> rfl

end

/-- A key press requests a stop exactly if it asks for one, and does nothing else to
    the flag. -/
theorem stop_onKey (exts : Externals) (c : Console) (key : KeyEvent) (answers : Answers) :
    (onKey exts c.app key c.stop).2.2 =
      if AsksToStop c (.key key answers) then c.stop.request else c.stop := by
  by_cases hcode : key.code = .esc
  · have hquit : ¬(key.modifiers.control = true ∧ key.code = .char 'c') := by
      rintro ⟨-, h⟩
      cases hcode.symm.trans h
    have hpaging := onPagingKey_esc exts c.app key hcode
    have hasks : AsksToStop c (.key key answers) ↔
        c.app.busy = true ∧ (c.app.mode = .browsing ∨ c.app.mode = .composing) := by
      simp only [AsksToStop, hcode, true_and]
    unfold onKey
    rw [if_neg hquit]
    cases hmode : c.app.mode with
    | help => simp [hasks, hmode]
    | error => simp [hasks, hmode]
    | composing => simp [hasks, hmode, hpaging, onComposingKey, hcode, escOr_eq]
    | browsing => simp [hasks, hmode, hpaging, onBrowsingKey, hcode, escOr_eq]
  · have hasks : ¬AsksToStop c (.key key answers) := fun h => hcode h.2.1
    rw [if_neg hasks]
    unfold onKey
    split_ifs
    · rfl
    cases c.app.mode with
    | help => rfl
    | error => rfl
    | composing =>
      dsimp only
      split
      · rfl
      · exact stop_onComposingKey c.app key c.stop hcode
    | browsing =>
      dsimp only
      split
      · rfl
      · exact stop_onBrowsingKey c.app key c.stop hcode

/-! ## One pass -/

/-- The open session and its inventory are there together. -/
def Console.Paired (c : Console) : Prop := c.app.session.isSome = c.app.assets.isSome

theorem paired_step {c : Console} (exts : Externals) (h : c.Paired) (l : Label) :
    (step exts c l).Paired := by
  unfold Console.Paired step at *
  rcases react_cases exts c l with ⟨hs, -⟩ | ⟨-, c₀, agent, c₁, app, -, -, happ, hd⟩
  · exact hs.context.app.inventory h
  · rw [hd]
    cases happ with
    | refused report =>
      have hq := quiet_raise (prepareHop exts c₁).app report
      exact hq.context.inventory rfl
    | entered leg hs ha => rfl

/-- **What a pass does to the handles**, where the keys alone leave the flag `stop`. -/
inductive Handled (c : Console) (stop : StopFlag) (c' : Console) : Prop
  /-- a task is spawned under the next handle, over the open inventory -/
  | spawned (task : Task) (signal : task.signal = c.nextCancel)
      (store : some task.leg.store = c.app.assets)
      (running : c'.running = some ⟨task, task.isShell, false⟩)
      (flag : c'.stop = StopFlag.default.bindBroker c.nextCancel)
      (next : c'.nextCancel = c.nextCancel + 1)
  /-- the task in flight is joined -/
  | joined (running : c'.running = none) (flag : c'.stop = .default)
      (busy : c'.app.busy = false) (next : c'.nextCancel = c.nextCancel)
  /-- the task in flight stays, if there is one -/
  | kept (task : c'.inFlight = c.inFlight)
      (flag : c'.stop = stop) (busy : c'.app.busy = true → c.app.busy = true)
      (next : c'.nextCancel = c.nextCancel)

/-- A pass that only changes the application keeps the task in flight. -/
theorem Handled.of_app {c : Console} {app : App} (h : app.busy = true → c.app.busy = true) :
    Handled c c.stop { c with app := app } := .kept rfl rfl h rfl

theorem Handled.of_keyed {c : Console} {stop : StopFlag} {app : App} {c' : Console}
    (h : Handled { c with app := app, stop := stop } stop c') (hb : app.busy = c.app.busy)
    (ha : app.assets = c.app.assets) : Handled c stop c' := by
  cases h with
  | spawned task signal store running flag next =>
    exact .spawned task signal (store.trans ha) running flag next
  | joined running flag busy next => exact .joined running flag busy next
  | kept task flag busy next => exact .kept task flag (fun h => hb ▸ busy h) next

theorem busy_refuseTurn (app : App) (report : ErrorReport) :
    (refuseTurn app report).busy = false := (quiet_raise _ report).shell.busy

section
variable {exts : Externals} {answers : Answers} {c : Console}

theorem running_dispatchEnter : (dispatchEnter exts answers c).1.running = c.running := by
  rcases dispatchEnter_cases exts answers c with ⟨text, -, hd⟩ | ⟨agent, c₁, hop, hd⟩
  · rw [hd]
    rfl
  · obtain ⟨app, -, ho⟩ := openHop_cases exts answers c₁ agent
    rw [hd, ho]
    rcases hop.resolved with ⟨p, -, rfl⟩ | ⟨-, rfl⟩ <;> rfl

theorem handled_enter : Handled c c.stop (dispatchEnter exts answers c).1 := by
  rcases dispatchEnter_cases exts answers c with ⟨text, -, h⟩ | ⟨agent, c₁, hop, h⟩
  · rw [h]
    exact .of_app id
  · obtain ⟨app, happ, ho⟩ := openHop_cases exts answers c₁ agent
    have hc₁ : c₁.app.busy = c.app.busy ∧ c₁.running = c.running ∧ c₁.stop = c.stop ∧
        c₁.nextCancel = c.nextCancel := by
      rcases hop.resolved with ⟨p, -, rfl⟩ | ⟨-, rfl⟩ <;> exact ⟨rfl, rfl, rfl, rfl⟩
    obtain ⟨hb, hr, hs, hn⟩ := hc₁
    have happ' : app.busy = c₁.app.busy := by
      cases happ with
      | refused report => exact (quiet_raise _ report).shell.busy
      | entered leg => rfl
    rw [h, ho]
    exact .kept (congrArg (Option.map RunningTurn.task) hr) hs (fun h => hb ▸ happ' ▸ h) hn

theorem handled_turn (prompt : String) (app : App) (heq : app.assets = c.app.assets)
    (hs : app.session.isSome) (ha : app.assets.isSome) :
    Handled c c.stop (dispatchTurn exts answers { c with app := app } prompt).1 := by
  rcases dispatchTurn_cases exts answers { c with app := app } prompt with
    ⟨hnone, -⟩ | ⟨-, ⟨-, trace, report, hd⟩ | ⟨-, leg, instructions, agent, hl, trace, hd⟩⟩
  · rcases hnone with hnone | hnone
    · cases (congrArg Option.isSome hnone).symm.trans hs
    · cases (congrArg Option.isSome hnone).symm.trans ha
  · rw [hd]
    exact .of_app fun hbusy => by rw [busy_refuseTurn] at hbusy; cases hbusy
  · rw [hd]
    exact .spawned (.turn prompt leg c.nextCancel instructions agent c.options c.history) rfl
      (hl.trans heq) rfl rfl rfl

theorem handled_shell (h : c.Paired) (line : String) :
    Handled c c.stop (dispatchShell exts answers c line).1 := by
  have he := dispatchShell_effect exts answers c line
  generalize dispatchShell exts answers c line = d at he
  obtain ⟨c', calls⟩ := d
  cases he with
  | refused text => exact .of_app id
  | missing hm => exact absurd hm (not_missing h)
  | completed hb identity stores hl input output exitCode hi _ hc =>
    exact .kept rfl rfl (fun hbusy => by cases hbusy) rfl
  | failed hb report _ hl => exact .of_app fun hbusy => by cases hbusy
  | spawned hb leg hs _ hl _ hspawned =>
    obtain ⟨trace, rfl⟩ := hspawned
    exact .spawned (.shell line leg c.nextCancel c.history) rfl hs rfl rfl rfl

theorem handled_dispatch (h : c.Paired) (action : Action) :
    Handled c c.stop (dispatch exts answers c action).1 := by
  cases action with
  | enter => exact handled_enter
  | shell line => exact handled_shell h line
  | turn prompt =>
    rcases dispatchTurn_cases exts answers c prompt with
      ⟨-, hd⟩ | ⟨⟨session, store, hs, ha, -⟩, -⟩
    · simp only [dispatch, hd]
      exact .of_app id
    · exact handled_turn prompt c.app rfl (by simp [hs]) (by simp [ha])

theorem handled_settleTurn (shell : Bool) (joined : Joined) (stop : StopFlag) :
    Handled c stop (settleTurn exts shell joined { c with running := none }) := by
  rw [settleTurn_eq]
  refine .joined rfl rfl ?_ rfl
  cases shell with
  | true => rfl
  | false => exact busy_onSessionComplete _ _

theorem busy_onEvent_imp (app : App) (event : SessionEvent) (h : (onEvent app event).busy = true) :
    app.busy = true := by
  have hpending (f : ShellEntry → ShellEntry) : (app.modifyPending f).busy = app.busy := by
    unfold modifyPending
    split
    · split_ifs <;> rfl
    · rfl
  cases event with
  | finished outcome => cases h
  | shellFinished entry => exact (hpending _).symm.trans h
  | _ => exact h

end

/-- **Every pass spawns, joins or keeps the task in flight**, and a stop is requested
    just where it is asked for. -/
theorem handled_step (exts : Externals) {c : Console} (h : c.Paired) (l : Label) :
    Handled c (if AsksToStop c l then c.stop.request else c.stop) (step exts c l) := by
  have hquiet {l : Label} {c' : Console} (hl : ¬AsksToStop c l) (h : Handled c c.stop c') :
      Handled c (if AsksToStop c l then c.stop.request else c.stop) c' := by rwa [if_neg hl]
  cases l with
  | key key answers =>
    have hkey := keyEffect_onKey exts c.app key c.stop
    have hkeyed : Handled (c.keyed exts key) (c.keyed exts key).stop
        (step exts c (.key key answers)) := by
      cases ha : (onKey exts c.app key c.stop).1 with
      | none =>
        rw [step, react_key_none ha]
        exact .of_app id
      | some action =>
        rw [step, react_key_some ha]
        have hpaired : (c.keyed exts key).Paired := hkey.quiet.context.inventory h
        exact handled_dispatch hpaired action
    rw [← stop_onKey exts]
    exact hkeyed.of_keyed hkey.quiet.shell.busy hkey.quiet.context.assets
  | action action answers => exact hquiet id (handled_dispatch h action)
  | submitTurn answers =>
    refine hquiet id ?_
    rcases submitTurn_cases c.app with ⟨hp, hq⟩ | ⟨prompt, session, hp, hs, -, hc, -, -⟩
    · rw [step, react_submit_none hp]
      exact .of_app fun hbusy => hq.shell.busy ▸ hbusy
    · rw [step, react_submit_some hp]
      have hsession : c.app.submitTurn.2.session.isSome := by simp [hc.session, hs]
      exact handled_turn prompt c.app.submitTurn.2 hc.assets hsession (hc.inventory h ▸ hsession)
  | event event =>
    refine hquiet id (.kept ?_ rfl (busy_onEvent_imp c.app event) rfl)
    simp only [step, react, receive, Console.inFlight]
    cases c.running <;> rfl
  | close joined =>
    refine hquiet id ?_
    cases hr : c.running with
    | none =>
      rw [step_close_none hr]
      exact .of_app id
    | some turn =>
      rw [step_close_some hr]
      exact handled_settleTurn turn.shell joined c.stop
  | intake intake =>
    refine hquiet id ?_
    obtain ⟨stores, hd⟩ := stores_intake exts c intake
    rw [hd]
    exact .kept rfl rfl id rfl
  | resize width height => exact hquiet id (.of_app id)

/-! ## Every run -/

/-- **The flag is bound to the task in flight.** -/
structure FlagBound (c : Console) : Prop where
  paired : c.Paired
  busy : c.app.busy = true → c.running.isSome
  flag : c.stop.broker = c.handle
  asked : c.stop.requested = true → c.running.isSome
  below : ∀ signal, c.handle = some signal → signal < c.nextCancel

section
variable {exts : Externals} {c : Console}

theorem flagBound_start (agents : List Agent) (subject socketPath credentialPath : String)
    (options : ConsoleOptions) :
    FlagBound (Console.start (App.new agents subject socketPath credentialPath) options) where
  paired := rfl
  busy := fun h => by cases h
  flag := rfl
  asked := fun h => by cases h
  below := fun _ h => by cases h

theorem isSome_inFlight (c : Console) : c.inFlight.isSome = c.running.isSome := Option.isSome_map

theorem isSome_handle (c : Console) : c.handle.isSome = c.running.isSome :=
  Option.isSome_map.trans (isSome_inFlight c)

theorem handle_none (h : c.running = none) : c.handle = none := by
  rw [Console.handle, Console.inFlight, h]
  rfl

theorem handle_some {task : Task} {shell reported : Bool}
    (h : c.running = some ⟨task, shell, reported⟩) : c.handle = some task.signal := by
  rw [Console.handle, Console.inFlight, h]
  rfl

theorem running_of_asks (h : FlagBound c) {l : Label} (hl : AsksToStop c l) : c.running.isSome := by
  cases l with
  | key key answers => exact h.busy hl.1
  | _ => exact hl.elim

theorem flagBound_step (h : FlagBound c) (l : Label) : FlagBound (step exts c l) := by
  have hpaired := paired_step exts h.paired l
  cases handled_step exts h.paired l with
  | spawned task signal store running flag next =>
    have hhandle := handle_some running
    refine ⟨hpaired, fun _ => by rw [running]; rfl, ?_, fun _ => by rw [running]; rfl, ?_⟩
    · rw [flag, hhandle, signal]
      rfl
    · intro signal' hsignal
      rw [hhandle, signal, Option.some.injEq] at hsignal
      rw [next, ← hsignal]
      exact Nat.lt_succ_self _
  | joined running flag busy next =>
    have hhandle := handle_none running
    refine ⟨hpaired, ?_, ?_, ?_, ?_⟩
    · intro hb
      cases busy.symm.trans hb
    · rw [flag, hhandle]
      rfl
    · intro hr
      rw [flag] at hr
      cases hr
    · intro signal hs
      cases hhandle.symm.trans hs
  | kept task flag busy next =>
    have hrunning : (step exts c l).running.isSome = c.running.isSome := by
      rw [← isSome_inFlight, task, isSome_inFlight]
    have hhandle : (step exts c l).handle = c.handle := congrArg (Option.map Task.signal) task
    refine ⟨hpaired, fun hb => hrunning.trans (h.busy (busy hb)), ?_, ?_, ?_⟩
    · rw [flag, hhandle, ← h.flag]
      split_ifs <;> rfl
    · intro hr
      rw [flag] at hr
      rw [hrunning]
      split_ifs at hr with hl
      · exact running_of_asks h hl
      · exact h.asked hr
    · rw [hhandle, next]
      exact h.below

theorem flagBound_exec (exts : Externals) (h : FlagBound c) (ls : List Label) :
    FlagBound (Runs.exec (step exts) c ls) :=
  Runs.exec_of_forall (I := FlagBound) (fun _ l h => flagBound_step h l) h ls

theorem nextCancel_exec (exts : Externals) (h : FlagBound c) (ls : List Label) :
    c.nextCancel ≤ (Runs.exec (step exts) c ls).nextCancel := by
  induction ls using List.reverseRecOn with
  | nil => exact le_rfl
  | append_singleton ls l ih =>
    rw [Runs.exec_concat]
    refine ih.trans ?_
    cases handled_step exts (flagBound_exec exts h ls).paired l with
    | spawned task signal store running flag next => exact next ▸ Nat.le_succ _
    | joined running flag busy next => exact next.ge
    | kept task flag busy next => exact next.ge

/-- A handle that was in use is not the next one. -/
theorem handle_lt_nextCancel (h : FlagBound c) {before ls : List Label} (hbefore : before <+: ls)
    {signal : CancelId} (hs : (Runs.exec (step exts) c before).handle = some signal) :
    signal < (Runs.exec (step exts) c ls).nextCancel := by
  obtain ⟨after, rfl⟩ := hbefore
  have hb := flagBound_exec exts h before
  rw [Runs.exec_append]
  exact (hb.below signal hs).trans_le (nextCancel_exec exts hb after)

end

/-- What a run makes of the stop flag: a handle names one task, and a stop is pending
    exactly if it was asked for under the handle of the task in flight. -/
structure StopsItsTask (exts : Externals) (c₀ : Console) (ls : List Label) : Prop where
  flag : (Runs.exec (step exts) c₀ ls).stop.broker = (Runs.exec (step exts) c₀ ls).handle
  names : ∀ before, before <+: ls →
    (Runs.exec (step exts) c₀ before).handle = (Runs.exec (step exts) c₀ ls).handle →
      (Runs.exec (step exts) c₀ before).inFlight = (Runs.exec (step exts) c₀ ls).inFlight
  pending : (Runs.exec (step exts) c₀ ls).stop.requested = true ↔
    ∃ before l after, ls = before ++ l :: after ∧ AsksToStop (Runs.exec (step exts) c₀ before) l ∧
      (Runs.exec (step exts) c₀ before).handle = (Runs.exec (step exts) c₀ ls).handle

section
variable {exts : Externals} {c₀ : Console} {ls : List Label}

theorem StopsItsTask.names_step (h₀ : FlagBound c₀) (h : StopsItsTask exts c₀ ls) (l : Label)
    {before : List Label} (hbefore : before <+: ls)
    (heq : (Runs.exec (step exts) c₀ before).handle =
      (step exts (Runs.exec (step exts) c₀ ls) l).handle) :
    (Runs.exec (step exts) c₀ before).inFlight =
      (step exts (Runs.exec (step exts) c₀ ls) l).inFlight := by
  cases handled_step exts (flagBound_exec exts h₀ ls).paired l with
  | spawned task signal store running flag next =>
    -- the handle it is spawned under was in use by no task before
    rw [handle_some running, signal] at heq
    exact absurd (handle_lt_nextCancel h₀ hbefore heq) (Nat.lt_irrefl _)
  | joined running flag busy next =>
    rw [handle_none running] at heq
    have hnone : (Runs.exec (step exts) c₀ before).inFlight = none := Option.map_eq_none_iff.1 heq
    rw [hnone, Console.inFlight, running]
    rfl
  | kept task flag busy next =>
    rw [Console.handle, Console.handle, task] at heq
    rw [task]
    exact h.names before hbefore heq

theorem StopsItsTask.pending_step (h₀ : FlagBound c₀) (h : StopsItsTask exts c₀ ls) (l : Label) :
    (step exts (Runs.exec (step exts) c₀ ls) l).stop.requested = true ↔
      (AsksToStop (Runs.exec (step exts) c₀ ls) l ∧ (Runs.exec (step exts) c₀ ls).handle =
          (step exts (Runs.exec (step exts) c₀ ls) l).handle) ∨
        ∃ before l' after, ls = before ++ l' :: after ∧
          AsksToStop (Runs.exec (step exts) c₀ before) l' ∧
            (Runs.exec (step exts) c₀ before).handle =
              (step exts (Runs.exec (step exts) c₀ ls) l).handle := by
  have hb := flagBound_exec exts h₀ ls
  -- what was asked for before was asked for under a handle given out before
  have hbefore {before after : List Label} {l' : Label} (hls : ls = before ++ l' :: after)
      (hasks : AsksToStop (Runs.exec (step exts) c₀ before) l') :
      ∃ signal, (Runs.exec (step exts) c₀ before).handle = some signal ∧
        signal < (Runs.exec (step exts) c₀ ls).nextCancel := by
    have hrunning := running_of_asks (flagBound_exec exts h₀ before) hasks
    rw [← isSome_handle] at hrunning
    obtain ⟨signal, hs⟩ := Option.isSome_iff_exists.1 hrunning
    exact ⟨signal, hs, handle_lt_nextCancel h₀ ⟨_, hls.symm⟩ hs⟩
  cases handled_step exts hb.paired l with
  | spawned task signal store running flag next =>
    rw [flag, handle_some running, signal]
    refine ⟨(fun h => by cases h), ?_⟩
    rintro (⟨hasks, heq⟩ | ⟨before, l', after, hls, hasks, heq⟩)
    · exact absurd (hb.below _ heq) (Nat.lt_irrefl _)
    · obtain ⟨signal', hs, hlt⟩ := hbefore hls hasks
      obtain rfl := Option.some.inj (hs.symm.trans heq)
      exact absurd hlt (Nat.lt_irrefl _)
  | joined running flag busy next =>
    rw [flag, handle_none running]
    refine ⟨(fun h => by cases h), ?_⟩
    rintro (⟨hasks, heq⟩ | ⟨before, l', after, hls, hasks, heq⟩)
    · have hrunning := running_of_asks hb hasks
      rw [← isSome_handle, heq] at hrunning
      cases hrunning
    · obtain ⟨signal, hs, -⟩ := hbefore hls hasks
      cases hs.symm.trans heq
  | kept task flag busy next =>
    have hhandle : (step exts (Runs.exec (step exts) c₀ ls) l).handle =
        (Runs.exec (step exts) c₀ ls).handle := congrArg (Option.map Task.signal) task
    rw [flag, hhandle, ← h.pending]
    by_cases hasks : AsksToStop (Runs.exec (step exts) c₀ ls) l
    · simp [hasks, StopFlag.request]
    · simp [hasks]

end

/-- **A stop reaches the task it was asked for, and no other.**  In every run of the loop,
    whatever is dispatched, reported and joined: the flag is bound to the task in flight,
    no handle is given to two tasks, and a stop is pending exactly if Esc was pressed while
    browsing or composing, with the console busy and this very task in flight. -/
theorem stop_reaches_its_task (exts : Externals) (agents : List Agent)
    (subject socketPath credentialPath : String) (options : ConsoleOptions) (ls : List Label) :
    StopsItsTask exts (Console.start (App.new agents subject socketPath credentialPath) options)
      ls := by
  have h₀ := flagBound_start agents subject socketPath credentialPath options
  induction ls using List.reverseRecOn with
  | nil =>
    refine ⟨rfl, ?_, ?_⟩
    · intro before hbefore _
      rw [List.prefix_nil.1 hbefore]
    · refine ⟨(fun h => by cases h), ?_⟩
      rintro ⟨before, l, after, h, -⟩
      simp at h
  | append_singleton ls l ih =>
    have hflag := (flagBound_exec exts h₀ (ls ++ [l])).flag
    rw [Runs.exec_concat] at hflag
    constructor <;> rw [Runs.exec_concat]
    · exact hflag
    · intro before hbefore heq
      rcases List.prefix_concat_iff.1 hbefore with rfl | hbefore
      · rw [Runs.exec_concat]
      · exact ih.names_step h₀ l hbefore heq
    · rw [ih.pending_step h₀ l, Runs.exists_step_concat ls l]

end DekoponConsole
