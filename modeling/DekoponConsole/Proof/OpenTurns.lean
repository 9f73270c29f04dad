/-
  Which turns of the transcript are still running.

  * `App.outline` lists the turns with how each stands, and what the operations
    make of it: keys and commands keep it, a hop empties it, events and refusals
    end the open turn;
  * `Console.asking` is the model turn in flight until its last event;
  * `RecordsInFlight` says that a running turn is the last one and that in flight;
  * `Asking` is the invariant behind it, `Reported` the condition on one pass: a
    model turn is joined after its last event was received;
  * `recordsInFlight_iff_reported`: a run keeps its records so exactly if all its
    passes meet the condition.
-/
import DekoponConsole.Lib.Runs
import DekoponConsole.Proof.Flight
import DekoponConsole.Proof.Startup
import DekoponConsole.Proof.Turn

namespace DekoponConsole

open App

variable {exts : Externals}

/-! ## The open turn -/

/-- No turn of an outline is running. -/
def Closed (outline : List (String × TurnStatus)) : Prop :=
  ∀ entry ∈ outline, entry.2.isRunning = false

theorem Closed.concat {outline : List (String × TurnStatus)} (h : Closed outline)
    {prompt : String} {status : TurnStatus} (hs : status.isRunning = false) :
    Closed (outline ++ [(prompt, status)]) :=
  List.forall_mem_append.2 ⟨h, by simpa using hs⟩

/-- The turns, each with its prompt and its status. -/
def Transcript.outline (t : Transcript) : List (String × TurnStatus) :=
  t.turns.map fun turn => (turn.prompt, turn.status)

theorem Turn.prompt_absorb (t : Turn) (event : SessionEvent) :
    (t.absorb event).prompt = t.prompt := by
  unfold Turn.absorb
  split <;> first
    | rfl
    | split <;> rfl

namespace Transcript

variable {t : Transcript}

theorem outline_modifyRunning (t : Transcript) {f : Turn → Turn}
    (h : ∀ turn, (f turn).prompt = turn.prompt ∧ (f turn).status = turn.status) :
    (t.modifyRunning f).outline = t.outline := by
  refine map_modifyRunning (fun turn => ?_) t
  rw [(h turn).1, (h turn).2]

/-- Without a running turn there is none to change. -/
theorem modifyRunning_closed (h : Closed t.outline) (f : Turn → Turn) : t.modifyRunning f = t := by
  have hclosed : ∀ turn ∈ t.turns, turn.status.isRunning = false :=
    fun turn hturn => h _ (List.mem_map_of_mem hturn)
  rcases modifyLast_cases (p := fun turn : Turn => turn.status.isRunning) f t.turns with
    ⟨hm, -⟩ | ⟨before, turn, after, hl, hr, -, -⟩
  · rw [modifyRunning, hm]
    rfl
  · have := hclosed turn (by simp [hl])
    simp [hr] at this

/-- The last turn of an outline is the last turn. -/
theorem exists_last {before : List (String × TurnStatus)} {prompt : String} {status : TurnStatus}
    (h : t.outline = before ++ [(prompt, status)]) :
    ∃ front turn, t.turns = front ++ [turn] ∧ turn.prompt = prompt ∧ turn.status = status ∧
      front.map (fun turn => (turn.prompt, turn.status)) = before := by
  obtain ⟨front, last, hturns, hfront, hlast⟩ := List.map_eq_append_iff.1 h
  obtain ⟨turn, rfl, hturn⟩ := List.map_eq_singleton_iff.1 hlast
  obtain ⟨hprompt, hstatus⟩ := Prod.mk.inj hturn
  exact ⟨front, turn, hturns, hprompt, hstatus, hfront⟩

/-- An event other than the outcome leaves every turn as it stands. -/
theorem outline_absorb (t : Transcript) {event : SessionEvent} (h : event.fills) :
    (t.absorb event).outline = t.outline :=
  t.outline_modifyRunning fun turn => ⟨turn.prompt_absorb event, turn.status_absorb h⟩

/-- The outcome ends the open turn. -/
theorem outline_finished {before : List (String × TurnStatus)} {prompt : String}
    (h : t.outline = before ++ [(prompt, .running)]) (outcome : Except String PromptOutcome) :
    ∃ status : TurnStatus, status.isRunning = false ∧
      (t.absorb (.finished outcome)).outline = before ++ [(prompt, status)] := by
  obtain ⟨front, turn, hturns, rfl, hstatus, rfl⟩ := exists_last h
  refine ⟨(turn.absorb (.finished outcome)).status, ?_, ?_⟩
  · simp only [Turn.absorb]
    split
    · split <;> rfl
    · rfl
  · have hrunning : turn.status.isRunning = true := by rw [hstatus]; rfl
    rw [outline, absorb, turns_modifyRunning hturns hrunning, List.map_append]
    rfl

theorem outline_opened (t : Transcript) (prompt : String) :
    (t.opened prompt).outline = t.outline ++ [(prompt, .running)] := by
  simp [outline, opened, Turn.opened]

theorem outline_markReplayWindow (t : Transcript) (remembered : ℕ) :
    (t.markReplayWindow remembered).outline = t.outline := by
  refine List.ext_getElem (by simp [outline, markReplayWindow]) fun i _ _ => ?_
  simp [outline, markReplayWindow]

end Transcript

/-! ## What the operations make of the turns -/

namespace App

/-- The turns stand as they did. -/
def SameTurns (app app' : App) : Prop := app'.transcript.outline = app.transcript.outline

theorem SameTurns.of_transcript {app app' : App} (h : app'.transcript = app.transcript) :
    SameTurns app app' := congrArg Transcript.outline h

theorem sameTurns_requestStop (app : App) : SameTurns app app.requestStop.2 := by
  unfold requestStop
  split_ifs
  · rfl
  · exact app.transcript.outline_modifyRunning fun _ => ⟨rfl, rfl⟩

theorem sameTurns_onSessionComplete (app : App) (remembered : ℕ) :
    SameTurns app (app.onSessionComplete remembered) := by
  have hmarked := app.transcript.outline_markReplayWindow remembered
  unfold onSessionComplete
  simp only
  split
  · split_ifs <;> exact hmarked
  · exact hmarked

end App

/-! ### Keys, commands, hops and turns -/

/-- A key press leaves the turns as they stand. -/
theorem sameTurns_onKey (exts : Externals) (app : App) (key : KeyEvent) (stop : StopFlag) :
    SameTurns app (onKey exts app key stop).2.1 := by
  rcases (undisplayed_onKey exts app key stop).running with ⟨-, h⟩ | h
  · exact .of_transcript h
  · rw [h]
    exact sameTurns_requestStop app

theorem sameTurns_shell {c c' : Console} {line : String} {calls : List BrokerCall}
    (h : ShellEffect exts c line c' calls) : SameTurns c.app c'.app := by
  cases h with
  | refused text => rfl
  | missing h app ha => rcases ha with rfl | rfl <;> rfl
  | completed hb identity stores hl input output exitCode hi calls hc =>
    rw [completeLocally_eq]
    rfl
  | failed hb report calls hl => exact .of_transcript (transcript_failShell exts _ report)
  | spawned hb leg hs calls hl c' h =>
    obtain ⟨trace, rfl⟩ := h
    rfl

/-- The turns stand as they did, or a hop forgot them. -/
def KeepsTurns (c c' : Console) : Prop :=
  SameTurns c.app c'.app ∨ (c.app.busy = false ∧ c'.app.transcript = .empty)

theorem keepsTurns_enter (exts : Externals) (answers : Answers) (c : Console) :
    KeepsTurns c (dispatchEnter exts answers c).1 := by
  rcases dispatchEnter_cases exts answers c with ⟨text, -, h⟩ | ⟨agent, c₁, hop, h⟩
  · rw [h]
    exact Or.inl rfl
  · obtain ⟨app, happ, ho⟩ := openHop_cases exts answers c₁ agent
    rw [h, ho]
    refine Or.inr ⟨hop.idle, ?_⟩
    rcases happ with ⟨report⟩ | ⟨leg, -, -⟩
    · exact transcript_raise _ report
    · rfl

theorem keepsTurns_key (key : KeyEvent) (answers : Answers) (c : Console) :
    KeepsTurns c (step exts c (.key key answers)) := by
  have hk := keyEffect_onKey exts c.app key c.stop
  have ht := sameTurns_onKey exts c.app key c.stop
  simp only [step, react]
  generalize onKey exts c.app key c.stop = keyed at hk ht
  obtain ⟨action, app, stop⟩ := keyed
  rcases hk.action with rfl | rfl | ⟨line, rfl⟩
  · exact Or.inl ht
  · rcases keepsTurns_enter exts answers { c with app := app, stop := stop } with h | ⟨hb, h⟩
    · exact Or.inl (h.trans ht)
    · exact Or.inr ⟨hk.quiet.shell.busy.symm.trans hb, h⟩
  · have hs := dispatchShell_effect exts answers { c with app := app, stop := stop } line
    exact Or.inl ((sameTurns_shell hs).trans ht)

/-- A refused turn is the last one, and ended. -/
theorem outline_refuseTurn (app : App) (report : ErrorReport)
    {before : List (String × TurnStatus)} {prompt : String}
    (h : app.transcript.outline = before ++ [(prompt, .running)]) :
    ∃ status : TurnStatus, status.isRunning = false ∧
      (refuseTurn app report).transcript.outline = before ++ [(prompt, status)] := by
  rw [refuseTurn, transcript_raise, transcript_onSessionEvent]
  exact Transcript.outline_finished h _

theorem sameTurns_onEvent (app : App) {event : SessionEvent} (h : event.fills) :
    SameTurns app (onEvent app event) := by
  unfold onEvent
  split
  · rfl
  · exact .of_transcript (transcript_modifyPending app _)
  · rw [SameTurns, transcript_onSessionEvent]
    exact app.transcript.outline_absorb h

theorem busy_onEvent (app : App) {event : SessionEvent} (h : event.fills) :
    (onEvent app event).busy = app.busy := by
  unfold onEvent
  split
  · rfl
  · exact busy_modifyPending app _
  · unfold onSessionEvent
    split
    · cases h
    · rfl

theorem sameTurns_settleTurn (shell : Bool) (joined : Joined) (c : Console) :
    SameTurns c.app (settleTurn exts shell joined c).app := by
  have hreported := transcript_reportJoined exts shell joined c.app
  rw [settleTurn_eq]
  cases shell with
  | true => exact .of_transcript ((transcript_settleShell exts _).trans hreported)
  | false =>
    exact (sameTurns_onSessionComplete _ _).trans (congrArg Transcript.outline hreported)

/-! ## The turn in flight -/

/-- The prompt of the model turn in flight, until its last event is received. -/
def Console.asking (c : Console) : Option String :=
  c.running.bind fun turn =>
    match turn.task with
    | .shell .. => none
    | .turn prompt .. => if turn.reported then none else some prompt

/-- The labels of the loop, where a turn is dispatched when it was submitted. -/
def Submits (c : Console) : Label → Prop
  | .action (.turn _) _ => False
  | l => Admits c l

/-- A model turn is joined after its last event was received. -/
def Reported (c : Console) : Label → Prop
  | .close _ => c.asking = none
  | _ => True

/-- At most one turn is running, and none without a model turn in flight; events
    and stop requests are recorded on the last turn, which is the one in flight. -/
structure RecordsInFlight (c : Console) : Prop where
  single : (c.app.transcript.turns.filter fun turn => turn.status.isRunning).length ≤ 1
  settled : c.asking = none → ∀ turn ∈ c.app.transcript.turns, turn.status.isRunning = false
  recorded : ∀ prompt, c.asking = some prompt → ∃ before turn,
    c.app.transcript.turns = before ++ [turn] ∧ turn.prompt = prompt ∧
    (∀ event, Admits c (.event event) →
      (receive c event).app.transcript.turns = before ++ [turn.absorb event]) ∧
    c.app.requestStop.2.transcript.turns = before ++ [{ turn with stopRequested := true }]
  unrecorded : c.asking = none → c.app.requestStop.2.transcript = c.app.transcript

/-- The inductive invariant. -/
structure Asking (c : Console) : Prop where
  assets : c.app.session.isSome = c.app.assets.isSome
  shell : ∀ turn, c.running = some turn → turn.shell = turn.task.isShell
  busy : c.asking.isSome → c.app.busy = true
  last : ∀ prompt, c.asking = some prompt → ∃ before,
    Closed before ∧ c.app.transcript.outline = before ++ [(prompt, .running)]

/-- No turn is running without a model turn in flight. -/
def TurnsSettled (c : Console) : Prop := c.asking = none → Closed c.app.transcript.outline

/-- The model turn in flight, while it is asked. -/
theorem asking_eq_some {c : Console} {prompt : String} (h : c.asking = some prompt) :
    ∃ turn leg signal instructions agent options history, c.running = some turn ∧
      turn.task = .turn prompt leg signal instructions agent options history ∧
      turn.reported = false := by
  obtain ⟨⟨task, shell, reported⟩, hr, hturn⟩ := Option.bind_eq_some_iff.1 h
  cases task with
  | shell line leg signal previous => cases hturn
  | turn prompt' leg signal instructions agent options history =>
    cases reported with
    | true => cases hturn
    | false =>
      obtain rfl : prompt' = prompt := by simpa using hturn
      exact ⟨_, leg, signal, instructions, agent, options, history, hr, rfl, rfl⟩

/-- What a model turn sends is folded into the turn that is open. -/
theorem turns_receive {c : Console} {prompt : String} (h : c.asking = some prompt)
    {event : SessionEvent} (ha : Admits c (.event event)) {before : List Turn} {turn : Turn}
    (ht : c.app.transcript.turns = before ++ [turn]) (hr : turn.status.isRunning) :
    (receive c event).app.transcript.turns = before ++ [turn.absorb event] := by
  obtain ⟨running, leg, signal, instructions, agent, options, history, hrunning, htask, -⟩ :=
    asking_eq_some h
  obtain ⟨running', hrunning', -, hsends⟩ := ha
  obtain rfl := Option.some.inj (hrunning.symm.trans hrunning')
  rw [htask] at hsends
  show (onEvent c.app event).transcript.turns = _
  cases event with
  | progress message => exact ht
  | shellFinished entry => exact hsends.elim
  | _ =>
    simp only [onEvent, transcript_onSessionEvent]
    exact Transcript.turns_modifyRunning ht hr _

theorem recordsInFlight_iff {c : Console} (h : Asking c) : RecordsInFlight c ↔ TurnsSettled c := by
  constructor
  · intro hr hnone entry hentry
    obtain ⟨turn, hturn, rfl⟩ := List.mem_map.1 hentry
    exact hr.settled hnone turn hturn
  intro hsettled
  have hclosed (hnone : c.asking = none) :
      ∀ turn ∈ c.app.transcript.turns, turn.status.isRunning = false :=
    fun turn hturn => hsettled hnone _ (List.mem_map_of_mem hturn)
  refine ⟨?_, hclosed, ?_, ?_⟩
  · cases hasking : c.asking with
    | none =>
      rw [List.filter_eq_nil_iff.2 fun turn hturn => by simp [hclosed hasking turn hturn]]
      exact Nat.zero_le _
    | some prompt =>
      obtain ⟨before, hbefore, houtline⟩ := h.last prompt hasking
      obtain ⟨front, turn, hturns, -, hstatus, rfl⟩ := Transcript.exists_last houtline
      have hfront : ∀ turn ∈ front, turn.status.isRunning = false :=
        fun turn hturn => hbefore _ (List.mem_map_of_mem hturn)
      rw [hturns, List.filter_append,
        List.filter_eq_nil_iff.2 fun turn hturn => by simp [hfront turn hturn]]
      exact List.length_filter_le _ _
  · intro prompt hasking
    obtain ⟨before, hbefore, houtline⟩ := h.last prompt hasking
    obtain ⟨front, turn, hturns, hprompt, hstatus, -⟩ := Transcript.exists_last houtline
    have hrunning : turn.status.isRunning = true := by rw [hstatus]; rfl
    refine ⟨front, turn, hturns, hprompt, fun event ha => ?_, ?_⟩
    · exact turns_receive hasking ha hturns hrunning
    · have hbusy := h.busy (by simp [hasking])
      simp only [requestStop, hbusy, Bool.not_true, Bool.false_eq_true, if_false]
      exact Transcript.turns_modifyRunning hturns hrunning _
  · intro hnone
    unfold requestStop
    split_ifs
    · rfl
    · exact Transcript.modifyRunning_closed (hsettled hnone) _

/-! ## One pass -/

section
variable {c c' : Console}

theorem asking_congr (h : c'.running = c.running) : c'.asking = c.asking := by
  rw [Console.asking, h, Console.asking]

theorem Asking.idle (h : Asking c) (hb : c.app.busy = false) : c.asking = none := by
  cases hasking : c.asking with
  | none => rfl
  | some prompt =>
    have := h.busy (by simp [hasking])
    simp [hb] at this

/-- Without a model turn in flight, there is no turn to be last. -/
theorem Asking.of_none (ha : c.app.session.isSome = c.app.assets.isSome)
    (hs : ∀ turn, c.running = some turn → turn.shell = turn.task.isShell)
    (hn : c.asking = none) : Asking c := by
  refine ⟨ha, hs, ?_, ?_⟩
  · intro hsome
    simp [hn] at hsome
  · intro prompt hsome
    cases hn.symm.trans hsome

/-- What keeps the task in flight and the turns keeps the invariant. -/
theorem Asking.of_same (h : Asking c) (hs : TurnsSettled c) (hr : c'.running = c.running)
    (ha : c'.app.session.isSome = c'.app.assets.isSome) (hb : c'.app.busy = c.app.busy)
    (ht : SameTurns c.app c'.app) : Asking c' ∧ TurnsSettled c' := by
  refine ⟨⟨ha, ?_, ?_, ?_⟩, ?_⟩
  · rw [hr]
    exact h.shell
  · rw [asking_congr hr, hb]
    exact h.busy
  · rw [asking_congr hr, ht]
    exact h.last
  · intro hn
    rw [ht]
    exact hs (asking_congr hr ▸ hn)

theorem KeepsTurns.closed (h : KeepsTurns c c') (hc : Closed c.app.transcript.outline) :
    Closed c'.app.transcript.outline := by
  rcases h with h | ⟨-, h⟩
  · rwa [h]
  · rw [h]
    exact fun _ he => absurd he List.not_mem_nil

/-- Keys, hops and commands keep the invariant. -/
theorem asking_effect (h : Asking c) (hs : TurnsSettled c) (he : Effect c c')
    (hk : KeepsTurns c c') : Asking c' ∧ TurnsSettled c' := by
  have hidle (hb : c.app.busy = false) (hr : c'.running = c.running)
      (ha : c'.app.session.isSome = c'.app.assets.isSome) : Asking c' ∧ TurnsSettled c' := by
    have hn := h.idle hb
    exact ⟨.of_none ha (hr ▸ h.shell) ((asking_congr hr).trans hn), fun _ => hk.closed (hs hn)⟩
  cases he with
  | quiet hq hf _ =>
    have ha := hq.context.inventory h.assets
    rcases hk with hk | ⟨hb, -⟩
    · exact h.of_same hs hf.running ha hq.shell.busy hk
    · exact hidle hb hf.running ha
  | missing hm => exact absurd hm (not_missing h.assets)
  | completed hb hf _ hc => exact hidle hb hf.running (hc.inventory h.assets)
  | hopped hb hr _ _ ha => exact hidle hb hr ha
  | spawned hb line leg signal hl hr _ _ hc =>
    refine ⟨.of_none (hc.inventory h.assets) ?_ ?_,
      fun _ => hk.closed (hs (h.idle hb))⟩
    · intro turn ht
      obtain rfl := Option.some.inj (hr.symm.trans ht)
      rfl
    · rw [Console.asking, hr]
      rfl

/-- A submitted turn is open while it is in flight, and ended where it is refused. -/
theorem asking_submitTurn (h : Asking c) (hs : TurnsSettled c) (answers : Answers) :
    Asking (step exts c (.submitTurn answers)) ∧
      TurnsSettled (step exts c (.submitTurn answers)) := by
  have hopened := transcript_submitTurn c.app
  have hsub := submitTurn_cases c.app
  cases hsubmit : c.app.submitTurn with
  | mk prompt app =>
    simp only [step, react, hsubmit]
    rw [hsubmit] at hsub hopened
    rcases hsub with ⟨rfl, hq⟩ | ⟨prompt', session, rfl, hsession, hb, hc, hb', -⟩
    · exact h.of_same hs rfl (hq.context.inventory h.assets) hq.shell.busy
        (.of_transcript (hopened.1 rfl))
    · have hn := h.idle hb
      have hclosed := hs hn
      have houtline : app.transcript.outline =
          c.app.transcript.outline ++ [(prompt', .running)] := by
        rw [hopened.2 prompt' rfl]
        exact Transcript.outline_opened _ _
      have ha := hc.inventory h.assets
      rcases dispatchTurn_cases exts answers { c with app := app } prompt' with
        ⟨hnone, -⟩ | ⟨-, ⟨hg, trace, report, hd⟩ | ⟨hg, leg, instructions, agent, hl, trace, hd⟩⟩
      · -- an open session has its inventory
        exfalso
        have hsome : app.session = some session := hc.session.trans hsession
        rcases hnone with hnone | hnone
        · cases hsome.symm.trans hnone
        · exact not_missing ha ⟨by simp [hsome], hnone⟩
      · obtain ⟨status, hstatus, hended⟩ :=
          outline_refuseTurn { app with brokerTrace := trace } report houtline
        have hcontext := (sameContext_onSessionEvent { app with brokerTrace := trace }
          (.finished (.error report.toString))).trans (quiet_raise _ report).context
        simp only [dispatch, hd]
        refine ⟨.of_none (hcontext.inventory ha) h.shell hn, fun _ => ?_⟩
        rw [hended]
        exact hclosed.concat hstatus
      · simp only [dispatch, hd]
        refine ⟨⟨ha, ?_, fun _ => hb', ?_⟩, fun hnone => by cases hnone⟩
        · intro turn ht
          obtain rfl := Option.some.inj ht
          rfl
        · intro prompt ht
          obtain rfl := Option.some.inj ht
          exact ⟨_, hclosed, houtline⟩

/-- A command's report ends no turn. -/
theorem fills_of_sends {task : Task} (ht : task.isShell) {event : SessionEvent}
    (h : task.sends event) : event.fills := by
  cases task with
  | shell line leg signal previous =>
    cases event with
    | shellFinished entry => rfl
    | _ => exact h.elim
  | turn => cases ht

/-- What a model turn sends before its outcome is not its last event. -/
theorem isLast_of_sends {task : Task} (ht : task.isShell = false) {event : SessionEvent}
    (h : task.sends event) (hf : event.fills) : event.isLast = false := by
  cases task with
  | shell => cases ht
  | turn prompt leg signal instructions agent options history =>
    cases event with
    | shellFinished entry => exact h.elim
    | finished outcome => cases hf
    | _ => rfl

/-- An event other than the last leaves the turn in flight open, the last one ends
    it. -/
theorem asking_receive (h : Asking c) (hs : TurnsSettled c) {event : SessionEvent}
    (ha : Admits c (.event event)) : Asking (receive c event) ∧ TurnsSettled (receive c event) := by
  obtain ⟨turn, hr, hreported, hsends⟩ := ha
  have hassets : (receive c event).app.session.isSome = (receive c event).app.assets.isSome :=
    (sameContext_onEvent c.app event).inventory h.assets
  have hshell : ∀ turn', (receive c event).running = some turn' →
      turn'.shell = turn'.task.isShell := by
    intro turn' ht
    simp only [receive, hr, Option.map_some, Option.some.injEq] at ht
    rw [← ht]
    exact h.shell turn hr
  have hkept (hf : event.fills) : SameTurns c.app (receive c event).app :=
    sameTurns_onEvent c.app hf
  cases htask : turn.task with
  | shell line leg signal previous =>
    have hn : c.asking = none := by simp [Console.asking, hr, htask]
    have hn' : (receive c event).asking = none := by simp [Console.asking, receive, hr, htask]
    refine ⟨.of_none hassets hshell hn', fun _ => ?_⟩
    rw [hkept (fills_of_sends (by rw [htask]; rfl) hsends)]
    exact hs hn
  | turn prompt leg signal instructions agent options history =>
    by_cases hf : event.fills
    · have hlast : event.isLast = false := isLast_of_sends (by rw [htask]; rfl) hsends hf
      have hrunning : (receive c event).running = c.running := by
        simp [receive, hr, hlast]
      exact h.of_same hs hrunning hassets (busy_onEvent c.app hf) (hkept hf)
    · obtain ⟨outcome, rfl⟩ : ∃ outcome, event = .finished outcome := by
        cases event with
        | finished outcome => exact ⟨outcome, rfl⟩
        | _ => exact absurd rfl hf
      have hasking : c.asking = some prompt := by simp [Console.asking, hr, htask, hreported]
      have hn' : (receive c (.finished outcome)).asking = none := by
        simp [Console.asking, receive, hr, htask, SessionEvent.isLast]
      obtain ⟨before, hbefore, houtline⟩ := h.last prompt hasking
      obtain ⟨status, hstatus, hended⟩ := Transcript.outline_finished houtline outcome
      refine ⟨.of_none hassets hshell hn', fun _ => ?_⟩
      show Closed (c.app.transcript.absorb (.finished outcome)).outline
      rw [hended]
      exact hbefore.concat hstatus

/-- A join leaves the turns as they stand, so that none is running after it exactly
    if the one in flight has been ended. -/
theorem asking_finishTurn (exts : Externals) (h : Asking c) (hs : TurnsSettled c) (joined : Joined)
    (hr : c.running.isSome) : Asking (finishTurn exts joined c) ∧
      (TurnsSettled (finishTurn exts joined c) ↔ c.asking = none) := by
  obtain ⟨turn, hr⟩ := Option.isSome_iff_exists.1 hr
  have hfinish : finishTurn exts joined c =
      settleTurn exts turn.shell joined { c with running := none } := by
    rw [finishTurn, hr]
  have hrunning : (finishTurn exts joined c).running = none := by rw [hfinish, settleTurn_eq]
  have hn : (finishTurn exts joined c).asking = none := by rw [Console.asking, hrunning]; rfl
  have hcontext := (sameContext_settleTurn exts turn.shell joined { c with running := none }).app
  have hkept : SameTurns c.app (finishTurn exts joined c).app := by
    rw [hfinish]
    exact sameTurns_settleTurn turn.shell joined { c with running := none }
  refine ⟨.of_none ?_ ?_ hn, ?_⟩
  · rw [hfinish]
    exact hcontext.inventory h.assets
  · intro turn' ht
    cases hrunning.symm.trans ht
  · constructor
    · intro hsettled
      have hclosed := hsettled hn
      rw [hkept] at hclosed
      cases hasking : c.asking with
      | none => rfl
      | some prompt =>
        obtain ⟨before, -, houtline⟩ := h.last prompt hasking
        have := hclosed (prompt, .running) (by simp [houtline])
        cases this
    · intro hnone _
      rw [hkept]
      exact hs hnone

/-- **One pass** leaves the turns settled exactly if it meets the condition, and
    keeps the invariant. -/
theorem settled_step_iff (exts : Externals) (h : Asking c) (hs : TurnsSettled c) {l : Label}
    (hl : Submits c l) :
    Asking (step exts c l) ∧ (TurnsSettled (step exts c l) ↔ Reported c l) := by
  have hmet (hd : Reported c l) (hk : Asking (step exts c l) ∧ TurnsSettled (step exts c l)) :
      Asking (step exts c l) ∧ (TurnsSettled (step exts c l) ↔ Reported c l) :=
    ⟨hk.1, iff_of_true hk.2 hd⟩
  cases l with
  | key key answers =>
    exact hmet trivial (asking_effect h hs (effect_key exts key answers c)
      (keepsTurns_key key answers c))
  | action action answers =>
    refine hmet trivial ?_
    cases action with
    | enter =>
      exact asking_effect h hs (effect_enter exts answers c) (keepsTurns_enter exts answers c)
    | shell line =>
      exact asking_effect h hs (effect_shell exts answers c line)
        (Or.inl (sameTurns_shell (dispatchShell_effect exts answers c line)))
    | turn prompt => exact hl.elim
  | submitTurn answers => exact hmet trivial (asking_submitTurn h hs answers)
  | event event => exact hmet trivial (asking_receive h hs hl)
  | close joined =>
    obtain ⟨turn, hr, -⟩ := hl
    exact asking_finishTurn exts h hs joined (by simp [hr])
  | intake intake =>
    obtain ⟨turn, hr⟩ := Option.isSome_iff_exists.1 hl
    refine hmet trivial ?_
    simp only [step, react, hr]
    exact h.of_same hs hr.symm h.assets rfl rfl
  | resize width height => exact hmet trivial (h.of_same hs rfl h.assets rfl rfl)

end

/-! ## Every run -/

/-- **The turn in flight over runs.**  From any console without an open entry, a
    run keeps no turn running but the last one, while it is in flight, and records
    events and stop requests there, exactly if no model turn is joined before its
    last event was received. -/
theorem recordsInFlight_iff_reported (app : App) (options : ConsoleOptions) (ls : List Label)
    (hsession : app.session = none) (hassets : app.assets = none)
    (htranscript : app.transcript = .empty)
    (hls : Runs.Steps (step exts) Submits (Console.start app options) ls) :
    Runs.Always (step exts) RecordsInFlight (Console.start app options) ls ↔
      Runs.Steps (step exts) Reported (Console.start app options) ls := by
  have hclosed : Closed app.transcript.outline := by
    rw [htranscript]
    exact fun _ he => absurd he List.not_mem_nil
  have h₀ : Asking (Console.start app options) := by
    refine .of_none ?_ (fun turn ht => by cases ht) rfl
    show app.session.isSome = app.assets.isSome
    rw [hsession, hassets]
    rfl
  refine Runs.always_iff_steps (I := Asking) (C := Submits) ?_ ?_ h₀
    ((recordsInFlight_iff h₀).2 fun _ => hclosed) hls
  · intro c l hl hp h _
    exact (settled_step_iff exts h ((recordsInFlight_iff h).1 hp) hl).1
  · intro c l hl hp h
    obtain ⟨hkept, hiff⟩ := settled_step_iff exts h ((recordsInFlight_iff h).1 hp) hl
    exact (recordsInFlight_iff hkept).trans hiff

namespace Sample

/-- A turn in `ops` that is stopped, answers all the same and returns. -/
def answered : List Label :=
  typed ++ [.submitTurn answers, .key ⟨.esc, .none⟩ answers,
    .event (.finished (.ok ⟨"hello", .send⟩)), .close (.returned .new)]

/-- A turn in `ops` whose task dies. -/
def abandoned : List Label :=
  typed ++ [.submitTurn answers, .close (.died (.root ⟨"cancelled", none⟩))]

end Sample

theorem recordsInFlight_iff_reported_answered :
    Runs.Always (step .plain) RecordsInFlight (Console.start Sample.app Sample.options)
      Sample.answered := by
  refine (recordsInFlight_iff_reported Sample.app Sample.options _ rfl rfl rfl ?_).2 ?_
  · refine ⟨trivial, trivial, trivial, trivial, ⟨_, rfl, rfl, trivial⟩, ⟨_, rfl, ?_⟩, trivial⟩
    intro history h
    trivial
  · exact ⟨trivial, trivial, trivial, trivial, trivial, rfl, trivial⟩

/-- A turn whose task dies before it reported stays open, with nothing in flight. -/
theorem abandoned_turn_stays_open :
    Runs.Steps (step .plain) Submits (Console.start Sample.app Sample.options) Sample.abandoned ∧
      (Runs.exec (step .plain) (Console.start Sample.app Sample.options)
        Sample.abandoned).running.isNone ∧
      (Runs.exec (step .plain) (Console.start Sample.app Sample.options)
        Sample.abandoned).app.transcript.outline = [("h", .running)] ∧
      ¬Runs.Always (step .plain) RecordsInFlight (Console.start Sample.app Sample.options)
        Sample.abandoned := by
  have houtline : (Runs.exec (step .plain) (Console.start Sample.app Sample.options)
      Sample.abandoned).app.transcript.outline = [("h", .running)] := by decide
  have hnone : (Runs.exec (step .plain) (Console.start Sample.app Sample.options)
      Sample.abandoned).asking = none := by decide
  refine ⟨?_, by decide, houtline, fun h => ?_⟩
  · refine ⟨trivial, trivial, trivial, ⟨_, rfl, ?_⟩, trivial⟩
    intro history h
    cases h
  · obtain ⟨turn, hturn, hstanding⟩ := List.mem_map.1 (houtline ▸ List.mem_singleton_self _)
    have := h.last.settled hnone turn hturn
    rw [(Prod.mk.inj hstanding).2] at this
    cases this

end DekoponConsole
