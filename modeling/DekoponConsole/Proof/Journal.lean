/-
  What is on the record stays on the record.

  * `Turn.Continues` and `ShellEntry.Completes` say how an entry may still change: a turn
    until it ended, an echo until its command did;
  * `Transcript.Succeeds` is what every pass makes of the transcript, unless it is a hop,
    which resets it (`KeptOrReset`);
  * `transcript_journal` and `shell_journal` state it of every run within one agent
    entry.
-/
import DekoponConsole.Lib.Journal
import DekoponConsole.Proof.Hop
import DekoponConsole.Proof.OpenTurns
import DekoponConsole.Proof.Pass
import DekoponConsole.Proof.SingleFlight

namespace DekoponConsole

open App Journal

variable {exts : Externals}

/-! ## How an entry may change -/

/-- A turn keeps its number, its prompt and a stop request; once it ended it keeps all
    but its replay mark. -/
structure Turn.Continues (t t' : Turn) : Prop where
  ordinal : t'.ordinal = t.ordinal
  prompt : t'.prompt = t.prompt
  stopRequested : t.stopRequested = true → t'.stopRequested = true
  ended : t.status.isRunning = false → t' = { t with inReplayWindow := t'.inReplayWindow }

instance : Std.Refl Turn.Continues := ⟨fun _ => ⟨rfl, rfl, id, fun _ => rfl⟩⟩

instance : IsTrans Turn Turn.Continues where
  trans t t' t'' h h' := by
    refine ⟨h'.ordinal.trans h.ordinal, h'.prompt.trans h.prompt,
      fun hs => h'.stopRequested (h.stopRequested hs), fun he => ?_⟩
    have ht' := h.ended he
    have hstatus : t'.status = t.status := by rw [ht']
    have ht'' := h'.ended (hstatus ▸ he)
    rw [ht'', ht']

/-- An echo keeps its line; once it is completed it stays as it is. -/
structure ShellEntry.Completes (e e' : ShellEntry) : Prop where
  input : e'.input = e.input
  completed : e.exitCode.isSome → e' = e

instance : Std.Refl ShellEntry.Completes := ⟨fun _ => ⟨rfl, fun _ => rfl⟩⟩

instance : IsTrans ShellEntry ShellEntry.Completes where
  trans e e' e'' h h' := by
    refine ⟨h'.input.trans h.input, fun hs => ?_⟩
    obtain rfl := h.completed hs
    exact h'.completed hs

/-! ## The transcript -/

/-- The turns are numbered from 1 in their order. -/
def Transcript.Numbered (t : Transcript) : Prop :=
  t.turns.map Turn.ordinal = List.range' 1 t.turns.length

/-- The earlier turns continue, and the numbering does. -/
structure Transcript.Succeeds (t t' : Transcript) : Prop where
  turns : Extends Turn.Continues t.turns t'.turns
  numbered : t.Numbered → t'.Numbered

namespace Transcript.Succeeds
variable {t t' t'' : Transcript}

theorem refl (t : Transcript) : Succeeds t t := ⟨.refl _, id⟩

theorem of_eq (h : t' = t) : Succeeds t t' := h ▸ refl t

theorem trans (h : Succeeds t t') (h' : Succeeds t' t'') : Succeeds t t'' :=
  ⟨h.turns.trans h'.turns, fun hn => h'.numbered (h.numbered hn)⟩

/-- Only the turn that is running is changed. -/
theorem modifyRunning (t : Transcript) {f : Turn → Turn}
    (h : ∀ turn, (f turn).ordinal = turn.ordinal ∧ (f turn).prompt = turn.prompt ∧
      (turn.stopRequested = true → (f turn).stopRequested = true)) :
    Succeeds t (t.modifyRunning f) := by
  have hordinals := map_modifyRunning (fun turn => (h turn).1) t
  refine ⟨?_, ?_⟩
  · rcases modifyLast_cases (p := fun turn : Turn => turn.status.isRunning) f t.turns with
      ⟨hm, -⟩ | ⟨before, turn, after, hl, hr, -, hm⟩
    · rw [Transcript.modifyRunning, hm]
      exact .refl _
    · rw [Transcript.modifyRunning, hm, hl]
      refine .middle before after ⟨(h turn).1, (h turn).2.1, (h turn).2.2, ?_⟩
      intro he
      rw [he] at hr
      cases hr
  · intro hn
    have hlength : (t.modifyRunning f).turns.length = t.turns.length := by
      simpa using congrArg List.length hordinals
    rw [Numbered, hordinals, hlength]
    exact hn

theorem absorb (t : Transcript) (event : SessionEvent) : Succeeds t (t.absorb event) := by
  refine modifyRunning t fun turn => ?_
  refine ⟨?_, turn.prompt_absorb event, ?_⟩
  all_goals
    unfold Turn.absorb
    split <;> first
      | exact id
      | rfl
      | split <;> first
        | exact id
        | rfl

theorem opened (t : Transcript) (prompt : String) : Succeeds t (t.opened prompt) := by
  refine ⟨.append _ _, fun hn => ?_⟩
  have hlength : (t.opened prompt).turns.length = t.turns.length + 1 := by simp [Transcript.opened]
  rw [Numbered] at hn
  rw [Numbered, hlength, List.range'_concat, ← hn]
  simp [Transcript.opened, Turn.opened, Nat.add_comm]

theorem markReplayWindow (t : Transcript) (remembered : ℕ) :
    Succeeds t (t.markReplayWindow remembered) := by
  refine ⟨.mapIdx (fun _ turn => ⟨rfl, rfl, id, fun _ => rfl⟩) t.turns, fun hn => ?_⟩
  have hordinals : (t.markReplayWindow remembered).turns.map Turn.ordinal =
      t.turns.map Turn.ordinal := by
    refine List.ext_getElem (by simp [Transcript.markReplayWindow]) fun i _ _ => ?_
    simp [Transcript.markReplayWindow]
  rw [Numbered, hordinals, hn]
  simp [Transcript.markReplayWindow]

end Transcript.Succeeds

/-! ### One pass -/

/-- A pass keeps the transcript, with the inventories there are, or it is a hop: it
    makes an inventory and resets transcript and shell history. -/
inductive KeptOrReset (c c' : Console) : Prop
  | kept (hs : c'.stores.length = c.stores.length)
      (ht : c.app.transcript.Succeeds c'.app.transcript)
  | reset (hs : c'.stores.length = c.stores.length + 1) (ht : c'.app.transcript = .empty)
      (hh : c'.app.shellHistory = [])

/-- What went on before a pass does not matter to a hop. -/
theorem KeptOrReset.of_kept {c c₁ c' : Console} (h : KeptOrReset c₁ c')
    (hs : c₁.stores.length = c.stores.length)
    (ht : c.app.transcript.Succeeds c₁.app.transcript) : KeptOrReset c c' := by
  cases h with
  | kept hs' ht' => exact .kept (hs'.trans hs) (ht.trans ht')
  | reset hs' ht' hh => exact .reset (hs ▸ hs') ht' hh

theorem KeptOrReset.of_eq {c c' : Console} (hs : c'.stores.length = c.stores.length)
    (ht : c'.app.transcript = c.app.transcript) : KeptOrReset c c' := .kept hs (.of_eq ht)

theorem keptOrReset_enter (answers : Answers) (c : Console) :
    KeptOrReset c (dispatchEnter exts answers c).1 := by
  rcases dispatchEnter_cases exts answers c with ⟨text, -, h⟩ | ⟨agent, c₁, hop, h⟩
  · rw [h]
    exact .of_eq rfl rfl
  · obtain ⟨app, happ, ho⟩ := openHop_cases exts answers c₁ agent
    rw [h, ho]
    refine .reset (by simp [prepareHop, clearAgentContext, hop.stores exts]) ?_ ?_
    · rcases happ with ⟨report⟩ | ⟨leg, -, -⟩
      · exact transcript_raise _ report
      · rfl
    · rcases happ with ⟨report⟩ | ⟨leg, -, -⟩
      · exact (quiet_raise _ report).shell.shellHistory
      · rfl

theorem transcript_shell {c c' : Console} {line : String} {calls : List BrokerCall}
    (h : ShellEffect exts c line c' calls) : c'.app.transcript = c.app.transcript := by
  cases h with
  | refused text => rfl
  | missing h app ha => rcases ha with rfl | rfl <;> rfl
  | completed hb identity stores hl input output exitCode hi calls hc =>
    rw [completeLocally_eq]
  | failed hb report calls hl => exact transcript_failShell exts _ report
  | spawned hb leg hs calls hl c' h =>
    obtain ⟨trace, rfl⟩ := h
    rfl

theorem keptOrReset_shell (answers : Answers) (c : Console) (line : String) :
    KeptOrReset c (dispatchShell exts answers c line).1 := by
  have h := dispatchShell_effect exts answers c line
  exact .of_eq h.sameContext.1.stores (transcript_shell h)

theorem succeeds_turn (answers : Answers) (c : Console) (prompt : String) :
    c.app.transcript.Succeeds (dispatchTurn exts answers c prompt).1.app.transcript := by
  rcases dispatchTurn_cases exts answers c prompt with
    ⟨-, h⟩ | ⟨-, ⟨-, trace, report, h⟩ | ⟨-, leg, instructions, agent, -, trace, h⟩⟩
  · rw [h]
    exact .refl _
  · rw [h]
    show c.app.transcript.Succeeds (refuseTurn _ report).transcript
    rw [refuseTurn, transcript_raise, transcript_onSessionEvent]
    exact .absorb _ _
  · rw [h]
    exact .refl _

theorem keptOrReset_dispatch (answers : Answers) (c : Console) (action : Action) :
    KeptOrReset c (dispatch exts answers c action).1 := by
  cases action with
  | enter => exact keptOrReset_enter answers c
  | shell line => exact keptOrReset_shell answers c line
  | turn prompt =>
    exact .kept (sameContext_dispatchTurn exts answers c prompt).1.stores (succeeds_turn answers c prompt)

theorem succeeds_onKey (app : App) (key : KeyEvent) (stop : StopFlag) :
    app.transcript.Succeeds (onKey exts app key stop).2.1.transcript := by
  rcases (undisplayed_onKey exts app key stop).running with ⟨-, h⟩ | h
  · exact .of_eq h
  · rw [h]
    unfold requestStop
    split_ifs
    · exact .refl _
    · exact .modifyRunning _ fun _ => ⟨rfl, rfl, fun _ => rfl⟩

theorem succeeds_submitTurn (app : App) :
    app.transcript.Succeeds app.submitTurn.2.transcript := by
  obtain ⟨hnone, hsome⟩ := transcript_submitTurn app
  cases hp : app.submitTurn.1 with
  | none => exact .of_eq (hnone hp)
  | some prompt =>
    rw [hsome prompt hp]
    exact .opened _ _

theorem succeeds_onEvent (app : App) (event : SessionEvent) :
    app.transcript.Succeeds (onEvent app event).transcript := by
  unfold onEvent
  split
  · exact .refl _
  · exact .of_eq (transcript_modifyPending app _)
  · rw [transcript_onSessionEvent]
    exact .absorb _ _

theorem succeeds_settleTurn (shell : Bool) (joined : Joined) (c : Console) :
    c.app.transcript.Succeeds (settleTurn exts shell joined c).app.transcript := by
  have hreported := transcript_reportJoined exts shell joined c.app
  rw [settleTurn_eq]
  cases shell with
  | true => exact .of_eq ((transcript_settleShell exts _).trans hreported)
  | false =>
    show Transcript.Succeeds _ (onSessionComplete _ _).transcript
    rw [transcript_onSessionComplete, hreported]
    exact .markReplayWindow _ _

/-- **Every pass keeps the transcript or resets it.** -/
theorem keptOrReset_step (exts : Externals) (c : Console) (l : Label) :
    KeptOrReset c (step exts c l) := by
  cases l with
  | key key answers =>
    have hk : c.app.transcript.Succeeds (onKey exts c.app key c.stop).2.1.transcript :=
      succeeds_onKey c.app key c.stop
    simp only [step, react]
    generalize onKey exts c.app key c.stop = keyed at hk
    obtain ⟨action, app, stop⟩ := keyed
    cases action with
    | none => exact .kept rfl hk
    | some action => exact (keptOrReset_dispatch answers _ action).of_kept rfl hk
  | action action answers => exact keptOrReset_dispatch answers c action
  | submitTurn answers =>
    have hsub := succeeds_submitTurn c.app
    simp only [step, react]
    generalize c.app.submitTurn = submitted at hsub
    obtain ⟨prompt, app⟩ := submitted
    cases prompt with
    | none => exact .kept rfl hsub
    | some prompt => exact (keptOrReset_dispatch answers _ (.turn prompt)).of_kept rfl hsub
  | event event => exact .kept rfl (succeeds_onEvent c.app event)
  | close joined =>
    simp only [step, react, finishTurn]
    cases c.running with
    | none => exact .of_eq rfl rfl
    | some turn =>
      have hc := sameContext_settleTurn exts turn.shell joined { c with running := none }
      exact .kept hc.stores (succeeds_settleTurn turn.shell joined { c with running := none })
  | intake intake =>
    simp only [step, react]
    cases c.running with
    | none => exact .of_eq rfl rfl
    | some turn => exact .of_eq List.length_set rfl
  | resize width height => exact .of_eq rfl rfl

/-- A pass that hops into an agent, past the checks made before its leg is asked for. -/
def Hopping (exts : Externals) (c : Console) (l : Label) : Prop :=
  performed exts c l = some .enter ∧ asked exts c l ≠ []

/-- Whatever does not hop keeps the transcript, and the number of inventories. -/
theorem kept_of_not_hopping {c : Console} {l : Label} (h : ¬Hopping exts c l) :
    (step exts c l).stores.length = c.stores.length ∧
      c.app.transcript.Succeeds (step exts c l).app.transcript := by
  rcases react_cases exts c l with ⟨⟨hc, -⟩, -⟩ | ⟨hp, hh⟩
  · have hs : (step exts c l).stores.length = c.stores.length := hc.stores
    cases keptOrReset_step exts c l with
    | kept _ ht => exact ⟨hs, ht⟩
    | reset hs' _ _ => omega
  · obtain ⟨c₀, agent, c₁, app, -, -, -, hd⟩ := hh
    exact absurd ⟨hp, by simp [asked, hd]⟩ h

theorem numbered_step {c : Console} (h : c.app.transcript.Numbered) (l : Label) :
    (step exts c l).app.transcript.Numbered := by
  cases keptOrReset_step exts c l with
  | kept _ ht => exact ht.numbered h
  | reset _ ht _ =>
    rw [ht]
    rfl

/-- **The transcript is a journal.**  In every state of every run its turns are numbered
    from 1 in their order, and as long as no pass hops, every turn keeps its place, its
    prompt and a stop request, and an ended one everything but its replay mark. -/
theorem transcript_journal (exts : Externals) (agents : List Agent)
    (subject socketPath credentialPath : String) (options : ConsoleOptions)
    (before after : List Label) :
    let c := Runs.exec (step exts)
      (Console.start (App.new agents subject socketPath credentialPath) options) before
    c.app.transcript.Numbered ∧
      (Runs.Steps (step exts) (fun c l => ¬Hopping exts c l) c after →
        Extends Turn.Continues c.app.transcript.turns
          (Runs.exec (step exts) c after).app.transcript.turns) := by
  intro c
  refine ⟨?_, ?_⟩
  · refine Runs.exec_of_forall (I := fun c : Console => c.app.transcript.Numbered) ?_ ?_ before
    · exact fun _ l h => numbered_step h l
    · rfl
  · exact extends_exec (I := fun _ => True) (f := fun c : Console => c.app.transcript.turns)
      (fun _ _ _ _ => trivial) (fun _ _ h _ => (kept_of_not_hopping h).2.turns) trivial

/-- `h` asked in `ops`, and answered. -/
theorem transcript_journal_sample :
    let c := Runs.exec (step .plain) (Console.start (App.new Sample.catalog "operator"
      "broker.sock" "auth.json") Sample.options) (Sample.typed ++ [.submitTurn Sample.answers])
    c.app.transcript.Numbered ∧
      Extends Turn.Continues c.app.transcript.turns (Runs.exec (step .plain) c
        [.event (.finished (.ok ⟨"hello", .send⟩))]).app.transcript.turns := by
  obtain ⟨hnumbered, hextends⟩ := transcript_journal .plain Sample.catalog "operator" "broker.sock"
    "auth.json" Sample.options (Sample.typed ++ [.submitTurn Sample.answers])
    [.event (.finished (.ok ⟨"hello", .send⟩))]
  refine ⟨hnumbered, hextends ⟨fun h => ?_, trivial⟩⟩
  cases h.1

/-! ## The shell history -/

theorem shellHistory_enter {answers : Answers} {c : Console}
    (h : (dispatchEnter exts answers c).2 = []) :
    (dispatchEnter exts answers c).1.app.shellHistory = c.app.shellHistory := by
  rcases dispatchEnter_cases exts answers c with ⟨text, -, he⟩ | ⟨agent, c₁, -, he⟩
  · rw [he]
    rfl
  · obtain ⟨app, -, ho⟩ := openHop_cases exts answers c₁ agent
    rw [he, ho] at h
    cases h

/-- A command line adds an echo, or nothing. -/
theorem extends_shell {c c' : Console} {line : String} {calls : List BrokerCall}
    (h : ShellEffect exts c line c' calls) :
    Extends ShellEntry.Completes c.app.shellHistory c'.app.shellHistory := by
  cases h with
  | refused text => exact .refl _
  | missing h app ha =>
    rcases ha with rfl | rfl
    · exact .refl _
    · exact .append _ _
  | completed hb identity stores hl input output exitCode hi calls hc =>
    rw [completeLocally_eq]
    exact .append _ _
  | failed hb report calls hl =>
    show Extends _ _ (((c.app.startShell line).failShell exts report).shellHistory)
    rw [(pending_startShell c.app line).shellHistory_failShell]
    exact .append _ _
  | spawned hb leg hs calls hl c' h =>
    obtain ⟨trace, rfl⟩ := h
    exact .append _ _

theorem extends_dispatch {answers : Answers} {c : Console} {action : Action}
    (ha : ∀ prompt, action ≠ .turn prompt)
    (h : action = .enter → (dispatch exts answers c action).2 = []) :
    Extends ShellEntry.Completes c.app.shellHistory
      (dispatch exts answers c action).1.app.shellHistory := by
  cases action with
  | enter =>
    show Extends _ _ (dispatchEnter exts answers c).1.app.shellHistory
    rw [shellHistory_enter (h rfl)]
    exact .refl _
  | shell line => exact extends_shell (dispatchShell_effect exts answers c line)
  | turn prompt => exact absurd rfl (ha prompt)

/-- A join completes the echo of its own command, if that is still pending. -/
theorem extends_finishTurn {c : Console} (h : Flight c) (joined : Joined) :
    Extends ShellEntry.Completes c.app.shellHistory (finishTurn exts joined c).app.shellHistory := by
  unfold finishTurn
  cases hr : c.running with
  | none => exact .refl _
  | some turn =>
    obtain ⟨-, line, leg, signal, previous, -, hshell, hawaits⟩ := h.flying turn hr
    simp only [hshell]
    split_ifs at hawaits with hreported
    · rw [App.Settled.settleTurn exts (c := { c with running := none }) joined hawaits]
      exact .refl _
    · obtain ⟨before, hh, -⟩ := hawaits
      have hp : c.app.Pending before (pendingEntry line) := ⟨hh, rfl⟩
      obtain ⟨done, -, hinput, hdone⟩ := App.Pending.settleTurn exts (c := { c with running := none })
        joined hp
      rw [hdone, hh]
      exact .middle before [] ⟨hinput, fun hs => by cases hs⟩

/-- **A pass that does not hop extends the shell history.** -/
theorem extends_step {c : Console} (h : Flight c) {l : Label} (hl : Interactive c l)
    (hn : ¬Hopping exts c l) :
    Extends ShellEntry.Completes c.app.shellHistory (step exts c l).app.shellHistory := by
  cases l with
  | key key answers =>
    have hk := keyEffect_onKey exts c.app key c.stop
    simp only [Hopping, performed, asked, react] at hn
    simp only [step, react]
    generalize onKey exts c.app key c.stop = keyed at hk hn
    obtain ⟨action, app, stop⟩ := keyed
    have hh : app.shellHistory = c.app.shellHistory := hk.quiet.shell.shellHistory
    rw [← hh]
    cases action with
    | none => exact .refl _
    | some action =>
      refine extends_dispatch (c := { c with app := app, stop := stop }) ?_ ?_
      · rintro prompt rfl
        rcases hk.action with ha | ha | ⟨line, ha⟩ <;> cases ha
      · rintro rfl
        by_contra hne
        exact hn ⟨rfl, hne⟩
  | action action answers =>
    refine extends_dispatch (c := c) ?_ ?_
    · rintro prompt rfl
      exact hl
    · rintro rfl
      by_contra hne
      exact hn ⟨rfl, hne⟩
  | submitTurn answers => exact hl.elim
  | event event =>
    obtain ⟨entry, turn, before, line, leg, signal, previous, rfl, -, -, -, -, hinput, hh, -, happ⟩ :=
      shellHistory_receive h hl
    simp only [step, react, happ, hh]
    exact .middle before [] ⟨hinput, fun hs => by cases hs⟩
  | close joined => exact extends_finishTurn h joined
  | intake intake =>
    simp only [step, react]
    cases c.running <;> exact .refl _
  | resize width height => exact .refl _

/-- **The shell history is a journal.**  In every run of keys, hops, commands, reports and
    joins, as long as no pass hops, every echo keeps its place and its line, and a
    completed one its output and exit code. -/
theorem shell_journal (exts : Externals) (agents : List Agent)
    (subject socketPath credentialPath : String) (options : ConsoleOptions)
    (before after : List Label) :
    let c₀ := Console.start (App.new agents subject socketPath credentialPath) options
    let c := Runs.exec (step exts) c₀ before
    Runs.Steps (step exts) Interactive c₀ (before ++ after) →
      Runs.Steps (step exts) (fun c l => ¬Hopping exts c l) c after →
        Extends ShellEntry.Completes c.app.shellHistory
          (Runs.exec (step exts) c after).app.shellHistory := by
  intro c₀ c hls hn
  rw [Runs.steps_append] at hls
  have h₀ : Flight c₀ := flight_start agents subject socketPath credentialPath options
  have hf : Flight c := Runs.exec_of_inv (I := Flight) (fun _ _ hl h => flight_step h hl) h₀ hls.1
  refine extends_exec (I := Flight) (C := fun c l => Interactive c l ∧ ¬Hopping exts c l)
    (f := fun c : Console => c.app.shellHistory) (fun _ _ hl h => flight_step h hl.1)
    (fun _ _ hl h => extends_step h hl.1 hl.2) hf ?_
  exact Runs.steps_and.2 ⟨hls.2, hn⟩

/-- A hop into `ops` with `ls` sent there, and then its report. -/
theorem shell_journal_sample :
    let c := Runs.exec (step .plain) (Console.start (App.new Sample.catalog "operator"
      "broker.sock" "auth.json") Sample.options) Sample.command
    Extends ShellEntry.Completes c.app.shellHistory (Runs.exec (step .plain) c
      [.event (.shellFinished ⟨"ls", "a.txt", some 0, false⟩)]).app.shellHistory := by
  refine shell_journal .plain Sample.catalog "operator" "broker.sock" "auth.json" Sample.options
    Sample.command [.event (.shellFinished ⟨"ls", "a.txt", some 0, false⟩)] ?_ ?_
  · exact ⟨trivial, trivial, trivial, trivial, ⟨_, rfl, rfl, rfl, rfl⟩, trivial⟩
  · exact ⟨fun h => absurd h.1 (by decide), trivial⟩

end DekoponConsole
