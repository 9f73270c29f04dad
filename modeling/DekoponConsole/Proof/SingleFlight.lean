/-
  The single-flight invariant of the interactive console.

  * `Interactive` are the labels of a console driven by keys, hops and commands;
  * `SingleFlight` is what holds between two passes of its loop;
  * `Flight` is the inductive invariant behind it, which ties the task in flight
    to the stop flag and to the one entry it may still complete (`Awaits`);
  * `flight_effect` and `flight_step` keep it, `launchedBy_exec` traces the task
    in flight to the pass that spawned it;
  * `single_flight` states both for every run.
-/
import DekoponConsole.Lib.Runs
import DekoponConsole.Proof.Flight
import DekoponConsole.Proof.Startup

namespace DekoponConsole

open App

variable {exts : Externals}

/-- The labels of the loop when no model turn is submitted. -/
def Interactive (c : Console) : Label → Prop
  | .action (.turn _) _ | .submitTurn _ => False
  | l => Admits c l

/-! ## The invariant -/

/-- What holds of a console between two passes of its loop. -/
structure SingleFlight (c : Console) : Prop where
  busy : c.app.busy = true ↔ c.running.isSome
  session : c.app.session.isSome ↔ c.app.assets.isSome
  stop : c.stop.requested = true ∨ c.stop.broker.isSome →
    ∃ turn, c.running = some turn ∧ c.stop.broker = some turn.task.signal
  completed : ∀ entry ∈ c.app.shellHistory.dropLast, entry.exitCode.isSome
  pending : ∀ entry ∈ c.app.shellHistory, entry.exitCode = none → c.running.isSome
  composing : c.app.mode = .composing → c.app.pane = .shell

/-- The entry of a script that has not been reported. -/
def pendingEntry (line : String) : ShellEntry := ⟨line, "", none, false⟩

/-- The shell history under a script: before its report its own entry is the last
    one and the only one pending, after it none is. -/
def Awaits (app : App) (turn : RunningTurn) : Prop :=
  ∃ line leg signal previous, turn.task = .shell line leg signal previous ∧ turn.shell = true ∧
    if turn.reported then app.Settled
    else ∃ before, app.shellHistory = before ++ [pendingEntry line] ∧
      ∀ entry ∈ before, entry.exitCode.isSome

/-- The inductive invariant. -/
structure Flight (c : Console) : Prop where
  busy : c.app.busy = c.running.isSome
  assets : c.app.session.isSome = c.app.assets.isSome
  composes : c.app.Composes
  idle : c.running = none → c.stop = .default ∧ c.app.Settled
  flying : ∀ turn, c.running = some turn → c.stop.broker = some turn.task.signal ∧ Awaits c.app turn

theorem App.Settled.dropLast {app : App} (h : app.Settled) :
    ∀ entry ∈ app.shellHistory.dropLast, entry.exitCode.isSome :=
  fun entry he => h entry (List.dropLast_subset _ he)

theorem Awaits.dropLast {app : App} {turn : RunningTurn} (h : Awaits app turn) :
    ∀ entry ∈ app.shellHistory.dropLast, entry.exitCode.isSome := by
  obtain ⟨line, leg, signal, previous, -, -, h⟩ := h
  split_ifs at h
  · exact h.dropLast
  · obtain ⟨before, hh, hbefore⟩ := h
    rwa [hh, List.dropLast_concat]

/-- A join settles the history a script was awaited in. -/
theorem Awaits.settleTurn (exts : Externals) {c : Console} {turn : RunningTurn} (h : Awaits c.app turn)
    (joined : Joined) : (settleTurn exts true joined c).app.Settled := by
  obtain ⟨line, leg, signal, previous, -, -, h⟩ := h
  unfold App.Settled
  split_ifs at h
  · rw [h.settleTurn exts]
    exact h
  · obtain ⟨before, hh, hbefore⟩ := h
    have hp : c.app.Pending before (pendingEntry line) := ⟨hh, rfl⟩
    obtain ⟨done, hdone, -, hsettled⟩ := hp.settleTurn exts joined
    rw [hsettled]
    exact List.forall_mem_append.2 ⟨hbefore, by simpa using hdone⟩

theorem Awaits.of_shellHistory {app app' : App} {turn : RunningTurn}
    (hh : app'.shellHistory = app.shellHistory) (h : Awaits app turn) : Awaits app' turn := by
  obtain ⟨line, leg, signal, previous, ht, hs, h⟩ := h
  refine ⟨line, leg, signal, previous, ht, hs, ?_⟩
  simpa only [App.Settled, hh] using h

theorem Flight.singleFlight {c : Console} (h : Flight c) : SingleFlight c where
  busy := by rw [h.busy]
  session := by rw [h.assets]
  stop := by
    intro hstop
    cases hr : c.running with
    | none =>
      rw [(h.idle hr).1] at hstop
      simp [StopFlag.default] at hstop
    | some turn => exact ⟨turn, rfl, (h.flying turn hr).1⟩
  completed := by
    cases hr : c.running with
    | none => exact (h.idle hr).2.dropLast
    | some turn => exact (h.flying turn hr).2.dropLast
  pending := by
    intro entry he hnone
    cases hr : c.running with
    | none => simpa [hnone] using (h.idle hr).2 entry he
    | some turn => rfl
  composing := h.composes

theorem Flight.running_none {c : Console} (h : Flight c) (hb : c.app.busy = false) :
    c.running = none := by
  have := h.busy.symm.trans hb
  simpa using this

/-! ## One pass -/

theorem flight_start (agents : List Agent) (subject socketPath credentialPath : String)
    (options : ConsoleOptions) :
    Flight (Console.start (App.new agents subject socketPath credentialPath) options) where
  busy := rfl
  assets := rfl
  composes := fun h => by cases h
  idle := fun _ => ⟨rfl, fun _ he => absurd he List.not_mem_nil⟩
  flying := fun _ h => by cases h

theorem flight_effect {c c' : Console} (h : Flight c) (he : Effect c c') : Flight c' := by
  cases he with
  | quiet hq hf hs =>
    refine ⟨?_, ?_, hq.composes h.composes, ?_, ?_⟩
    · rw [hq.shell.busy, hf.running, h.busy]
    · exact hq.context.inventory h.assets
    · intro hr
      rw [hf.running] at hr
      obtain ⟨hstop, hsettled⟩ := h.idle hr
      refine ⟨?_, ?_⟩
      · rcases hs with hs | ⟨hbusy, -⟩
        · exact hs.trans hstop
        · rw [h.busy, hr] at hbusy
          cases hbusy
      · rwa [Settled, hq.shell.shellHistory]
    · intro turn hr
      rw [hf.running] at hr
      obtain ⟨hstop, hawaits⟩ := h.flying turn hr
      refine ⟨?_, hawaits.of_shellHistory hq.shell.shellHistory⟩
      rcases hs with hs | ⟨-, hs⟩ <;> rw [hs] <;> exact hstop
  | missing hm => exact absurd hm (not_missing h.assets)
  | completed hb hf hs hc hb' hm entry he hh =>
    have hr := h.running_none hb
    obtain ⟨hstop, hsettled⟩ := h.idle hr
    have hr' := hf.running.trans hr
    refine ⟨by simp [hb', hr'], ?_, hm h.composes, fun _ => ⟨hs.trans hstop, ?_⟩, ?_⟩
    · exact hc.inventory h.assets
    · rw [Settled, hh]
      exact List.forall_mem_append.2 ⟨hsettled, by simpa using he⟩
    · intro turn ht
      simp [hr'] at ht
  | hopped hb hr hn hs ha hb' hm hh =>
    have hr' := hr.trans (h.running_none hb)
    refine ⟨by simp [hb', hr'], ha, hm, fun _ => ⟨hs.trans (h.idle (h.running_none hb)).1, ?_⟩,
      ?_⟩
    · simp [Settled, hh]
    · intro turn ht
      simp [hr'] at ht
  | spawned hb line leg signal hl hr hn hs hc hb' hm hh =>
    have hsettled := (h.idle (h.running_none hb)).2
    refine ⟨by simp [hb', hr], ?_, hm h.composes, ?_, ?_⟩
    · exact hc.inventory h.assets
    · intro hnone
      simp [hr] at hnone
    · intro turn ht
      obtain rfl := Option.some.inj (hr.symm.trans ht)
      exact ⟨by rw [hs]; rfl, line, leg, signal, c.history, rfl, rfl, c.app.shellHistory, hh, hsettled⟩

/-- A report admitted by the loop completes the pending entry of its own command. -/
theorem shellHistory_receive {c : Console} (h : Flight c) {event : SessionEvent}
    (ha : Admits c (.event event)) : ∃ entry turn before line leg signal previous,
      event = .shellFinished entry ∧ c.running = some turn ∧
      turn.task = .shell line leg signal previous ∧ turn.reported = false ∧ entry.exitCode.isSome ∧
      entry.input = line ∧ c.app.shellHistory = before ++ [pendingEntry line] ∧
      (∀ entry ∈ before, entry.exitCode.isSome) ∧
      (receive c event).app = { c.app with shellHistory := before ++ [entry] } := by
  obtain ⟨turn, hr, hreported, hsends⟩ := ha
  obtain ⟨-, line, leg, signal, previous, htask, -, hawaits⟩ := h.flying turn hr
  rw [htask] at hsends
  cases event with
  | shellFinished entry =>
    rw [if_neg (by simp [hreported])] at hawaits
    obtain ⟨before, hh, hbefore⟩ := hawaits
    have hp : c.app.Pending before (pendingEntry line) := ⟨hh, rfl⟩
    exact ⟨entry, turn, before, line, leg, signal, previous, rfl, hr, htask, hreported, hsends.2,
      hsends.1, hh, hbefore, hp.finishShell entry⟩
  | _ => exact hsends.elim

theorem flight_receive {c : Console} (h : Flight c) {event : SessionEvent}
    (ha : Admits c (.event event)) : Flight (receive c event) := by
  obtain ⟨entry, turn, before, line, leg, signal, previous, rfl, hr, htask, -, he, -, -, hbefore,
    happ⟩ := shellHistory_receive h ha
  have hr' : (receive c (.shellFinished entry)).running = some { turn with reported := true } := by
    simp [receive, hr, SessionEvent.isLast]
  obtain ⟨hstop, -, -, -, -, -, hshell, -⟩ := h.flying turn hr
  refine ⟨?_, ?_, ?_, ?_, ?_⟩
  · rw [happ, hr', h.busy, hr]
    rfl
  · rw [happ]
    exact h.assets
  · rw [happ]
    exact h.composes
  · intro hnone
    simp [hr'] at hnone
  · intro turn' ht
    obtain rfl := Option.some.inj (hr'.symm.trans ht)
    refine ⟨hstop, line, leg, signal, previous, htask, hshell, ?_⟩
    rw [if_pos rfl, happ]
    exact List.forall_mem_append.2 ⟨hbefore, by simpa using he⟩

theorem flight_finishTurn {c : Console} (h : Flight c) (joined : Joined) :
    Flight (finishTurn exts joined c) := by
  unfold finishTurn
  cases hr : c.running with
  | none => exact h
  | some turn =>
    obtain ⟨-, hawaits⟩ := h.flying turn hr
    obtain ⟨-, -, -, -, -, hshell, -⟩ := id hawaits
    simp only [hshell]
    have hc := (sameContext_settleTurn exts true joined { c with running := none }).app
    have hsettled := hawaits.settleTurn exts (c := { c with running := none }) joined
    refine ⟨?_, ?_, ?_, fun _ => ⟨?_, hsettled⟩, ?_⟩
    · rw [settleTurn_eq]
      rfl
    · exact hc.inventory h.assets
    · exact composes_settleTurn exts (c := { c with running := none }) h.composes joined
    · rw [settleTurn_eq]
    · intro turn' ht
      rw [settleTurn_eq] at ht
      cases ht

/-- A pass is an effect of a key, a hop or a command, or it takes an event or a
    join of the task in flight. -/
theorem effect_step (exts : Externals) {c : Console} {l : Label} (hl : Interactive c l) :
    Effect c (step exts c l) ∨ (∃ event, l = .event event) ∨ ∃ joined, l = .close joined := by
  cases l with
  | key key answers => exact Or.inl (effect_key exts key answers c)
  | action action answers =>
    cases action with
    | enter => exact Or.inl (effect_enter exts answers c)
    | shell line => exact Or.inl (effect_shell exts answers c line)
    | turn prompt => exact hl.elim
  | submitTurn answers => exact hl.elim
  | event event => exact Or.inr (Or.inl ⟨event, rfl⟩)
  | close joined => exact Or.inr (Or.inr ⟨joined, rfl⟩)
  | intake intake => exact Or.inl (effect_intake exts hl intake)
  | resize width height => exact Or.inl (effect_resize exts c width height)

/-- **Every pass keeps the invariant.** -/
theorem flight_step {c : Console} (h : Flight c) {l : Label} (hl : Interactive c l) :
    Flight (step exts c l) := by
  rcases effect_step exts hl with he | ⟨event, rfl⟩ | ⟨joined, rfl⟩
  · exact flight_effect h he
  · exact flight_receive h hl
  · exact flight_finishTurn h joined

/-! ## Whose entry a report completes -/

/-- A task in flight that has not reported was there before the pass, over the
    same shell history, or the pass launched it and opened its entry. -/
theorem launched_step {c : Console} (h : Flight c) {l : Label} (hl : Interactive c l)
    {turn : RunningTurn} (hr : (step exts c l).running = some turn) (hn : turn.reported = false) :
    (c.running = some turn ∧ (step exts c l).app.shellHistory = c.app.shellHistory) ∨
      (c.running = none ∧ ∃ line,
        (step exts c l).app.shellHistory = c.app.shellHistory ++ [pendingEntry line]) := by
  rcases effect_step exts hl with he | ⟨event, rfl⟩ | ⟨joined, rfl⟩
  · cases he with
    | quiet hq hf hs => exact Or.inl ⟨hf.running.symm.trans hr, hq.shell.shellHistory⟩
    | missing hm => exact absurd hm (not_missing h.assets)
    | completed hb hf _ _ _ _ _ _ _ =>
      have := (hf.running.trans (h.running_none hb)).symm.trans hr
      cases this
    | hopped hb hr' _ _ _ _ _ _ =>
      have := (hr'.trans (h.running_none hb)).symm.trans hr
      cases this
    | spawned hb line leg signal hl hr' hn hs hc hb' hm hh =>
      exact Or.inr ⟨h.running_none hb, line, hh⟩
  · obtain ⟨entry, turn', before, line, leg, signal, previous, rfl, hr', -⟩ := shellHistory_receive h hl
    simp only [step, react, receive, hr', Option.map_some, Option.some.injEq] at hr
    simp [← hr, SessionEvent.isLast] at hn
  · simp only [step, react, finishTurn] at hr
    cases hc : c.running with
    | none => simp [hc] at hr
    | some turn' =>
      simp only [hc, settleTurn_eq] at hr
      cases hr

/-- The pass after `before` launched the task in flight and opened its entry,
    which has been the last one, and pending, since. -/
def Launched (exts : Externals) (c₀ : Console) (ls before : List Label) (turn : RunningTurn)
    (line : String) : Prop :=
  ∃ l after, ls = before ++ l :: after ∧ (Runs.exec (step exts) c₀ before).running = none ∧
    ∀ mid, mid <+: after →
      (Runs.exec (step exts) c₀ (before ++ l :: mid)).running = some turn ∧
        (Runs.exec (step exts) c₀ (before ++ l :: mid)).app.shellHistory =
          (Runs.exec (step exts) c₀ before).app.shellHistory ++ [pendingEntry line]

theorem launched_exec {c₀ : Console} (h₀ : Flight c₀) (hidle : c₀.running = none) {ls : List Label}
    (hls : Runs.Steps (step exts) Interactive c₀ ls) {turn : RunningTurn}
    (hr : (Runs.exec (step exts) c₀ ls).running = some turn) (hn : turn.reported = false) :
    ∃ before line, Launched exts c₀ ls before turn line := by
  obtain ⟨before, l, after, rfl, hbefore, hsince⟩ :=
    Runs.exists_origin (P := fun c : Console => c.running = some turn ∧
      c.app.shellHistory = (Runs.exec (step exts) c₀ ls).app.shellHistory) (by simp [hidle]) ⟨hr, rfl⟩
  rw [Runs.steps_append] at hls
  have hf := Runs.exec_of_inv (I := Flight) (fun _ _ hl h => flight_step h hl) h₀ hls.1
  obtain ⟨hnow, hlast⟩ := hsince [] List.nil_prefix
  rw [Runs.exec_concat] at hnow
  rw [Runs.exec_concat] at hlast
  rcases launched_step hf hls.2.1 hnow hn with ⟨hkept, hh⟩ | ⟨hnone, line, hh⟩
  · exact absurd ⟨hkept, hh.symm.trans hlast⟩ hbefore
  · refine ⟨before, line, l, after, rfl, hnone, ?_⟩
    intro mid hmid
    obtain ⟨hrunning, hhistory⟩ := hsince mid hmid
    exact ⟨hrunning, hhistory.trans (hlast.symm.trans hh)⟩

/-! ## Every run -/

/-- **Single flight.**  In every state of every run of keys, hops, commands,
    reports and joins the invariant holds, and a report completes the entry that
    the pass which launched its own command opened. -/
theorem single_flight (exts : Externals) (agents : List Agent)
    (subject socketPath credentialPath : String) (options : ConsoleOptions) (ls : List Label) :
    let c₀ := Console.start (App.new agents subject socketPath credentialPath) options
    Runs.Steps (step exts) Interactive c₀ ls →
      Runs.Always (step exts) SingleFlight c₀ ls ∧
      ∀ entry, Admits (Runs.exec (step exts) c₀ ls) (.event (.shellFinished entry)) →
        ∃ before turn, Launched exts c₀ ls before turn entry.input ∧
          (step exts (Runs.exec (step exts) c₀ ls) (.event (.shellFinished entry))).app.shellHistory =
            (Runs.exec (step exts) c₀ before).app.shellHistory ++ [entry] := by
  intro c₀ hls
  have h₀ : Flight c₀ := flight_start agents subject socketPath credentialPath options
  have hkeep (c : Console) (l : Label) (hl : Interactive c l) (h : Flight c) :
      Flight (step exts c l) := flight_step h hl
  refine ⟨(Runs.always_of_inv hkeep h₀ hls).mono fun _ h => h.singleFlight, ?_⟩
  intro entry ha
  obtain ⟨_, turn, before, line, leg, signal, previous, heq, hr, -, hn, -, hinput, hh, -, happ⟩ :=
    shellHistory_receive (Runs.exec_of_inv hkeep h₀ hls) ha
  obtain rfl := SessionEvent.shellFinished.inj heq
  obtain ⟨before', line', l, after, rfl, hidle, hsince⟩ := launched_exec h₀ rfl hls hr hn
  have hlast := (hsince after (List.prefix_refl _)).2
  obtain ⟨hbefore, hline⟩ := List.append_inj' (hh.symm.trans hlast) rfl
  obtain rfl : line = line' := by simpa [pendingEntry] using hline
  refine ⟨before', turn, hinput ▸ ⟨l, after, rfl, hidle, hsince⟩, ?_⟩
  simp only [step, react, happ, hbefore]

/-- A hop into `ops`, and `ls` typed and sent there. -/
def Sample.command : List Label :=
  [.enter, .char 'l', .char 's', .enter].map fun code => .key ⟨code, .none⟩ answers

theorem single_flight_sample :
    let c₀ := Console.start (App.new Sample.catalog "operator" "broker.sock" "auth.json")
      Sample.options
    Runs.Always (step .plain) SingleFlight c₀ Sample.command ∧
      ∃ before turn, Launched .plain c₀ Sample.command before turn "ls" ∧
        (step .plain (Runs.exec (step .plain) c₀ Sample.command)
          (.event (.shellFinished ⟨"ls", "a.txt", some 0, false⟩))).app.shellHistory =
            (Runs.exec (step .plain) c₀ before).app.shellHistory ++
              [⟨"ls", "a.txt", some 0, false⟩] := by
  obtain ⟨halways, hreport⟩ := single_flight .plain Sample.catalog "operator" "broker.sock"
    "auth.json" Sample.options Sample.command ⟨trivial, trivial, trivial, trivial, trivial⟩
  exact ⟨halways, hreport ⟨"ls", "a.txt", some 0, false⟩ ⟨_, rfl, rfl, rfl, rfl⟩⟩

end DekoponConsole
