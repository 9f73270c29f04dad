/-
  The structured session is a driver of the interactive loop.

  * `commandLabels` are the passes of the loop that one command amounts to, and
    `runCommand_eq_exec` says that it does just what they do;
  * a deadline cuts a command while its script runs, or drops its dispatch where it waits
    (`Dropped`), which no pass of the loop does;
  * a whole session is a run of the loop up to the command that is cut
    (`structured_refines_loop`): what holds in every run of keys, hops and commands holds
    of the transport too.
-/
import DekoponConsole.Proof.Protocol
import DekoponConsole.Proof.SingleFlight

namespace DekoponConsole

open App

variable {exts : Externals}

/-! ## One command -/

/-- The action a pass dispatches directly. -/
def Label.dispatches : Label → Option Action
  | .action a _ => some a
  | _ => none

/-- How the join of a script ends. -/
def JoinResult.joined (turn : RunningTurn) : JoinResult → Joined
  | .returned => .returned turn.task.given
  | .failed error => .failed error
  | .died error => .died error

/-- What a script does while it runs: its providers change its inventory, and it sends its
    report, if it sends one. -/
def reportLabels (o : CommandOracle) (line : String) : List Label :=
  o.intakes.map .intake ++
    o.script.toList.map fun outcome => .event (.shellFinished (shellReport line outcome))

/-- The passes a script takes once it runs: those of its report, and its join. -/
def scriptLabels (o : CommandOracle) (line : String) (turn : RunningTurn) : List Label :=
  reportLabels o line ++ [.close (o.join.joined turn)]

/-- The pass that dispatches a command, and those its script takes if it has one. -/
def passes (exts : Externals) (o : CommandOracle) (line : String) (c : Console)
    (script : RunningTurn → List Label) : List Label :=
  .action (.shell line) o.answers ::
    match (step exts c (.action (.shell line) o.answers)).running with
    | some turn => script turn
    | none => []

/-- The passes one command amounts to. -/
def commandLabels (exts : Externals) (o : CommandOracle) (line : String) (c : Console) :
    List Label :=
  passes exts o line c (scriptLabels o line)

/-- The passes of a command that is cut while its script runs: all but the join. -/
def cutLabels (exts : Externals) (o : CommandOracle) (line : String) (c : Console) :
    List Label :=
  passes exts o line c fun _ => reportLabels o line

section
variable {o : CommandOracle} {line : String} {c : Console} {turn : RunningTurn}

theorem complete_eq (o : CommandOracle) (line : String) (turn : RunningTurn) (c : Console) :
    complete exts o line turn c =
      ((match o.script with
        | some outcome =>
          { provide exts c o.intakes with
            app := (provide exts c o.intakes).app.finishShell (shellReport line outcome) }
        | none => provide exts c o.intakes), o.join.joined turn) := by
  unfold complete
  cases o.join <;> rfl

theorem running_provide (exts : Externals) (c : Console) (intakes : List Intake) :
    (provide exts c intakes).running = c.running := by
  obtain ⟨stores, h⟩ := provide_eq exts c intakes
  rw [h]

/-- Draining and joining a script is its report and its join. -/
theorem exec_scriptLabels (hr : c.running = some turn) :
    Runs.exec (step exts) c (scriptLabels o line turn) =
      settleTurn exts turn.shell (complete exts o line turn c).2
        { (complete exts o line turn c).1 with running := none } := by
  have hp : (provide exts c o.intakes).running = some turn := (running_provide ..).trans hr
  rw [complete_eq, scriptLabels, reportLabels, List.append_assoc, Runs.exec_append, exec_intakes]
  generalize provide exts c o.intakes = c' at hp
  cases o.script with
  | none => simp [step, react, finishTurn, hp]
  | some outcome => simp [step, react, finishTurn, receive, onEvent, hp]

/-- A script's report and its join are met in the state it runs in. -/
theorem steps_scriptLabels {leg : BrokerLeg} {signal : CancelId} {previous : History}
    (hr : c.running = some turn) (ht : turn.task = .shell line leg signal previous)
    (hn : turn.reported = false) :
    Runs.Steps (step exts) Interactive c (scriptLabels o line turn) := by
  have hreturns (history : History) (h : o.join.joined turn = .returned history) :
      turn.task.returns history := by
    rw [ht]
    cases hj : o.join with
    | returned =>
      rw [hj, JoinResult.joined, ht] at h
      exact (Joined.returned.inj h).symm
    | failed error =>
      rw [hj] at h
      cases h
    | died error =>
      rw [hj] at h
      cases h
  have hp : (provide exts c o.intakes).running = some turn := (running_provide ..).trans hr
  rw [scriptLabels, reportLabels, List.append_assoc, Runs.steps_append, exec_intakes]
  -- its providers change its inventory while it runs
  refine ⟨steps_intakes (fun _ _ => Option.isSome_iff_exists.2 ⟨turn, hr⟩) o.intakes, ?_⟩
  generalize provide exts c o.intakes = c' at hp
  cases o.script with
  | none => exact ⟨⟨turn, hp, hreturns⟩, trivial⟩
  | some outcome =>
    refine ⟨⟨turn, hp, hn, ?_⟩, ⟨{ turn with reported := true }, ?_, hreturns⟩, trivial⟩
    · rw [ht]
      exact ⟨rfl, rfl⟩
    · simp [step, react, receive, hp, SessionEvent.isLast]

/-- Cancelling a script that has reported is its report, and then the cancel. -/
theorem cancelTurn_reported (hr : c.running = some turn) :
    cancelTurn (complete exts o line turn c).1 =
      cancelTurn (Runs.exec (step exts) c (reportLabels o line)) := by
  have hp : (provide exts c o.intakes).running = some turn := (running_provide ..).trans hr
  rw [complete_eq, reportLabels, Runs.exec_append, exec_intakes]
  generalize provide exts c o.intakes = c' at hp
  cases o.script with
  | none => rfl
  | some outcome => simp [step, react, receive, onEvent, cancelTurn, hp]

end

/-- Every command of an open session sets the notice anew, so that clearing it before is
    of no effect. -/
theorem dispatchShell_notice (answers : Answers) {c c' : Console} (line : String)
    (hc : c' = { c with app := { c.app with notice := none } })
    (hs : c.app.session.isSome) (ha : c.app.assets.isSome) :
    dispatchShell exts answers c' line = dispatchShell exts answers c line := by
  obtain ⟨session, hs⟩ := Option.isSome_iff_exists.1 hs
  obtain ⟨store, ha⟩ := Option.isSome_iff_exists.1 ha
  have hs' : c'.app.session = some session := by rw [hc, ← hs]
  have hb : c'.app.busy = c.app.busy := by rw [hc]
  have hrefuse (text : String) : c'.refuse text = c.refuse text := by
    rw [hc]
    rfl
  have hscript : dispatchScript exts answers c' session.agent line =
      dispatchScript exts answers c session.agent line := by
    rw [hc]
    rfl
  have hasset (command : String) :
      dispatchAsset exts answers c' command = dispatchAsset exts answers c command := by
    rw [hc]
    unfold dispatchAsset
    simp only [ha, completeLocally_eq]
  have hsmoke (text : String) : dispatchSmoke exts answers c' session.agent line text =
      dispatchSmoke exts answers c session.agent line text := by
    rw [hc]
    unfold dispatchSmoke
    simp only [completeLocally_eq]
    rfl
  unfold dispatchShell
  simp only [hs, hs', hb, hrefuse, hscript, hasset, hsmoke]

/-- A line dispatched to an idle console leaves nothing running, or its own script. -/
theorem running_dispatchShell (exts : Externals) (answers : Answers) {c : Console} (line : String)
    (hr : c.running = none) : (dispatchShell exts answers c line).1.running = none ∨
      ∃ leg signal previous, (dispatchShell exts answers c line).1.running =
        some ⟨.shell line leg signal previous, true, false⟩ := by
  have he := dispatchShell_effect exts answers c line
  generalize dispatchShell exts answers c line = d at he
  obtain ⟨c', calls⟩ := d
  cases he with
  | refused text => exact Or.inl hr
  | missing hm app ha => exact Or.inl hr
  | completed hb identity stores hl input output exitCode hi _ hc => exact Or.inl hr
  | failed hb report _ hl => exact Or.inl hr
  | spawned hb leg hs _ hl _ hspawned =>
    obtain ⟨trace, rfl⟩ := hspawned
    exact Or.inr ⟨leg, c.nextCancel, c.history, rfl⟩

/-- **A command is a run of the loop**, of passes the loop can meet. -/
theorem runCommand_eq_exec (exts : Externals) (o : CommandOracle) (line : String) {c : Console}
    (h : Idle c) :
    runCommand exts o line c = Runs.exec (step exts) c (commandLabels exts o line c) ∧
      Runs.Steps (step exts) Interactive c (commandLabels exts o line c) := by
  have hd : dispatch exts o.answers { c with app := { c.app with notice := none } } (.shell line) =
      dispatchShell exts o.answers c line :=
    dispatchShell_notice o.answers line rfl h.session h.assets
  have hstep : step exts c (.action (.shell line) o.answers) =
      (dispatchShell exts o.answers c line).1 := rfl
  simp only [runCommand, hd, commandLabels, passes, hstep]
  rcases running_dispatchShell exts o.answers line h.running with hr | ⟨leg, signal, previous, hr⟩
  · simp only [hr]
    exact ⟨rfl, trivial, trivial⟩
  · simp only [hr]
    exact ⟨(exec_scriptLabels hr).symm, trivial, steps_scriptLabels hr rfl rfl⟩

/-! ## A command that is cut -/

theorem cancelTurn_of_idle {c : Console} (hr : c.running = none) : cancelTurn c = c := by
  rw [cancelTurn, hr]

/-- What a command leaves whose dispatch is dropped, beside the pass of the loop that would
    have performed it. -/
inductive Dropped (exts : Externals) (answers : Answers) (c : Console) (line : String) :
    Console → Prop
  /-- it asks nothing of the broker, and is performed -/
  | performed (h : asked exts c (.action (.shell line) answers) = []) :
      Dropped exts answers c line (step exts c (.action (.shell line) answers))
  /-- a recording is waited for: the identity of its turn is spent -/
  | recording (attestation : Attestation) (turn : DeliveredTurnRequest)
      (h : asked exts c (.action (.shell line) answers) = [.recordDeliveredTurn attestation turn]) :
      Dropped exts answers c line { c with
        app := { c.app with notice := none }
        identity := (step exts c (.action (.shell line) answers)).identity }
  /-- a leg is waited for: the line is echoed, and stays pending -/
  | opening (attestation : Attestation) (store : StoreId)
      (h : asked exts c (.action (.shell line) answers) = [.openLeg attestation store]) :
      Dropped exts answers c line { c with app := c.app.startShell line }

section
variable (c : Console) (line : String) {d : Dispatched} {calls : List BrokerCall}

theorem awaiting_nothing (h : d.2 = []) : awaiting c line d = d.1 := by
  obtain ⟨done, _⟩ := d
  obtain rfl := h
  rfl

theorem awaiting_recording {attestation : Attestation} {turn : DeliveredTurnRequest}
    (h : d.2 = .recordDeliveredTurn attestation turn :: calls) :
    awaiting c line d = { c with identity := d.1.identity } := by
  obtain ⟨done, _⟩ := d
  obtain rfl := h
  rfl

theorem awaiting_leg {attestation : Attestation} {store : StoreId}
    (h : d.2 = .openLeg attestation store :: calls) :
    awaiting c line d = { c with app := c.app.startShell line } := by
  obtain ⟨done, _⟩ := d
  obtain rfl := h
  rfl

end

/-- A dropped dispatch leaves nothing running. -/
theorem dropped_droppedShell (exts : Externals) (answers : Answers) (line : String) {c c₁ : Console}
    (h : Idle c) (hc₁ : c₁ = { c with app := { c.app with notice := none } }) :
    Dropped exts answers c line (droppedShell exts answers c₁ line) ∧
      (droppedShell exts answers c₁ line).running = none := by
  have heffect := dispatchShell_effect exts answers c line
  have hdropped : droppedShell exts answers c₁ line =
      awaiting c₁ line (dispatchShell exts answers c line) := by
    rw [droppedShell, dispatchShell_notice answers line hc₁ h.session h.assets]
  have hrunning : c₁.running = none := by rw [hc₁, h.running]
  have hperformed (hcalls : (dispatchShell exts answers c line).2 = [])
      (hr : (dispatchShell exts answers c line).1.running = none) :
      Dropped exts answers c line (droppedShell exts answers c₁ line) ∧
        (droppedShell exts answers c₁ line).running = none := by
    rw [hdropped, awaiting_nothing c₁ line hcalls]
    exact ⟨.performed hcalls, hr⟩
  have hopening (hl : SessionLeg c (dispatchShell exts answers c line).2) :
      Dropped exts answers c line (droppedShell exts answers c₁ line) ∧
        (droppedShell exts answers c₁ line).running = none := by
    obtain ⟨session, store, -, -, hcalls⟩ := hl
    have hstarted : ({ c₁ with app := c₁.app.startShell line } : Console) =
        { c with app := c.app.startShell line } := by
      rw [hc₁]
      rfl
    rw [hdropped, awaiting_leg c₁ line hcalls]
    exact ⟨hstarted ▸ .opening _ _ hcalls, hrunning⟩
  rcases hr : dispatchShell exts answers c line with ⟨c', calls⟩
  rw [hr] at heffect hperformed hopening hdropped
  cases heffect with
  | refused text => exact hperformed rfl h.running
  | missing hm app ha => exact hperformed rfl h.running
  | completed hb identity stores hl input output exitCode hi _ hc =>
    rcases hc with hc | ⟨-, session, turn, -, hc⟩
    · exact hperformed hc h.running
    · have hasked : asked exts c (.action (.shell line) answers) = _ :=
        (congrArg Prod.snd hr).trans hc
      have hrecording := Dropped.recording _ turn hasked
      rw [show step exts c (.action (.shell line) answers) = _ from congrArg Prod.fst hr]
        at hrecording
      rw [hdropped, awaiting_recording c₁ line hc]
      subst hc₁
      exact ⟨hrecording, hrunning⟩
  | failed hb report _ hl => exact hopening hl
  | spawned hb leg hs _ hl _ hspawned => exact hopening hl

/-- A command cut while its dispatch waits. -/
theorem cutCommand_dispatching (exts : Externals) {o : CommandOracle} (line : String) {c : Console}
    (h : Idle c) (ho : o.cut = .dispatching) :
    Dropped exts o.answers c line (cutCommand exts o line c) := by
  obtain ⟨hdropped, hrunning⟩ := dropped_droppedShell exts o.answers line h rfl
  simp only [cutCommand, ho]
  rw [cancelTurn_of_idle hrunning]
  exact hdropped

/-- A command cut while its script runs, or after the last thing it waits for. -/
theorem cutCommand_running (exts : Externals) {o : CommandOracle} (line : String) {c : Console}
    (h : Idle c) (ho : o.cut = .running) :
    cutCommand exts o line c = cancelTurn (Runs.exec (step exts) c (cutLabels exts o line c)) ∧
      Runs.Steps (step exts) Interactive c (cutLabels exts o line c) := by
  have hd : dispatch exts o.answers { c with app := { c.app with notice := none } } (.shell line) =
      dispatchShell exts o.answers c line :=
    dispatchShell_notice o.answers line rfl h.session h.assets
  have hstep : step exts c (.action (.shell line) o.answers) =
      (dispatchShell exts o.answers c line).1 := rfl
  simp only [cutCommand, ho, hd, cutLabels, passes, hstep]
  rcases running_dispatchShell exts o.answers line h.running with hr | ⟨leg, signal, previous, hr⟩
  · simp only [hr]
    exact ⟨rfl, trivial, trivial⟩
  · simp only [hr]
    have hsteps : Runs.Steps (step exts) Interactive _ (scriptLabels o line _) :=
      steps_scriptLabels hr rfl rfl
    rw [scriptLabels, Runs.steps_append] at hsteps
    exact ⟨cancelTurn_reported hr, trivial, hsteps.1⟩

theorem dispatches_reportLabels (o : CommandOracle) (line : String) :
    (reportLabels o line).filterMap Label.dispatches = [] := by
  have hintakes : (o.intakes.map Label.intake).filterMap Label.dispatches = [] := by
    rw [List.filterMap_map]
    exact List.filterMap_eq_nil_iff.2 fun intake _ => rfl
  rw [reportLabels, List.filterMap_append, hintakes]
  cases o.script <;> rfl

theorem dispatches_scriptLabels (o : CommandOracle) (line : String) (turn : RunningTurn) :
    (scriptLabels o line turn).filterMap Label.dispatches = [] := by
  rw [scriptLabels, List.filterMap_append, dispatches_reportLabels]
  rfl

/-- What a command's passes dispatch is its line. -/
theorem dispatches_passes (exts : Externals) (o : CommandOracle) (line : String) (c : Console)
    {script : RunningTurn → List Label}
    (h : ∀ turn, (script turn).filterMap Label.dispatches = []) :
    (passes exts o line c script).filterMap Label.dispatches = [.shell line] := by
  unfold passes
  cases (step exts c (.action (.shell line) o.answers)).running with
  | none => rfl
  | some turn => exact congrArg (.shell line :: ·) (h turn)

/-- What a hop leaves that is dropped: refused, or waiting for its leg in the state it is
    opened in. -/
inductive DroppedHop (exts : Externals) (c : Console) : Console → Prop
  | refused (refusal : HopRefusal) (h : LocalRefusal exts c refusal) :
      DroppedHop exts c (c.refuse refusal.text)
  | waiting (agent : AgentId) (c₁ : Console) (hop : Hop exts c agent c₁) :
      DroppedHop exts c (prepareHop exts c₁)

/-- The last command dispatched was cut by its deadline. -/
def Session.CutAt (orc : SessionOracle) (s : Session) (cut : Cut) : Prop :=
  ∃ k, s.dispatched.length = k + 1 ∧ (orc.command k).timeout = true ∧ (orc.command k).cut = cut

/-- A run of the loop, of passes it can meet, that dispatches a hop and some lines. -/
structure Drive (exts : Externals) (c₀ : Console) (lines : List String) (ls : List Label) :
    Prop where
  steps : Runs.Steps (step exts) Interactive c₀ ls
  dispatches : ls.filterMap Label.dispatches = .enter :: lines.map .shell

/-- **How the console of a session stands to a run of the loop**, which dispatches the
    session's lines, each once and in their order. -/
inductive Driven (exts : Externals) (orc : SessionOracle) (c₀ : Console) (s : Session) : Prop
  /-- no command was cut: the run leaves it -/
  | ran (ls : List Label) (drive : Drive exts c₀ s.dispatched ls)
      (kept : ∀ cut, ¬s.CutAt orc cut) (console : s.console = Runs.exec (step exts) c₀ ls)
  /-- the last command was cut while its script ran: the run leaves it, with the script
      cancelled -/
  | cancelled (ls : List Label) (drive : Drive exts c₀ s.dispatched ls)
      (cut : s.CutAt orc .running) (console : s.console = cancelTurn (Runs.exec (step exts) c₀ ls))
  /-- the last command was cut while its dispatch waited: it is dropped where the run of
      those before it ends -/
  | dropped (ls : List Label) (lines : List String) (line : String) (drive : Drive exts c₀ lines ls)
      (last : s.dispatched = lines ++ [line]) (cut : s.CutAt orc .dispatching)
      (console : Dropped exts (orc.command lines.length).answers (Runs.exec (step exts) c₀ ls)
        line s.console)
  /-- the hop was cut: nothing is dispatched -/
  | entering (cut : orc.hopDeadline = true) (none : s.dispatched = [])
      (console : DroppedHop exts c₀ s.console)

/-- A session between two commands. -/
structure Driving (exts : Externals) (orc : SessionOracle) (c₀ : Console) (ls : List Label)
    (s : Session) : Prop where
  drive : Drive exts c₀ s.dispatched ls
  console : s.console = Runs.exec (step exts) c₀ ls
  idle : Idle s.console
  kept : ∀ cut, ¬s.CutAt orc cut

section
variable {orc : SessionOracle} {c₀ : Console} {ls : List Label} {s s' : Session}

/-- What neither dispatches nor changes the console. -/
theorem Driven.of_eq (h : Driven exts orc c₀ s) (hd : s'.dispatched = s.dispatched)
    (hc : s'.console = s.console) : Driven exts orc c₀ s' := by
  have hcut (cut : Cut) : s'.CutAt orc cut ↔ s.CutAt orc cut := by
    rw [Session.CutAt, hd, Session.CutAt]
  cases h with
  | ran ls drive kept console =>
    exact .ran ls (hd ▸ drive) (fun cut hn => kept cut ((hcut cut).1 hn)) (hc.trans console)
  | cancelled ls drive cut console =>
    exact .cancelled ls (hd ▸ drive) ((hcut _).2 cut) (hc.trans console)
  | dropped ls lines line drive last cut console =>
    exact .dropped ls lines line drive (hd.trans last) ((hcut _).2 cut) (hc ▸ console)
  | entering cut none console => exact .entering cut (hd.trans none) (hc ▸ console)

theorem Driving.of_eq (h : Driving exts orc c₀ ls s) (hd : s'.dispatched = s.dispatched)
    (hc : s'.console = s.console) : Driving exts orc c₀ ls s' := by
  refine ⟨hd ▸ h.drive, hc.trans h.console, hc ▸ h.idle, fun cut => ?_⟩
  rw [Session.CutAt, hd]
  exact h.kept cut

theorem Driving.driven (h : Driving exts orc c₀ ls s) : Driven exts orc c₀ s :=
  .ran ls h.drive h.kept h.console

theorem Session.write_eq (orc : SessionOracle) (s : Session) (text : List Char) :
    (s.write orc text).1.dispatched = s.dispatched ∧ (s.write orc text).1.console = s.console := by
  unfold Session.write
  split <;> exact ⟨rfl, rfl⟩

theorem Session.writeFrame_eq (orc : SessionOracle) (nonce : String) (s : Session) (frame : Frame) :
    (s.writeFrame orc nonce frame).1.dispatched = s.dispatched ∧
      (s.writeFrame orc nonce frame).1.console = s.console := by
  have h := s.write_eq orc (writeResult nonce frame.status frame.text)
  unfold Session.writeFrame
  generalize s.write orc (writeResult nonce frame.status frame.text) = r at h
  obtain ⟨s', _ | _⟩ := r <;> exact h

theorem Session.read_eq (orc : SessionOracle) (s : Session) :
    (s.read orc).1.dispatched = s.dispatched ∧ (s.read orc).1.console = s.console := by
  unfold Session.read
  split_ifs <;> exact ⟨rfl, rfl⟩

/-- The passes of one more command extend the run. -/
theorem Driving.extend (h : Driving exts orc c₀ ls s) {line : String} {labels : List Label}
    (hsteps : Runs.Steps (step exts) Interactive s.console labels)
    (hdispatches : labels.filterMap Label.dispatches = [.shell line]) :
    Drive exts c₀ (s.dispatched ++ [line]) (ls ++ labels) ∧
      Runs.exec (step exts) s.console labels = Runs.exec (step exts) c₀ (ls ++ labels) := by
  refine ⟨⟨?_, ?_⟩, ?_⟩
  · rw [Runs.steps_append, ← h.console]
    exact ⟨h.drive.steps, hsteps⟩
  · rw [List.filterMap_append, hdispatches, h.drive.dispatches, List.map_append]
    rfl
  · rw [Runs.exec_append, ← h.console]

/-- A command that does not time out extends the run by its passes. -/
theorem Driving.command (h : Driving exts orc c₀ ls s) (nonce line : String)
    (ht : (orc.command s.dispatched.length).timeout = false) :
    ∃ ls', Driving exts orc c₀ ls' (s.command exts orc nonce line).1 := by
  obtain ⟨hexec, hsteps⟩ :=
    runCommand_eq_exec exts (orc.command s.dispatched.length) line h.idle
  obtain ⟨hdrive, hconsole⟩ :=
    h.extend hsteps (dispatches_passes _ _ _ _ (dispatches_scriptLabels _ line))
  generalize ls ++ commandLabels exts (orc.command s.dispatched.length) line s.console = ls' at *
  have hnext : Driving exts orc c₀ ls' { s with
      dispatched := s.dispatched ++ [line]
      console := runCommand exts (orc.command s.dispatched.length) line s.console } := by
    refine ⟨hdrive, hexec.trans hconsole, (runCommand_spec _ line h.idle).1, ?_⟩
    rintro cut ⟨k, hk, hk', -⟩
    rw [List.length_append, List.length_singleton, Nat.add_right_cancel_iff] at hk
    rw [← hk, ht] at hk'
    cases hk'
  refine ⟨ls', ?_⟩
  unfold Session.command
  simp only [ht, Bool.false_eq_true, if_false]
  exact hnext.of_eq (Session.writeFrame_eq _ _ _ _).1 (Session.writeFrame_eq _ _ _ _).2

/-- A command that is cut leaves its console cancelled, or its dispatch dropped. -/
theorem Driving.cut (h : Driving exts orc c₀ ls s) (line : String)
    (ht : (orc.command s.dispatched.length).timeout = true) :
    Driven exts orc c₀ { s with
      dispatched := s.dispatched ++ [line]
      console := cutCommand exts (orc.command s.dispatched.length) line s.console } := by
  cases ho : (orc.command s.dispatched.length).cut with
  | dispatching =>
    refine .dropped ls s.dispatched line h.drive rfl ⟨s.dispatched.length, by simp, ht, ho⟩ ?_
    rw [← h.console]
    exact cutCommand_dispatching exts line h.idle ho
  | running =>
    obtain ⟨hexec, hsteps⟩ := cutCommand_running exts line h.idle ho
    obtain ⟨hdrive, hconsole⟩ :=
      h.extend hsteps (dispatches_passes _ _ _ _ fun _ => dispatches_reportLabels _ line)
    refine .cancelled (ls ++ cutLabels exts _ line s.console) hdrive
      ⟨s.dispatched.length, by simp, ht, ho⟩ ?_
    exact hexec.trans (congrArg cancelTurn hconsole)

/-- A command that times out ends the session. -/
theorem Driving.timedOut (h : Driving exts orc c₀ ls s) (nonce line : String)
    (ht : (orc.command s.dispatched.length).timeout = true) :
    Driven exts orc c₀ (s.command exts orc nonce line).1 ∧
      ∃ error, (s.command exts orc nonce line).2 = .error error := by
  have hcut := h.cut line ht
  unfold Session.command
  simp only [ht, if_true]
  have hkept := Session.writeFrame_eq orc nonce { s with
    dispatched := s.dispatched ++ [line]
    console := cutCommand exts (orc.command s.dispatched.length) line s.console } timeoutFrame
  generalize Session.writeFrame orc nonce _ timeoutFrame = r at hkept ⊢
  obtain ⟨s', _ | _⟩ := r
  · exact ⟨hcut.of_eq hkept.1 hkept.2, _, rfl⟩
  · exact ⟨hcut.of_eq hkept.1 hkept.2, _, rfl⟩

/-- A command past the last is not dispatched. -/
theorem Driving.refuseFurther (h : Driving exts orc c₀ ls s) (nonce : String) :
    Driven exts orc c₀ (s.refuseFurther orc nonce).1 := by
  have hread := Session.read_eq orc s
  unfold Session.refuseFurther
  generalize s.read orc = r at hread ⊢
  have hr := h.driven.of_eq hread.1 hread.2
  obtain ⟨s', _ | _ | line⟩ := r
  · exact hr
  · exact hr
  · have hframe := Session.writeFrame_eq orc nonce s' limitFrame
    dsimp only
    generalize s'.writeFrame orc nonce limitFrame = r at hframe ⊢
    obtain ⟨s'', _ | _⟩ := r <;> exact hr.of_eq hframe.1 hframe.2

/-- **The loop**, from any number of commands on. -/
theorem Driving.commands (h : Driving exts orc c₀ ls s) (nonce : String) (fuel : ℕ) :
    Driven exts orc c₀ (s.commands exts orc nonce fuel).1 := by
  induction fuel generalizing s ls with
  | zero => exact h.refuseFurther nonce
  | succ fuel ih =>
    have hread := Session.read_eq orc s
    unfold Session.commands
    generalize s.read orc = r at hread ⊢
    have hr := h.of_eq hread.1 hread.2
    obtain ⟨s', _ | _ | line⟩ := r
    · exact hr.driven
    · exact hr.driven
    dsimp only at hr ⊢
    cases ht : (orc.command s'.dispatched.length).timeout with
    | true =>
      obtain ⟨hcut, error, herror⟩ := hr.timedOut nonce line ht
      generalize s'.command exts orc nonce line = r at hcut herror ⊢
      obtain ⟨s'', result⟩ := r
      obtain rfl : result = .error error := herror
      exact hcut
    | false =>
      obtain ⟨ls', hls'⟩ := hr.command nonce line ht
      generalize s'.command exts orc nonce line = r at hls' ⊢
      obtain ⟨s'', _ | _⟩ := r
      · exact hls'.driven
      · exact ih hls'

end

end DekoponConsole
