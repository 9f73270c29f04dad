/-
  A model turn, from its spawn to the transcript, its scripts making their invocations one
  after another.

  * `record_eq_run`: behind its observers a turn returns what it does without them,
    whatever the receiver;
  * `Sends` says what reaches an open receiver: script events, the usages, and progress
    between them; `sends_record` says it of a turn;
  * `absorbAll_turn` folds such events, and `turn_reported` carries them through the loop,
    whatever else it meets meanwhile.
-/
import DekoponConsole.Task
import DekoponConsole.Proof.Pass
import DekoponConsole.Proof.Record
import DekoponConsole.Proof.Startup
import DekoponConsole.Proof.Turn

namespace DekoponConsole

open App

variable {σ π : Type} {exts : Externals}

/-! ## No interference -/

section
variable (env : Surroundings) (runtime : Runtime σ π) (leg : TurnLeg σ π)

/-- A leg on its own. -/
def bareLeg (leg : TurnLeg σ π) : Invoker σ π := fun proposal s => (leg proposal s).2

theorem run_turnInvoke_eq (b : ScriptBehaviour σ π) (r : Recorder) :
    (b.run (turnInvoke env leg) r).1 = (b.run (bareInvoke (bareLeg leg)) ()).1 := by
  induction b generalizing r with
  | finish outcome s => rfl
  | invoke proposal s next ih =>
    simp only [ScriptBehaviour.run, turnInvoke, bareInvoke, bareLeg, Recorder.take, ih]

theorem turnRunScript_eq (script : String) (s : σ) (r : Recorder) :
    (turnRunScript env runtime leg script s r).1 =
      bareRunScript runtime (bareLeg leg) script s :=
  run_turnInvoke_eq env leg (runtime script s) _

/-- **Observation does not interfere** with a turn, whatever the receiver does. -/
theorem record_eq_run (p : PromptBehaviour σ π) (r : Recorder) :
    (p.record env runtime leg r).1 = p.run runtime leg := by
  induction p generalizing r with
  | finish outcome history s => rfl
  | progress event next ih => exact ih _
  | usage reported next ih => simp only [PromptBehaviour.record, PromptBehaviour.run, ih]
  | script text s next ih =>
    simp only [PromptBehaviour.record, PromptBehaviour.run, turnRunScript_eq, ih]
    rfl

end

/-! ## What is sent -/

/-- The events of a script: its start, its calls, its end. -/
def SessionEvent.isScript : SessionEvent → Bool
  | .scriptStarted _ _ | .capability _ | .scriptFinished _ => true
  | _ => false

/-- The events a turn sends before its outcome. -/
def SessionEvent.isTurn : SessionEvent → Bool
  | .shellFinished _ | .finished _ => false
  | _ => true

/-- What was sent between two states of the recorder: these script events and these usages
    in their order, and progress between them. -/
def Sends (r r' : Recorder) (scripts : List SessionEvent) (usages : List (Option ModelUsage)) :
    Prop :=
  ∃ events, r'.sent = r.sent ++ events ∧ (∀ event ∈ events, event.isTurn = true) ∧
    events.filter SessionEvent.isScript = scripts ∧ modelResponses events = usages

theorem Sends.refl (r : Recorder) : Sends r r [] [] :=
  ⟨[], by simp, fun _ h => (List.not_mem_nil h).elim, rfl, rfl⟩

theorem Sends.trans {r r' r'' : Recorder} {scripts scripts' : List SessionEvent}
    {usages usages' : List (Option ModelUsage)} (h : Sends r r' scripts usages)
    (h' : Sends r' r'' scripts' usages') : Sends r r'' (scripts ++ scripts') (usages ++ usages') := by
  obtain ⟨events, hsent, hturn, rfl, rfl⟩ := h
  obtain ⟨events', hsent', hturn', rfl, rfl⟩ := h'
  refine ⟨events ++ events', ?_, ?_, List.filter_append .., List.filterMap_append ..⟩
  · rw [hsent', hsent, List.append_assoc]
  · exact List.forall_mem_append.2 ⟨hturn, hturn'⟩

section
variable (elapsed : ℕ → ℕ)

theorem sent_emit (event : SessionEvent) (r : Recorder) :
    (emit (receiving elapsed) event r).sent = r.sent ++ [event] := by
  simp [emit, receiving]

theorem sends_script (event : SessionEvent) (h : event.isScript = true) (r : Recorder) :
    Sends r (emit (receiving elapsed) event r) [event] [] := by
  refine ⟨[event], sent_emit elapsed event r, ?_, by simp [h], ?_⟩
  · intro e he
    obtain rfl := List.mem_singleton.1 he
    cases e <;> first | rfl | cases h
  · cases event <;> first | rfl | cases h

theorem sends_progress (event : ProgressEvent) (r : Recorder) :
    Sends r (recordProgress (receiving elapsed) event r) [] [] := by
  unfold recordProgress
  cases event.message with
  | none => exact .refl r
  | some message =>
    refine ⟨[.progress message], sent_emit elapsed _ r, ?_, rfl, rfl⟩
    intro e he
    obtain rfl := List.mem_singleton.1 he
    rfl

theorem sends_usage (usage : Option ModelUsage) (r : Recorder) :
    Sends r (recordUsage (receiving elapsed) usage r) [] [usage] := by
  refine ⟨[.modelUsage usage], sent_emit elapsed _ r, ?_, rfl, rfl⟩
  intro e he
  obtain rfl := List.mem_singleton.1 he
  rfl

theorem sends_progresses (events : List ProgressEvent) (r : Recorder) :
    Sends r (events.foldl (fun r event => recordProgress (receiving elapsed) event r) r) [] [] ∧
      (events.foldl (fun r event => recordProgress (receiving elapsed) event r) r).next = r.next := by
  induction events generalizing r with
  | nil => exact ⟨.refl r, rfl⟩
  | cons event events ih =>
    obtain ⟨hsends, hnext⟩ := ih (recordProgress (receiving elapsed) event r)
    refine ⟨(sends_progress elapsed event r).trans hsends, hnext.trans ?_⟩
    unfold recordProgress
    cases event.message <;> rfl

theorem sends_calls (leg : TurnLeg σ π) (b : ScriptBehaviour σ π) (r : Recorder) :
    let ran := b.run (turnInvoke (receiving elapsed) leg) r
    Sends r ran.2 ((callsOf elapsed r.next ran.1.calls).map .capability) [] ∧
      ran.2.next = r.next + ran.1.calls.length := by
  induction b generalizing r with
  | finish outcome s => exact ⟨.refl r, rfl⟩
  | invoke proposal s next ih =>
    obtain ⟨hprogress, hnext⟩ := sends_progresses elapsed (leg proposal s).1 r.take.2
    have hcall := sends_script elapsed (.capability {
      sequence := r.next
      capability := proposal.capability
      input := proposal.input
      outcome := .ofResult (leg proposal s).2.1
      elapsed := elapsed r.next }) rfl
      ((leg proposal s).1.foldl (fun r event => recordProgress (receiving elapsed) event r) r.take.2)
    obtain ⟨hrest, hlast⟩ := ih (leg proposal s).2.1 (leg proposal s).2.2
      (turnInvoke (receiving elapsed) leg proposal (s, r)).2.2
    have hnumber : (turnInvoke (receiving elapsed) leg proposal (s, r)).2.2.next = r.next + 1 := hnext
    rw [hnumber] at hrest hlast
    have hlength (n : ℕ) : r.next + 1 + n = r.next + (n + 1) := by omega
    exact ⟨(hprogress.trans hcall).trans hrest, hlast.trans (hlength _)⟩

theorem sends_turnRunScript (runtime : Runtime σ π) (leg : TurnLeg σ π) (script : String) (s : σ)
    (r : Recorder) :
    let ran := turnRunScript (receiving elapsed) runtime leg script s r
    Sends r ran.2 (sentBy elapsed r.next script ran.1) [] ∧ ran.2.next = nextAfter r.next ran.1 := by
  have hstart := sends_script elapsed (.scriptStarted r.next script) rfl r.take.2
  obtain ⟨hcalls, hnext⟩ := sends_calls elapsed leg (runtime script s)
    (emit (receiving elapsed) (.scriptStarted r.next script) r.take.2)
  have hend := sends_script elapsed (.scriptFinished (scriptRun r.next script
    (turnRunScript (receiving elapsed) runtime leg script s r).1.outcome (elapsed r.next))) rfl
    ((runtime script s).run (turnInvoke (receiving elapsed) leg)
      (emit (receiving elapsed) (.scriptStarted r.next script) r.take.2)).2
  refine ⟨?_, hnext⟩
  have h := (hstart.trans hcalls).trans hend
  rw [List.append_assoc] at h
  exact h

/-- **What a turn sends** before its outcome: its scripts and its usages. -/
theorem sends_record (runtime : Runtime σ π) (leg : TurnLeg σ π) (p : PromptBehaviour σ π)
    (r : Recorder) :
    let turned := p.record (receiving elapsed) runtime leg r
    Sends r turned.2 (sentBySession elapsed r.next turned.1.scripts) turned.1.usages := by
  induction p generalizing r with
  | finish outcome history s => exact .refl r
  | progress event next ih =>
    have hnext : (recordProgress (receiving elapsed) event r).next = r.next := by
      unfold recordProgress
      cases event.message <;> rfl
    have h := (sends_progress elapsed event r).trans (ih _)
    rw [hnext] at h
    exact h
  | usage reported next ih => exact (sends_usage elapsed reported r).trans (ih _)
  | script text s next ih =>
    obtain ⟨hscript, hnext⟩ := sends_turnRunScript elapsed runtime leg text s r
    have h := hscript.trans (ih (turnRunScript (receiving elapsed) runtime leg text s r).1.outcome
      (turnRunScript (receiving elapsed) runtime leg text s r).1.state
      (turnRunScript (receiving elapsed) runtime leg text s r).2)
    rw [hnext] at h
    exact h

end

/-! ## What the events make of a turn -/

theorem absorb_isScript (t : Turn) {event : SessionEvent} (h : event.isScript = true) :
    t.absorb event = { t with scripts := (t.absorb event).scripts } := by
  cases event with
  | scriptStarted sequence script => rfl
  | capability call =>
    simp only [Turn.absorb]
    split <;> rfl
  | scriptFinished run =>
    simp only [Turn.absorb]
    split <;> rfl
  | modelUsage usage => cases h
  | progress message => cases h
  | shellFinished entry => cases h
  | finished outcome => cases h

/-- What an event makes of the scripts depends on the scripts only. -/
theorem scripts_absorb_congr {t t' : Turn} (h : t.scripts = t'.scripts) (event : SessionEvent) :
    (t.absorb event).scripts = (t'.absorb event).scripts := by
  cases event with
  | capability call =>
    simp only [Turn.absorb, h]
    split <;> rfl
  | scriptFinished run =>
    simp only [Turn.absorb, h]
    split <;> rfl
  | _ => simp [Turn.absorb, h]

/-- Scripts and usages fill a turn side by side, whatever progress comes between. -/
theorem absorbAll_turn (t : Turn) {events : List SessionEvent}
    (h : ∀ event ∈ events, event.isTurn = true) :
    t.absorbAll events = { t with
      scripts := (t.absorbAll (events.filter SessionEvent.isScript)).scripts
      tokens := (modelResponses events).foldl TurnTokens.absorb t.tokens } := by
  induction events using List.reverseRecOn with
  | nil => rfl
  | append_singleton events event ih =>
    obtain ⟨hevents, hevent⟩ := List.forall_mem_append.1 h
    have hturn : event.isTurn = true := hevent event (List.mem_singleton.2 rfl)
    have hresponses : modelResponses (events ++ [event]) =
        modelResponses events ++ modelResponses [event] := List.filterMap_append ..
    have hscripts : (t.absorbAll events).scripts =
        (t.absorbAll (events.filter SessionEvent.isScript)).scripts := by rw [ih hevents]
    have hfold : t.absorbAll (events ++ [event]) = (t.absorbAll events).absorb event :=
      t.absorbAll_append events [event]
    rw [hfold, List.filter_append, hresponses, List.foldl_append]
    cases hs : event.isScript with
    | true =>
      have hone : [event].filter SessionEvent.isScript = [event] := by simp [hs]
      have hnone : modelResponses [event] = [] := by
        cases event <;> first | rfl | cases hs
      rw [hone, hnone, Turn.absorbAll_append, absorb_isScript _ hs, scripts_absorb_congr hscripts,
        ih hevents]
      rfl
    | false =>
      have hone : [event].filter SessionEvent.isScript = [] := by simp [hs]
      rw [hone, List.append_nil, ih hevents]
      cases event with
      | modelUsage usage => rfl
      | progress message => rfl
      | scriptStarted sequence script => cases hs
      | capability call => cases hs
      | scriptFinished run => cases hs
      | shellFinished entry => cases hturn
      | finished outcome => cases hturn

/-- The status a turn's outcome gives it. -/
def TurnStatus.ofOutcome : Except String PromptOutcome → TurnStatus
  | .ok outcome =>
    match outcome.disposition with
    | .send => .answered outcome.answer
    | .suppress => .suppressed
  | .error error => .failed error

/-- The turn that a session is: its scripts with their calls, the tokens it used, and how
    it ended. -/
def Turned.toTurn (elapsed : ℕ → ℕ) (turned : Turned σ π) (ordinal : ℕ) (prompt : String) : Turn :=
  { Turn.opened ordinal prompt with
    scripts := nodesOf elapsed 0 turned.scripts
    tokens := turned.usages.foldl TurnTokens.absorb ⟨none, none, 0⟩
    status := .ofOutcome (turned.outcome.mapError chain) }

/-- **What a turn sends**, its outcome last, is the session that it is. -/
theorem sent_runTurn (elapsed : ℕ → ℕ) (session : PromptSession σ π) (runtime : Runtime σ π)
    (invoker : TurnLeg σ π) (inputs : SessionInputs) (history : History) (s : σ) :
    let turned := ((session inputs history s).run runtime invoker)
    ∃ events, (runTurn (receiving elapsed) session runtime invoker inputs history s ⟨0, 0, []⟩).2.sent
        = events ++ [.finished (turned.outcome.mapError chain)] ∧
      (∀ event ∈ events, event.isTurn = true) ∧
      ∀ ordinal prompt, (Turn.opened ordinal prompt).absorbAll
        (events ++ [.finished (turned.outcome.mapError chain)]) =
          turned.toTurn elapsed ordinal prompt := by
  intro turned
  have hturned := record_eq_run (receiving elapsed) runtime invoker (session inputs history s) ⟨0, 0, []⟩
  obtain ⟨events, hsent, hturn, hscripts, husages⟩ :=
    sends_record elapsed runtime invoker (session inputs history s) ⟨0, 0, []⟩
  rw [hturned] at hscripts husages
  refine ⟨events, ?_, hturn, fun ordinal prompt => ?_⟩
  · rw [runTurn]
    dsimp only
    rw [sent_emit, hsent, hturned]
    rfl
  · have hall : (Turn.opened ordinal prompt).absorbAll (sentBySession elapsed 0 turned.scripts) =
        { Turn.opened ordinal prompt with scripts := nodesOf elapsed 0 turned.scripts } :=
      foldl_absorb_session elapsed (Turn.opened ordinal prompt)
        (fun _ h => (List.not_mem_nil h).elim) turned.scripts
    rw [Turn.absorbAll_append, absorbAll_turn _ hturn, hscripts, husages, hall]
    rfl

/-! ## Through the loop -/

/-- The event a pass receives. -/
def Label.received : Label → Option SessionEvent
  | .event e => some e
  | _ => none

/-- What the loop may meet while a turn is in flight: anything but its join, as long as it
    dispatches nothing. -/
def Meanwhile (exts : Externals) (c : Console) (l : Label) : Prop :=
  (∀ joined, l ≠ .close joined) ∧ performed exts c l = none

/-- A turn is in flight, its events so far folded into the last turn of the transcript;
    `done` says that its outcome is among them. -/
structure InTurn (before : List Turn) (t : Turn) (task : Task) (done : Bool) (c : Console) :
    Prop where
  running : c.running = some ⟨task, false, done⟩
  busy : c.app.busy = !done
  turns : ∃ stopped, c.app.transcript.turns = before ++ [{ t with stopRequested := stopped }]
  isRunning : t.status.isRunning = !done

/-- The events a turn may still send: none after its outcome. -/
def Sendable : Bool → List SessionEvent → Prop
  | _, [] => True
  | true, _ :: _ => False
  | false, event :: events =>
    (event.isTurn = true ∨ event.isLast = true) ∧ (∀ entry, event ≠ .shellFinished entry) ∧
      Sendable event.isLast events

theorem sendable_of_isTurn {events : List SessionEvent} (outcome : Except String PromptOutcome)
    (h : ∀ event ∈ events, event.isTurn = true) : Sendable false (events ++ [.finished outcome]) := by
  induction events with
  | nil => exact ⟨Or.inr rfl, (fun entry h => by cases h), trivial⟩
  | cons event events ih =>
    have hevent := h event List.mem_cons_self
    have hrest := ih fun e he => h e (List.mem_cons_of_mem event he)
    refine ⟨Or.inl hevent, ?_, ?_⟩
    · rintro entry rfl
      cases hevent
    · cases event <;> first | exact hrest | cases hevent

section
variable {before : List Turn} {t : Turn} {task : Task} {done : Bool} {c c' : Console}

theorem InTurn.of_eq (h : InTurn before t task done c) (hr : c'.running = c.running)
    (hb : c'.app.busy = c.app.busy) (ht : c'.app.transcript = c.app.transcript) :
    InTurn before t task done c' :=
  ⟨hr.trans h.running, hb.trans h.busy, ht ▸ h.turns, h.isRunning⟩

/-- A stop request marks the turn in flight. -/
theorem InTurn.requestStop (h : InTurn before t task done c) (hr : c'.running = c.running)
    (happ : c'.app = c.app.requestStop.2) : InTurn before t task done c' := by
  cases done with
  | true =>
    have hsame : c.app.requestStop.2 = c.app := by
      unfold App.requestStop
      rw [h.busy]
      rfl
    exact h.of_eq hr (by rw [happ, hsame]) (by rw [happ, hsame])
  | false =>
    have hbusy : c.app.requestStop.2.busy = c.app.busy := by
      unfold App.requestStop
      split_ifs <;> rfl
    have htranscript : c.app.requestStop.2.transcript =
        c.app.transcript.modifyRunning fun turn => { turn with stopRequested := true } := by
      unfold App.requestStop
      rw [if_neg (by simp [h.busy])]
    obtain ⟨stopped, hturns⟩ := h.turns
    refine ⟨hr.trans h.running, ?_, ⟨true, ?_⟩, h.isRunning⟩
    · rw [happ, hbusy, h.busy]
    · rw [happ, htranscript]
      exact Transcript.turns_modifyRunning hturns h.isRunning _

/-- A pass that neither dispatches nor receives leaves the turn as it is. -/
theorem InTurn.pass (h : InTurn before t task done c) {l : Label} (hl : Meanwhile exts c l)
    (hn : l.received = none) : InTurn before t task done (step exts c l) ∧ Admits c l := by
  obtain ⟨hclose, hperformed⟩ := hl
  cases l with
  | key key answers =>
    refine ⟨?_, trivial⟩
    rw [step, react_key_none hperformed]
    rcases (undisplayed_onKey exts c.app key c.stop).running with ⟨hbusy, htranscript⟩ | hstop
    · exact h.of_eq rfl hbusy htranscript
    · exact h.requestStop rfl hstop
  | action action answers => cases hperformed
  | submitTurn answers =>
    refine ⟨?_, trivial⟩
    have hnone : c.app.submitTurn.1 = none := by simpa [performed] using hperformed
    rw [step, react_submit_none hnone]
    have hsame : c.app.submitTurn.2.busy = c.app.busy ∧
        c.app.submitTurn.2.transcript = c.app.transcript := by
      unfold App.submitTurn at hnone ⊢
      cases hs : c.app.session with
      | none => exact ⟨rfl, rfl⟩
      | some session =>
        simp only [hs] at hnone ⊢
        split_ifs at hnone ⊢ <;> exact ⟨rfl, rfl⟩
    exact h.of_eq rfl hsame.1 hsame.2
  | event event => cases hn
  | close joined => exact absurd rfl (hclose joined)
  | intake intake =>
    refine ⟨?_, by rw [Admits, h.running]; rfl⟩
    obtain ⟨stores, hs⟩ := stores_intake exts c intake
    rw [hs]
    exact h.of_eq rfl rfl rfl
  | resize width height => exact ⟨h.of_eq rfl rfl rfl, trivial⟩

/-- An event the turn may still send is admitted, and folded into the turn. -/
theorem InTurn.receive (exts : Externals) (h : InTurn before t task done c)
    (htask : task.isShell = false) {event : SessionEvent} {events : List SessionEvent}
    (hs : Sendable done (event :: events)) :
    InTurn before (t.absorb event) task event.isLast (step exts c (.event event)) ∧
      Admits c (.event event) := by
  cases done with
  | true => exact hs.elim
  | false =>
    obtain ⟨hkind, hshell, -⟩ := hs
    have hsends : task.sends event := by
      cases task with
      | shell line leg signal previous => cases htask
      | turn prompt leg signal instructions agent options history =>
        cases event with
        | shellFinished entry => exact absurd rfl (hshell entry)
        | _ => trivial
    refine ⟨?_, ⟨_, h.running, rfl, hsends⟩⟩
    obtain ⟨stopped, hturns⟩ := h.turns
    -- a stop request and an event touch different fields of the turn
    have habsorb (b : Bool) : ({ t with stopRequested := b } : Turn).absorb event =
        { t.absorb event with stopRequested := b } := by
      cases event with
      | capability call =>
        simp only [Turn.absorb]
        split <;> rfl
      | scriptFinished run =>
        simp only [Turn.absorb]
        split <;> rfl
      | _ => rfl
    have htranscript : (c.app.transcript.absorb event).turns =
        before ++ [{ t.absorb event with stopRequested := stopped }] := by
      rw [← habsorb]
      exact Transcript.turns_modifyRunning hturns h.isRunning _
    have hrunning : (step exts c (.event event)).running = some ⟨task, false, event.isLast⟩ := by
      simp [step, react, DekoponConsole.receive, h.running]
    have hopen (hfills : event.fills = true) : (t.absorb event).status.isRunning = true := by
      rw [t.status_absorb hfills]
      exact h.isRunning
    cases event with
    | finished outcome =>
      refine ⟨hrunning, rfl, ⟨stopped, htranscript⟩, ?_⟩
      cases outcome with
      | error error => rfl
      | ok outcome =>
        simp only [Turn.absorb]
        cases outcome.disposition <;> rfl
    | shellFinished entry => exact absurd rfl (hshell entry)
    | progress message => exact ⟨hrunning, h.busy, ⟨stopped, hturns⟩, h.isRunning⟩
    | scriptStarted sequence script =>
      exact ⟨hrunning, h.busy, ⟨stopped, htranscript⟩, hopen rfl⟩
    | capability call =>
      exact ⟨hrunning, h.busy, ⟨stopped, htranscript⟩, hopen rfl⟩
    | scriptFinished run =>
      exact ⟨hrunning, h.busy, ⟨stopped, htranscript⟩, hopen rfl⟩
    | modelUsage usage =>
      exact ⟨hrunning, h.busy, ⟨stopped, htranscript⟩, hopen rfl⟩

/-- **A turn in flight**, over any run that meets its events and whatever else comes
    meanwhile: its events are admitted and folded into it, in their order. -/
theorem InTurn.run (h : InTurn before t task done c) (htask : task.isShell = false)
    {ls : List Label} (hls : Runs.Steps (step exts) (Meanwhile exts) c ls)
    {events : List SessionEvent} (hevents : ls.filterMap Label.received = events)
    (hs : Sendable done events) :
    InTurn before (t.absorbAll events) task (done || events.any SessionEvent.isLast)
        (Runs.exec (step exts) c ls) ∧ Runs.Steps (step exts) Admits c ls := by
  induction ls generalizing c t done events with
  | nil =>
    subst hevents
    exact ⟨by simpa using h, trivial⟩
  | cons l ls ih =>
    cases hl : l.received with
    | none =>
      obtain ⟨hpass, hadmits⟩ := h.pass hls.1 hl
      rw [List.filterMap_cons_none hl] at hevents
      obtain ⟨hrest, hsteps⟩ := ih hpass hls.2 hevents hs
      exact ⟨hrest, hadmits, hsteps⟩
    | some event =>
      rw [List.filterMap_cons_some hl] at hevents
      subst hevents
      obtain rfl : l = .event event := by
        cases l <;> cases hl
        rfl
      obtain ⟨hreceive, hadmits⟩ := h.receive exts htask hs
      have hdone : done = false := by
        cases done with
        | true => exact hs.elim
        | false => rfl
      subst hdone
      obtain ⟨hrest, hsteps⟩ := ih hreceive hls.2 rfl hs.2.2
      refine ⟨?_, hadmits, hsteps⟩
      simpa using hrest

end

/-- What a submitted turn leaves when its task is spawned: a turn of its own, open. -/
theorem inTurn_submitTurn {c : Console} {answers : Answers} {task : Task}
    (hnew : (step exts c (.submitTurn answers)).running ≠ c.running)
    (hr : (step exts c (.submitTurn answers)).running = some ⟨task, false, false⟩) :
    ∃ prompt leg signal instructions agent,
      task = .turn prompt leg signal instructions agent c.options c.history ∧
        prompt = trim c.app.composer ∧
        InTurn c.app.transcript.turns (Turn.opened (c.app.transcript.turns.length + 1) prompt) task
          false (step exts c (.submitTurn answers)) := by
  cases hp : c.app.submitTurn.1 with
  | none =>
    rw [step, react_submit_none hp] at hnew
    exact absurd rfl hnew
  | some prompt =>
    obtain ⟨hprompt, hbusy, hturns⟩ : prompt = trim c.app.composer ∧
        c.submitted.app.busy = true ∧ c.submitted.app.transcript = c.app.transcript.opened prompt := by
      unfold Console.submitted
      unfold App.submitTurn at hp ⊢
      cases hs : c.app.session with
      | none =>
        rw [hs] at hp
        cases hp
      | some session =>
        simp only [hs] at hp ⊢
        split_ifs at hp ⊢
        obtain rfl := Option.some.inj hp
        exact ⟨rfl, rfl, rfl⟩
    rw [step, react_submit_some hp, dispatch] at hr hnew ⊢
    rcases dispatchTurn_cases exts answers c.submitted prompt with
      ⟨-, h⟩ | ⟨-, ⟨-, trace, report, h⟩ | ⟨-, leg, instructions, agent, -, trace, h⟩⟩
    · rw [h] at hnew
      exact absurd rfl hnew
    · rw [h] at hnew
      exact absurd rfl hnew
    · rw [h] at hr ⊢
      obtain ⟨rfl⟩ := Option.some.inj hr
      exact ⟨prompt, leg, c.nextCancel, instructions, agent, rfl, hprompt, rfl, hbusy,
        ⟨false, congrArg Transcript.turns hturns⟩, rfl⟩

/-- **A turn in the transcript is the session it was**, for every session whose scripts make
    their invocations one after another.  From a submission that spawns a turn, over any run
    in which the loop receives what `runTurn` sends and meets anything else that dispatches
    nothing, to the join: every pass is one the loop admits; nothing runs any more and the
    history is what the session left; and the transcript has one more turn, which holds the
    session's scripts with their calls, its tokens and its outcome, all turns being marked
    for the new window. -/
theorem turn_reported (elapsed : ℕ → ℕ) (session : PromptSession σ π) (runtime : Runtime σ π)
    (invoker : TurnLeg σ π) (inputs : SessionInputs) (s : σ) {c : Console} {answers : Answers}
    {task : Task} (hnew : (step exts c (.submitTurn answers)).running ≠ c.running)
    (hspawned : (step exts c (.submitTurn answers)).running = some ⟨task, false, false⟩)
    {ls : List Label}
    (hls : Runs.Steps (step exts) (Meanwhile exts) (step exts c (.submitTurn answers)) ls)
    (hevents : ls.filterMap Label.received =
      (runTurn (receiving elapsed) session runtime invoker inputs task.given s ⟨0, 0, []⟩).2.sent) :
    let turned := (session inputs task.given s).run runtime invoker
    let passes := .submitTurn answers :: ls ++ [.close (.returned turned.history)]
    let c' := Runs.exec (step exts) c passes
    Runs.Steps (step exts) Admits c passes ∧ c'.running = none ∧ c'.app.busy = false ∧
      c'.stop = .default ∧ c'.history = turned.history ∧
      ∃ stopped, c'.app.transcript = Transcript.markReplayWindow
        ⟨c.app.transcript.turns ++ [{ turned.toTurn elapsed (c.app.transcript.turns.length + 1)
          (trim c.app.composer) with stopRequested := stopped }]⟩ turned.history.len := by
  intro turned passes c'
  obtain ⟨prompt, leg, signal, instructions, agent, rfl, rfl, hstart⟩ :=
    inTurn_submitTurn hnew hspawned
  obtain ⟨events, hsent, hturn, hall⟩ :=
    sent_runTurn elapsed session runtime invoker inputs c.history s
  obtain ⟨hend, hadmits⟩ := hstart.run rfl hls (hevents.trans hsent) (sendable_of_isTurn _ hturn)
  rw [hall, List.any_append] at hend
  have hrunning := hend.running
  obtain ⟨stopped, hturns⟩ := hend.turns
  set d := Runs.exec (step exts) (step exts c (.submitTurn answers)) ls with hd
  have hc' : c' = settleTurn exts false (.returned turned.history) { d with running := none } := by
    show Runs.exec (step exts) c (.submitTurn answers :: ls ++ _) = _
    rw [Runs.exec_concat, Runs.exec_cons, ← hd, step_close_some hrunning]
  have hsteps : Runs.Steps (step exts) Admits c passes := by
    show Runs.Steps (step exts) Admits c (.submitTurn answers :: (ls ++ _))
    refine ⟨trivial, ?_⟩
    rw [Runs.steps_append]
    exact ⟨hadmits, ⟨_, hrunning, fun _ _ => trivial⟩, trivial⟩
  rw [settleTurn_eq] at hc'
  refine ⟨hsteps, ?_, ?_, ?_, ?_, stopped, ?_⟩
  · rw [hc']
  · rw [hc']
    exact busy_onSessionComplete _ _
  · rw [hc']
  · rw [hc']
    rfl
  · rw [hc']
    show (onSessionComplete d.app turned.history.len).transcript = _
    rw [transcript_onSessionComplete]
    exact congrArg (fun turns => Transcript.markReplayWindow ⟨turns⟩ turned.history.len) hturns

/-- A session that runs one script with one call, and answers. -/
def Sample.session : PromptSession Unit Unit := fun _ history s =>
  .progress (.modelTurn 1 8) (.script "files | wc" s fun _ s =>
    .usage none (.finish (.ok ⟨"2", .send⟩) history s))

def Sample.runtime : Runtime Unit Unit := fun _ s =>
  .invoke ⟨"files", .null, ()⟩ s fun _ s => .finish ⟨"2", 0, false, 1, 1⟩ s

def Sample.invoker : TurnLeg Unit Unit := fun _ s => ([.toolStarted "files" 0 16], .succeeded, s)

/-- A hop into `ops`, and `n` typed there. -/
def Sample.asked : Console :=
  Runs.exec (step .plain) (Console.start app options)
    [.action .enter answers, .key ⟨.char 'n', .none⟩ answers]

def Sample.inputs : SessionInputs := ⟨"n", ⟨4, 16⟩, none, ⟨"ops", "operations", none, none, 4, 16, []⟩⟩

/-- What the session sends, with a stop request after two events. -/
def Sample.meanwhile : List Label :=
  let sent := (runTurn (receiving fun _ => 0) session runtime invoker inputs .new () ⟨0, 0, []⟩).2.sent
  (sent.take 2).map .event ++ .key ⟨.esc, .none⟩ answers :: (sent.drop 2).map .event

theorem turn_reported_sample :
    let turned := (Sample.session Sample.inputs .new ()).run Sample.runtime Sample.invoker
    let c' := Runs.exec (step .plain) Sample.asked
      (.submitTurn Sample.answers :: Sample.meanwhile ++ [.close (.returned turned.history)])
    c'.running = none ∧ ∃ stopped, c'.app.transcript = Transcript.markReplayWindow
      ⟨[{ turned.toTurn (fun _ => 0) 1 "n" with stopRequested := stopped }]⟩ turned.history.len := by
  intro turned c'
  have hone (event : SessionEvent) (c : Console) : Meanwhile .plain c (.event event) :=
    ⟨(fun _ h => by cases h), rfl⟩
  have hspawned : (step .plain Sample.asked (.submitTurn Sample.answers)).running =
      some ⟨_, false, false⟩ := rfl
  have hls : Runs.Steps (step .plain) (Meanwhile .plain)
      (step .plain Sample.asked (.submitTurn Sample.answers)) Sample.meanwhile :=
    ⟨hone _ _, hone _ _, ⟨(fun _ h => by cases h), rfl⟩, hone _ _, hone _ _, hone _ _, hone _ _,
      hone _ _, trivial⟩
  obtain ⟨-, hr, -, -, -, stopped, ht⟩ := turn_reported (fun _ => 0) Sample.session Sample.runtime
    Sample.invoker Sample.inputs () (fun h => by cases h) hspawned hls rfl
  exact ⟨hr, stopped, ht⟩

end DekoponConsole
