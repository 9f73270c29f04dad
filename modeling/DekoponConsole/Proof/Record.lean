/-
  Observation does not interfere, and the transcript is the session.

  * running behind the decorators answers the same and leaves the same state,
    whatever the receiver does (`recordedSession_eq_bare`);
  * while the receiver is open, `sentBy` is what one script sends, `nodeOf` the
    node that makes of it, and `recording_faithful` folds a whole session.
-/
import DekoponConsole.Transcript

namespace DekoponConsole

variable {σ π : Type}

/-! ## No interference -/

theorem run_recording_eq_bare (env : Surroundings) (inner : Invoker σ π)
    (b : ScriptBehaviour σ π) (r : Recorder) :
    (b.run (recordingInvoke env inner) r).1 = (b.run (bareInvoke inner) ()).1 := by
  induction b generalizing r with
  | finish outcome s => rfl
  | invoke proposal s next ih =>
    simp only [ScriptBehaviour.run, recordingInvoke, bareInvoke, Recorder.take, ih]

theorem recordedSession_eq_bare (env : Surroundings) (runtime : Runtime σ π) (inner : Invoker σ π)
    (scripts : List String) (s : σ) (r : Recorder) :
    (recordedSession env runtime inner scripts s r).1 = (bareSession runtime inner scripts s).1 ∧
      (recordedSession env runtime inner scripts s r).2.1 =
        (bareSession runtime inner scripts s).2 := by
  induction scripts generalizing s r with
  | nil => exact ⟨rfl, rfl⟩
  | cons script scripts ih =>
    have hran : (recordingRunScript env runtime inner script s r).1 =
        bareRunScript runtime inner script s := run_recording_eq_bare env inner _ _
    simp only [recordedSession, bareSession, hran, ih, and_self]

theorem length_bareSession (runtime : Runtime σ π) (inner : Invoker σ π) (scripts : List String)
    (s : σ) : (bareSession runtime inner scripts s).1.length = scripts.length := by
  induction scripts generalizing s with
  | nil => rfl
  | cons script scripts ih => simp [bareSession, ih]

/-! ## What is sent -/

/-- An open receiver. -/
def receiving (elapsed : ℕ → ℕ) : Surroundings := ⟨fun _ => true, elapsed⟩

variable (elapsed : ℕ → ℕ)

/-- The calls of a script as they are reported, numbered from `sequence`. -/
def callsOf (sequence : ℕ) :
    List (CommandProposal π × CapabilityCallResult) → List CapabilityCall
  | [] => []
  | (proposal, result) :: calls =>
    { sequence := sequence
      capability := proposal.capability
      input := proposal.input
      outcome := .ofResult result
      elapsed := elapsed sequence } :: callsOf (sequence + 1) calls

/-- What one script sends, numbered from `sequence`. -/
def sentBy (sequence : ℕ) (script : String) (ran : Ran σ π) : List SessionEvent :=
  .scriptStarted sequence script ::
    ((callsOf elapsed (sequence + 1) ran.calls).map .capability ++
      [.scriptFinished (scriptRun sequence script ran.outcome (elapsed sequence))])

/-- The ordinal after a script. -/
def nextAfter (sequence : ℕ) (ran : Ran σ π) : ℕ := sequence + 1 + ran.calls.length

/-- What a session sends. -/
def sentBySession (sequence : ℕ) : List (String × Ran σ π) → List SessionEvent
  | [] => []
  | (script, ran) :: rest =>
    sentBy elapsed sequence script ran ++ sentBySession (nextAfter sequence ran) rest

theorem run_recording_sent (inner : Invoker σ π) (b : ScriptBehaviour σ π) (r : Recorder) :
    let ran := b.run (recordingInvoke (receiving elapsed) inner) r
    ran.2.sent = r.sent ++ (callsOf elapsed r.next ran.1.calls).map .capability ∧
      ran.2.next = r.next + ran.1.calls.length := by
  induction b generalizing r with
  | finish outcome s => simp [ScriptBehaviour.run, callsOf]
  | invoke proposal s next ih =>
    obtain ⟨hs, hn⟩ := ih (inner proposal s).1 (inner proposal s).2
      (recordingInvoke (receiving elapsed) inner proposal (s, r)).2.2
    refine ⟨hs.trans ?_, hn.trans ?_⟩
    · simp [recordingInvoke, emit, receiving, Recorder.take, callsOf, ScriptBehaviour.run]
    · simp only [recordingInvoke, emit, Recorder.take, ScriptBehaviour.run, List.length_cons]
      omega

theorem recordingRunScript_sent (runtime : Runtime σ π) (inner : Invoker σ π) (script : String)
    (s : σ) (r : Recorder) :
    let ran := recordingRunScript (receiving elapsed) runtime inner script s r
    ran.2.sent = r.sent ++ sentBy elapsed r.next script ran.1 ∧
      ran.2.next = nextAfter r.next ran.1 := by
  obtain ⟨hs, hn⟩ := run_recording_sent elapsed inner (runtime script s)
    (emit (receiving elapsed) (.scriptStarted r.next script) r.take.2)
  refine ⟨?_, hn⟩
  simp only [recordingRunScript, emit, receiving, Recorder.take, if_true] at hs ⊢
  simp [hs, sentBy]

theorem recordedSession_sent (runtime : Runtime σ π) (inner : Invoker σ π) (scripts : List String)
    (s : σ) (r : Recorder) :
    (recordedSession (receiving elapsed) runtime inner scripts s r).2.2.sent =
      r.sent ++ sentBySession elapsed r.next
        (scripts.zip (recordedSession (receiving elapsed) runtime inner scripts s r).1) := by
  induction scripts generalizing s r with
  | nil => simp [recordedSession, sentBySession]
  | cons script scripts ih =>
    obtain ⟨hs, hn⟩ := recordingRunScript_sent elapsed runtime inner script s r
    simp only [recordedSession, ih, hs, hn, List.zip_cons_cons, sentBySession, List.append_assoc]

/-! ## What is rebuilt -/

/-- The node of one script. -/
def nodeOf (sequence : ℕ) (script : String) (ran : Ran σ π) : ScriptNode where
  sequence := sequence
  script := script
  calls := callsOf elapsed (sequence + 1) ran.calls
  outcome := some (scriptRun sequence script ran.outcome (elapsed sequence))

/-- The nodes of a session. -/
def nodesOf (sequence : ℕ) : List (String × Ran σ π) → List ScriptNode
  | [] => []
  | (script, ran) :: rest =>
    nodeOf elapsed sequence script ran :: nodesOf (nextAfter sequence ran) rest

/-- The ordinals of a node in document order: the script's, then its calls'. -/
def ScriptNode.ordinals (node : ScriptNode) : List ℕ :=
  node.sequence :: node.calls.map CapabilityCall.sequence

/-- Events that fill a turn and do not end it. -/
def SessionEvent.fills : SessionEvent → Bool
  | .finished _ => false
  | _ => true

theorem Turn.status_absorb (t : Turn) {event : SessionEvent} (h : event.fills) :
    (t.absorb event).status = t.status := by
  cases event <;> simp_all [SessionEvent.fills, Turn.absorb] <;> split <;> rfl

/-- The open turn of a transcript takes every event that fills it. -/
theorem foldl_absorb (turns : List Turn) {t : Turn} (ht : t.status.isRunning)
    {events : List SessionEvent} (h : ∀ event ∈ events, event.fills) :
    events.foldl Transcript.absorb ⟨turns ++ [t]⟩ = ⟨turns ++ [events.foldl Turn.absorb t]⟩ := by
  induction events generalizing t with
  | nil => rfl
  | cons event events ih =>
    have hs : (t.absorb event).status.isRunning := by
      rw [t.status_absorb (h event (by simp))]
      exact ht
    have habs : Transcript.absorb ⟨turns ++ [t]⟩ event = ⟨turns ++ [t.absorb event]⟩ :=
      congrArg Transcript.mk (Transcript.turns_modifyRunning rfl ht _)
    rw [List.foldl_cons, List.foldl_cons, habs, ih hs fun e he => h e (by simp [he])]

/-- The calls of an open script join its node. -/
theorem foldl_absorb_calls (t : Turn) (closed : List ScriptNode) (node : ScriptNode)
    (hn : node.isRunning) (calls : List CapabilityCall) :
    (calls.map SessionEvent.capability).foldl Turn.absorb { t with scripts := closed ++ [node] } =
      { t with scripts := closed ++ [{ node with calls := node.calls ++ calls }] } := by
  induction calls generalizing node with
  | nil => simp
  | cons call calls ih =>
    rw [List.map_cons, List.foldl_cons, Turn.absorb, modifyLast_append_singleton hn]
    simp only
    rw [ih { node with calls := node.calls ++ [call] } hn, List.append_assoc]
    rfl

/-- **One script's events make one node**, where the ordinal is fresh. -/
theorem foldl_absorb_script (t : Turn) {closed : List ScriptNode} {sequence : ℕ}
    (hc : ∀ node ∈ closed, node.sequence < sequence) (script : String) (ran : Ran σ π) :
    (sentBy elapsed sequence script ran).foldl Turn.absorb { t with scripts := closed } =
      { t with scripts := closed ++ [nodeOf elapsed sequence script ran] } := by
  rw [sentBy, List.foldl_cons, List.foldl_append, Turn.absorb,
    foldl_absorb_calls _ _ _ (by rfl), List.foldl_cons, List.foldl_nil, Turn.absorb]
  have hfirst : ∀ node ∈ closed, (node.sequence == sequence) = false := fun node hm => by
    simpa using (hc node hm).ne
  simp [scriptRun, modifyFirst_append hfirst, modifyFirst, nodeOf]

theorem foldl_absorb_session (t : Turn) {closed : List ScriptNode} {sequence : ℕ}
    (hc : ∀ node ∈ closed, node.sequence < sequence) (rans : List (String × Ran σ π)) :
    (sentBySession elapsed sequence rans).foldl Turn.absorb { t with scripts := closed } =
      { t with scripts := closed ++ nodesOf elapsed sequence rans } := by
  induction rans generalizing closed sequence with
  | nil => simp [sentBySession, nodesOf]
  | cons x rans ih =>
    have hc' : ∀ node ∈ closed ++ [nodeOf elapsed sequence x.1 x.2],
        node.sequence < nextAfter sequence x.2 := by
      intro node hm
      rcases List.mem_append.1 hm with hm | hm
      · have := hc node hm
        rw [nextAfter]
        omega
      · obtain rfl := List.mem_singleton.1 hm
        simp only [nodeOf, nextAfter]
        omega
    rw [sentBySession, List.foldl_append, foldl_absorb_script elapsed t hc, ih hc', nodesOf,
      List.append_assoc, List.singleton_append]

theorem fills_sentBySession (sequence : ℕ) (rans : List (String × Ran σ π)) :
    ∀ event ∈ sentBySession elapsed sequence rans, event.fills := by
  induction rans generalizing sequence with
  | nil => simp [sentBySession]
  | cons x rans ih =>
    intro event he
    rcases List.mem_append.1 he with he | he
    · simp only [sentBy, List.mem_cons, List.mem_append, List.mem_map, List.not_mem_nil,
        or_false] at he
      rcases he with rfl | ⟨call, -, rfl⟩ | rfl <;> rfl
    · exact ih _ event he

theorem map_sequence_callsOf (sequence : ℕ)
    (calls : List (CommandProposal π × CapabilityCallResult)) :
    (callsOf elapsed sequence calls).map CapabilityCall.sequence =
      List.range' sequence calls.length := by
  induction calls generalizing sequence with
  | nil => rfl
  | cons call calls ih => simp [callsOf, ih, List.range'_succ]

/-- The ordinals of a session count up without a gap. -/
theorem ordinals_nodesOf (sequence : ℕ) (rans : List (String × Ran σ π)) :
    ∃ n, (nodesOf elapsed sequence rans).flatMap ScriptNode.ordinals = List.range' sequence n := by
  induction rans generalizing sequence with
  | nil => exact ⟨0, rfl⟩
  | cons x rans ih =>
    obtain ⟨n, hn⟩ := ih (nextAfter sequence x.2)
    refine ⟨(1 + x.2.calls.length) + n, ?_⟩
    rw [nodesOf, List.flatMap_cons, hn, ScriptNode.ordinals, nodeOf, map_sequence_callsOf,
      ← List.range'_append_1]
    simp [Nat.add_comm 1, List.range'_succ, nextAfter, Nat.add_assoc]

theorem map_script_nodesOf (sequence : ℕ) (rans : List (String × Ran σ π)) :
    (nodesOf elapsed sequence rans).map ScriptNode.script = rans.map Prod.fst := by
  induction rans generalizing sequence with
  | nil => rfl
  | cons x rans ih => simp [nodesOf, nodeOf, ih]

/-- **Recording is faithful.**  Behind the decorators a session returns and leaves
    what it does without them, whatever the receiver; and while the receiver is
    open, an open turn that takes the events holds one node a script, with its
    calls and its outcome, under increasing ordinals. -/
theorem recording_faithful (runtime : Runtime σ π) (inner : Invoker σ π) (scripts : List String)
    (s : σ) (r : Recorder) :
    let bare := bareSession runtime inner scripts s
    (∀ env, (recordedSession env runtime inner scripts s r).1 = bare.1 ∧
      (recordedSession env runtime inner scripts s r).2.1 = bare.2) ∧
    ∀ elapsed, ∃ events,
      (recordedSession (receiving elapsed) runtime inner scripts s r).2.2.sent =
        r.sent ++ events ∧
      let nodes := nodesOf elapsed r.next (scripts.zip bare.1)
      (∀ (t : Transcript) (prompt : String), events.foldl Transcript.absorb (t.opened prompt) =
        ⟨t.turns ++ [{ Turn.opened (t.turns.length + 1) prompt with scripts := nodes }]⟩) ∧
      nodes.map ScriptNode.script = scripts ∧
      (nodes.flatMap ScriptNode.ordinals).Pairwise (· < ·) := by
  intro bare
  refine ⟨fun env => recordedSession_eq_bare env runtime inner scripts s r, fun elapsed =>
    ⟨sentBySession elapsed r.next (scripts.zip bare.1), ?_, ?_, ?_, ?_⟩⟩
  · rw [recordedSession_sent, (recordedSession_eq_bare _ _ _ _ _ _).1]
  · intro t prompt
    rw [Transcript.opened, foldl_absorb _ rfl (fills_sentBySession _ _ _)]
    have hopen : Turn.opened (t.turns.length + 1) prompt =
        { Turn.opened (t.turns.length + 1) prompt with scripts := [] } := rfl
    rw [hopen, foldl_absorb_session _ _ (by simp), List.nil_append]
  · rw [map_script_nodesOf, List.map_fst_zip (by rw [length_bareSession])]
  · obtain ⟨n, hn⟩ := ordinals_nodesOf elapsed r.next (scripts.zip bare.1)
    rw [hn]
    exact List.pairwise_lt_range'

end DekoponConsole
