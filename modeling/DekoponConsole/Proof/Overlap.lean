/-
  Overlapping invocations of one script.

  An invocation takes its ordinal when it is dispatched and is reported when it
  completes, so a node holds its calls in the order of completion.
  `calls_increasing_iff`: the ordinals of a node increase exactly when the calls
  that were reported completed in the order they were dispatched in.
-/
import DekoponConsole.Lib.Ranks
import DekoponConsole.Proof.Turn

namespace DekoponConsole

variable {κ π : Type} (env : Surroundings)

/-! ## One invocation -/

/-- An invocation no other overlaps records what `RecordingInvoker::invoke` does. -/
theorem recordingInvoke_eq_stages [DecidableEq κ] {σ : Type} (inner : Invoker σ π) (call : κ)
    (proposal : CommandProposal π) (s : σ) (r : Recorder) :
    (recordingInvoke env inner proposal (s, r)).2.2 =
      (Runs.exec (Overlap.step env) (.start κ π r)
        [.dispatch call proposal, .complete call (inner proposal s).1]).recorder := by
  simp [recordingInvoke, observedInvocation, Runs.exec, Overlap.step, Overlap.start, Recorder.take]

/-! ## Any interleaving -/

/-- The calls whose events reach the receiver, of those that complete one after
    another from the send number `attempts` on. -/
def received (attempts : ℕ) : List κ → List κ
  | [] => []
  | call :: calls =>
    if env.isOpen attempts then call :: received (attempts + 1) calls
    else received (attempts + 1) calls

theorem received_concat (attempts : ℕ) (calls : List κ) (call : κ) :
    received env attempts (calls ++ [call]) =
      received env attempts calls ++
        if env.isOpen (attempts + calls.length) then [call] else [] := by
  induction calls generalizing attempts with
  | nil => simp [received]
  | cons c calls ih =>
    have hlen : attempts + 1 + calls.length = attempts + (c :: calls).length := by
      simp only [List.length_cons]
      omega
    rw [List.cons_append, received, received, ih, hlen]
    split_ifs <;> simp

theorem received_sublist (attempts : ℕ) (calls : List κ) :
    (received env attempts calls).Sublist calls := by
  induction calls generalizing attempts with
  | nil => exact List.nil_sublist _
  | cons call calls ih =>
    rw [received]
    split_ifs
    · exact (ih _).cons_cons call
    · exact (ih _).cons call

theorem dispatched_append (stages stages' : List (Stage κ π)) :
    dispatched (stages ++ stages') = dispatched stages ++ dispatched stages' :=
  List.filterMap_append

theorem completed_append (stages stages' : List (Stage κ π)) :
    completed (stages ++ stages') = completed stages ++ completed stages' :=
  List.filterMap_append

theorem exists_complete {stages : List (Stage κ π)} {call : κ} (h : call ∈ completed stages) :
    ∃ before result after, stages = before ++ .complete call result :: after := by
  obtain ⟨stage, hmem, hstage⟩ := List.mem_filterMap.1 h
  obtain ⟨before, after, rfl⟩ := List.append_of_mem hmem
  cases stage with
  | dispatch c proposal => cases hstage
  | complete c result =>
    obtain rfl := Option.some.inj hstage
    exact ⟨before, result, after, rfl⟩

/-- Only dispatched calls complete. -/
theorem completed_subset (schedule : Interleaving κ π) :
    completed schedule.stages ⊆ dispatched schedule.stages := by
  intro call hcall
  obtain ⟨before, result, after, hstages⟩ := exists_complete hcall
  have hmem := schedule.dispatched_first before call result after hstages
  rw [hstages, dispatched_append]
  exact List.mem_append_left _ hmem

/-- An interleaving is built by dispatches of new calls and completions of calls in
    flight. -/
theorem Interleaving.rec_stages {P : List (Stage κ π) → Prop} (nil : P [])
    (dispatch : ∀ (schedule : Interleaving κ π) call proposal, call ∉ dispatched schedule.stages →
      P schedule.stages → P (schedule.stages ++ [.dispatch call proposal]))
    (complete : ∀ (schedule : Interleaving κ π) call result, call ∈ dispatched schedule.stages →
      call ∉ completed schedule.stages → P schedule.stages →
      P (schedule.stages ++ [.complete call result]))
    (schedule : Interleaving κ π) : P schedule.stages := by
  obtain ⟨stages, hd, hc, hfirst⟩ := schedule
  simp only
  induction stages using List.reverseRecOn with
  | nil => exact nil
  | append_singleton stages stage ih =>
    rw [dispatched_append] at hd
    rw [completed_append] at hc
    have hinit : ∀ before call result after,
        stages = before ++ .complete call result :: after → call ∈ dispatched before := by
      intro before call result after hstages
      exact hfirst before call result (after ++ [stage]) (by simp [hstages])
    let init : Interleaving κ π := ⟨stages, hd.of_append_left, hc.of_append_left, hinit⟩
    have hP : P init.stages := ih hd.of_append_left hc.of_append_left hinit
    cases stage with
    | dispatch call proposal =>
      refine dispatch init call proposal ?_ hP
      intro hmem
      exact List.disjoint_of_nodup_append hd hmem (by simp [dispatched])
    | complete call result =>
      refine complete init call result (hfirst stages call result [] rfl) ?_ hP
      intro hmem
      exact List.disjoint_of_nodup_append hc hmem (by simp [completed])

variable [DecidableEq κ]

/-- The recorder after some stages: it has given out an ordinal a dispatch, in
    their order, attempted a send a completion, and sent a call under its own
    ordinal for each one received; an invocation in flight holds its ordinal. -/
structure Tracks (r : Recorder) (stages : List (Stage κ π)) (o : Overlap κ π) : Prop where
  next : o.recorder.next = r.next + (dispatched stages).length
  attempts : o.recorder.attempts = r.attempts + (completed stages).length
  inFlight : ∀ call ∈ dispatched stages, call ∉ completed stages →
    ∃ proposal, o.inFlight call = some (r.next + (dispatched stages).idxOf call, proposal)
  sent : ∃ calls : List CapabilityCall, o.recorder.sent = r.sent ++ calls.map SessionEvent.capability ∧
    calls.map CapabilityCall.sequence =
      (received env r.attempts (completed stages)).map fun call =>
        r.next + (dispatched stages).idxOf call

variable {env}

theorem tracks_start (r : Recorder) : Tracks env r [] (.start κ π r) :=
  ⟨rfl, rfl, by simp [dispatched], [], by simp [Overlap.start], rfl⟩

/-- A dispatch takes the next ordinal and leaves those given out. -/
theorem Tracks.dispatch {r : Recorder} {stages : List (Stage κ π)} {o : Overlap κ π}
    (h : Tracks env r stages o) {call : κ} (hcall : call ∉ dispatched stages)
    (hsub : completed stages ⊆ dispatched stages) (proposal : CommandProposal π) :
    Tracks env r (stages ++ [.dispatch call proposal]) (o.step env (.dispatch call proposal)) := by
  obtain ⟨hnext, hattempts, hflight, calls, hsent, hcalls⟩ := h
  have hd : dispatched (stages ++ [.dispatch call proposal]) = dispatched stages ++ [call] :=
    dispatched_append _ _
  have hc : completed (stages ++ [.dispatch call proposal]) = completed stages := by
    rw [completed_append]
    exact List.append_nil _
  have hidx {c : κ} (hmem : c ∈ dispatched stages) :
      (dispatched stages ++ [call]).idxOf c = (dispatched stages).idxOf c :=
    List.idxOf_append_of_mem hmem
  refine ⟨?_, by rw [hc]; exact hattempts, ?_, calls, hsent, ?_⟩
  · rw [hd, List.length_append]
    simp only [Overlap.step, Recorder.take, List.length_singleton]
    omega
  · intro c hmem hnot
    rw [hd] at hmem ⊢
    rw [hc] at hnot
    rcases List.mem_append.1 hmem with hmem | hmem
    · obtain ⟨p, hp⟩ := hflight c hmem hnot
      have hne : c ≠ call := fun heq => hcall (heq ▸ hmem)
      refine ⟨p, ?_⟩
      rw [hidx hmem]
      simpa [Overlap.step, Function.update_of_ne hne] using hp
    · obtain rfl := List.mem_singleton.1 hmem
      refine ⟨proposal, ?_⟩
      rw [List.idxOf_append_of_notMem hcall]
      simp [Overlap.step, Recorder.take, hnext]
  · rw [hcalls, hc, hd]
    refine List.map_congr_left ?_
    intro c hmem
    rw [hidx (hsub ((received_sublist env _ _).subset hmem))]

/-- A completion reports the call under the ordinal it holds. -/
theorem Tracks.complete {r : Recorder} {stages : List (Stage κ π)} {o : Overlap κ π}
    (h : Tracks env r stages o) {call : κ} (hcall : call ∈ dispatched stages)
    (hnew : call ∉ completed stages) (result : CapabilityCallResult) :
    Tracks env r (stages ++ [.complete call result]) (o.step env (.complete call result)) := by
  obtain ⟨hnext, hattempts, hflight, calls, hsent, hcalls⟩ := h
  obtain ⟨proposal, hp⟩ := hflight call hcall hnew
  have hd : dispatched (stages ++ [.complete call result]) = dispatched stages := by
    rw [dispatched_append]
    exact List.append_nil _
  have hc : completed (stages ++ [.complete call result]) = completed stages ++ [call] :=
    completed_append _ _
  refine ⟨?_, ?_, ?_, ?_⟩
  · rw [hd]
    simpa only [Overlap.step, hp, emit] using hnext
  · rw [hc, List.length_append]
    simp only [Overlap.step, hp, emit, List.length_singleton]
    omega
  · intro c hmem hnot
    rw [hd] at hmem ⊢
    rw [hc, List.mem_append, List.mem_singleton, not_or] at hnot
    obtain ⟨p, hp'⟩ := hflight c hmem hnot.1
    exact ⟨p, by simpa only [Overlap.step, hp, Function.update_of_ne hnot.2] using hp'⟩
  · rw [hc, hd, received_concat, ← hattempts]
    by_cases hopen : env.isOpen o.recorder.attempts
    · refine ⟨calls ++ [observedInvocation env (r.next + (dispatched stages).idxOf call) proposal
        result], ?_, ?_⟩
      · simp only [Overlap.step, hp, emit, if_pos hopen, hsent]
        rw [List.map_append, List.map_singleton, List.append_assoc]
      · rw [List.map_append, List.map_append, hcalls, if_pos hopen]
        rfl
    · refine ⟨calls, ?_, ?_⟩
      · simpa only [Overlap.step, hp, emit, if_neg hopen] using hsent
      · rw [if_neg hopen, List.append_nil, hcalls]

theorem tracks_exec (env : Surroundings) (r : Recorder) (schedule : Interleaving κ π) :
    Tracks env r schedule.stages
      (Runs.exec (Overlap.step env) (.start κ π r) schedule.stages) := by
  refine Interleaving.rec_stages (P := fun stages =>
    Tracks env r stages (Runs.exec (Overlap.step env) (.start κ π r) stages))
    (tracks_start r) ?_ ?_ schedule
  · intro init call proposal hcall ih
    rw [Runs.exec_concat]
    exact ih.dispatch hcall (completed_subset init) proposal
  · intro init call result hcall hnew ih
    rw [Runs.exec_concat]
    exact ih.complete hcall hnew result

/-! ## The node -/

/-- **Exactly when calls are kept in dispatch order.**  While an interleaving of
    invocations runs inside a script, its node takes the calls reported; their
    ordinals increase if and only if those calls completed in the order they were
    dispatched in. -/
theorem calls_increasing_iff (env : Surroundings) (schedule : Interleaving κ π) (r : Recorder)
    (t : Turn) (sequence : ℕ) (script : String) :
    ∃ events node,
      (Runs.exec (Overlap.step env) (.start κ π r) schedule.stages).recorder.sent =
        r.sent ++ events ∧
      ((t.absorb (.scriptStarted sequence script)).absorbAll events).scripts =
        t.scripts ++ [node] ∧
      ((node.calls.map CapabilityCall.sequence).Pairwise (· < ·) ↔
        (received env r.attempts (completed schedule.stages)).Sublist
          (dispatched schedule.stages)) := by
  obtain ⟨calls, hsent, hcalls⟩ := (tracks_exec env r schedule).sent
  have hfold := foldl_absorb_calls t t.scripts ⟨sequence, script, [], none⟩ rfl calls
  refine ⟨_, ⟨sequence, script, calls, none⟩, hsent, congrArg Turn.scripts hfold, ?_⟩
  have hsub : received env r.attempts (completed schedule.stages) ⊆ dispatched schedule.stages :=
    fun call hcall => completed_subset schedule ((received_sublist env _ _).subset hcall)
  rw [hcalls, List.pairwise_map, ← Ranks.pairwise_idxOf_iff_sublist schedule.nodup_dispatched hsub]
  simp only [Nat.add_lt_add_iff_left]

/-- Two stages of one pipeline: the second invocation completes first. -/
def overtaking : Interleaving ℕ Unit where
  stages := [.dispatch 0 ⟨"gh.issue.list", .null, ()⟩, .dispatch 1 ⟨"gh.repo.read", .null, ()⟩,
    .complete 1 .succeeded, .complete 0 .succeeded]
  nodup_dispatched := by decide
  nodup_completed := by decide
  dispatched_first := by
    rintro (_ | ⟨_, _ | ⟨_, _ | ⟨_, _ | ⟨_, before⟩⟩⟩⟩) call result after h
    · cases h
    · cases h
    · cases h
      decide
    · cases h
      decide
    · simp at h

/-- The script's node holds the calls in the order of their completion. -/
theorem overtaken_call_out_of_order :
    let sent := (Runs.exec (Overlap.step (receiving fun _ => 0)) (.start ℕ Unit ⟨1, 1, []⟩)
      overtaking.stages).recorder.sent
    let turn := ((Turn.opened 1 "ask").absorb (.scriptStarted 0 "list | read")).absorbAll sent
    turn.scripts.map (fun node => node.calls.map CapabilityCall.sequence) = [[2, 1]] ∧
      ¬ ∀ node ∈ turn.scripts, (node.calls.map CapabilityCall.sequence).Pairwise (· < ·) := by
  decide

end DekoponConsole
