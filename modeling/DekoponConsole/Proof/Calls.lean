/-
  The list of calls the cursor moves in, while events come in.

  A call joins the last script still open of the last turn still running, which
  need not be where the list ends.  `cursor_stable_iff`: along a run the list
  keeps what it had in front exactly when every call is reported `InOrder`, with
  no recorded call in a script after the one it joins.
-/
import DekoponConsole.Proof.App
import DekoponConsole.Proof.Turn

namespace DekoponConsole

/-! ## Where a call goes -/

/-- The place of the last element satisfying `p`. -/
def lastIdx {α : Type} (p : α → Bool) (l : List α) : Option ℕ :=
  (l.reverse.findIdx? p).map fun i => l.length - 1 - i

theorem lastIdx_append_cons {α : Type} {p : α → Bool} {before after : List α} {a : α}
    (ha : p a = true) (h : ∀ b ∈ after, p b = false) :
    lastIdx p (before ++ a :: after) = some before.length := by
  have hrev : (before ++ a :: after).reverse = after.reverse ++ a :: before.reverse := by simp
  have hfind : (before ++ a :: after).reverse.findIdx? p = some after.length := by
    rw [hrev, List.findIdx?_append, List.findIdx?_eq_none_iff.2 (by simpa using h)]
    simp [List.findIdx?_cons, ha]
  rw [lastIdx, hfind]
  simp only [Option.map_some, List.length_append, List.length_cons, Option.some.injEq]
  omega

theorem lastIdx_eq_none {α : Type} {p : α → Bool} {l : List α} (h : ∀ a ∈ l, p a = false) :
    lastIdx p l = none := by
  rw [lastIdx, List.findIdx?_eq_none_iff.2 (by simpa using h), Option.map_none]

/-- The script of a turn a call would be recorded in: the last one open, or else a
    new one. -/
def landingScript (scripts : List ScriptNode) : ℕ :=
  (lastIdx ScriptNode.isRunning scripts).getD scripts.length

/-- The turn and the script a call would be recorded in, in the last turn
    running. -/
def Transcript.landing (t : Transcript) : Option (ℕ × ℕ) :=
  (lastIdx (fun turn => turn.status.isRunning) t.turns).bind fun n =>
    t.turns[n]?.map fun turn => (n, landingScript turn.scripts)

/-- The call is in the script at `place`, or in an earlier one. -/
def AtOrBefore (place : ℕ × ℕ) (target : CallTarget) : Prop :=
  target.1 < place.1 ∨ target.1 = place.1 ∧ target.2.1 ≤ place.2

instance (place : ℕ × ℕ) (target : CallTarget) : Decidable (AtOrBefore place target) := by
  unfold AtOrBefore; infer_instance

namespace App

/-- The event reports no call, or one that joins a script after which no call is
    recorded. -/
def InOrder (app : App) (event : SessionEvent) : Prop :=
  event.observedCall.isSome → ∀ place, app.transcript.landing = some place →
    ∀ target ∈ app.calls, AtOrBefore place target

/-! ## The list of calls -/

/-- The calls of some scripts of the turn at `n`, the first script being at `k`. -/
def turnTargets (n k : ℕ) (scripts : List ScriptNode) : List CallTarget :=
  (scripts.mapIdx fun i node => scriptTargets n (k + i) node).flatten

/-- The calls of some turns, the first one being at `k`. -/
def callTargets (k : ℕ) (turns : List Turn) : List CallTarget :=
  (turns.mapIdx fun i turn => turnTargets (k + i) 0 turn.scripts).flatten

theorem calls_eq (app : App) : app.calls = callTargets 0 app.transcript.turns := by
  simp [calls, callTargets, turnTargets]

theorem calls_onSessionEvent (app : App) (event : SessionEvent) :
    (app.onSessionEvent event).calls = callTargets 0 (app.transcript.absorb event).turns := by
  rw [calls_eq, transcript_onSessionEvent]

theorem turnTargets_append (n k : ℕ) (scripts scripts' : List ScriptNode) :
    turnTargets n k (scripts ++ scripts') =
      turnTargets n k scripts ++ turnTargets n (k + scripts.length) scripts' := by
  simp only [turnTargets, List.mapIdx_append, List.flatten_append, Nat.add_assoc,
    Nat.add_comm scripts.length]

theorem callTargets_append (k : ℕ) (turns turns' : List Turn) :
    callTargets k (turns ++ turns') = callTargets k turns ++ callTargets (k + turns.length) turns' := by
  simp only [callTargets, List.mapIdx_append, List.flatten_append, Nat.add_assoc,
    Nat.add_comm turns.length]

theorem turnTargets_cons (n k : ℕ) (node : ScriptNode) (scripts : List ScriptNode) :
    turnTargets n k (node :: scripts) = scriptTargets n k node ++ turnTargets n (k + 1) scripts := by
  simp only [turnTargets, List.mapIdx_cons, List.flatten_cons, Nat.add_zero, Nat.add_assoc,
    Nat.add_comm 1]

theorem callTargets_cons (k : ℕ) (turn : Turn) (turns : List Turn) :
    callTargets k (turn :: turns) = turnTargets k 0 turn.scripts ++ callTargets (k + 1) turns := by
  simp only [callTargets, List.mapIdx_cons, List.flatten_cons, Nat.add_zero, Nat.add_assoc,
    Nat.add_comm 1]

theorem mem_scriptTargets {n k : ℕ} {node : ScriptNode} {target : CallTarget}
    (h : target ∈ scriptTargets n k node) : target.1 = n ∧ target.2.1 = k := by
  simp only [scriptTargets, List.mem_map] at h
  obtain ⟨c, -, rfl⟩ := h
  exact ⟨rfl, rfl⟩

theorem mem_turnTargets {n k : ℕ} {scripts : List ScriptNode} {target : CallTarget}
    (h : target ∈ turnTargets n k scripts) :
    target.1 = n ∧ k ≤ target.2.1 ∧ target.2.1 < k + scripts.length := by
  simp only [turnTargets, List.mem_flatten, List.mem_mapIdx] at h
  obtain ⟨_, ⟨i, hi, rfl⟩, h⟩ := h
  obtain ⟨hn, hk⟩ := mem_scriptTargets h
  exact ⟨hn, by omega, by omega⟩

theorem mem_callTargets {k : ℕ} {turns : List Turn} {target : CallTarget}
    (h : target ∈ callTargets k turns) : k ≤ target.1 ∧ target.1 < k + turns.length := by
  simp only [callTargets, List.mem_flatten, List.mem_mapIdx] at h
  obtain ⟨_, ⟨i, hi, rfl⟩, h⟩ := h
  rw [(mem_turnTargets h).1]
  exact ⟨by omega, by omega⟩

theorem scriptTargets_concat (n k : ℕ) (node : ScriptNode) (call : CapabilityCall) :
    scriptTargets n k { node with calls := node.calls ++ [call] } =
      scriptTargets n k node ++ [(n, k, node.calls.length)] := by
  simp [scriptTargets, List.range_succ]

/-! ## One event -/

/-- A list with an element put in keeps what it had in front if and only if the
    element is put in at the end. -/
theorem prefix_insert_iff {α : Type} {front rest : List α} {a : α} (ha : a ∉ rest) :
    front ++ rest <+: front ++ a :: rest ↔ rest = [] := by
  rw [List.prefix_append_right_inj]
  constructor
  · intro h
    cases rest with
    | nil => rfl
    | cons b rest =>
      rw [List.cons_prefix_cons] at h
      exact absurd (h.1 ▸ List.mem_cons_self) ha
  · rintro rfl
    exact List.nil_prefix

/-- Within its turn a call comes after the calls of the scripts up to its own, and
    before those of later ones. -/
theorem turnTargets_capability (n : ℕ) (turn : Turn) (call : CapabilityCall) :
    ∃ front rest new,
      turnTargets n 0 turn.scripts = front ++ rest ∧
      turnTargets n 0 (turn.absorb (.capability call)).scripts = front ++ new :: rest ∧
      (∀ target ∈ front, target.1 = n ∧ target.2.1 ≤ landingScript turn.scripts) ∧
      (∀ target ∈ rest, target.1 = n ∧ landingScript turn.scripts < target.2.1) ∧
      new.1 = n ∧ new.2.1 ≤ landingScript turn.scripts := by
  rcases modifyLast_cases (p := ScriptNode.isRunning)
    (fun n => { n with calls := n.calls ++ [call] }) turn.scripts with
    ⟨hm, hnone⟩ | ⟨before, node, after, hs, hopen, hafter, hm⟩
  · -- no script is open: a new one comes after the last
    have hscripts : (turn.absorb (.capability call)).scripts =
        turn.scripts ++ [⟨call.sequence, "", [call], none⟩] := by
      simp only [Turn.absorb, hm]
    have hland : landingScript turn.scripts = turn.scripts.length := by
      rw [landingScript, lastIdx_eq_none hnone, Option.getD_none]
    refine ⟨turnTargets n 0 turn.scripts, [], (n, turn.scripts.length, 0), by simp, ?_, ?_, by simp,
      rfl, hland.ge⟩
    · rw [hscripts, turnTargets_append, turnTargets_cons, Nat.zero_add]
      rfl
    · intro target htarget
      obtain ⟨hn, -, hlt⟩ := mem_turnTargets htarget
      exact ⟨hn, by omega⟩
  · have hscripts : (turn.absorb (.capability call)).scripts =
        before ++ { node with calls := node.calls ++ [call] } :: after := by
      simp only [Turn.absorb, hm]
    have hland : landingScript turn.scripts = before.length := by
      rw [landingScript, hs, lastIdx_append_cons hopen hafter, Option.getD_some]
    refine ⟨turnTargets n 0 before ++ scriptTargets n before.length node,
      turnTargets n (before.length + 1) after, (n, before.length, node.calls.length), ?_, ?_, ?_, ?_,
      rfl, hland.ge⟩
    · rw [hs, turnTargets_append, turnTargets_cons, Nat.zero_add, List.append_assoc]
    · rw [hscripts, turnTargets_append, turnTargets_cons, Nat.zero_add, scriptTargets_concat]
      simp
    · intro target htarget
      rcases List.mem_append.1 htarget with h | h
      · obtain ⟨hn, -, hlt⟩ := mem_turnTargets h
        exact ⟨hn, by omega⟩
      · obtain ⟨hn, hk⟩ := mem_scriptTargets h
        exact ⟨hn, by omega⟩
    · intro target htarget
      obtain ⟨hn, hlt, -⟩ := mem_turnTargets htarget
      exact ⟨hn, by omega⟩

/-- **Where a reported call lands in the list.**  Without a turn running the list
    stays; otherwise the call comes after the calls at or before its place and
    before all others. -/
theorem calls_capability (app : App) (call : CapabilityCall) :
    (app.transcript.landing = none ∧ (app.onSessionEvent (.capability call)).calls = app.calls) ∨
      ∃ place front rest new, app.transcript.landing = some place ∧
        app.calls = front ++ rest ∧
        (app.onSessionEvent (.capability call)).calls = front ++ new :: rest ∧
        (∀ target ∈ front, AtOrBefore place target) ∧
        (∀ target ∈ rest, ¬ AtOrBefore place target) ∧ AtOrBefore place new := by
  have hcalls := calls_onSessionEvent app (.capability call)
  rcases modifyLast_cases (p := fun turn => turn.status.isRunning)
    (fun turn => turn.absorb (.capability call)) app.transcript.turns with
    ⟨hm, hnone⟩ | ⟨before, turn, after, ht, hrun, hafter, hm⟩
  · left
    refine ⟨by rw [Transcript.landing, lastIdx_eq_none hnone, Option.bind_none], ?_⟩
    simp only [hcalls, calls_eq app, Transcript.absorb, Transcript.modifyRunning, hm,
      Option.getD_none]
  · right
    obtain ⟨front, rest, new, hold, hnew, hfront, hrest, hn, hs⟩ :=
      turnTargets_capability before.length turn call
    have hland : app.transcript.landing = some (before.length, landingScript turn.scripts) := by
      have hidx : lastIdx (fun turn : Turn => turn.status.isRunning) app.transcript.turns =
          some before.length := by
        rw [ht]
        exact lastIdx_append_cons hrun hafter
      rw [Transcript.landing, hidx, ht]
      simp [landingScript]
    refine ⟨_, callTargets 0 before ++ front, rest ++ callTargets (before.length + 1) after, new,
      hland, ?_, ?_, ?_, ?_, Or.inr ⟨hn, hs⟩⟩
    · rw [calls_eq, ht, callTargets_append, callTargets_cons, Nat.zero_add, hold]
      simp
    · simp only [hcalls, Transcript.absorb, Transcript.modifyRunning, hm, Option.getD_some,
        callTargets_append, callTargets_cons, Nat.zero_add, hnew]
      simp
    · intro target htarget
      rcases List.mem_append.1 htarget with h | h
      · exact Or.inl (by simpa using (mem_callTargets h).2)
      · exact Or.inr (hfront target h)
    · intro target htarget hle
      rcases List.mem_append.1 htarget with h | h
      · obtain ⟨hn, hlt⟩ := hrest target h
        rcases hle with hle | ⟨-, hle⟩ <;> simp only at hle <;> omega
      · have hlt := (mem_callTargets h).1
        rcases hle with hle | ⟨hle, -⟩ <;> simp only at hle <;> omega

/-- An event that reports no call leaves the list. -/
theorem calls_other (app : App) {event : SessionEvent} (h : event.observedCall = none) :
    (app.onSessionEvent event).calls = app.calls := by
  have hcalls := calls_onSessionEvent app event
  have hturn (n : ℕ) (turn : Turn) :
      turnTargets n 0 (turn.absorb event).scripts = turnTargets n 0 turn.scripts := by
    rcases Turn.absorb_cases turn event with
      ⟨hs, -⟩ | ⟨node, hs, hc⟩ | ⟨before, node, node', after, hs, hs', -, hc⟩
    · rw [hs]
    · rw [hs, turnTargets_append, turnTargets_cons]
      simp [scriptTargets, turnTargets, hc, h]
    · rw [hs', hs, turnTargets_append, turnTargets_append, turnTargets_cons, turnTargets_cons]
      simp [scriptTargets, hc, h]
  rcases modifyLast_cases (p := fun turn => turn.status.isRunning)
    (fun turn => turn.absorb event) app.transcript.turns with
    ⟨hm, -⟩ | ⟨before, turn, after, ht, -, -, hm⟩
  · simp only [hcalls, calls_eq app, Transcript.absorb, Transcript.modifyRunning, hm,
      Option.getD_none]
  · simp only [hcalls, calls_eq app, Transcript.absorb, Transcript.modifyRunning, hm,
      Option.getD_some]
    rw [ht]
    simp only [callTargets_append, callTargets_cons, hturn]

/-- **One event keeps the list in front** exactly when it comes in order. -/
theorem calls_prefix_iff (app : App) (event : SessionEvent) :
    app.calls <+: (app.onSessionEvent event).calls ↔ app.InOrder event := by
  by_cases hcall : ∃ call, event = .capability call
  · obtain ⟨call, rfl⟩ := hcall
    rcases calls_capability app call with
      ⟨hland, hsame⟩ | ⟨place, front, rest, new, hland, hold, hnew, hfront, hrest, hplace⟩
    · rw [hsame]
      refine ⟨fun _ _ place hplace => ?_, fun _ => List.prefix_refl _⟩
      rw [hland] at hplace
      cases hplace
    · rw [hold, hnew, prefix_insert_iff fun h => hrest new h hplace]
      constructor
      · rintro rfl _ place' hplace' target htarget
        rw [hland] at hplace'
        obtain rfl := Option.some.inj hplace'
        rw [hold, List.append_nil] at htarget
        exact hfront target htarget
      · intro hin
        rw [List.eq_nil_iff_forall_not_mem]
        intro target htarget
        refine hrest target htarget (hin rfl place hland target ?_)
        rw [hold]
        exact List.mem_append_right _ htarget
  · have hnone : event.observedCall = none := by
      cases event with
      | capability call => exact absurd ⟨call, rfl⟩ hcall
      | _ => rfl
    rw [calls_other app hnone]
    refine ⟨fun _ h => ?_, fun _ => List.prefix_refl _⟩
    rw [hnone] at h
    cases h

/-! ## A conversation -/

/-- What goes into the transcript: submitted prompts, and events. -/
inductive Said
  | submit (composer : String)
  | event (event : SessionEvent)

def hear (app : App) : Said → App
  | .submit composer => { app with composer := composer }.submitTurn.2
  | .event event => app.onSessionEvent event

/-- What is said leaves the list of calls in front of the new one. -/
def KeepsCalls (app : App) (said : Said) : Prop := app.calls <+: (app.hear said).calls

/-- A call, if one is said, comes in order. -/
def SaidInOrder (app : App) : Said → Prop
  | .submit _ => True
  | .event event => app.InOrder event

theorem calls_submitTurn (app : App) : app.submitTurn.2.calls = app.calls := by
  obtain ⟨hkept, hopened⟩ := transcript_submitTurn app
  rw [calls_eq, calls_eq]
  cases hprompt : app.submitTurn.1 with
  | none => rw [hkept hprompt]
  | some prompt =>
    rw [hopened prompt hprompt, Transcript.opened, callTargets_append, callTargets_cons]
    simp [callTargets, turnTargets, Turn.opened]

theorem keepsCalls_iff (app : App) (said : Said) : app.KeepsCalls said ↔ app.SaidInOrder said := by
  cases said with
  | submit composer =>
    refine ⟨fun _ => trivial, fun _ => ?_⟩
    rw [KeepsCalls, hear, calls_submitTurn]
    exact List.prefix_refl _
  | event event => exact calls_prefix_iff app event

theorem calls_prefix_exec {app : App} {saids : List Said}
    (h : Runs.Steps hear KeepsCalls app saids) : app.calls <+: (Runs.exec hear app saids).calls := by
  induction saids generalizing app with
  | nil => exact List.prefix_refl _
  | cons said saids ih => exact h.1.trans (ih h.2)

/-- **Exactly when the cursor is stable.**  A run keeps the list of calls in front
    at every step if and only if every call it reports comes in order; and then
    an index into the list keeps naming its call. -/
theorem cursor_stable_iff (app : App) (saids : List Said) :
    (Runs.Steps hear KeepsCalls app saids ↔ Runs.Steps hear SaidInOrder app saids) ∧
      (Runs.Steps hear SaidInOrder app saids → ∀ (index : ℕ) (target : CallTarget),
        app.calls[index]? = some target →
          (Runs.exec hear app saids).calls[index]? = some target) := by
  have hiff : Runs.Steps hear KeepsCalls app saids ↔ Runs.Steps hear SaidInOrder app saids :=
    Runs.steps_congr keepsCalls_iff app saids
  refine ⟨hiff, ?_⟩
  intro hin index target hindex
  obtain ⟨rest, hrest⟩ := calls_prefix_exec (hiff.2 hin)
  obtain ⟨hlt, -⟩ := List.getElem?_eq_some_iff.1 hindex
  rw [← hrest, List.getElem?_append_left hlt, hindex]

/-- A console in a session with `ops`. -/
def conversing : App :=
  { App.new [] "operator" "broker.sock" "auth.json" with
    session := some (.new ⟨"ops"⟩ ⟨.forSubject ⟨"operator"⟩ ⟨"ops"⟩, 0,
      ⟨[⟨"files.read", "read", "low", ""⟩], [], [], "trace"⟩⟩) }

/-- Two scripts, a call of a job that outlives the first, and then of one that
    outlives the second. -/
def lateCalls : List Said :=
  let call (sequence : ℕ) : Said :=
    .event (.capability ⟨sequence, "gh.repo.read", .null, .succeeded, 0⟩)
  let finished (sequence : ℕ) : Said :=
    .event (.scriptFinished ⟨sequence, "list &", "", 0, false, 1, 1, 0⟩)
  [.submit "ask", .event (.scriptStarted 0 "list &"), finished 0, call 1,
    .event (.scriptStarted 2 "list &"), call 3, finished 2, call 4]

/-- The last call joins the script of the first late one, before the call the
    cursor may be on. -/
theorem late_call_moves_cursor :
    (Runs.exec hear conversing (lateCalls.take 7)).calls = [(0, 1, 0), (0, 2, 0)] ∧
      (Runs.exec hear conversing lateCalls).calls = [(0, 1, 0), (0, 1, 1), (0, 2, 0)] ∧
      ¬ Runs.Steps hear KeepsCalls conversing lateCalls := by
  refine ⟨by decide, by decide, ?_⟩
  intro h
  have hlast := ((Runs.steps_append conversing (lateCalls.take 7) (lateCalls.drop 7)).1 h).2.1
  revert hlast
  unfold KeepsCalls
  decide

end App

end DekoponConsole
