/-
  The synthetic turns a console records over a run.

  * `delivered` are the turns among what was asked of the broker, each with the claim it
    was made under; `delivers_react` is the inversion of one pass;
  * `delivered_turns_numbered`: they are numbered from 1 in the order they were asked
    for, under the one boot nonce the first of them gave the process.
-/
import DekoponConsole.Proof.Pass

namespace DekoponConsole

open App

/-- The delivered turns among what was asked of the broker. -/
def delivered (calls : List BrokerCall) : List (Attestation × DeliveredTurnRequest) :=
  calls.filterMap fun
    | .recordDeliveredTurn attestation turn => some (attestation, turn)
    | .openLeg _ _ => none

theorem delivered_append (calls calls' : List BrokerCall) :
    delivered (calls ++ calls') = delivered calls ++ delivered calls' := List.filterMap_append

/-- The synthetic turn that the console makes of a text. -/
def Console.smokeTurn (exts : Externals) (c : Console) (parent : TraceParent) (text : String) :
    DeliveredTurnRequest × SmokeIdentity :=
  (c.identity.getD (.new parent.traceId)).turn exts parent text

/-- **A pass delivers one turn or none.** -/
inductive Delivers (exts : Externals) (c : Console) (d : Dispatched) : Prop
  | nothing (calls : delivered d.2 = []) (identity : d.1.identity = c.identity)
  | turn (session : AgentSession) (parent : TraceParent) (text : String)
      (allowed : c.options.smokeConversation = true) (short : byteLen text.toList ≤ 64 * 1024)
      (calls : delivered d.2 = [((Attestation.forChat c.options.subject session.agent
        smokeClaim).boundTo (c.smokeTurn exts parent text).1.id, (c.smokeTurn exts parent text).1)])
      (identity : d.1.identity = some (c.smokeTurn exts parent text).2)

section
variable {exts : Externals} {c c' : Console} {d : Dispatched}

theorem Delivers.of_same (h : Delivers exts c' d) (hi : c'.identity = c.identity)
    (ho : c'.options = c.options) : Delivers exts c d := by
  cases h with
  | nothing calls identity => exact .nothing calls (identity.trans hi)
  | turn session parent text allowed short calls identity =>
    have hmade : c'.smokeTurn exts parent text = c.smokeTurn exts parent text := by
      rw [Console.smokeTurn, hi, Console.smokeTurn]
    rw [ho, hmade] at calls
    exact .turn session parent text (ho ▸ allowed) short calls (hmade ▸ identity)

theorem delivers_smoke (answers : Answers) (session : AgentSession) (line text : String) :
    Delivers exts c (dispatchSmoke exts answers c session.agent line text) := by
  unfold dispatchSmoke
  split_ifs with hallowed
  · exact .nothing rfl rfl
  split
  · exact .nothing rfl rfl
  next quoted _ =>
    split_ifs with hshort
    · simp only [smokeRecord]
      cases answers.record <;>
        exact .turn session answers.parent quoted (by simpa using hallowed) hshort rfl rfl
    · exact .nothing rfl rfl

theorem delivers_asset (answers : Answers) (command : String) :
    Delivers exts c (dispatchAsset exts answers c command) := by
  unfold dispatchAsset
  cases c.app.assets with
  | none => exact .nothing rfl rfl
  | some store =>
    simp only
    split <;> exact .nothing rfl rfl

theorem delivers_script (answers : Answers) (agent : AgentId) (line : String) :
    Delivers exts c (dispatchScript exts answers c agent line) := by
  unfold dispatchScript openAgentWithAssets
  dsimp only
  split
  · exact .nothing rfl rfl
  cases answers.leg with
  | error error => exact .nothing rfl rfl
  | ok surface =>
    dsimp only
    split_ifs <;> exact .nothing rfl rfl

theorem delivers_shell (answers : Answers) (line : String) :
    Delivers exts c (dispatchShell exts answers c line) := by
  unfold dispatchShell
  cases c.app.session with
  | none => exact .nothing rfl rfl
  | some session =>
    dsimp only
    by_cases hb : c.app.busy
    · rw [if_pos hb]
      exact .nothing rfl rfl
    rw [if_neg hb]
    split
    · exact delivers_smoke answers session line _
    split
    · exact .nothing rfl rfl
    split
    · exact delivers_asset answers _
    split
    · exact .nothing rfl rfl
    · exact delivers_script answers session.agent line

theorem delivers_dispatch (answers : Answers) (action : Action) :
    Delivers exts c (dispatch exts answers c action) := by
  cases action with
  | enter =>
    show Delivers exts c (dispatchEnter exts answers c)
    rcases dispatchEnter_cases exts answers c with ⟨text, -, h⟩ | ⟨agent, c₁, hop, h⟩
    · rw [h]
      exact .nothing rfl rfl
    · obtain ⟨app, -, ho⟩ := openHop_cases exts answers c₁ agent
      have hc₁ : c₁.identity = c.identity := by
        rcases hop.resolved with ⟨p, -, rfl⟩ | ⟨-, rfl⟩ <;> rfl
      rw [h, ho]
      exact .nothing rfl hc₁
  | turn prompt =>
    show Delivers exts c (dispatchTurn exts answers c prompt)
    have hcalls : delivered (dispatchTurn exts answers c prompt).2 = [] := by
      rcases (sameContext_dispatchTurn exts answers c prompt).2 with h | ⟨_, _, -, -, h⟩ <;>
        rw [h] <;> rfl
    refine .nothing hcalls ?_
    rcases dispatchTurn_cases exts answers c prompt with
      ⟨-, h⟩ | ⟨-, ⟨-, trace, report, h⟩ | ⟨-, leg, instructions, agent, -, trace, h⟩⟩
    · rw [h]
    · rw [h]
    · rw [h]
      rfl
  | shell line => exact delivers_shell answers line

end

theorem delivers_react (exts : Externals) (c : Console) (l : Label) :
    Delivers exts c (react exts c l) := by
  cases l with
  | key key answers =>
    cases ha : (onKey exts c.app key c.stop).1 with
    | none =>
      rw [react_key_none ha]
      exact .nothing rfl rfl
    | some action =>
      rw [react_key_some ha]
      exact (delivers_dispatch answers action).of_same rfl rfl
  | action action answers => exact delivers_dispatch answers action
  | submitTurn answers =>
    cases hp : c.app.submitTurn.1 with
    | none =>
      rw [react_submit_none hp]
      exact .nothing rfl rfl
    | some prompt =>
      rw [react_submit_some hp]
      exact (delivers_dispatch answers (.turn prompt)).of_same rfl rfl
  | event event => exact .nothing rfl rfl
  | close joined =>
    refine .nothing rfl ?_
    cases hr : c.running with
    | none => exact congrArg Console.identity (step_close_none hr)
    | some turn =>
      refine (congrArg Console.identity (step_close_some hr)).trans ?_
      rw [settleTurn_eq]
  | intake intake =>
    simp only [react]
    cases c.running <;> exact .nothing rfl rfl
  | resize width height => exact .nothing rfl rfl

/-- No pass turns synthetic conversations on or off. -/
theorem smokeConversation_step (exts : Externals) (c : Console) (l : Label) :
    (step exts c l).options.smokeConversation = c.options.smokeConversation := by
  rcases react_cases exts c l with ⟨hs, -⟩ | ⟨-, c₀, agent, c₁, app, hc, hop, -, hd⟩
  · exact congrArg ConsoleOptions.smokeConversation hs.context.options
  · have hresolved : c₁.options.smokeConversation = c₀.options.smokeConversation := by
      rcases hop.resolved with ⟨p, -, rfl⟩ | ⟨-, rfl⟩ <;> rfl
    rw [step, hd, ← hc.options]
    exact hresolved

/-! ## A whole run -/

/-- The process has made `n` synthetic turns under a nonce. -/
def Console.Made (c : Console) (nonce : String) (n : ℕ) : Prop :=
  c.identity = if n = 0 then none else some ⟨nonce, (n + 1) % u64Size⟩

/-- A synthetic turn as the `n`-th one of a process has to be. -/
structure NthTurn (exts : Externals) (nonce : String) (n : ℕ) (a : Attestation)
    (turn : DeliveredTurnRequest) : Prop where
  id : turn.id = "console-smoke-" ++ nonce ++ "-" ++ toString (n % u64Size)
  delivery : turn.delivery = {
    transport := "console-smoke"
    conversation := exts.conversationKey smokeClaim.conversation
    bootNonce := nonce
    connection := 1
    sequence := n % u64Size }
  answer : turn.answer = "Recorded from console smoke"
  short : byteLen turn.user.toList ≤ 64 * 1024
  scope : a.scope = some smokeClaim
  invocation : a.invocation = some turn.id

/-- The next turn of a process that has made `n` of them. -/
theorem Console.Made.smokeTurn (exts : Externals) {c : Console} {nonce : String} {n : ℕ}
    (h : c.Made nonce n) (parent : TraceParent) (text : String) :
    ∃ nonce', (n ≠ 0 → nonce' = nonce) ∧
      (c.smokeTurn exts parent text).2 = ⟨nonce', (n + 1 + 1) % u64Size⟩ ∧
      (c.smokeTurn exts parent text).1 = {
        id := "console-smoke-" ++ nonce' ++ "-" ++ toString ((n + 1) % u64Size)
        parent := parent
        delivery := ⟨"console-smoke", exts.conversationKey smokeClaim.conversation, nonce', 1,
          (n + 1) % u64Size⟩
        user := text
        answer := "Recorded from console smoke" } := by
  unfold Console.Made at h
  unfold Console.smokeTurn
  by_cases hn : n = 0
  · subst hn
    rw [h, if_pos rfl, Option.getD_none]
    exact ⟨_, fun h => absurd rfl h, rfl, rfl⟩
  · rw [h, if_neg hn, Option.getD_some]
    exact ⟨nonce, fun _ => rfl, congrArg (SmokeIdentity.mk nonce) (Nat.mod_add_mod _ _ _), rfl⟩

/-- **Recorded turns are numbered.**  In every run of the loop the synthetic turns that
    the broker is asked to record are numbered from 1 in their order, under one boot
    nonce; each is claimed for its own id in the reserved scope, its text is short, and
    there is none without `--smoke-conversation`. -/
theorem delivered_turns_numbered (exts : Externals) (app : App) (options : ConsoleOptions)
    (ls : List Label) :
    ∃ nonce, ∀ k a turn,
      (delivered (Runs.outputs (step exts) (asked exts) (Console.start app options) ls))[k]? =
        some (a, turn) → options.smokeConversation = true ∧ NthTurn exts nonce (k + 1) a turn := by
  set c₀ := Console.start app options
  -- the nonce of a process is fixed by its first turn only
  suffices h : ∃ nonce, (Runs.exec (step exts) c₀ ls).Made nonce
      (delivered (Runs.outputs (step exts) (asked exts) c₀ ls)).length ∧ ∀ k a turn,
        (delivered (Runs.outputs (step exts) (asked exts) c₀ ls))[k]? = some (a, turn) →
          options.smokeConversation = true ∧ NthTurn exts nonce (k + 1) a turn by
    obtain ⟨nonce, -, h⟩ := h
    exact ⟨nonce, h⟩
  induction ls using List.reverseRecOn with
  | nil => exact ⟨"", rfl, fun k a turn h => by cases h⟩
  | append_singleton ls l ih =>
    obtain ⟨nonce, hmade, hturns⟩ := ih
    rw [Runs.outputs_concat, delivered_append, Runs.exec_concat]
    cases delivers_react exts (Runs.exec (step exts) c₀ ls) l with
    | nothing calls identity =>
      rw [asked, calls, List.append_nil]
      exact ⟨nonce, identity.trans hmade, hturns⟩
    | turn session parent text allowed short calls identity =>
      obtain ⟨nonce', heq, hnext, hturn⟩ := hmade.smokeTurn exts parent text
      have hallowed : options.smokeConversation = true := by
        rw [← allowed]
        exact (Runs.exec_of_forall (s := c₀)
          (I := fun c => c.options.smokeConversation = options.smokeConversation)
          (fun c l h => (smokeConversation_step exts c l).trans h) rfl ls).symm
      generalize delivered (Runs.outputs (step exts) (asked exts) c₀ ls) = turns at *
      rw [asked, calls, List.length_append, List.length_singleton]
      refine ⟨nonce', ?_, ?_⟩
      · rw [Console.Made, if_neg (Nat.succ_ne_zero _), step, identity, hnext]
      · intro k a turn hk
        by_cases hlt : k < turns.length
        · rw [List.getElem?_append_left hlt] at hk
          rw [heq (Nat.ne_zero_of_lt hlt)]
          exact hturns k a turn hk
        · obtain rfl : k = turns.length := by
            have := (List.getElem?_eq_some_iff.1 hk).1
            rw [List.length_append, List.length_singleton] at this
            omega
          rw [List.getElem?_concat_length] at hk
          obtain ⟨rfl, rfl⟩ := Prod.mk.inj (Option.some.inj hk)
          rw [hturn]
          exact ⟨hallowed, rfl, rfl, rfl, short, rfl, rfl⟩

end DekoponConsole
