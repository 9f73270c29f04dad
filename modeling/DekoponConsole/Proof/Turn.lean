/-
  What a turn makes of its session's events.

  * `absorb_cases`: one event leaves the script nodes, opens one, or changes one;
  * `calls_conserved`: the calls of a turn are those its events reported, each
    once, and each stays in the node and the place it was recorded in;
  * `tokens_absorbed`: the token accounts of a turn, whatever the order of its
    events.
-/
import DekoponConsole.Proof.Record

namespace DekoponConsole

/-! ## One element of a list -/

section
variable {α : Type} {p : α → Bool} (f : α → α)

/-- `modifyFirst` finds no element, or changes the first one it finds. -/
theorem modifyFirst_cases (l : List α) :
    (modifyFirst p f l = none ∧ ∀ a ∈ l, p a = false) ∨
      ∃ before a after, l = before ++ a :: after ∧ p a = true ∧ (∀ b ∈ before, p b = false) ∧
        modifyFirst p f l = some (before ++ f a :: after) := by
  induction l with
  | nil => exact Or.inl ⟨rfl, by simp⟩
  | cons a l ih =>
    by_cases ha : p a = true
    · exact Or.inr ⟨[], a, l, rfl, ha, by simp, by simp [modifyFirst, ha]⟩
    · rcases ih with ⟨hm, hl⟩ | ⟨before, b, after, rfl, hb, hbefore, hm⟩
      · exact Or.inl ⟨by simp [modifyFirst, ha, hm], by simpa [ha] using hl⟩
      · refine Or.inr ⟨a :: before, b, after, rfl, hb, by simpa [ha] using hbefore, ?_⟩
        simp [modifyFirst, ha, hm]

/-- `modifyLast` finds no element, or changes the last one it finds. -/
theorem modifyLast_cases (l : List α) :
    (modifyLast p f l = none ∧ ∀ a ∈ l, p a = false) ∨
      ∃ before a after, l = before ++ a :: after ∧ p a = true ∧ (∀ b ∈ after, p b = false) ∧
        modifyLast p f l = some (before ++ f a :: after) := by
  unfold modifyLast
  rcases modifyFirst_cases (p := p) f l.reverse with ⟨hm, hl⟩ | ⟨before, a, after, hl, ha, hb, hm⟩
  · exact Or.inl ⟨by simp [hm], by simpa using hl⟩
  · refine Or.inr ⟨after.reverse, a, before.reverse, ?_, ha, by simpa using hb, by simp [hm]⟩
    simpa using congrArg List.reverse hl

end

/-! ## Calls -/

/-- The call an event reports. -/
def SessionEvent.observedCall : SessionEvent → Option CapabilityCall
  | .capability call => some call
  | _ => none

/-- The calls a session's events report. -/
def observedCalls (events : List SessionEvent) : List CapabilityCall :=
  events.filterMap SessionEvent.observedCall

@[simp] theorem observedCalls_nil : observedCalls [] = [] := rfl

@[simp] theorem observedCalls_cons (event : SessionEvent) (events : List SessionEvent) :
    observedCalls (event :: events) = event.observedCall.toList ++ observedCalls events := by
  unfold observedCalls
  cases h : event.observedCall <;> simp [h]

/-- A node that was extended: it is the same script, with the calls it had at
    their places. -/
structure ScriptNode.Extends (node node' : ScriptNode) : Prop where
  sequence : node'.sequence = node.sequence
  script : node'.script = node.script
  calls : node.calls <+: node'.calls

theorem ScriptNode.Extends.refl (node : ScriptNode) : node.Extends node :=
  ⟨rfl, rfl, List.prefix_refl _⟩

theorem ScriptNode.Extends.trans {node node' node'' : ScriptNode} (h : node.Extends node')
    (h' : node'.Extends node'') : node.Extends node'' :=
  ⟨h'.sequence.trans h.sequence, h'.script.trans h.script, h.calls.trans h'.calls⟩

namespace Turn

/-- The calls of a turn, in document order. -/
def recordedCalls (t : Turn) : List CapabilityCall := t.scripts.flatMap ScriptNode.calls

/-- Folds events into the turn, one after another. -/
def absorbAll (t : Turn) (events : List SessionEvent) : Turn := events.foldl Turn.absorb t

@[simp] theorem absorbAll_nil (t : Turn) : t.absorbAll [] = t := rfl

@[simp] theorem absorbAll_cons (t : Turn) (event : SessionEvent) (events : List SessionEvent) :
    t.absorbAll (event :: events) = (t.absorb event).absorbAll events := rfl

theorem absorbAll_append (t : Turn) (events events' : List SessionEvent) :
    t.absorbAll (events ++ events') = (t.absorbAll events).absorbAll events' :=
  List.foldl_append

theorem capabilityCalls_eq (t : Turn) : t.capabilityCalls = t.recordedCalls.length := by
  simp [capabilityCalls, recordedCalls, List.length_flatMap]

/-- **What an event does to the script nodes.**  They stay, or a node is added
    with the call reported, or the call is added to one of them. -/
theorem absorb_cases (t : Turn) (event : SessionEvent) :
    ((t.absorb event).scripts = t.scripts ∧ event.observedCall = none) ∨
      (∃ node, (t.absorb event).scripts = t.scripts ++ [node] ∧
        node.calls = event.observedCall.toList) ∨
      ∃ before node node' after, t.scripts = before ++ node :: after ∧
        (t.absorb event).scripts = before ++ node' :: after ∧ node.Extends node' ∧
        node'.calls = node.calls ++ event.observedCall.toList := by
  cases event with
  | scriptStarted sequence script => exact Or.inr (Or.inl ⟨_, rfl, rfl⟩)
  | capability call =>
    right
    rcases modifyLast_cases (p := ScriptNode.isRunning)
      (fun n => { n with calls := n.calls ++ [call] }) t.scripts with
      ⟨hm, -⟩ | ⟨before, node, after, hl, -, -, hm⟩
    · exact Or.inl ⟨⟨call.sequence, "", [call], none⟩, by simp [absorb, hm], rfl⟩
    · exact Or.inr ⟨before, node, { node with calls := node.calls ++ [call] }, after, hl,
        by simp only [absorb, hm], ⟨rfl, rfl, List.prefix_append _ _⟩, rfl⟩
  | scriptFinished run =>
    right
    rcases modifyFirst_cases (p := fun n => n.sequence == run.sequence)
      (fun n => { n with outcome := some run }) t.scripts with
      ⟨hm, -⟩ | ⟨before, node, after, hl, -, -, hm⟩
    · exact Or.inl ⟨⟨run.sequence, run.script, [], some run⟩, by simp [absorb, hm], rfl⟩
    · exact Or.inr ⟨before, node, { node with outcome := some run }, after, hl,
        by simp only [absorb, hm], ⟨rfl, rfl, List.prefix_refl _⟩,
        by simp [SessionEvent.observedCall]⟩
  | modelUsage usage => exact Or.inl ⟨rfl, rfl⟩
  | progress message => exact Or.inl ⟨rfl, rfl⟩
  | shellFinished entry => exact Or.inl ⟨rfl, rfl⟩
  | finished outcome => exact Or.inl ⟨rfl, rfl⟩

/-- An event adds the call it reports to the calls of the turn. -/
theorem recordedCalls_absorb (t : Turn) (event : SessionEvent) :
    (t.absorb event).recordedCalls.Perm (t.recordedCalls ++ event.observedCall.toList) := by
  unfold recordedCalls
  rcases absorb_cases t event with ⟨h, hc⟩ | ⟨node, h, hc⟩ | ⟨before, node, node', after, hs, h, -, hc⟩
  · rw [h, hc, Option.toList_none, List.append_nil]
  · rw [h, List.flatMap_append, List.flatMap_singleton, hc]
  · rw [h, hs]
    simp only [List.flatMap_append, List.flatMap_cons, hc, List.append_assoc]
    exact ((List.perm_append_comm.append_left node.calls)).append_left _

/-- No event takes a node from its place, or a call from its node. -/
theorem extends_absorb (t : Turn) (event : SessionEvent) {i : ℕ} {node : ScriptNode}
    (h : t.scripts[i]? = some node) :
    ∃ node', (t.absorb event).scripts[i]? = some node' ∧ node.Extends node' := by
  rcases absorb_cases t event with ⟨h', -⟩ | ⟨new, h', -⟩ | ⟨before, old, old', after, hs, h', he, -⟩
  · exact ⟨node, by rw [h', h], .refl node⟩
  · refine ⟨node, ?_, .refl node⟩
    obtain ⟨hi, -⟩ := List.getElem?_eq_some_iff.1 h
    rw [h', List.getElem?_append_left hi, h]
  · rw [hs] at h
    rw [h']
    rcases lt_trichotomy i before.length with hi | rfl | hi
    · rw [List.getElem?_append_left hi] at h ⊢
      exact ⟨node, h, .refl node⟩
    · rw [List.getElem?_append_right le_rfl, Nat.sub_self] at h ⊢
      obtain rfl : old = node := Option.some.inj h
      exact ⟨old', rfl, he⟩
    · obtain ⟨k, rfl⟩ := Nat.exists_eq_add_of_lt hi
      rw [List.getElem?_append_right (by omega)] at h ⊢
      have hk : before.length + k + 1 - before.length = k + 1 := by omega
      rw [hk, List.getElem?_cons_succ] at h ⊢
      exact ⟨node, h, .refl node⟩

theorem recordedCalls_absorbAll (t : Turn) (events : List SessionEvent) :
    (t.absorbAll events).recordedCalls.Perm (t.recordedCalls ++ observedCalls events) := by
  induction events generalizing t with
  | nil => simp
  | cons event events ih =>
    rw [absorbAll_cons, observedCalls_cons, ← List.append_assoc]
    exact (ih _).trans ((recordedCalls_absorb t event).append_right _)

theorem extends_absorbAll (t : Turn) (events : List SessionEvent) {i : ℕ} {node : ScriptNode}
    (h : t.scripts[i]? = some node) :
    ∃ node', (t.absorbAll events).scripts[i]? = some node' ∧ node.Extends node' := by
  induction events generalizing t node with
  | nil => exact ⟨node, h, .refl node⟩
  | cons event events ih =>
    obtain ⟨node', h', he⟩ := extends_absorb t event h
    obtain ⟨node'', h'', he'⟩ := ih _ h'
    exact ⟨node'', h'', he.trans he'⟩

theorem status_absorbAll (t : Turn) {events : List SessionEvent}
    (h : ∀ event ∈ events, event.fills) : (t.absorbAll events).status = t.status := by
  induction events generalizing t with
  | nil => rfl
  | cons event events ih =>
    rw [List.forall_mem_cons] at h
    rw [absorbAll_cons, ih _ h.2, status_absorb t h.1]

end Turn

namespace Transcript

/-- Folds events into the open turn, one after another. -/
def absorbAll (t : Transcript) (events : List SessionEvent) : Transcript :=
  events.foldl Transcript.absorb t

/-- The last turn takes every event up to the one that ends it. -/
theorem absorbAll_last {turns : List Turn} {turn : Turn} (h : turn.status.isRunning)
    {events : List SessionEvent} (he : ∀ event ∈ events.dropLast, event.fills) :
    (⟨turns ++ [turn]⟩ : Transcript).absorbAll events = ⟨turns ++ [turn.absorbAll events]⟩ := by
  rcases events.eq_nil_or_concat with rfl | ⟨front, last, rfl⟩
  · rfl
  · rw [List.concat_eq_append, List.dropLast_concat] at he
    have hrunning : (turn.absorbAll front).status.isRunning := by
      rw [Turn.status_absorbAll turn he]
      exact h
    have hlast : Transcript.absorb ⟨turns ++ [turn.absorbAll front]⟩ last =
        ⟨turns ++ [(turn.absorbAll front).absorb last]⟩ :=
      congrArg Transcript.mk (turns_modifyRunning rfl hrunning _)
    rw [List.concat_eq_append, absorbAll, List.foldl_append, foldl_absorb turns h he,
      List.foldl_cons, List.foldl_nil, Turn.absorbAll_append]
    exact hlast

/-- **No call is lost or duplicated.**  A turn that is opened and takes its
    session's events, in whatever order and up to the one that ends it, has
    recorded exactly the calls the events report; and each call recorded on the
    way stays in its node, at its place. -/
theorem calls_conserved (t : Transcript) (prompt : String) (events : List SessionEvent)
    (he : ∀ event ∈ events.dropLast, event.fills) :
    ∃ turn, ((t.opened prompt).absorbAll events).turns = t.turns ++ [turn] ∧
      turn.recordedCalls.Perm (observedCalls events) ∧
      turn.capabilityCalls = (observedCalls events).length ∧
      ∀ before after, events = before ++ after →
        ∃ earlier, ((t.opened prompt).absorbAll before).turns = t.turns ++ [earlier] ∧
          ∀ (i : ℕ) (node : ScriptNode), earlier.scripts[i]? = some node →
            ∃ node', turn.scripts[i]? = some node' ∧ node.Extends node' := by
  have hopen {events : List SessionEvent}
      (he : ∀ event ∈ events.dropLast, event.fills) :
      (t.opened prompt).absorbAll events =
        ⟨t.turns ++ [(Turn.opened (t.turns.length + 1) prompt).absorbAll events]⟩ :=
    absorbAll_last rfl he
  have hcalls := Turn.recordedCalls_absorbAll (Turn.opened (t.turns.length + 1) prompt) events
  refine ⟨_, congrArg turns (hopen he), hcalls, ?_, ?_⟩
  · rw [Turn.capabilityCalls_eq, hcalls.length_eq]
    rfl
  · rintro before after rfl
    have hbefore : ∀ event ∈ before.dropLast, event.fills := by
      intro event hevent
      refine he event ?_
      rcases after.eq_nil_or_concat with rfl | ⟨after, last, rfl⟩
      · simpa using hevent
      · have hdrop : (before ++ after.concat last).dropLast = before ++ after := by
          rw [List.concat_eq_append, ← List.append_assoc, List.dropLast_concat]
        rw [hdrop]
        exact List.mem_append_left _ (List.mem_of_mem_dropLast hevent)
    refine ⟨_, congrArg turns (hopen hbefore), ?_⟩
    intro i node hnode
    rw [Turn.absorbAll_append]
    exact Turn.extends_absorbAll _ after hnode

/-- A call no script was open for, and one of a script. -/
theorem calls_conserved_unopened :
    let unopened := SessionEvent.capability ⟨9, "gh.repo.read", .null, .notFound, 0⟩
    let opened := SessionEvent.capability ⟨11, "gh.issue.list", .null, .succeeded, 0⟩
    let events := [unopened, .scriptStarted 10 "list", opened, .finished (.error "stopped")]
    (∀ event ∈ events.dropLast, event.fills) ∧
      ∃ turn, ((Transcript.empty.opened "ask").absorbAll events).turns = [turn] ∧
        turn.capabilityCalls = 2 := by
  intro unopened opened events
  have hfills : ∀ event ∈ events.dropLast, event.fills := by
    intro event hevent
    simp only [events, List.dropLast, List.mem_cons, List.not_mem_nil, or_false] at hevent
    rcases hevent with rfl | rfl | rfl <;> rfl
  obtain ⟨turn, hturns, -, hcalls, -⟩ := calls_conserved .empty "ask" events hfills
  exact ⟨hfills, turn, hturns, hcalls⟩

end Transcript

/-! ## Tokens -/

/-- The usage an event reports of one model response. -/
def SessionEvent.modelResponse : SessionEvent → Option (Option ModelUsage)
  | .modelUsage usage => some usage
  | _ => none

/-- The usages a session's events report. -/
def modelResponses (events : List SessionEvent) : List (Option ModelUsage) :=
  events.filterMap SessionEvent.modelResponse

/-- The sum of what was reported, as far as a type with `size` values holds it;
    nothing if nothing was reported. -/
def cappedSum (size : ℕ) (reported : List ℕ) : Option ℕ :=
  if reported = [] then none else some (min reported.sum (size - 1))

theorem cappedSum_concat (size : ℕ) (reported : List ℕ) (n : ℕ) :
    cappedSum size (reported ++ [n]) =
      some (saturatingAdd size ((cappedSum size reported).getD 0) n) := by
  unfold cappedSum saturatingAdd
  by_cases h : reported = []
  · simp [h]
  · simp only [List.append_eq_nil_iff, List.cons_ne_nil, and_false, if_false, h, List.sum_append,
      List.sum_singleton, Option.getD_some, Option.some.injEq]
    omega

theorem cappedSum_perm {size : ℕ} {reported reported' : List ℕ} (h : reported.Perm reported') :
    cappedSum size reported = cappedSum size reported' := by
  have hnil : reported = [] ↔ reported' = [] := by
    rw [← List.length_eq_zero_iff, ← List.length_eq_zero_iff, h.length_eq]
  simp only [cappedSum, hnil, h.sum_eq]

/-- A response that reports neither input nor output tokens. -/
def reportsNeither (usage : Option ModelUsage) : Bool :=
  (usage.bind ModelUsage.inputTokens).isNone && (usage.bind ModelUsage.outputTokens).isNone

namespace TurnTokens

/-- The accounts of some responses: each sum is capped, and is there if anything
    was reported for it. -/
structure Accounts (t : TurnTokens) (usages : List (Option ModelUsage)) : Prop where
  input : t.input = cappedSum u64Size (usages.filterMap fun u => u.bind ModelUsage.inputTokens)
  output : t.output = cappedSum u64Size (usages.filterMap fun u => u.bind ModelUsage.outputTokens)
  unreported : t.unreported = min (usages.countP reportsNeither) (u32Size - 1)

theorem Accounts.absorb {t : TurnTokens} {usages : List (Option ModelUsage)}
    (h : t.Accounts usages) (usage : Option ModelUsage) :
    (t.absorb usage).Accounts (usages ++ [usage]) := by
  have hcount (n : ℕ) : saturatingAdd u32Size (min n (u32Size - 1)) 1 = min (n + 1) (u32Size - 1) := by
    unfold saturatingAdd
    omega
  obtain ⟨hi, ho, hu⟩ := h
  rcases usage with _ | ⟨input, output⟩
  · refine ⟨?_, ?_, ?_⟩ <;> simp [TurnTokens.absorb, reportsNeither, hi, ho, hu, hcount]
  · cases input <;> cases output <;> refine ⟨?_, ?_, ?_⟩ <;>
      simp [TurnTokens.absorb, reportsNeither, cappedSum_concat, hi, ho, hu, hcount]

theorem Accounts.perm {t : TurnTokens} {usages usages' : List (Option ModelUsage)}
    (h : t.Accounts usages) (hp : usages.Perm usages') : t.Accounts usages' :=
  ⟨h.input.trans (cappedSum_perm (hp.filterMap _)), h.output.trans (cappedSum_perm (hp.filterMap _)),
    by rw [h.unreported, hp.countP_eq]⟩

/-- The responses determine the accounts. -/
theorem Accounts.unique {t t' : TurnTokens} {usages : List (Option ModelUsage)}
    (h : t.Accounts usages) (h' : t'.Accounts usages) : t = t' := by
  cases t
  cases t'
  simp only [TurnTokens.mk.injEq]
  exact ⟨h.input.trans h'.input.symm, h.output.trans h'.output.symm,
    h.unreported.trans h'.unreported.symm⟩

end TurnTokens

theorem Turn.tokens_absorb (t : Turn) (event : SessionEvent) :
    (t.absorb event).tokens = event.modelResponse.toList.foldl TurnTokens.absorb t.tokens := by
  cases event with
  | capability call =>
    simp only [absorb]
    split <;> rfl
  | scriptFinished run =>
    simp only [absorb]
    split <;> rfl
  | _ => rfl

theorem Turn.accounts_absorbAll {t : Turn} {usages : List (Option ModelUsage)}
    (h : t.tokens.Accounts usages) (events : List SessionEvent) :
    (t.absorbAll events).tokens.Accounts (usages ++ modelResponses events) := by
  induction events generalizing t usages with
  | nil => simpa [modelResponses] using h
  | cons event events ih =>
    rw [absorbAll_cons]
    cases hu : event.modelResponse with
    | none =>
      have hstep : (t.absorb event).tokens = t.tokens := by rw [tokens_absorb, hu]; rfl
      have hlist : modelResponses (event :: events) = modelResponses events := by
        simp [modelResponses, hu]
      rw [hlist]
      exact ih (hstep ▸ h)
    | some usage =>
      have hstep : (t.absorb event).tokens = t.tokens.absorb usage := by rw [tokens_absorb, hu]; rfl
      have hlist : modelResponses (event :: events) = usage :: modelResponses events := by
        simp [modelResponses, hu]
      rw [hlist, List.append_cons]
      exact ih (hstep ▸ h.absorb usage)

/-- **Unreported is not zero.**  The tokens of a turn are the sums of what its
    model responses reported, none where none did, with the number of responses
    that reported neither; they do not depend on the order of the events. -/
theorem Turn.tokens_absorbed (ordinal : ℕ) (prompt : String) (events : List SessionEvent) :
    ((opened ordinal prompt).absorbAll events).tokens.Accounts (modelResponses events) ∧
      ∀ events' : List SessionEvent, events'.Perm events →
        ((opened ordinal prompt).absorbAll events').tokens =
          ((opened ordinal prompt).absorbAll events).tokens := by
  have h (events : List SessionEvent) :
      ((opened ordinal prompt).absorbAll events).tokens.Accounts (modelResponses events) := by
    have hnone : (opened ordinal prompt).tokens.Accounts [] := ⟨rfl, rfl, rfl⟩
    exact accounts_absorbAll hnone events
  refine ⟨h events, ?_⟩
  intro events' hp
  exact ((h events').perm (hp.filterMap _)).unique (h events)

end DekoponConsole
