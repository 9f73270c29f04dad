/-
  A hop is all or nothing.

  * `HopRefused`, `HopEmptied`, `HopEntered`: the three ways a hop can end, with all that
    is left of the previous agent;
  * `dispatchEnter_outcome`: every hop ends in exactly one of them.
-/
import DekoponConsole.Proof.Dispatch

namespace DekoponConsole

variable (exts : Externals)

/-! ## Three ways -/

/-- Refused locally: nothing but the notice changes, and the broker is not asked. -/
def HopRefused (c : Console) (r : Dispatched) : Prop :=
  ∃ refusal, LocalRefusal exts c refusal ∧ r = (c.refuse refusal.text, [])

/-- The leg a hop asks for: the new agent's, over the inventory made for it. -/
def HopLeg (c : Console) (agent : AgentId) (r : Dispatched) : Prop :=
  r.2 = [.openLeg (attestationOf r.1.options.subject agent r.1.options.scope) c.stores.length]

/-- Refused by the broker, or granted nothing: all that was the previous agent's
    is gone. -/
structure HopEmptied (answers : Answers) (c : Console) (r : Dispatched) : Prop where
  leg : ∃ agent, c.app.highlightedId exts = some agent ∧ HopLeg c agent r
  answer : ∀ surface, answers.leg = .ok surface → surface.effective = []
  session : r.1.app.session = none
  assets : r.1.app.assets = none
  trace : r.1.app.brokerTrace = none
  transcript : r.1.app.transcript = .empty
  shellHistory : r.1.app.shellHistory = []
  composer : r.1.app.composer = ""
  history : r.1.history = .new

/-- Entered: the session and a fresh inventory are the new agent's, and nothing
    is carried over. -/
structure HopEntered (answers : Answers) (c : Console) (r : Dispatched) : Prop where
  leg : ∃ agent surface, c.app.highlightedId exts = some agent ∧ HopLeg c agent r ∧
    answers.leg = .ok surface ∧ surface.effective ≠ [] ∧
    r.1.app.session = some (.new agent ⟨attestationOf r.1.options.subject agent r.1.options.scope,
      c.stores.length, surface⟩)
  assets : r.1.app.assets = some c.stores.length
  fresh : r.1.stores = c.stores ++ [.default]
  transcript : r.1.app.transcript = .empty
  shellHistory : r.1.app.shellHistory = []
  composer : r.1.app.composer = ""
  revealed : r.1.app.revealed = []
  history : r.1.history = .new

/-! ## They exclude each other -/

section
variable {exts} {answers : Answers} {c : Console} {r : Dispatched}

theorem HopRefused.calls (h : HopRefused exts c r) : r.2 = [] := by
  obtain ⟨_, -, rfl⟩ := h
  rfl

theorem HopEmptied.calls_ne_nil (h : HopEmptied exts answers c r) : r.2 ≠ [] := by
  obtain ⟨_, -, hleg⟩ := h.leg
  rw [hleg]
  simp

theorem HopEntered.calls_ne_nil (h : HopEntered exts answers c r) : r.2 ≠ [] := by
  obtain ⟨_, _, -, hleg, -⟩ := h.leg
  rw [hleg]
  simp

theorem HopEmptied.not_entered (h : HopEmptied exts answers c r) : ¬ HopEntered exts answers c r := by
  intro h'
  obtain ⟨_, _, -, -, -, -, hs⟩ := h'.leg
  simp [h.session] at hs

end

/-! ## A hop ends in one -/

/-- A hop whose context is resolved is emptied or entered. -/
theorem openHop_outcome (answers : Answers) {c c₁ : Console} {agent : AgentId}
    (ha : c.app.highlightedId exts = some agent) (hs : c₁.stores = c.stores) :
    HopEmptied exts answers c (openHop exts answers c₁ agent) ∨
      HopEntered exts answers c (openHop exts answers c₁ agent) := by
  have hleg (r : Dispatched) (h : r.1.options = (prepareHop exts c₁).options ∧
      r.2 = [.openLeg (attestationOf (prepareHop exts c₁).options.subject agent
        (prepareHop exts c₁).options.scope) c₁.stores.length]) : HopLeg c agent r := by
    rw [HopLeg, h.1, h.2, hs]
  have hraise (report : ErrorReport) (answer : ∀ surface, answers.leg = .ok surface →
      surface.effective = []) :
      HopEmptied exts answers c ({ prepareHop exts c₁ with
        app := (prepareHop exts c₁).app.raise report }, [.openLeg (attestationOf
          (prepareHop exts c₁).options.subject agent (prepareHop exts c₁).options.scope)
            c₁.stores.length]) := by
    refine ⟨⟨agent, ha, hleg _ ⟨rfl, rfl⟩⟩, answer, ?_, ?_, ?_, ?_, ?_, ?_, rfl⟩
    all_goals rfl
  unfold openHop openAgentWithAssets
  cases hanswer : answers.leg with
  | error error => exact Or.inl (hraise _ (by simp [hanswer]))
  | ok surface =>
    simp only
    split_ifs with hempty
    · refine Or.inl (hraise _ ?_)
      intro surface' hs'
      obtain rfl := Except.ok.inj (hanswer.symm.trans hs')
      simpa [BrokerLeg.isEmpty] using hempty
    · right
      have hne : surface.effective ≠ [] := by simpa [BrokerLeg.isEmpty] using hempty
      refine ⟨⟨agent, surface, ha, hleg _ ⟨rfl, rfl⟩, hanswer, hne, ?_⟩, ?_, ?_, ?_, ?_, ?_, ?_, ?_⟩
      · rw [← hs]
        rfl
      · rw [← hs]
      · show c₁.stores ++ [.default] = _
        rw [hs]
      all_goals rfl

/-- A resolved context has made no inventory yet. -/
theorem Hop.stores {c c₁ : Console} {agent : AgentId} (h : Hop exts c agent c₁) :
    c₁.stores = c.stores := by
  rcases h.resolved with ⟨profile, -, rfl⟩ | ⟨-, rfl⟩
  · rfl
  · rfl

/-- **A hop is all or nothing**: refused locally, emptied or entered, and only
    one of these. -/
theorem dispatchEnter_outcome (answers : Answers) (c : Console) :
    let r := dispatch exts answers c .enter
    (HopRefused exts c r ∧ ¬ HopEmptied exts answers c r ∧ ¬ HopEntered exts answers c r) ∨
      (¬ HopRefused exts c r ∧ HopEmptied exts answers c r ∧ ¬ HopEntered exts answers c r) ∨
      (¬ HopRefused exts c r ∧ ¬ HopEmptied exts answers c r ∧ HopEntered exts answers c r) := by
  intro r
  rcases dispatchEnter_cases exts answers c with hr | ⟨agent, c₁, hop, he⟩
  · have hr : HopRefused exts c r := hr
    exact Or.inl ⟨hr, fun h => h.calls_ne_nil hr.calls, fun h => h.calls_ne_nil hr.calls⟩
  · have hcases := openHop_outcome exts answers hop.highlighted (hop.stores exts)
    rw [← he] at hcases
    rcases hcases with h | h
    · exact Or.inr (Or.inl ⟨fun hr => h.calls_ne_nil hr.calls, h, h.not_entered⟩)
    · exact Or.inr (Or.inr ⟨fun hr => h.calls_ne_nil hr.calls, fun h' => h'.not_entered h, h⟩)

end DekoponConsole
