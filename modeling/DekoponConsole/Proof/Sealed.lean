/-
  Inventories that were left behind.

  A hop makes a new inventory and the console goes on with that one.  `Left` says of an
  inventory that neither the open session nor the task in flight is bound to it; a hop
  leaves every inventory so that no task is running over (`left_of_hopping`), and no pass
  comes back to one (`left_step`).
-/
import DekoponConsole.Proof.Hop
import DekoponConsole.Proof.Journal
import DekoponConsole.Proof.Stop

namespace DekoponConsole

open App

/-- An inventory that was made, and that nothing in the console is bound to. -/
structure Console.Left (c : Console) (store : StoreId) : Prop where
  made : store < c.stores.length
  closed : c.app.assets ≠ some store
  idle : ∀ task, c.inFlight = some task → task.leg.store ≠ store

/-- The console asks for a leg over an inventory. -/
def BrokerCall.OpensOver (store : StoreId) : BrokerCall → Prop
  | .openLeg _ opened => opened = store
  | .recordDeliveredTurn _ _ => False

section
variable {exts : Externals} {c : Console} {store : StoreId}

/-! ## The inventories a pass changes -/

theorem stores_dispatchSmoke (answers : Answers) (agent : AgentId) (line text : String) :
    (dispatchSmoke exts answers c agent line text).1.stores = c.stores := by
  unfold dispatchSmoke
  split_ifs
  · rfl
  split
  · rfl
  split_ifs
  · simp only [smokeRecord]
    cases answers.record <;> rfl
  · rfl

theorem stores_dispatchScript (answers : Answers) (agent : AgentId) (line : String) :
    (dispatchScript exts answers c agent line).1.stores = c.stores := by
  unfold dispatchScript openAgentWithAssets
  dsimp only
  split
  · rfl
  cases answers.leg with
  | error error => rfl
  | ok surface =>
    dsimp only
    split_ifs <;> rfl

theorem stores_dispatchAsset (answers : Answers) (command : String)
    (h : c.app.assets ≠ some store) :
    (dispatchAsset exts answers c command).1.stores[store]? = c.stores[store]? := by
  unfold dispatchAsset
  cases ha : c.app.assets with
  | none => rfl
  | some opened =>
    have hne : opened ≠ store := fun heq => h (ha.trans (congrArg some heq))
    have hset (inventory : Inventory) :
        (c.stores.set opened inventory)[store]? = c.stores[store]? := List.getElem?_set_ne hne
    simp only
    split <;> exact hset _

/-- A command changes the open inventory only. -/
theorem stores_dispatchShell (answers : Answers) (line : String)
    (h : c.app.assets ≠ some store) :
    (dispatchShell exts answers c line).1.stores[store]? = c.stores[store]? := by
  unfold dispatchShell
  cases c.app.session with
  | none => rfl
  | some session =>
    dsimp only
    by_cases hb : c.app.busy
    · rw [if_pos hb]
      rfl
    rw [if_neg hb]
    split
    · rw [stores_dispatchSmoke]
    split
    · rfl
    split
    · exact stores_dispatchAsset answers _ h
    split
    · rfl
    · rw [stores_dispatchScript]

theorem stores_dispatchEnter (answers : Answers) (h : store < c.stores.length) :
    (dispatchEnter exts answers c).1.stores[store]? = c.stores[store]? := by
  rcases dispatchEnter_cases exts answers c with ⟨text, -, hd⟩ | ⟨agent, c₁, hop, hd⟩
  · rw [hd]
    rfl
  · obtain ⟨app, -, ho⟩ := openHop_cases exts answers c₁ agent
    rw [hd, ho]
    show (c₁.stores ++ [Inventory.default])[store]? = c.stores[store]?
    rw [hop.stores exts, List.getElem?_append_left h]

/-- A dispatched action changes the open inventory, or makes a new one. -/
theorem stores_dispatch (answers : Answers) (action : Action) (h : c.Left store) :
    (dispatch exts answers c action).1.stores[store]? = c.stores[store]? := by
  cases action with
  | enter => exact stores_dispatchEnter answers h.made
  | turn prompt =>
    show (dispatchTurn exts answers c prompt).1.stores[store]? = c.stores[store]?
    rcases dispatchTurn_cases exts answers c prompt with
      ⟨-, hd⟩ | ⟨-, ⟨-, trace, report, hd⟩ | ⟨-, leg, instructions, agent, -, trace, hd⟩⟩
    · rw [hd]
    · rw [hd]
    · rw [hd]
      rfl
  | shell line => exact stores_dispatchShell answers line h.closed

/-- No pass changes an inventory that was left. -/
theorem stores_step (h : c.Left store) (l : Label) :
    (step exts c l).stores[store]? = c.stores[store]? := by
  cases l with
  | key key answers =>
    have hkeyed : (c.keyed exts key).Left store :=
      ⟨h.made, (c.sameContext_keyed exts key).app.assets ▸ h.closed, h.idle⟩
    cases ha : (onKey exts c.app key c.stop).1 with
    | none =>
      rw [step, react_key_none ha]
      rfl
    | some action =>
      rw [step, react_key_some ha]
      exact stores_dispatch answers action hkeyed
  | action action answers => exact stores_dispatch answers action h
  | submitTurn answers =>
    have hsubmitted : c.submitted.Left store :=
      ⟨h.made, c.sameContext_submitted.app.assets ▸ h.closed, h.idle⟩
    cases hp : c.app.submitTurn.1 with
    | none =>
      rw [step, react_submit_none hp]
      rfl
    | some prompt =>
      rw [step, react_submit_some hp]
      exact stores_dispatch answers (.turn prompt) hsubmitted
  | event event => rfl
  | close joined =>
    cases hr : c.running with
    | none => rw [step_close_none hr]
    | some turn =>
      rw [step_close_some hr, settleTurn_eq]
  | intake intake =>
    rcases step_intake with hd | ⟨turn, inventory, hr, -, hd⟩
    · rw [hd]
    · have hne : turn.task.leg.store ≠ store := h.idle turn.task (by rw [Console.inFlight, hr]; rfl)
      rw [hd]
      exact List.getElem?_set_ne hne
  | resize width height => rfl

/-! ## What a hop leaves -/

/-- A hop opens its leg over an inventory of its own. -/
theorem Hops.leaves {d : Dispatched} (h : Hops exts c d) (hmade : store < c.stores.length) :
    store < d.1.stores.length ∧ d.1.app.assets ≠ some store ∧
      ∀ call ∈ d.2, ¬call.OpensOver store := by
  obtain ⟨c₀, agent, c₁, app, hc, hop, happ, rfl⟩ := h
  have hlength : c₁.stores.length = c.stores.length := by rw [hop.stores exts, hc.stores]
  have hne : c₁.stores.length ≠ store := hlength ▸ hmade.ne'
  refine ⟨?_, ?_, ?_⟩
  · show store < (c₁.stores ++ [Inventory.default]).length
    rw [List.length_append, hlength]
    exact hmade.trans (Nat.lt_succ_self _)
  · cases happ with
    | refused report =>
      have hnone : ((prepareHop exts c₁).app.raise report).assets = none :=
        (quiet_raise (prepareHop exts c₁).app report).context.assets
      show ((prepareHop exts c₁).app.raise report).assets ≠ some store
      rw [hnone]
      exact fun heq => by cases heq
    | entered leg hs ha => exact fun heq => hne (Option.some.inj heq)
  · intro call hcall
    rw [List.mem_singleton.1 hcall]
    exact hne

/-- A hop is made in a state with the same inventories and the same task in flight. -/
theorem step_of_enter {l : Label} (h : performed exts c l = some .enter) :
    ∃ answers c₀, c₀.stores = c.stores ∧ c₀.running = c.running ∧
      step exts c l = (dispatchEnter exts answers c₀).1 := by
  cases l with
  | key key answers =>
    refine ⟨answers, c.keyed exts key, rfl, rfl, ?_⟩
    rw [step, react_key_some h]
    rfl
  | action action answers =>
    obtain rfl : action = .enter := Option.some.inj h
    exact ⟨answers, c, rfl, rfl, rfl⟩
  | submitTurn answers =>
    obtain ⟨prompt, -, hprompt⟩ := Option.map_eq_some_iff.1 h
    cases hprompt
  | _ => cases h

/-- **A hop leaves every inventory** that no task is running over. -/
theorem left_of_hopping {l : Label} (h : Hopping exts c l) (hmade : store < c.stores.length)
    (hidle : ∀ task, c.inFlight = some task → task.leg.store ≠ store) :
    (step exts c l).Left store ∧ (step exts c l).stores[store]? = c.stores[store]? ∧
      ∀ call ∈ asked exts c l, ¬call.OpensOver store := by
  obtain ⟨answers, c₀, hstores, hrunning, hstep⟩ := step_of_enter h.1
  have hflying : (step exts c l).inFlight = c.inFlight := by
    rw [Console.inFlight, hstep, running_dispatchEnter, hrunning]
    rfl
  rcases react_cases exts c l with ⟨-, hcalls⟩ | ⟨-, hops⟩
  · exact absurd (hcalls h.1) h.2
  · obtain ⟨hmade', hclosed, hcalls⟩ := hops.leaves hmade
    refine ⟨⟨hmade', hclosed, ?_⟩, ?_, hcalls⟩
    · rw [hflying]
      exact hidle
    · rw [hstep, stores_dispatchEnter answers (hstores ▸ hmade), hstores]

/-! ## No way back -/

/-- No pass comes back to an inventory that was left. -/
theorem left_step (hp : c.Paired) (h : c.Left store) (l : Label) :
    (step exts c l).Left store ∧ ∀ call ∈ asked exts c l, ¬call.OpensOver store := by
  have hidle : ∀ task, (step exts c l).inFlight = some task → task.leg.store ≠ store := by
    intro task htask
    cases handled_step exts hp l with
    | spawned spawned signal hstore running flag next =>
      rw [Console.inFlight, running] at htask
      obtain rfl := Option.some.inj htask
      exact fun heq => h.closed (heq ▸ hstore.symm)
    | joined running flag busy next =>
      rw [Console.inFlight, running] at htask
      cases htask
    | kept kept flag busy next => exact h.idle task (kept ▸ htask)
  rcases react_cases exts c l with ⟨hs, -⟩ | ⟨-, hops⟩
  · refine ⟨⟨hs.context.stores ▸ h.made, hs.context.app.assets ▸ h.closed, hidle⟩, ?_⟩
    intro call hcall
    rcases hs.calls with hnil | ⟨session, opened, -, ha, hcalls⟩ | ⟨-, session, turn, -, hcalls⟩
    · rw [asked, hnil] at hcall
      cases hcall
    · rw [asked, hcalls, List.mem_singleton] at hcall
      rw [hcall]
      exact fun heq => h.closed (heq ▸ ha)
    · rw [asked, hcalls, List.mem_singleton] at hcall
      rw [hcall]
      exact id
  · obtain ⟨hmade, hclosed, hcalls⟩ := hops.leaves h.made
    exact ⟨⟨hmade, hclosed, hidle⟩, hcalls⟩

theorem left_exec (exts : Externals) (hp : c.Paired) (h : c.Left store) (ls : List Label) :
    (Runs.exec (step exts) c ls).stores[store]? = c.stores[store]? ∧
      ∀ call ∈ Runs.outputs (step exts) (asked exts) c ls, ¬call.OpensOver store := by
  induction ls generalizing c with
  | nil => exact ⟨rfl, fun call hcall => absurd hcall List.not_mem_nil⟩
  | cons l ls ih =>
    obtain ⟨hleft, hcalls⟩ := left_step hp h l
    obtain ⟨hstores, hlater⟩ := ih (paired_step exts hp l) hleft
    exact ⟨hstores.trans (stores_step h l), List.forall_mem_append.2 ⟨hcalls, hlater⟩⟩

end

/-- **A hop seals what it leaves.**  In every run, from a pass that hops on and whatever
    the loop meets after it, no inventory made before is changed any more and no leg is
    asked for over it, but for that of a task still in flight. -/
theorem hop_seals_inventories (exts : Externals) (agents : List Agent)
    (subject socketPath credentialPath : String) (options : ConsoleOptions)
    (before after : List Label) (l : Label) :
    let c := Runs.exec (step exts)
      (Console.start (App.new agents subject socketPath credentialPath) options) before
    Hopping exts c l → ∀ store < c.stores.length,
      (∀ task, c.inFlight = some task → task.leg.store ≠ store) →
        (Runs.exec (step exts) c (l :: after)).stores[store]? = c.stores[store]? ∧
          ∀ call ∈ Runs.outputs (step exts) (asked exts) c (l :: after), ¬call.OpensOver store := by
  intro c hop store hmade hidle
  have hp : c.Paired :=
    (flagBound_exec exts (flagBound_start agents subject socketPath credentialPath options)
      before).paired
  obtain ⟨hleft, hstores, hcalls⟩ := left_of_hopping hop hmade hidle
  obtain ⟨hkept, hlater⟩ := left_exec exts (paired_step exts hp l) hleft after
  exact ⟨hkept.trans hstores, List.forall_mem_append.2 ⟨hcalls, hlater⟩⟩

/-- A second hop, and a script on the leg of its own inventory. -/
theorem hop_seals_inventories_sample :
    let c := Runs.exec (step .plain) (Console.start (App.new Sample.catalog "operator"
      "broker.sock" "auth.json") Sample.options) [.action .enter Sample.answers]
    let passes : List Label :=
      [.action .enter Sample.answers, .action (.shell "files") Sample.answers]
    (Runs.exec (step .plain) c passes).stores[0]? = c.stores[0]? ∧
      ∀ call ∈ Runs.outputs (step .plain) (asked .plain) c passes, ¬call.OpensOver 0 :=
  hop_seals_inventories .plain Sample.catalog "operator" "broker.sock" "auth.json" Sample.options
    [.action .enter Sample.answers] [.action (.shell "files") Sample.answers]
    (.action .enter Sample.answers) ⟨rfl, by decide⟩ 0 (by decide) (fun task h => by cases h)

end DekoponConsole
