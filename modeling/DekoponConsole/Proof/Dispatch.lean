/-
  What one key press and one dispatched action can do.

  Each lemma here is an inversion: it lists the states an operation can leave,
  with the requests it makes of the broker, and the proofs about runs use it
  instead of the operation's definition.

  * `keyEffect_onKey`: a key press is quiet, or requests a stop, or yields an action;
    `undisplayed_onKey`: what it leaves alone;
  * `dispatchEnter_cases`, `openHop_cases`: a hop is refused (`LocalRefusal`), or
    opens its leg in the state `prepareHop` makes;
  * `dispatchTurn_cases`, `dispatchShell_effect`: what a turn and a command line do
    on a leg of the open session, if they ask for one;
  * `react_cases`: for the context, every pass of the loop is a hop or leaves it.
-/
import DekoponConsole.Proof.App
import DekoponConsole.Run

namespace DekoponConsole

open App

variable (exts : Externals)

/-! ## Keys -/

/-- What a key press may do besides being quiet: request a stop while busy, or
    yield an action that the application accepts. -/
structure KeyEffect (app : App) (stop : StopFlag) (keyed : Keyed) : Prop where
  quiet : Quiet app keyed.2.1
  stop : keyed.2.2 = stop ∨ (app.busy = true ∧ keyed.2.2 = stop.request)
  action : keyed.1 = none ∨ keyed.1 = some .enter ∨ ∃ line, keyed.1 = some (.shell line)

theorem KeyEffect.of_quiet {app app' : App} (stop : StopFlag) (h : Quiet app app') :
    KeyEffect app stop (none, app', stop) := ⟨h, Or.inl rfl, Or.inl rfl⟩

theorem keyEffect_escOr {app otherwise : App} (stop : StopFlag) (h : Quiet app otherwise) :
    KeyEffect app stop (escOr app stop otherwise) := by
  unfold escOr
  simp only
  split_ifs with hs
  · refine ⟨quiet_requestStop app, Or.inr ⟨?_, rfl⟩, Or.inl rfl⟩
    simp only [requestStop] at hs
    split_ifs at hs with hb
    simpa using hb
  · exact .of_quiet stop h

theorem quiet_mode {app : App} {mode : Mode} (h : mode = .composing → app.pane = .shell) :
    Quiet app { app with mode := mode } :=
  ⟨by constructor <;> rfl, by constructor <;> rfl, rfl, fun _ => h⟩

theorem quiet_pane {app : App} (hm : app.mode = .browsing) (pane : Pane) :
    Quiet app { app with pane := pane } :=
  ⟨by constructor <;> rfl, by constructor <;> rfl, rfl, fun _ h => absurd (hm.symm.trans h) (by decide)⟩

theorem quiet_browsing (app : App) (pane : Pane) (composer : String) :
    Quiet app { app with mode := .browsing, pane := pane, composer := composer } :=
  ⟨by constructor <;> rfl, by constructor <;> rfl, rfl, fun _ h => by cases h⟩

theorem keyEffect_onComposingEnter (app : App) (stop : StopFlag) :
    KeyEffect app stop (onComposingEnter app stop) := by
  unfold onComposingEnter
  split
  · simp only
    split_ifs
    · exact .of_quiet stop (quiet_setNotice app _)
    · exact .of_quiet stop (quiet_setNotice app _)
    · exact .of_quiet stop (.refl app)
    · exact ⟨quiet_display app, Or.inl rfl, Or.inr (Or.inr ⟨_, rfl⟩)⟩
  · exact .of_quiet stop (.refl app)

theorem keyEffect_onComposingKey (app : App) (key : KeyEvent) (stop : StopFlag) :
    KeyEffect app stop (onComposingKey app key stop) := by
  unfold onComposingKey
  cases key.code with
  | esc => exact keyEffect_escOr stop (quiet_browsing app app.pane "")
  | tab => exact .of_quiet stop (quiet_browsing app app.pane.next app.composer)
  | backTab => exact .of_quiet stop (quiet_browsing app app.pane.previous app.composer)
  | backspace => exact .of_quiet stop (quiet_display app)
  | char c =>
    simp only
    split_ifs
    · exact .of_quiet stop (quiet_display app)
    · exact .of_quiet stop (.refl app)
  | enter => exact keyEffect_onComposingEnter app stop
  | _ => exact .of_quiet stop (.refl app)

theorem quiet_onErrorKey (app : App) (key : KeyEvent) : Quiet app (onErrorKey exts app key) := by
  unfold onErrorKey
  simp only
  split <;> first
    | exact quiet_display app
    | exact quiet_browsing app app.pane app.composer

theorem quiet_onPagingKey {app app' : App} {key : KeyEvent}
    (h : onPagingKey exts app key = some app') : Quiet app app' := by
  unfold onPagingKey at h
  split_ifs at h
  split at h <;> cases h <;> exact quiet_display app

theorem keyEffect_onBrowsingKey (app : App) (key : KeyEvent) (stop : StopFlag)
    (hm : app.mode = .browsing) : KeyEffect app stop (onBrowsingKey app key stop) := by
  unfold onBrowsingKey
  split
  · exact .of_quiet stop (quiet_display app)
  · exact .of_quiet stop (quiet_mode fun h => by cases h)
  · exact .of_quiet stop (quiet_showError app)
  · exact .of_quiet stop (quiet_pane hm _)
  · exact .of_quiet stop (quiet_pane hm _)
  · exact .of_quiet stop (quiet_moveSelection app 1)
  · exact .of_quiet stop (quiet_moveSelection app 1)
  · exact .of_quiet stop (quiet_moveSelection app (-1))
  · exact .of_quiet stop (quiet_moveSelection app (-1))
  · split_ifs with hp
    · exact .of_quiet stop (quiet_mode fun _ => hp)
    · exact .of_quiet stop (.refl app)
  · split_ifs
    · exact ⟨.refl app, Or.inl rfl, Or.inr (Or.inl rfl)⟩
    · exact .of_quiet stop (.refl app)
  · exact keyEffect_escOr stop (.refl app)
  · exact .of_quiet stop (.refl app)

/-- **What a key press can do.** -/
theorem keyEffect_onKey (app : App) (key : KeyEvent) (stop : StopFlag) :
    KeyEffect app stop (onKey exts app key stop) := by
  unfold onKey
  split_ifs
  · exact .of_quiet stop (quiet_display app)
  · split
    next => exact .of_quiet stop (quiet_browsing app app.pane app.composer)
    next => exact .of_quiet stop (quiet_onErrorKey exts app key)
    next =>
      split
      next app' h => exact .of_quiet stop (quiet_onPagingKey exts h)
      next => exact keyEffect_onComposingKey app key stop
    next hm =>
      split
      next app' h => exact .of_quiet stop (quiet_onPagingKey exts h)
      next => exact keyEffect_onBrowsingKey app key stop hm

/-- What changes the display only: what is drawn, typed or has focus. -/
inductive Displays (app : App) : App → Prop
  | mk (selectedAgent : ℕ) (shellTop : Option ℕ) (shellViewport : ℕ × ℕ) (composer : String)
      (pane : Pane) (mode : Mode) (notice : Option Notice) (shouldQuit : Bool) (errorScroll : ℕ) :
      Displays app { app with
        selectedAgent := selectedAgent
        shellTop := shellTop
        shellViewport := shellViewport
        composer := composer
        pane := pane
        mode := mode
        notice := notice
        shouldQuit := shouldQuit
        errorScroll := errorScroll }

/-- A key press changes the display, or it is a stop request. -/
def OnlyDisplays (app : App) (keyed : Keyed) : Prop :=
  Displays app keyed.2.1 ∨ keyed.2.1 = app.requestStop.2

theorem displays_showError (app : App) : Displays app app.showError := by
  unfold showError
  split_ifs <;> exact .mk ..

theorem displays_moveSelection (app : App) (delta : ℤ) : Displays app (app.moveSelection delta) := by
  unfold moveSelection
  split_ifs <;> exact .mk ..

theorem onlyDisplays_escOr {app otherwise : App} (stop : StopFlag) (h : Displays app otherwise) :
    OnlyDisplays app (escOr app stop otherwise) := by
  unfold escOr
  simp only
  split_ifs
  · exact Or.inr rfl
  · exact Or.inl h

theorem onlyDisplays_onComposingKey (app : App) (key : KeyEvent) (stop : StopFlag) :
    OnlyDisplays app (onComposingKey app key stop) := by
  unfold onComposingKey
  cases key.code with
  | esc => exact onlyDisplays_escOr stop (.mk ..)
  | char c =>
    simp only
    split_ifs <;> exact Or.inl (.mk ..)
  | enter =>
    simp only [onComposingEnter]
    split
    · split_ifs <;> exact Or.inl (.mk ..)
    · exact Or.inl (.mk ..)
  | _ => exact Or.inl (.mk ..)

theorem onlyDisplays_onBrowsingKey (app : App) (key : KeyEvent) (stop : StopFlag) :
    OnlyDisplays app (onBrowsingKey app key stop) := by
  unfold onBrowsingKey
  split
  case h_3 => exact Or.inl (displays_showError app)
  case h_6 | h_7 | h_8 | h_9 => exact Or.inl (displays_moveSelection app _)
  case h_10 => split_ifs <;> exact Or.inl (.mk ..)
  case h_12 => exact onlyDisplays_escOr stop (.mk ..)
  all_goals exact Or.inl (.mk ..)

/-- **A key press changes nothing but the display**, a stop request apart. -/
theorem onlyDisplays_onKey (app : App) (key : KeyEvent) (stop : StopFlag) :
    OnlyDisplays app (onKey exts app key stop) := by
  have hpaging {app' : App} (h : onPagingKey exts app key = some app') : Displays app app' := by
    unfold onPagingKey at h
    split_ifs at h
    split at h <;> cases h <;> exact .mk ..
  unfold onKey
  split_ifs
  · exact Or.inl (.mk ..)
  · split
    · exact Or.inl (.mk ..)
    · left
      unfold onErrorKey
      simp only
      split <;> exact .mk ..
    · split
      next h => exact Or.inl (hpaging h)
      next => exact onlyDisplays_onComposingKey app key stop
    · split
      next h => exact Or.inl (hpaging h)
      next => exact onlyDisplays_onBrowsingKey app key stop

/-- What no key press touches; what runs it touches with a stop request only. -/
structure Undisplayed (app app' : App) : Prop where
  lastError : app'.lastError = app.lastError
  brokerTrace : app'.brokerTrace = app.brokerTrace
  socketPath : app'.socketPath = app.socketPath
  credentialPath : app'.credentialPath = app.credentialPath
  running : (app'.busy = app.busy ∧ app'.transcript = app.transcript) ∨ app' = app.requestStop.2

theorem undisplayed_onKey (app : App) (key : KeyEvent) (stop : StopFlag) :
    Undisplayed app (onKey exts app key stop).2.1 := by
  have h := onlyDisplays_onKey exts app key stop
  unfold OnlyDisplays at h
  generalize (onKey exts app key stop).2.1 = app' at h ⊢
  rcases h with h | rfl
  · cases h
    exact ⟨rfl, rfl, rfl, rfl, Or.inl ⟨rfl, rfl⟩⟩
  · refine ⟨?_, ?_, ?_, ?_, Or.inr rfl⟩
    all_goals
      unfold requestStop
      split_ifs <;> rfl

/-! ## Hops -/

/-- A hop into an agent passes the local checks; `c₁` is the console under the
    profile it resolves, if there are profiles. -/
structure Hop (c : Console) (agent : AgentId) (c₁ : Console) : Prop where
  idle : c.app.busy = false
  highlighted : c.app.highlightedId exts = some agent
  /-- the fixed profile is not bound to another agent -/
  fixed : ∀ name, c.options.fixedProfile = some name →
    ∀ p ∈ c.options.profiles, p.name = name → p.agent = agent
  /-- without a fixed profile, at most one is bound to the agent -/
  single : c.options.fixedProfile = none →
    (c.options.profiles.filter fun p => p.agent == agent).length ≤ 1
  resolved : (∃ profile, pickProfile c.options.fixedProfile
      (c.options.profiles.filter fun p => p.agent == agent) = some profile ∧
        c₁ = applyProfile c profile) ∨
    (c.options.profiles = [] ∧ c₁ = c)

/-- When a hop is refused locally, and why. -/
inductive LocalRefusal (c : Console) : HopRefusal → Prop
  | busy (h : c.app.busy = true) : LocalRefusal c .busy
  | noAgents (h : c.app.highlightedId exts = none) : LocalRefusal c .noAgents
  | bound {agent : AgentId} {name : String} {p : OperatorProfile}
      (ha : c.app.highlightedId exts = some agent) (hn : c.options.fixedProfile = some name)
      (hp : p ∈ c.options.profiles) (hpn : p.name = name) (hpa : p.agent ≠ agent) :
      LocalRefusal c .bound
  | several {agent : AgentId} (ha : c.app.highlightedId exts = some agent)
      (hn : c.options.fixedProfile = none)
      (hs : 1 < (c.options.profiles.filter fun p => p.agent == agent).length) :
      LocalRefusal c (.several agent)
  | unauthored {agent : AgentId} (ha : c.app.highlightedId exts = some agent)
      (hne : c.options.profiles ≠ []) (hp : ∀ p ∈ c.options.profiles, p.agent ≠ agent) :
      LocalRefusal c (.unauthored agent)

/-- The checks of a hop refuse it, or resolve the console it opens its leg in. -/
theorem hopTarget_cases (c : Console) :
    (∃ refusal, LocalRefusal exts c refusal ∧
        hopTarget c.options c.app.busy (c.app.highlightedId exts) = .error refusal) ∨
      ∃ agent profile, Hop exts c agent (profile.elim c (applyProfile c)) ∧
        hopTarget c.options c.app.busy (c.app.highlightedId exts) = .ok (agent, profile) := by
  unfold hopTarget
  by_cases hb : c.app.busy
  · exact Or.inl ⟨_, .busy hb, if_pos hb⟩
  rw [if_neg hb]
  cases ha : c.app.highlightedId exts with
  | none => exact Or.inl ⟨_, .noAgents ha, rfl⟩
  | some agent =>
    simp only
    by_cases hf : (c.options.fixedProfile.any fun name =>
        c.options.profiles.any fun p => p.name == name && p.agent != agent) = true
    · obtain ⟨name, hn, hany⟩ := (Option.any_eq_true _ _).1 hf
      obtain ⟨p, hp, hpn⟩ := List.any_eq_true.1 hany
      simp only [Bool.and_eq_true, beq_iff_eq, bne_iff_ne] at hpn
      exact Or.inl ⟨_, .bound ha hn hp hpn.1 hpn.2, if_pos hf⟩
    rw [if_neg hf]
    by_cases hs : (c.options.profiles.filter fun p => p.agent == agent).length > 1 ∧
        c.options.fixedProfile.isNone
    · exact Or.inl ⟨_, .several ha (by simpa using hs.2) hs.1, if_pos hs⟩
    rw [if_neg hs]
    have hop (c₁ : Console) (h : (∃ profile, pickProfile c.options.fixedProfile
        (c.options.profiles.filter fun p => p.agent == agent) = some profile ∧
          c₁ = applyProfile c profile) ∨ (c.options.profiles = [] ∧ c₁ = c)) :
        Hop exts c agent c₁ := by
      refine ⟨by simpa using hb, ha, ?_, ?_, h⟩
      · intro name hn p hp hpn
        by_contra hne
        refine hf ?_
        rw [hn, Option.any_some, List.any_eq_true]
        exact ⟨p, hp, by simp [hpn, hne]⟩
      · intro hn
        rw [hn] at hs
        simpa using hs
    cases hp : pickProfile c.options.fixedProfile
        (c.options.profiles.filter fun p => p.agent == agent) with
    | some profile => exact Or.inr ⟨agent, some profile, hop _ (Or.inl ⟨profile, hp, rfl⟩), rfl⟩
    | none =>
      simp only
      by_cases he : c.options.profiles = []
      · exact Or.inr ⟨agent, none, hop c (Or.inr ⟨he, rfl⟩), if_neg (by simp [he])⟩
      · refine Or.inl ⟨_, .unauthored ha he ?_, if_pos (by simpa using he)⟩
        intro p hm hpa
        -- a profile of the agent would have been picked
        have hmem : p ∈ c.options.profiles.filter fun p => p.agent == agent :=
          List.mem_filter.2 ⟨hm, by simpa using hpa⟩
        rw [List.head?_eq_none_iff.1 (Option.or_eq_none_iff.1 hp).2] at hmem
        cases hmem

/-- A hop is refused, or opens its leg under the resolved profile. -/
theorem dispatchEnter_cases (answers : Answers) (c : Console) :
    (∃ refusal, LocalRefusal exts c refusal ∧
        dispatchEnter exts answers c = (c.refuse refusal.text, [])) ∨
      ∃ agent c₁, Hop exts c agent c₁ ∧
        dispatchEnter exts answers c = openHop exts answers c₁ agent := by
  unfold dispatchEnter
  rcases hopTarget_cases exts c with ⟨refusal, h, ht⟩ | ⟨agent, profile, hop, ht⟩
  · rw [ht]
    exact Or.inl ⟨refusal, h, rfl⟩
  · rw [ht]
    exact Or.inr ⟨agent, _, hop, rfl⟩

/-- What a hop leaves: its leg refused in the prepared state, or entered with the
    inventory made for it. -/
inductive Hopped (c₁ : Console) (agent : AgentId) : App → Prop
  | refused (report : ErrorReport) : Hopped c₁ agent ((prepareHop exts c₁).app.raise report)
  | entered (leg : BrokerLeg) (hs : leg.store = c₁.stores.length)
      (ha : leg.attestation = attestationOf (prepareHop exts c₁).options.subject agent
        (prepareHop exts c₁).options.scope) :
      Hopped c₁ agent { (prepareHop exts c₁).app.enter (.new agent leg) with
        assets := some c₁.stores.length }

theorem openHop_cases (answers : Answers) (c₁ : Console) (agent : AgentId) :
    ∃ app, Hopped exts c₁ agent app ∧ openHop exts answers c₁ agent =
      ({ prepareHop exts c₁ with app := app },
        [.openLeg (attestationOf (prepareHop exts c₁).options.subject agent
          (prepareHop exts c₁).options.scope) c₁.stores.length]) := by
  unfold openHop openAgentWithAssets
  cases answers.leg with
  | error error => exact ⟨_, .refused _, rfl⟩
  | ok surface =>
    simp only
    split_ifs
    · exact ⟨_, .refused _, rfl⟩
    · exact ⟨_, .entered _ rfl rfl, rfl⟩

/-! ## Turns and commands -/

/-- A leg is asked for the open session, over its inventory. -/
def SessionLeg (c : Console) (calls : List BrokerCall) : Prop :=
  ∃ session store, c.app.session = some session ∧ c.app.assets = some store ∧
    calls = [.openLeg (attestationOf c.options.subject session.agent c.options.scope) store]

/-- The state a spawned task leaves, for some trace in the header. -/
def Spawned (c : Console) (task : CancelId → History → Task) (c' : Console) : Prop :=
  ∃ trace, c' = spawn { c with app := { c.app with brokerTrace := trace } } task

/-- The broker grants a turn a leg with capabilities, and its model is built. -/
def Answers.Granted (answers : Answers) : Prop :=
  (∃ surface, answers.leg = .ok surface ∧ surface.effective ≠ []) ∧ answers.model = .ok ()

/-- A turn: nothing without a session, refused, or spawned on a leg of its own. -/
theorem dispatchTurn_cases (answers : Answers) (c : Console) (prompt : String) :
    ((c.app.session = none ∨ c.app.assets = none) ∧
        dispatchTurn exts answers c prompt = (c, [])) ∨
      (SessionLeg c (dispatchTurn exts answers c prompt).2 ∧
        ((¬answers.Granted ∧ ∃ trace report, (dispatchTurn exts answers c prompt).1 =
            { c with app := refuseTurn { c.app with brokerTrace := trace } report }) ∨
          answers.Granted ∧ ∃ leg instructions agent, some leg.store = c.app.assets ∧
            Spawned c (fun handle history =>
                .turn prompt leg handle instructions agent c.options history)
              (dispatchTurn exts answers c prompt).1)) := by
  unfold dispatchTurn openAgentWithAssets
  cases hs : c.app.session with
  | none => exact Or.inl ⟨Or.inl rfl, rfl⟩
  | some session =>
    cases ha : c.app.assets with
    | none => exact Or.inl ⟨Or.inr rfl, rfl⟩
    | some store =>
      right
      have hleg (c' : Console) : SessionLeg c (c', [BrokerCall.openLeg (attestationOf
          c.options.subject session.agent c.options.scope) store]).2 :=
        ⟨session, store, hs, ha, rfl⟩
      unfold Answers.Granted
      cases answers.leg with
      | error error => exact ⟨hleg c, Or.inl ⟨by simp, c.app.brokerTrace, _, rfl⟩⟩
      | ok surface =>
        simp only
        split_ifs with he
        · have hempty : surface.effective = [] := List.isEmpty_iff.1 he
          exact ⟨hleg c, Or.inl ⟨by simp [hempty], c.app.brokerTrace, _, rfl⟩⟩
        · have hsome : surface.effective ≠ [] := fun h => he (List.isEmpty_iff.2 h)
          cases answers.model with
          | error error => exact ⟨hleg c, Or.inl ⟨by simp, _, _, rfl⟩⟩
          | ok =>
            exact ⟨hleg c, Or.inr ⟨⟨⟨surface, rfl, hsome⟩, rfl⟩,
              ⟨_, store, surface⟩, _, _, rfl, _, rfl⟩⟩

/-- A synthetic turn is recorded through the open session, in the reserved scope. -/
def SmokeRecord (c : Console) (calls : List BrokerCall) : Prop :=
  c.options.smokeConversation = true ∧ ∃ session turn, c.app.session = some session ∧
    calls = [.recordDeliveredTurn
      ((Attestation.forChat c.options.subject session.agent smokeClaim).boundTo turn.id) turn]

/-- **What a command line can do.** -/
inductive ShellEffect (c : Console) (line : String) : Console → List BrokerCall → Prop
  /-- refused with a notice -/
  | refused (text : String) : ShellEffect c line (c.refuse text) []
  /-- nothing is done for want of an inventory -/
  | missing (h : c.app.session.isSome ∧ c.app.assets = none) (app : App)
      (ha : app = c.app ∨ app = c.app.startShell line) :
      ShellEffect c line { c with app := app } []
  /-- a local command: its entry is complete at once -/
  | completed (hb : c.app.busy = false) (identity : Option SmokeIdentity) (stores : List Inventory)
      (hl : stores.length = c.stores.length) (input output : String) (exitCode : ℕ)
      (hi : input = line ∨ input = assetLabel)
      (calls : List BrokerCall) (hc : calls = [] ∨ SmokeRecord c calls) :
      ShellEffect c line
        (completeLocally { c with identity := identity, stores := stores } input output exitCode)
        calls
  /-- a script whose leg was refused: its entry fails at once -/
  | failed (hb : c.app.busy = false) (report : ErrorReport) (calls : List BrokerCall)
      (hl : SessionLeg c calls) :
      ShellEffect c line
        { c with app := { (c.app.startShell line).failShell exts report with busy := false } } calls
  /-- a script under way -/
  | spawned (hb : c.app.busy = false) (leg : BrokerLeg) (hs : some leg.store = c.app.assets)
      (calls : List BrokerCall) (hl : SessionLeg c calls) (c' : Console)
      (h : Spawned { c with app := c.app.startShell line }
        (fun handle history => .shell line leg handle history) c') :
      ShellEffect c line c' calls

section
variable (answers : Answers) (c : Console) (line : String)

theorem dispatchSmoke_effect {session : AgentSession} (hs : c.app.session = some session)
    (hb : c.app.busy = false) (text : String) :
    ShellEffect exts c line (dispatchSmoke exts answers c session.agent line text).1
      (dispatchSmoke exts answers c session.agent line text).2 := by
  unfold dispatchSmoke
  split_ifs with hsmoke
  · exact .refused _
  split
  · exact .refused _
  next quoted _ =>
    split_ifs
    · simp only [smokeRecord]
      have hrecord (turn : DeliveredTurnRequest) : SmokeRecord c [.recordDeliveredTurn
          ((Attestation.forChat c.options.subject session.agent smokeClaim).boundTo turn.id) turn] :=
        ⟨by simpa using hsmoke, session, turn, hs, rfl⟩
      cases answers.record with
      | ok result => exact .completed hb _ _ rfl _ _ _ (Or.inl rfl) _ (Or.inr (hrecord _))
      | error error => exact .completed hb _ _ rfl _ _ _ (Or.inl rfl) _ (Or.inr (hrecord _))
    · exact .completed hb c.identity c.stores rfl _ _ _ (Or.inl rfl) _ (Or.inl rfl)

theorem dispatchAsset_effect (hs : c.app.session.isSome) (hb : c.app.busy = false)
    (command : String) :
    ShellEffect exts c line (dispatchAsset exts answers c command).1
      (dispatchAsset exts answers c command).2 := by
  unfold dispatchAsset
  cases ha : c.app.assets with
  | none => exact .missing ⟨hs, ha⟩ c.app (Or.inl rfl)
  | some store =>
    simp only
    split
    · exact .completed hb c.identity _ List.length_set _ _ _ (Or.inr rfl) _ (Or.inl rfl)
    · exact .completed hb c.identity _ List.length_set _ _ _ (Or.inr rfl) _ (Or.inl rfl)

theorem dispatchScript_effect {session : AgentSession} (hs : c.app.session = some session)
    (hb : c.app.busy = false) :
    ShellEffect exts c line (dispatchScript exts answers c session.agent line).1
      (dispatchScript exts answers c session.agent line).2 := by
  have ha : (c.app.startShell line).assets = c.app.assets := rfl
  unfold dispatchScript openAgentWithAssets
  dsimp only
  split
  next hn => exact .missing ⟨by simp [hs], ha ▸ hn⟩ _ (Or.inr rfl)
  next store hstore =>
    rw [ha] at hstore
    have hleg : SessionLeg c [BrokerCall.openLeg (attestationOf c.options.subject session.agent
        c.options.scope) store] := ⟨session, store, hs, hstore, rfl⟩
    cases answers.leg with
    | error error => exact .failed hb _ _ hleg
    | ok surface =>
      simp only
      split_ifs
      · exact .failed hb _ _ hleg
      · exact .spawned hb ⟨_, store, surface⟩ hstore.symm _ hleg _ ⟨_, rfl⟩

theorem dispatchShell_effect :
    ShellEffect exts c line (dispatchShell exts answers c line).1
      (dispatchShell exts answers c line).2 := by
  unfold dispatchShell
  cases hs : c.app.session with
  | none => exact .refused _
  | some session =>
    dsimp only
    by_cases hb : c.app.busy
    · rw [if_pos hb]
      exact .refused _
    rw [if_neg hb]
    rw [Bool.not_eq_true] at hb
    split
    · exact dispatchSmoke_effect exts answers c line hs hb _
    split
    · exact .refused _
    split
    · exact dispatchAsset_effect exts answers c line (by simp [hs]) hb _
    split
    · exact .refused _
    · exact dispatchScript_effect exts answers c line hs hb

end

/-! ## The task in flight -/

theorem sameContext_onEvent (app : App) (event : SessionEvent) :
    App.SameContext app (onEvent app event) := by
  unfold onEvent
  split
  · exact (quiet_setNotice app _).context
  · exact sameContext_modifyPending app _
  · exact sameContext_onSessionEvent app _

theorem marks_onEvent (app : App) (event : SessionEvent) : (onEvent app event).marks = app.marks := by
  unfold onEvent
  split
  · exact (quiet_setNotice app _).marks
  · exact marks_eq (transcript_modifyPending app _)
  · exact marks_onSessionEvent app _

/-- The application once a joined task's failure is reported. -/
def reportJoined (shell : Bool) (joined : Joined) (app : App) : App :=
  match joinedReport shell joined with
  | none => app
  | some report => if shell then app.failShell exts report else app.raise (app.report exts report)

/-- The application once a shell task left no entry pending. -/
def settleShell (app : App) : App :=
  if app.shellHistory.getLast?.any fun entry => entry.exitCode.isNone then
    app.failShell exts (.fromMessage "run shell command" "shell ended without reporting an outcome")
  else app

/-- The history after a join: what was returned, or what the loop has. -/
def joinedHistory (joined : Joined) (history : History) : History :=
  match joined with
  | .returned returned => returned
  | _ => history

/-- What `settleTurn` leaves, field by field. -/
theorem settleTurn_eq (shell : Bool) (joined : Joined) (c : Console) :
    settleTurn exts shell joined c = { c with
      history := joinedHistory joined c.history
      stop := .default
      app :=
        if shell then { settleShell exts (reportJoined exts shell joined c.app) with busy := false }
        else (reportJoined exts shell joined c.app).onSessionComplete
          (joinedHistory joined c.history).len } := by
  cases shell <;> cases joined <;> rfl

theorem sameContext_reportJoined (shell : Bool) (joined : Joined) (app : App) :
    App.SameContext app (reportJoined exts shell joined app) := by
  unfold reportJoined
  cases joinedReport shell joined with
  | none => exact .refl app
  | some report =>
    cases shell with
    | true => exact sameContext_failShell exts app report
    | false => exact (quiet_raise app _).context

/-- What is reported of a join leaves the transcript. -/
theorem transcript_reportJoined (shell : Bool) (joined : Joined) (app : App) :
    (reportJoined exts shell joined app).transcript = app.transcript := by
  unfold reportJoined
  cases joinedReport shell joined with
  | none => rfl
  | some report =>
    cases shell with
    | true => exact transcript_failShell exts app report
    | false => exact transcript_raise app _

theorem transcript_settleShell (app : App) :
    (settleShell exts app).transcript = app.transcript := by
  unfold settleShell
  split_ifs
  · exact transcript_failShell exts app _
  · rfl

theorem sameContext_settleShell (app : App) : App.SameContext app (settleShell exts app) := by
  unfold settleShell
  split_ifs
  · exact sameContext_failShell exts app _
  · exact .refl app

theorem sameContext_busy (app : App) (busy : Bool) :
    App.SameContext app { app with busy := busy } := by
  constructor <;> rfl

/-! ## The context over one pass of the loop -/

/-- The open context, the options and the number of inventories stay. -/
structure Console.SameContext (c c' : Console) : Prop where
  app : App.SameContext c.app c'.app
  options : c'.options = c.options
  stores : c'.stores.length = c.stores.length

theorem Console.SameContext.refl (c : Console) : c.SameContext c := ⟨.refl _, rfl, rfl⟩

theorem Console.SameContext.trans {c c' c'' : Console} (h : c.SameContext c')
    (h' : c'.SameContext c'') : c.SameContext c'' :=
  ⟨h.app.trans h'.app, h'.options.trans h.options, h'.stores.trans h.stores⟩

theorem sameContext_settleTurn (shell : Bool) (joined : Joined) (c : Console) :
    c.SameContext (settleTurn exts shell joined c) := by
  have hr := sameContext_reportJoined exts shell joined c.app
  rw [settleTurn_eq]
  refine ⟨?_, rfl, rfl⟩
  cases shell with
  | true => exact hr.trans ((sameContext_settleShell exts _).trans (sameContext_busy _ false))
  | false => exact hr.trans (sameContext_onSessionComplete _ _)

theorem Spawned.sameContext {c c' : Console} {task : CancelId → History → Task}
    (h : Spawned c task c') : c.SameContext c' := by
  obtain ⟨trace, rfl⟩ := h
  exact ⟨by constructor <;> rfl, rfl, rfl⟩

theorem sameContext_startShell (app : App) (line : String) :
    App.SameContext app (app.startShell line) := by
  constructor <;> rfl

theorem sameContext_completeLocally (c : Console) (input output : String) (exitCode : ℕ) :
    c.SameContext (completeLocally c input output exitCode) :=
  ⟨(sameContext_startShell c.app input).trans
    ((sameContext_modifyPending _ _).trans (sameContext_busy _ false)), rfl, rfl⟩

theorem sameContext_dispatchTurn (answers : Answers) (c : Console) (prompt : String) :
    c.SameContext (dispatchTurn exts answers c prompt).1 ∧
      ((dispatchTurn exts answers c prompt).2 = [] ∨
        SessionLeg c (dispatchTurn exts answers c prompt).2) := by
  rcases dispatchTurn_cases exts answers c prompt with ⟨-, h⟩ | ⟨hl, ⟨-, trace, report, h⟩ | ⟨-, h⟩⟩
  · rw [h]
    exact ⟨.refl c, Or.inl rfl⟩
  · refine ⟨?_, Or.inr hl⟩
    rw [h]
    refine ⟨?_, rfl, rfl⟩
    have htrace : App.SameContext c.app { c.app with brokerTrace := trace } := by
      constructor <;> rfl
    exact htrace.trans ((sameContext_onSessionEvent _ _).trans (quiet_raise _ _).context)
  · obtain ⟨leg, instructions, agent, -, h⟩ := h
    exact ⟨h.sameContext, Or.inr hl⟩

theorem ShellEffect.sameContext {c c' : Console} {line : String} {calls : List BrokerCall}
    (h : ShellEffect exts c line c' calls) :
    c.SameContext c' ∧ (calls = [] ∨ SessionLeg c calls ∨ SmokeRecord c calls) := by
  cases h with
  | refused text => exact ⟨⟨by constructor <;> rfl, rfl, rfl⟩, Or.inl rfl⟩
  | missing h app ha =>
    refine ⟨⟨?_, rfl, rfl⟩, Or.inl rfl⟩
    rcases ha with rfl | rfl
    · exact .refl _
    · exact sameContext_startShell _ _
  | completed hb identity stores hl input output exitCode hi calls hc =>
    have h : c.SameContext { c with identity := identity, stores := stores } := ⟨.refl _, rfl, hl⟩
    exact ⟨h.trans (sameContext_completeLocally _ input output exitCode),
      hc.imp_right Or.inr⟩
  | failed hb report calls hl =>
    exact ⟨⟨(sameContext_startShell c.app line).trans
      ((sameContext_failShell exts _ report).trans (sameContext_busy _ false)), rfl, rfl⟩,
      Or.inr (Or.inl hl)⟩
  | spawned hb leg hs calls hl c' h =>
    have h₀ : c.SameContext { c with app := c.app.startShell line } :=
      ⟨sameContext_startShell c.app line, rfl, rfl⟩
    exact ⟨h₀.trans h.sameContext, Or.inr (Or.inl hl)⟩

/-- What leaves the context, with the requests it makes for the open session. -/
structure Stays (c : Console) (d : Dispatched) : Prop where
  context : c.SameContext d.1
  calls : d.2 = [] ∨ SessionLeg c d.2 ∨ SmokeRecord c d.2

/-- A hop out of a state with the same context. -/
def Hops (c : Console) (d : Dispatched) : Prop :=
  ∃ c₀ agent c₁ app, c.SameContext c₀ ∧ Hop exts c₀ agent c₁ ∧ Hopped exts c₁ agent app ∧
    d = ({ prepareHop exts c₁ with app := app },
      [.openLeg (attestationOf (prepareHop exts c₁).options.subject agent
        (prepareHop exts c₁).options.scope) c₁.stores.length])

theorem SessionLeg.of_sameContext {c c' : Console} {calls : List BrokerCall}
    (h : c.SameContext c') (hl : SessionLeg c' calls) : SessionLeg c calls := by
  obtain ⟨session, store, hs, ha, hcalls⟩ := hl
  rw [h.options] at hcalls
  exact ⟨session, store, h.app.session ▸ hs, h.app.assets ▸ ha, hcalls⟩

theorem SmokeRecord.of_sameContext {c c' : Console} {calls : List BrokerCall}
    (h : c.SameContext c') (hl : SmokeRecord c' calls) : SmokeRecord c calls := by
  obtain ⟨hsmoke, session, turn, hs, hcalls⟩ := hl
  rw [h.options] at hsmoke hcalls
  exact ⟨hsmoke, session, turn, h.app.session ▸ hs, hcalls⟩

theorem Stays.of_sameContext {c c' : Console} {d : Dispatched} (h : c.SameContext c')
    (hd : Stays c' d) : Stays c d :=
  ⟨h.trans hd.context, hd.calls.imp_right
    (Or.imp (SessionLeg.of_sameContext h) (SmokeRecord.of_sameContext h))⟩

/-- A dispatched action leaves the context, or it is a hop. -/
theorem dispatch_cases (answers : Answers) (c : Console) (action : Action) :
    (Stays c (dispatch exts answers c action) ∧
        (action = .enter → (dispatch exts answers c action).2 = [])) ∨
      (action = .enter ∧ Hops exts c (dispatch exts answers c action)) := by
  cases action with
  | enter =>
    rcases dispatchEnter_cases exts answers c with ⟨text, -, h⟩ | ⟨agent, c₁, hop, h⟩
    · rw [dispatch, h]
      exact Or.inl ⟨⟨⟨by constructor <;> rfl, rfl, rfl⟩, Or.inl rfl⟩, fun _ => rfl⟩
    · obtain ⟨app, happ, ho⟩ := openHop_cases exts answers c₁ agent
      exact Or.inr ⟨rfl, c, agent, c₁, app, .refl c, hop, happ, h.trans ho⟩
  | turn prompt =>
    obtain ⟨hs, hc⟩ := sameContext_dispatchTurn exts answers c prompt
    exact Or.inl ⟨⟨hs, hc.imp_right Or.inl⟩, fun h => by cases h⟩
  | shell line =>
    obtain ⟨hs, hc⟩ := (dispatchShell_effect exts answers c line).sameContext
    exact Or.inl ⟨⟨hs, hc⟩, fun h => by cases h⟩

/-- The action that one pass of the loop dispatches, if any. -/
def performed (c : Console) : Label → Option Action
  | .key key _ => (onKey exts c.app key c.stop).1
  | .action action _ => some action
  | .submitTurn _ => c.app.submitTurn.1.map Action.turn
  | _ => none

/-- **Every pass of the loop leaves the context as it is, or is a hop.** -/
theorem react_cases (c : Console) (l : Label) :
    (Stays c (react exts c l) ∧ (performed exts c l = some .enter → (react exts c l).2 = [])) ∨
      (performed exts c l = some .enter ∧ Hops exts c (react exts c l)) := by
  have hquiet (c' : Console) (h : c.SameContext c') : Stays c (c', []) := ⟨h, Or.inl rfl⟩
  have hlater (c' : Console) (h : c.SameContext c') (answers : Answers) (action : Action) :
      (Stays c (dispatch exts answers c' action) ∧
          (action = .enter → (dispatch exts answers c' action).2 = [])) ∨
        (action = .enter ∧ Hops exts c (dispatch exts answers c' action)) := by
    rcases dispatch_cases exts answers c' action with ⟨hd, he⟩ | ⟨he, c₀, agent, c₁, app, hc, hd⟩
    · exact Or.inl ⟨hd.of_sameContext h, he⟩
    · exact Or.inr ⟨he, c₀, agent, c₁, app, h.trans hc, hd⟩
  cases l with
  | key key answers =>
    have hk := keyEffect_onKey exts c.app key c.stop
    simp only [react, performed]
    generalize onKey exts c.app key c.stop = keyed at hk
    obtain ⟨action, app, stop⟩ := keyed
    have hc : c.SameContext { c with app := app, stop := stop } := ⟨hk.quiet.context, rfl, rfl⟩
    cases action with
    | none => exact Or.inl ⟨hquiet _ hc, fun h => by cases h⟩
    | some action => simpa only [Option.some.injEq] using hlater _ hc answers action
  | action action answers =>
    simpa only [react, performed, Option.some.injEq] using hlater c (.refl c) answers action
  | submitTurn answers =>
    have hsub := submitTurn_cases c.app
    simp only [react, performed]
    generalize c.app.submitTurn = submitted at hsub
    obtain ⟨prompt, app⟩ := submitted
    have hc : c.SameContext { c with app := app } := by
      rcases hsub with ⟨-, h⟩ | ⟨_, _, -, -, -, h, -⟩
      · exact ⟨h.context, rfl, rfl⟩
      · exact ⟨h, rfl, rfl⟩
    cases prompt with
    | none => exact Or.inl ⟨hquiet _ hc, fun h => by cases h⟩
    | some prompt =>
      simpa only [Option.map_some, Option.some.injEq] using hlater _ hc answers (.turn prompt)
  | event event =>
    exact Or.inl ⟨hquiet _ ⟨sameContext_onEvent c.app event, rfl, rfl⟩, fun _ => rfl⟩
  | close joined =>
    refine Or.inl ⟨hquiet _ ?_, fun _ => rfl⟩
    unfold finishTurn
    cases c.running with
    | none => exact .refl c
    | some turn =>
      have h : c.SameContext { c with running := none } := ⟨.refl _, rfl, rfl⟩
      exact h.trans (sameContext_settleTurn exts _ _ _)
  | intake intake =>
    left
    simp only [react]
    cases c.running with
    | none => exact ⟨hquiet _ (.refl c), fun _ => rfl⟩
    | some turn => exact ⟨hquiet _ ⟨.refl _, rfl, List.length_set⟩, fun _ => rfl⟩
  | resize width height =>
    exact Or.inl ⟨hquiet _ ⟨by constructor <;> rfl, rfl, rfl⟩, fun _ => rfl⟩

end DekoponConsole
