/-
  Whose credential a turn spends.

  * `buildModel_ok` and `buildModel_error`: the client that is built, and what it can fail
    of once the console has started;
  * `Placed`: the console's socket and credential are those that startup resolved, over
    every run;
  * `spends_what_it_shows`: the model and the credential of a turn are those on screen, and
    never the shared credential file unless it was named; the socket is the one that every
    report names.
-/
import DekoponConsole.Backend
import DekoponConsole.Draw
import DekoponConsole.Proof.Header

namespace DekoponConsole

open App

variable {exts : Externals} {launch : Launch} {cli : Cli} {app : App} {options : ConsoleOptions}
  {machine : Machine}

/-! ## The client -/

/-- The model of a client. -/
def ModelClient.model : ModelClient → String
  | .codex model _ | .openAiCompatible _ model _ => model

/-- Where a client spends: its credential file or its endpoint. -/
def ModelClient.place : ModelClient → String
  | .codex _ credential => credential
  | .openAiCompatible endpoint _ _ => endpoint

/-- A credential file that the console may spend: one that was named, or one that is not
    the shared one. -/
def OwnCredential (machine : Machine) (authFile : Option String) (path : String) : Prop :=
  authFile.isSome ∨ ∃ shared, machine.resolveAuthPathNamed none machine.defaultAuthFileName =
    .ok shared ∧ pathComponents path ≠ pathComponents shared

/-- The bearer token is that of the named variable, which is set and not empty. -/
def OwnBearer (machine : Machine) (apiKeyEnv bearer : Option String) : Prop :=
  (apiKeyEnv = none ∧ bearer = none) ∨
    ∃ name value, apiKeyEnv = some name ∧ bearer = some value ∧ machine.envVar name = some value ∧
      value ≠ ""

theorem mapError_eq_ok {ε ε' α : Type} {f : ε → ε'} {x : Except ε α} {a : α} :
    x.mapError f = .ok a ↔ x = .ok a := by
  cases x <;> simp [Except.mapError]

theorem resolveConsoleCredential_ok {authFile : Option String} {path : String}
    (h : resolveConsoleCredential machine authFile = .ok path) :
    OwnCredential machine authFile path := by
  obtain ⟨resolved, hr, h⟩ := bind_eq_ok h
  obtain ⟨shared, hs, h⟩ := bind_eq_ok h
  have hshared := mapError_eq_ok.1 hs
  unfold guardSharedCredential at h
  split_ifs at h with hguard
  obtain rfl := Except.ok.inj h
  cases hname : authFile with
  | some name => exact Or.inl rfl
  | none =>
    refine Or.inr ⟨shared, hshared, fun heq => hguard ?_⟩
    simp [hname, samePath, heq]

theorem bearerToken_ok {apiKeyEnv bearer : Option String}
    (h : bearerToken machine apiKeyEnv = .ok bearer) : OwnBearer machine apiKeyEnv bearer := by
  unfold bearerToken at h
  cases apiKeyEnv with
  | none => exact Or.inl ⟨rfl, (Except.ok.inj h).symm⟩
  | some name =>
    dsimp only at h
    split at h
    next value hvalue =>
      obtain ⟨hset, hne⟩ := Option.filter_eq_some_iff.1 hvalue
      exact Or.inr ⟨name, value, rfl, (Except.ok.inj h).symm, hset, by simpa using hne⟩
    next => cases h

/-- Why no client is built: its own constructor refuses the model of the header and the
    credential on screen, or an endpoint the bearer token of its variable, or that variable is
    absent or empty. -/
inductive ClientRefusal (machine : Machine) (clients : Clients) (cli : Cli) (app : App) :
    SessionError → Prop
  | codex {error : DynError} (he : cli.endpoint = none)
      (ho : OwnCredential machine cli.authFile app.credentialPath)
      (h : clients.codex app.model app.credentialPath = .error error) :
      ClientRefusal machine clients cli app (.chatGpt error)
  | openAi {bearer : Option String} {error : DynError}
      (he : cli.endpoint = some app.credentialPath) (hb : OwnBearer machine cli.apiKeyEnv bearer)
      (h : clients.openAi app.credentialPath app.model bearer = .error error) :
      ClientRefusal machine clients cli app (.model error)
  | missingApiKey {name : String} (he : cli.endpoint = some app.credentialPath)
      (hn : cli.apiKeyEnv = some name)
      (hv : ∀ value, machine.envVar name = some value → value = "") :
      ClientRefusal machine clients cli app (.missingApiKey name)

theorem bearerToken_error {clients : Clients} {error : SessionError}
    (he : cli.endpoint = some app.credentialPath)
    (h : bearerToken machine cli.apiKeyEnv = .error error) :
    ClientRefusal machine clients cli app error := by
  unfold bearerToken at h
  cases hn : cli.apiKeyEnv with
  | none =>
    rw [hn] at h
    cases h
  | some name =>
    rw [hn] at h
    dsimp only at h
    split at h
    next => cases h
    next hvalue =>
      obtain rfl := Except.error.inj h
      refine .missingApiKey he hn fun value hset => ?_
      simpa using Option.filter_eq_none_iff.1 hvalue value hset

/-- What a client spends is what is on screen, and the console's own. -/
structure Spends (machine : Machine) (cli : Cli) (app : App) (client : ModelClient) : Prop where
  model : client.model = app.model
  place : client.place = app.credentialPath
  drawn : .paragraph [[app.subject ++ " · " ++ Chrome.credentialLabel client.place]] ∈
    Chrome.drawStatus app
  codex : ∀ model path, client = .codex model path →
    cli.endpoint = none ∧ OwnCredential machine cli.authFile path
  openAi : ∀ endpoint model bearer, client = .openAiCompatible endpoint model bearer →
    cli.endpoint = some endpoint ∧ OwnBearer machine cli.apiKeyEnv bearer

/-- Every report names the console's socket. -/
theorem socket_mem_report (exts : Externals) (app : App) (report : ErrorReport) :
    ("broker socket", app.socketPath) ∈ (app.report exts report).context := by
  unfold App.report
  cases app.brokerTrace <;> simp [ErrorReport.withFact]

/-! ## Startup -/

/-- What startup resolves on the machine. -/
structure Placed (machine : Machine) (cli : Cli) (c : Console) : Prop where
  socket : ∃ tier, connect machine cli.socket cli.serverUid = .ok (c.app.socketPath, tier)
  choice : c.options.modelChoice = match cli.endpoint with
    | some endpoint => .openAiCompatible endpoint cli.apiKeyEnv
    | none => .chatGptSubscription cli.authFile
  credential : match cli.endpoint with
    | some endpoint => c.app.credentialPath = endpoint
    | none => resolveConsoleCredential machine cli.authFile = .ok c.app.credentialPath

theorem placed_start (h : execute exts launch cli = .ok (app, options))
    (hm : launch.On machine cli) : Placed machine cli (Console.start app options) := by
  unfold execute at h
  obtain ⟨document, -, h⟩ := bind_eq_ok h
  obtain ⟨_, -, h⟩ := bind_eq_ok h
  obtain ⟨catalog, -, h⟩ := bind_eq_ok h
  obtain ⟨_, -, h⟩ := bind_eq_ok h
  dsimp only at h
  split at h
  · cases h
  next subject hsubject =>
    obtain ⟨_, -, h⟩ := bind_eq_ok h
    split at h
    · cases h
    have hsocket {path : String} (hb : launch.broker.mapError ConsoleError.session = .ok path) :
        ∃ tier, connect machine cli.socket cli.serverUid = .ok (path, tier) := by
      rw [mapError_eq_ok, hm.broker] at hb
      cases hc : connect machine cli.socket cli.serverUid with
      | error error => rw [hc] at hb; cases hb
      | ok resolved =>
        rw [hc] at hb
        obtain rfl := Except.ok.inj hb
        exact ⟨resolved.2, rfl⟩
    cases he : cli.endpoint with
    | none =>
      simp only [startOptions, he] at h
      obtain ⟨credential, hcred, h⟩ := bind_eq_ok h
      obtain ⟨socket, hb, h⟩ := bind_eq_ok h
      obtain ⟨rfl, rfl⟩ := Prod.mk.inj (Except.ok.inj h)
      rw [mapError_eq_ok, hm.credential] at hcred
      refine ⟨hsocket hb, ?_, ?_⟩ <;> rw [he]
      · rfl
      · exact hcred
    | some endpoint =>
      simp only [startOptions, he] at h
      obtain ⟨credential, hcred, h⟩ := bind_eq_ok h
      obtain ⟨socket, hb, h⟩ := bind_eq_ok h
      obtain ⟨rfl, rfl⟩ := Prod.mk.inj (Except.ok.inj h)
      obtain rfl := Except.ok.inj hcred
      refine ⟨hsocket hb, ?_, ?_⟩ <;> rw [he]
      · rfl
      · rfl

/-! ## Every run -/

/-- The socket and the credential are the same. -/
structure SamePaths (app app' : App) : Prop where
  socketPath : app'.socketPath = app.socketPath
  credentialPath : app'.credentialPath = app.credentialPath

/-- No pass changes the paths. -/
theorem samePaths_step (exts : Externals) (c : Console) (l : Label) :
    SamePaths c.app (step exts c l).app := by
  rcases sameDesk_step exts c l with ⟨key, answers, rfl, hd⟩ | ⟨width, height, rfl⟩ | hd
  · have hk := undisplayed_onKey exts c.app key c.stop
    exact ⟨hd.socketPath.trans hk.socketPath, hd.credentialPath.trans hk.credentialPath⟩
  · exact ⟨rfl, rfl⟩
  · exact ⟨hd.socketPath, hd.credentialPath⟩

theorem ResolvedFrom.modelChoice {o o' : ConsoleOptions} (h : ResolvedFrom o o') :
    o'.modelChoice = o.modelChoice := by
  rcases h with rfl | ⟨p, -, rfl⟩ <;> rfl

theorem placed_step {c : Console} (h : Placed machine cli c)
    (l : Label) (hc : (step exts c l).options.modelChoice = c.options.modelChoice) :
    Placed machine cli (step exts c l) := by
  have hp := samePaths_step exts c l
  exact ⟨hp.socketPath ▸ h.socket, hc.trans h.choice, hp.credentialPath ▸ h.credential⟩

/-- The client that is built, or why none is, where startup found credential and choice. -/
theorem buildModel_spends {c : Console} (hp : Placed machine cli c)
    (hmodel : c.app.model = c.options.model) (clients : Clients) :
    match buildModel machine clients c.options with
    | .ok client => Spends machine cli c.app client
    | .error error => ClientRefusal machine clients cli c.app error := by
  have hchoice := hp.choice
  have hcred := hp.credential
  unfold buildModel
  rw [hchoice]
  cases he : cli.endpoint with
  | none =>
    rw [he] at hcred
    dsimp only at hcred ⊢
    rw [hcred]
    cases hclient : clients.codex c.options.model c.app.credentialPath with
    | error error =>
      simp only [bind, Except.bind, hclient, Except.mapError]
      exact .codex he (resolveConsoleCredential_ok hcred) (hmodel ▸ hclient)
    | ok =>
      simp only [bind, Except.bind, hclient, Except.mapError]
      refine ⟨hmodel.symm, rfl, by simp [Chrome.drawStatus, ModelClient.place], ?_,
        fun endpoint model bearer h => (by cases h)⟩
      intro model path h
      obtain ⟨rfl, rfl⟩ := ModelClient.codex.inj h
      exact ⟨he, resolveConsoleCredential_ok hcred⟩
  | some endpoint =>
    rw [he] at hcred
    dsimp only at hcred ⊢
    have hendpoint : cli.endpoint = some c.app.credentialPath := by rw [he, hcred]
    cases hb : bearerToken machine cli.apiKeyEnv with
    | error error => exact bearerToken_error hendpoint hb
    | ok bearer =>
      cases hclient : clients.openAi endpoint c.options.model bearer with
      | error error =>
        simp only [bind, Except.bind, hclient, Except.mapError]
        refine .openAi hendpoint (bearerToken_ok hb) ?_
        rw [hcred, hmodel]
        exact hclient
      | ok =>
        simp only [bind, Except.bind, hclient, Except.mapError]
        refine ⟨hmodel.symm, hcred.symm, by simp [Chrome.drawStatus, ModelClient.place, hcred],
          fun model path h => (by cases h), ?_⟩
        intro endpoint' model bearer' h
        obtain ⟨rfl, rfl, rfl⟩ := ModelClient.openAiCompatible.inj h
        exact ⟨he, bearerToken_ok hb⟩

/-- **The console spends what it shows.**  After any run from an accepted startup on a
    machine, the socket that every report names is that of the broker that answered, and the
    client of the next turn has the model of the header and the credential of the status
    line: the subscription's own file, or one that was named, or an endpoint under its own
    bearer token.  None is built only where its constructor refuses these or the bearer token
    is absent. -/
theorem spends_what_it_shows (h : execute exts launch cli = .ok (app, options))
    (hm : launch.On machine cli) (clients : Clients) (ls : List Label) :
    let c := Runs.exec (step exts) (Console.start app options) ls
    (∃ tier, connect machine cli.socket cli.serverUid = .ok (c.app.socketPath, tier)) ∧
      (∀ report, ("broker socket", c.app.socketPath) ∈ (c.app.report exts report).context) ∧
      match buildModel machine clients c.options with
      | .ok client => Spends machine cli c.app client
      | .error error => ClientRefusal machine clients cli c.app error := by
  intro c
  have hst := started_execute h
  obtain ⟨hheaded, hplaced⟩ : Headed exts options c ∧ Placed machine cli c := by
    refine Runs.exec_of_forall (I := fun c => Headed exts options c ∧ Placed machine cli c)
      (fun c l hc => ?_) ⟨headed_start h, placed_start h hm⟩ ls
    have hheaded := (headed_step hst hc.1 l).1
    refine ⟨hheaded, placed_step hc.2 l ?_⟩
    rw [hheaded.identified.options.modelChoice, hc.1.identified.options.modelChoice]
  exact ⟨hplaced.socket, socket_mem_report exts c.app,
    buildModel_spends hplaced hheaded.shown.model clients⟩

/-- A machine whose shared credential lies beside the console's own. -/
def Sample.host : Machine where
  resolveAuthPathNamed explicit name :=
    .ok (explicit.getD (if name = consoleAuthFileName then "auth.json" else name))
  defaultAuthFileName := "chatgpt-auth.json"
  envVar _ := none
  resolveSocket explicit := some (explicit.getD "broker.sock", "default")
  euid := 1000
  brokerClient _ _ := .ok ()
  capabilities _ _ := .ok ()

/-- Clients that refuse nothing. -/
def Sample.clients : Clients where
  codex _ _ := .ok ()
  openAi _ _ _ := .ok ()

/-- After a hop. -/
theorem spends_what_it_shows_sample :
    let c := Runs.exec (step .plain) (Console.start Sample.app Sample.options)
      [.action .enter Sample.answers]
    (∃ tier, connect Sample.host none none = .ok (c.app.socketPath, tier)) ∧
      (∀ report, ("broker socket", c.app.socketPath) ∈ (c.app.report .plain report).context) ∧
      match buildModel Sample.host Sample.clients c.options with
      | .ok client => Spends Sample.host Sample.cli c.app client
      | .error error => ClientRefusal Sample.host Sample.clients Sample.cli c.app error := by
  have hon : Sample.launch.On Sample.host Sample.cli := ⟨by rfl, by rfl⟩
  exact spends_what_it_shows Sample.execute_eq hon Sample.clients [.action .enter Sample.answers]

end DekoponConsole
