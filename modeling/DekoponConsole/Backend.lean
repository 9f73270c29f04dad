/-
  The model client, the credential file and the broker's socket (`session.rs`).

  What the console asks of the machine it runs on is a `Machine`: its environment does
  not change while the console runs.  What the clients' own constructors answer may change
  from turn to turn (`Clients`).
-/
import DekoponConsole.Execute

namespace DekoponConsole

/-- What the console asks of the machine. -/
structure Machine where
  /-- `chatgpt::resolve_auth_path_named` -/
  resolveAuthPathNamed : Option String → String → Except DynError String
  /-- `chatgpt::DEFAULT_AUTH_FILE_NAME` -/
  defaultAuthFileName : String
  /-- `std::env::var`, where it succeeds -/
  envVar : String → Option String
  /-- `BrokerSocketDiscovery::resolve`: the path and the label of its tier -/
  resolveSocket : Option String → Option (String × String)
  /-- `geteuid` -/
  euid : ℕ
  /-- `BrokerClient::new` -/
  brokerClient : String → ℕ → Except DynError Unit
  /-- `BrokerClient::capabilities` -/
  capabilities : String → ℕ → Except DynError Unit

/-- What the constructors of the model clients answer. -/
structure Clients where
  /-- `CodexClient::new` -/
  codex : String → String → Except DynError Unit
  /-- `OpenAiClient::new` -/
  openAi : String → String → Option String → Except DynError Unit

/-! ## The credential file -/

/-- `CONSOLE_AUTH_FILE_NAME` -/
def consoleAuthFileName : String := "chatgpt-auth.console.json"

/-- `Path::components`: the root, a leading `.`, and every part that is neither empty nor
    `.` itself. -/
def pathComponents (path : String) : List String :=
  match split path '/' with
  | [] => []
  | first :: rest =>
    let rest := rest.filter fun part => part != "" && part != "."
    if first = "" then if path = "" then [] else "/" :: rest else first :: rest

/-- Equality of paths. -/
def samePath (a b : String) : Bool := pathComponents a == pathComponents b

/-- `guard_shared_credential`. -/
def guardSharedCredential (resolved shared : String) (explicit : Bool) :
    Except SessionError String :=
  if !explicit && samePath resolved shared then .error (.sharedCredential resolved)
  else .ok resolved

/-- `resolve_console_credential`. -/
def resolveConsoleCredential (machine : Machine) (explicit : Option String) :
    Except SessionError String := do
  let resolved ← (machine.resolveAuthPathNamed explicit consoleAuthFileName).mapError .chatGpt
  let shared ← (machine.resolveAuthPathNamed none machine.defaultAuthFileName).mapError .chatGpt
  guardSharedCredential resolved shared explicit.isSome

/-! ## The broker's socket -/

/-- `connect`, with the options it reads: the path of the socket a broker answers on, and
    its tier. -/
def connect (machine : Machine) (socket : Option String) (serverUid : Option ℕ) :
    Except SessionError (String × String) :=
  match machine.resolveSocket socket with
  | none => .error .socketUnresolved
  | some (path, tier) => do
    let serverUid := serverUid.getD machine.euid
    (machine.brokerClient path serverUid).mapError (.noBroker path tier)
    (machine.capabilities path serverUid).mapError (.noBroker path tier)
    .ok (path, tier)

/-! ## The model client -/

/-- A model client, by what it was made with. -/
inductive ModelClient
  | codex (model credential : String)
  | openAiCompatible (endpoint model : String) (bearer : Option String)
  deriving DecidableEq, Repr

/-- The bearer token, of a variable that is set and not empty. -/
def bearerToken (machine : Machine) (apiKeyEnv : Option String) :
    Except SessionError (Option String) :=
  match apiKeyEnv with
  | none => .ok none
  | some name =>
    match (machine.envVar name).filter fun value => !value.isEmpty with
    | some value => .ok (some value)
    | none => .error (.missingApiKey name)

/-- `build_model`. -/
def buildModel (machine : Machine) (clients : Clients) (options : ConsoleOptions) :
    Except SessionError ModelClient :=
  match options.modelChoice with
  | .chatGptSubscription authFile => do
    let path ← resolveConsoleCredential machine authFile
    (clients.codex options.model path).mapError .chatGpt
    .ok (.codex options.model path)
  | .openAiCompatible endpoint apiKeyEnv => do
    let bearer ← bearerToken machine apiKeyEnv
    (clients.openAi endpoint options.model bearer).mapError .model
    .ok (.openAiCompatible endpoint options.model bearer)

/-- Startup on a machine: the credential file and the socket are what it resolves. -/
structure Launch.On (machine : Machine) (launch : Launch) (cli : Cli) : Prop where
  credential : launch.credential = resolveConsoleCredential machine cli.authFile
  broker : launch.broker = (connect machine cli.socket cli.serverUid).map Prod.fst

end DekoponConsole
