/-
  Startup (`dekopon-console/src/main.rs`): what a command line and a profile
  document mean.

  `readProfiles` validates a parsed document, `execute` selects the identity,
  checks it against the catalog, and builds the options and the application the
  console starts with.  What startup asks of the machine (files, terminals, the
  credential, the broker) is a `Launch`.
-/
import DekoponConsole.Structured

namespace DekoponConsole

/-- The settings of a command line that `execute` reads. -/
structure Cli where
  config : Option String
  socket : Option String
  serverUid : Option ℕ
  subject : Option ExternalSubject
  agent : Option AgentId
  smokeConversation : Bool
  profiles : Option String
  profile : Option String
  model : Option String
  authFile : Option String
  endpoint : Option String
  apiKeyEnv : Option String
  maxSteps : Option ℕ
  maxCapabilityCalls : Option ℕ
  structured : Bool
  deriving DecidableEq, Repr

/-- Failure opening the console. -/
inductive ConsoleError
  | config (error : String)
  | session (error : SessionError)
  | noSubject
  | profile (reason : String)
  | unknownAgent (agent : AgentId)
  | noTerminal
  | structuredTerminal
  | structuredAgent
  deriving DecidableEq, Repr

/-! ## The profile document -/

structure ProfilesDocument where
  defaultProfile : Option String
  profiles : List OperatorProfile
  deriving DecidableEq, Repr

def ProfilesDocument.default : ProfilesDocument := ⟨none, []⟩

def isNameChar (c : Char) : Bool := c.isAlphanum || c == '-' || c == '_'

/-- A model or a bound that a profile may not give. -/
def OperatorProfile.badModelOrBounds (p : OperatorProfile) : Bool :=
  (p.model.any fun model => (trim model).isEmpty) ||
    (p.maxSteps.any fun n => !(1 ≤ n && n ≤ 64)) ||
    p.maxCapabilityCalls.any fun n => !(1 ≤ n && n ≤ 256)

/-- The loop of `read_profiles`, with the names seen so far. -/
def checkProfiles (names : List String) : List OperatorProfile → Except ConsoleError (List String)
  | [] => .ok names
  | p :: ps =>
    if p.name.isEmpty || !p.name.toList.all isNameChar || names.contains p.name then
      .error (.profile ("invalid or duplicate profile name: " ++ p.name))
    else if p.badModelOrBounds then
      .error (.profile ("invalid model or bounds in profile " ++ p.name))
    else checkProfiles (p.name :: names) ps

/-- `read_profiles` of a parsed document. -/
def readProfiles (document : ProfilesDocument) : Except ConsoleError ProfilesDocument := do
  let names ← checkProfiles [] document.profiles
  match document.defaultProfile with
  | some default_ =>
    if names.contains default_ then .ok document
    else .error (.profile ("defaultProfile " ++ default_ ++ " has no matching profile"))
  | none => .ok document

/-! ## Identity selection -/

section
variable (cli : Cli) (document : ProfilesDocument)

/-- The profile named by `--profile`, or by default when no agent is. -/
def chosenProfile : Option String :=
  cli.profile.or (if cli.agent.isNone then document.defaultProfile else none)

/-- The profiles bound to `--agent`. -/
def matchingProfiles : List OperatorProfile :=
  match cli.agent with
  | some agent => document.profiles.filter fun p => p.agent == agent
  | none => []

/-- The profile the console starts under, if any. -/
def initialProfile : Option OperatorProfile :=
  ((chosenProfile cli document).bind fun name => document.profiles.find? fun p => p.name == name).or
    (if cli.profile.isNone then (matchingProfiles cli document).head? else none)

/-- The refusals that need no catalog. -/
def checkSelection : Except ConsoleError Unit :=
  if cli.profile.isSome ∧ !document.profiles.any fun p => some p.name == cli.profile then
    .error (.profile ("unknown profile " ++ cli.profile.getD ""))
  else if cli.agent.isSome ∧ cli.profile.isNone ∧ (matchingProfiles cli document).length > 1 then
    .error (.profile "multiple profiles for --agent; select --profile")
  else if cli.subject.isSome ∧ !document.profiles.isEmpty then
    .error (.profile ("--subject cannot be combined with authored --profiles; remove --subject or " ++
      "--profiles before opening the picker"))
  else
    match cli.agent, initialProfile cli document with
    | some agent, some profile =>
      if agent ≠ profile.agent then
        .error (.profile ("--agent " ++ agent.asStr ++ " conflicts with profile " ++ profile.name ++
          " bound to " ++ profile.agent.asStr))
      else .ok ()
    | none, none => if cli.subject.isNone then .error .noSubject else .ok ()
    | _, _ => .ok ()

/-- The refusals of agents the catalog does not have. -/
def checkCatalog (catalog : List Agent) : Except ConsoleError Unit :=
  let unknown (agent : AgentId) : Bool := !catalog.any fun a => a.name == agent.asStr
  match cli.agent.filter unknown, document.profiles.find? fun p => unknown p.agent with
  | some agent, _ => .error (.unknownAgent agent)
  | none, some p => .error (.unknownAgent p.agent)
  | none, none => .ok ()

end

/-- `validate_terminal`. -/
def validateTerminal (cli : Cli) (stdinTty stdoutTty : Bool) : Except ConsoleError Unit :=
  if cli.structured then
    if stdinTty || stdoutTty then .error .structuredTerminal else .ok ()
  else if !stdinTty || !stdoutTty then .error .noTerminal
  else .ok ()

/-! ## Startup -/

/-- The options `execute` starts the console with. -/
def startOptions (cli : Cli) (document : ProfilesDocument) (initial : Option OperatorProfile)
    (subject : ExternalSubject) : ConsoleOptions :=
  let selected := selectedModel cli.model (initial.bind OperatorProfile.model)
  { ConsoleOptions.new subject selected.1 with
    modelSource := selected.2
    scope := scopeOf cli.smokeConversation
    smokeConversation := cli.smokeConversation
    profiles := document.profiles
    fixedProfile := cli.profile
    initialAgent := cli.agent.or
      (cli.profile.bind fun _ => initial.map OperatorProfile.agent)
    modelOverride := cli.model
    catalog := cli.config
    socket := cli.socket
    serverUid := cli.serverUid
    promptLimits := {
      maxSteps := (cli.maxSteps.or (initial.bind OperatorProfile.maxSteps)).getD 8
      maxCapabilityCalls :=
        (cli.maxCapabilityCalls.or (initial.bind OperatorProfile.maxCapabilityCalls)).getD 16 }
    stepsOverride := cli.maxSteps
    callsOverride := cli.maxCapabilityCalls
    modelChoice := match cli.endpoint with
      | some endpoint => .openAiCompatible endpoint cli.apiKeyEnv
      | none => .chatGptSubscription cli.authFile }

/-- What startup meets: the parsed document, the catalog, the terminals, the
    credential file `resolve_console_credential` finds, and the socket a broker
    answers on. -/
structure Launch where
  document : Except String ProfilesDocument
  catalog : Except String (List Agent)
  stdinTty : Bool
  stdoutTty : Bool
  credential : Except SessionError String
  broker : Except SessionError String

/-- The document, if one is named. -/
def loadDocument (launch : Launch) (cli : Cli) : Except ConsoleError ProfilesDocument :=
  match cli.profiles with
  | some path =>
    match launch.document with
    | .ok document => readProfiles document
    | .error error => .error (.profile (path ++ ": " ++ error))
  | none => .ok .default

/-- The application `execute` starts the console with. -/
def startApp (exts : Externals) (agents : List Agent) (options : ConsoleOptions)
    (initial : Option OperatorProfile) (socket credential : String) : App :=
  let app := App.new agents options.subject.asStr socket credential
  { app with
    selectedAgent := match options.initialAgent with
      | some agent => agents.findIdx fun candidate => candidate.name == agent.asStr
      | none => 0
    profile := initial.map OperatorProfile.name
    scopeLabel := scopeLabelOf exts options.scope
    model := options.model
    modelSource := options.modelSource }

/-- `execute`, up to the console it starts. -/
def execute (exts : Externals) (launch : Launch) (cli : Cli) :
    Except ConsoleError (App × ConsoleOptions) := do
  let document ← loadDocument launch cli
  checkSelection cli document
  let catalog ← launch.catalog.mapError .config
  checkCatalog cli document catalog
  let initial := initialProfile cli document
  match (initial.map OperatorProfile.subject).or cli.subject with
  | none => .error .noSubject
  | some subject =>
    validateTerminal cli launch.stdinTty launch.stdoutTty
    if cli.structured ∧ cli.agent.isNone ∧ cli.profile.isNone then .error .structuredAgent
    else
      let options := startOptions cli document initial subject
      let credential ← match options.modelChoice with
        | .chatGptSubscription _ => launch.credential.mapError .session
        | .openAiCompatible endpoint _ => .ok endpoint
      let socket ← launch.broker.mapError .session
      .ok (startApp exts catalog options initial socket credential, options)

end DekoponConsole
