/-
  Options, legs and the stop flag (`session.rs`, `profile.rs`).

  Shared allocations are named by numbers: an inventory by its place in the
  console's list of inventories (`StoreId`), a cancel handle by the order of its
  creation (`CancelId`).
-/
import DekoponConsole.Report
import DekoponConsole.Assets

namespace DekoponConsole

/-- The identity of an `Arc<ConsoleAssets>`. -/
abbrev StoreId := ℕ

/-- The identity of a `CancelHandle` and of the signal paired with it. -/
abbrev CancelId := ℕ

/-! ## Errors -/

/-- Failure setting up or running a console session.  The variants that are
    transparent hold the error they pass through. -/
inductive SessionError
  | socketUnresolved
  | noBroker (path tier : String) (source : DynError)
  | leg (source : DynError)
  | sharedCredential (path : String)
  | chatGpt (error : DynError)
  | model (error : DynError)
  | missingApiKey (name : String)
  | task (source : DynError)
  deriving DecidableEq, Repr

/-- The error with its message and sources. -/
def SessionError.toError : SessionError → DynError
  | .socketUnresolved => .root ⟨"could not determine the broker socket path; pass --socket or set " ++
      "DEKOPON_BROKER_SOCKET", none⟩
  | .noBroker path tier source =>
    .caused ⟨"no broker found at " ++ path ++ " (resolved from the " ++ tier ++ " tier)", none⟩ source
  | .leg source =>
    .caused ⟨"could not open a broker session for this subject and agent", none⟩ source
  | .sharedCredential path => .root ⟨"refusing to use " ++ path ++ ": that is the credential file " ++
      "`dekopon-gatewayd` and `dekopon auth chatgpt` resolve to, and the refresh token rotates, so " ++
      "sharing it would invalidate theirs. Run `dekopon auth chatgpt login --auth-file <PATH>` for " ++
      "a console credential, or pass --auth-file to accept this one deliberately", none⟩
  | .chatGpt error => error
  | .model error => error
  | .missingApiKey name => .root ⟨"model credential variable " ++ name ++ " is absent or empty", none⟩
  | .task source => .caused ⟨"the session task did not complete", none⟩ source

/-! ## Options -/

/-- A named console context (`profile.rs`). -/
structure OperatorProfile where
  name : String
  agent : AgentId
  subject : ExternalSubject
  model : Option String
  maxSteps : Option ℕ
  maxCapabilityCalls : Option ℕ
  deriving DecidableEq, Repr

/-- Which model backend a session talks to. -/
inductive ModelChoice
  | chatGptSubscription (authFile : Option String)
  | openAiCompatible (endpoint : String) (apiKeyEnv : Option String)
  deriving DecidableEq, Repr

/-- Why a model was selected. -/
inductive ModelSource
  | cliOverride
  | profile
  | default_
  deriving DecidableEq, Repr

def ModelSource.label : ModelSource → String
  | .cliOverride => "CLI override"
  | .profile => "profile"
  | .default_ => "default"

def defaultModel : String := "gpt-5.6-luna"

/-- Resolves name and provenance together, on startup and every profile
    switch. -/
def selectedModel (cli profile : Option String) : String × ModelSource :=
  match cli, profile with
  | some model, _ => (model, .cliOverride)
  | none, some model => (model, .profile)
  | none, none => (defaultModel, .default_)

/-- Session bounds. -/
structure PromptLimits where
  maxSteps : ℕ
  maxCapabilityCalls : ℕ
  deriving DecidableEq, Repr

/-- What a console run is configured with. -/
structure ConsoleOptions where
  catalog : Option String
  socket : Option String
  serverUid : Option ℕ
  subject : ExternalSubject
  scope : Option ChatScopeClaim
  smokeConversation : Bool
  profiles : List OperatorProfile
  fixedProfile : Option String
  initialAgent : Option AgentId
  modelOverride : Option String
  stepsOverride : Option ℕ
  callsOverride : Option ℕ
  model : String
  modelSource : ModelSource
  modelChoice : ModelChoice
  promptLimits : PromptLimits
  deriving DecidableEq, Repr

/-- The options when only a subject and a model are named. -/
def ConsoleOptions.new (subject : ExternalSubject) (model : String) : ConsoleOptions where
  catalog := none
  socket := none
  serverUid := none
  subject := subject
  scope := none
  smokeConversation := false
  profiles := []
  fixedProfile := none
  initialAgent := none
  modelOverride := none
  stepsOverride := none
  callsOverride := none
  model := model
  modelSource := .default_
  modelChoice := .chatGptSubscription none
  promptLimits := ⟨8, 16⟩

/-! ## Synthetic conversation -/

/-- The sole reserved claim. -/
def smokeClaim : ChatScopeClaim where
  transport := "console-smoke"
  kind := .local_
  conversation := {
    kind := .directMessage
    container := none
    id := "console-smoke"
    thread := none }
  trigger := .message

/-- `bool::then(smoke_claim)`. -/
def scopeOf (smokeConversation : Bool) : Option ChatScopeClaim :=
  if smokeConversation then some smokeClaim else none

/-- The process-wide source of synthetic turn identities. -/
structure SmokeIdentity where
  bootNonce : String
  next : ℕ
  deriving DecidableEq, Repr

/-- One hexadecimal digit, lower case. -/
def hexDigit (n : ℕ) : Char := Nat.digitChar n

/-- `{byte:02x}`. -/
def hexByte (byte : UInt8) : List Char := [hexDigit (byte.toNat / 16), hexDigit (byte.toNat % 16)]

/-- `SmokeIdentity::new`. -/
def SmokeIdentity.new (seed : List UInt8) : SmokeIdentity where
  bootNonce := String.ofList (seed.flatMap hexByte)
  next := 1

/-- The delivery identity of a synthetic turn (`DeliveryIdentity::Local`). -/
structure DeliveryIdentity where
  transport : String
  conversation : String
  bootNonce : String
  connection : ℕ
  sequence : ℕ
  deriving DecidableEq, Repr

/-- A recorded turn as the broker is asked to keep it. -/
structure DeliveredTurnRequest where
  id : String
  parent : TraceParent
  delivery : DeliveryIdentity
  user : String
  answer : String
  deriving DecidableEq, Repr

/-- `fetch_add` on the counter, an atomic `u64`: the number taken, and the counter it
    leaves. -/
def SmokeIdentity.fetchAdd (identity : SmokeIdentity) : ℕ × SmokeIdentity :=
  (identity.next, { identity with next := (identity.next + 1) % u64Size })

/-- The request that `SmokeIdentity::turn` makes with the number it took. -/
def SmokeIdentity.request (exts : Externals) (bootNonce : String) (sequence : ℕ)
    (parent : TraceParent) (text : String) : DeliveredTurnRequest where
  id := "console-smoke-" ++ bootNonce ++ "-" ++ toString sequence
  parent := parent
  delivery := {
    transport := "console-smoke"
    conversation := exts.conversationKey smokeClaim.conversation
    bootNonce := bootNonce
    connection := 1
    sequence := sequence }
  user := text
  answer := "Recorded from console smoke"

/-- `SmokeIdentity::turn`. -/
def SmokeIdentity.turn (exts : Externals) (identity : SmokeIdentity) (parent : TraceParent)
    (text : String) : DeliveredTurnRequest × SmokeIdentity :=
  let (sequence, next) := identity.fetchAdd
  (SmokeIdentity.request exts identity.bootNonce sequence parent text, next)

/-- A call of `SmokeIdentity::turn`, in processes `ι` by callers `κ`: all of it at once, or
    a step of it while others call, which takes its sequence number, or builds its
    request with the one it took. -/
inductive TurnStep (ι κ : Type)
  | turn (process : ι) (parent : TraceParent) (text : String)
  | fetch (process : ι) (caller : κ)
  | build (caller : κ) (parent : TraceParent) (text : String)

/-- The identity of each process, the number each caller holds between its steps,
    and the turns made, each with its process. -/
structure SmokeCallers (ι κ : Type) where
  identities : ι → SmokeIdentity
  fetched : κ → Option (ι × ℕ)
  turns : List (ι × DeliveredTurnRequest)

/-- Processes that have made no turn, each with its seed. -/
def SmokeCallers.start (κ : Type) {ι : Type} (seeds : ι → List UInt8) : SmokeCallers ι κ :=
  ⟨fun process => .new (seeds process), fun _ => none, []⟩

/-- A step of one caller, whatever the others do. -/
def SmokeCallers.step {ι κ : Type} [DecidableEq ι] [DecidableEq κ] (exts : Externals)
    (s : SmokeCallers ι κ) : TurnStep ι κ → SmokeCallers ι κ
  | .turn process parent text =>
    let (turn, identity) := (s.identities process).turn exts parent text
    { s with
      identities := Function.update s.identities process identity
      turns := s.turns ++ [(process, turn)] }
  | .fetch process caller =>
    let (sequence, identity) := (s.identities process).fetchAdd
    { s with
      identities := Function.update s.identities process identity
      fetched := Function.update s.fetched caller (some (process, sequence)) }
  | .build caller parent text =>
    match s.fetched caller with
    | none => s
    | some (process, sequence) =>
      let turn := SmokeIdentity.request exts (s.identities process).bootNonce sequence parent text
      { s with
        fetched := Function.update s.fetched caller none
        turns := s.turns ++ [(process, turn)] }

/-! ## Legs -/

/-- What is asked of the broker, in the order it is asked. -/
inductive BrokerCall
  /-- `open_agent_with_assets`: a leg under an attestation, over an inventory -/
  | openLeg (attestation : Attestation) (store : StoreId)
  /-- `smoke_record`: a synthetic delivered turn -/
  | recordDeliveredTurn (attestation : Attestation) (turn : DeliveredTurnRequest)
  deriving DecidableEq, Repr

/-- One opened leg: whom it was attested for, the inventory it is bound to, and
    the broker's answer. -/
structure BrokerLeg where
  attestation : Attestation
  store : StoreId
  surface : Surface
  deriving DecidableEq, Repr

/-- `effective_capabilities().is_empty()`. -/
def BrokerLeg.isEmpty (leg : BrokerLeg) : Bool := leg.surface.effective.isEmpty

/-- The attestation of a leg: in the scope if there is one. -/
def attestationOf (subject : ExternalSubject) (agent : AgentId) (scope : Option ChatScopeClaim) :
    Attestation :=
  match scope with
  | some scope => .forChat subject agent scope
  | none => .forSubject subject agent

/-- `open_agent_with_assets`: the request made, and the leg or the refusal that
    the broker's answer gives. -/
def openAgentWithAssets (answer : Except DynError Surface) (subject : ExternalSubject)
    (agent : AgentId) (scope : Option ChatScopeClaim) (store : StoreId) :
    BrokerCall × Except SessionError BrokerLeg :=
  let attestation := attestationOf subject agent scope
  (.openLeg attestation store,
    match answer with
    | .ok surface => .ok ⟨attestation, store, surface⟩
    | .error error => .error (.leg error))

/-- `smoke_record`: the request made, the message and success the answer gives,
    and the identity source it leaves. -/
def smokeRecord (exts : Externals) (answer : Except DynError RecordedTurn) (parent : TraceParent)
    (identity : Option SmokeIdentity) (subject : ExternalSubject) (agent : AgentId)
    (text : String) : BrokerCall × Except DynError (String × Bool) × SmokeIdentity :=
  let identity := identity.getD (SmokeIdentity.new parent.traceId)
  let (turn, identity) := identity.turn exts parent text
  (.recordDeliveredTurn ((Attestation.forChat subject agent smokeClaim).boundTo turn.id) turn,
    answer.map fun result =>
      (result.outcome ++ ": " ++ result.error.getD "", result.succeeded),
    identity)

/-- One agent hop: the leg and its granted surface. -/
structure AgentSession where
  agent : AgentId
  effective : List EffectiveCapabilityView
  commandWords : List String
  commandWordHelp : List (String × String)
  leg : BrokerLeg
  deriving DecidableEq, Repr

def AgentSession.new (agent : AgentId) (leg : BrokerLeg) : AgentSession where
  agent := agent
  effective := leg.surface.effective
  commandWords := leg.surface.commandWords
  commandWordHelp := leg.surface.commandWordHelp
  leg := leg

def AgentSession.isEmpty (s : AgentSession) : Bool := s.effective.isEmpty

/-! ## The replay window -/

/-- One remembered exchange.  `entry` is the inventory of the leg the exchange
    went through, which names the agent entry its turn was started under. -/
structure Exchange where
  prompt : String
  answer : String
  entry : StoreId
  deriving DecidableEq, Repr

/-- The model's replay window (`dekopon_agent::prompt::History`), of which the
    console makes an empty one, moves it and asks its length. -/
structure History where
  exchanges : List Exchange
  deriving DecidableEq, Repr

def History.new : History := ⟨[]⟩

def History.len (h : History) : ℕ := h.exchanges.length

/-! ## The stop flag -/

/-- Cooperative stop: the flag, and the cancel handle it is bound to. -/
structure StopFlag where
  requested : Bool
  broker : Option CancelId
  deriving DecidableEq, Repr

namespace StopFlag

def default : StopFlag := ⟨false, none⟩

/-- Requests a stop; the handle it cancels is the bound one. -/
def request (stop : StopFlag) : StopFlag := { stop with requested := true }

/-- Clears the flag for the next session. -/
def reset (_ : StopFlag) : StopFlag := ⟨false, none⟩

def bindBroker (stop : StopFlag) (handle : CancelId) : StopFlag :=
  { stop with broker := some handle }

end StopFlag

end DekoponConsole
