/-
  What the console takes from the crates it is built on: the data it exchanges
  with the broker, the model loop and the interpreter, with the fields it reads
  or passes on, and the functions of those crates whose answer it uses
  (`Externals`).

  Errors of those crates reach the console as `dyn Error` values, of which it
  reads the message, the chain of sources and the broker's refusal, if a link
  of the chain holds one (`DynError`).
-/
import DekoponConsole.Str

namespace DekoponConsole

/-! ## Identities -/

/-- A catalog agent's identifier, as parsed. -/
structure AgentId where
  asStr : String
  deriving DecidableEq, Repr

/-- A canonical external subject, as parsed. -/
structure ExternalSubject where
  asStr : String
  deriving DecidableEq, Repr

/-- The transports of a chat scope that the console names. -/
inductive ChatTransportKind
  | local_
  deriving DecidableEq, Repr

/-- The conversation kinds that the console names. -/
inductive ConversationKind
  | directMessage
  deriving DecidableEq, Repr

/-- The triggers that the console names. -/
inductive Trigger
  | message
  deriving DecidableEq, Repr

structure Conversation where
  kind : ConversationKind
  container : Option String
  id : String
  thread : Option String
  deriving DecidableEq, Repr

structure ChatScopeClaim where
  transport : String
  kind : ChatTransportKind
  conversation : Conversation
  trigger : Trigger
  deriving DecidableEq, Repr

/-- The claim a broker request is made under: a subject through an agent, in a
    chat scope if it names one, and bound to an invocation if it names one. -/
structure Attestation where
  subject : ExternalSubject
  agent : AgentId
  scope : Option ChatScopeClaim
  invocation : Option String
  deriving DecidableEq, Repr

def Attestation.forChat (subject : ExternalSubject) (agent : AgentId) (scope : ChatScopeClaim) :
    Attestation := ⟨subject, agent, some scope, none⟩

def Attestation.forSubject (subject : ExternalSubject) (agent : AgentId) : Attestation :=
  ⟨subject, agent, none, none⟩

def Attestation.boundTo (a : Attestation) (id : String) : Attestation :=
  { a with invocation := some id }

/-! ## Errors -/

/-- One error of a chain: its message, and the code and message of the wire
    refusal when it is a `ClientError::Remote` (or a `BrokerLegError` holding
    one). -/
structure ErrorLink where
  display : String
  remote : Option (String × String)
  deriving DecidableEq, Repr

/-- An error with its sources: `dyn Error`. -/
inductive DynError
  | root (link : ErrorLink)
  | caused (link : ErrorLink) (source : DynError)
  deriving DecidableEq, Repr

def DynError.link : DynError → ErrorLink
  | .root l | .caused l _ => l

/-- `Error::source`. -/
def DynError.source : DynError → Option DynError
  | .root _ => none
  | .caused _ e => some e

/-- The messages of the chain, the error itself first. -/
def DynError.links : DynError → List ErrorLink
  | .root l => [l]
  | .caused l e => l :: e.links

/-- `dekopon_broker_protocol::ERROR_UNAUTHENTICATED`. -/
def errorUnauthenticated : String := "unauthenticated"

/-! ## The broker's answers -/

/-- One granted capability, as `capabilitiesFor` describes it. -/
structure EffectiveCapabilityView where
  id : String
  effect : String
  risk : String
  description : String
  deriving DecidableEq, Repr

/-- The broker's answer to an attested connection: what policy grants, the
    command words with their help pages, and the trace the leg was opened in. -/
structure Surface where
  effective : List EffectiveCapabilityView
  commandWords : List String
  commandWordHelp : List (String × String)
  sessionTrace : String
  deriving DecidableEq, Repr

/-- The answer to a recorded delivered turn: the outcome's debug rendering,
    whether it is `Succeeded`, and the error text. -/
structure RecordedTurn where
  outcome : String
  succeeded : Bool
  error : Option String
  deriving DecidableEq, Repr

/-- A W3C trace parent, of which the console reads the trace id. -/
structure TraceParent where
  traceId : List UInt8
  deriving DecidableEq, Repr

/-! ## Scripts, calls and the model -/

/-- `serde_json::Value`.  A number is its JSON text; the fields of an object
    stand in the map's iteration order. -/
inductive Value
  | null
  | bool (b : Bool)
  | number (text : String)
  | string (text : String)
  | array (items : List Value)
  | object (fields : List (String × Value))

def Value.isNull : Value → Bool
  | .null => true
  | _ => false

/-- How a capability invocation ended. -/
inductive CapabilityCallResult
  | succeeded
  | succeededWithStderr (stderr : String)
  | exited (status : ℕ) (stderr : String)
  | denied (reason : String)
  | failed (error : String)
  | notFound

/-- A proposed invocation; `rest` is what the console passes on unread (the
    secret intent, the report, the descriptors, the tree context). -/
structure CommandProposal (π : Type) where
  capability : String
  input : Value
  rest : π

/-- What the interpreter reports of a script. -/
structure ScriptOutcome where
  output : String
  exitCode : ℕ
  truncated : Bool
  capabilityCalls : ℕ
  steps : ℕ
  deriving DecidableEq, Repr

structure ModelUsage where
  inputTokens : Option ℕ
  outputTokens : Option ℕ
  deriving DecidableEq, Repr

inductive ReplyDisposition
  | send
  | suppress
  deriving DecidableEq, Repr

structure PromptOutcome where
  answer : String
  disposition : ReplyDisposition
  deriving DecidableEq, Repr

/-! ## Assets -/

inductive AssetEncoding
  | identity
  | named (name : String)
  deriving DecidableEq, Repr

inductive BlobError
  | capacity
  | tooLarge
  | unknown
  | disabled
  | io (text : String)
  deriving DecidableEq, Repr

/-- A blob on disk: its bytes, which never change. -/
structure DiskBlob where
  bytes : List UInt8
  deriving DecidableEq, Repr

def DiskBlob.len (b : DiskBlob) : ℕ := b.bytes.length

/-- What a provider says of an asset it returns. -/
structure NewAsset where
  contentType : String
  encoding : AssetEncoding
  bytes : ℕ
  deriving DecidableEq, Repr

structure AssetRow where
  id : ℕ
  contentType : String
  encoding : AssetEncoding
  bytes : Option ℕ
  origin : String
  sent : Bool
  deriving DecidableEq, Repr

/-! ## Functions of other crates -/

/-- The functions of other crates whose result the console uses. -/
structure Externals where
  /-- `<AgentId as FromStr>::from_str` -/
  parseAgentId : String → Option AgentId
  /-- `dekopon_core::redaction_marker` -/
  redactionMarker : ℕ → String
  /-- `base64::STANDARD.decode`, or the text of its error -/
  base64Decode : String → Except String (List UInt8)
  /-- `<Value as Display>::fmt` -/
  valueToString : Value → String
  /-- `serde_json::to_string` of a scope -/
  scopeToString : ChatScopeClaim → String
  /-- `<BlobError as Display>::fmt` -/
  blobErrorToString : BlobError → String
  /-- `Conversation::key` -/
  conversationKey : Conversation → String
  /-- `Paragraph::line_count` of the given lines, wrapped at a width -/
  lineCount : List (List String) → ℕ → ℕ

/-- The functions in a plain form, for concrete inputs that none of them looks
    into. -/
def Externals.plain : Externals where
  parseAgentId name := if name.isEmpty then none else some ⟨name⟩
  redactionMarker length := "[redacted:" ++ toString length ++ "]"
  base64Decode text := if text.isEmpty then .ok [] else .error "invalid input"
  valueToString _ := "null"
  scopeToString scope := scope.transport
  blobErrorToString _ := "blob store error"
  conversationKey conversation := conversation.id
  lineCount lines _ := lines.length

end DekoponConsole
