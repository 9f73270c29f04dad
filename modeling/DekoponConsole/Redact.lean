/-
  Rendering-time redaction and terminal-control sanitisation (`redact.rs`).

  `redactText` advances through a text by maximal runs of token characters and
  single separators, remembering the previous run; `walk` goes through a JSON
  value with one path buffer, pushed and truncated around each child, and one
  list of redactions.  `sanitize` and `sanitizeLine` replace what a terminal
  would act on.
-/
import DekoponConsole.External

namespace DekoponConsole

/-! ## What counts as a secret -/

/-- Object keys whose value is a secret whatever it looks like. -/
def secretKeys : List String :=
  ["apikey", "authorization", "cookie", "credential", "credentials", "password", "privatekey",
    "secret", "session", "sessiontoken", "token"]

/-- Shortest run called a credential. -/
def minSecretLength : ℕ := 20

/-- Whether one object key names a secret: `-` and `_` are folded out, the rest
    is lower-cased. -/
def keyIsSecret (key : String) : Bool :=
  let folded := (key.toList.filter fun c => c != '-' && c != '_').flatMap toLowercase
  secretKeys.contains (String.ofList folded)

/-- A character of a credential's body. -/
def isBodyChar (c : Char) : Bool := c.isAlphanum || c == '_' || c == '-'

/-- Whether a run of characters could be the body of a credential. -/
def isSecretBody (value : List Char) : Bool :=
  minSecretLength ≤ byteLen value && value.all isBodyChar

/-- Characters a credential is made of, and therefore what bounds one inside a
    longer string. -/
def isTokenChar (c : Char) : Bool :=
  c.isAlphanum || c == '_' || c == '-' || c == '.' || c == '+' || c == '/' || c == '='

/-- The prefixes of the recognised credentials. -/
def secretPrefixes : List String :=
  ["ghp_", "gho_", "ghu_", "ghs_", "ghr_", "github_pat_", "sk-"]

/-- Whether one run of token characters is a credential on its own: a known
    prefix with a body, or three long segments of a JWT. -/
def runIsSecret (run : List Char) : Bool :=
  secretPrefixes.any (fun p =>
    match p.toList.isPrefixOf? run with
    | some body => isSecretBody body
    | none => false) ||
  ((run.splitOn '.').length == 3 &&
    (run.splitOn '.').all fun segment => 16 ≤ byteLen segment && isSecretBody segment)

/-- Whether a scheme word means the run after it is the credential. -/
def schemeIntroducesSecret (word : List Char) : Bool :=
  ["bearer", "basic", "token"].any fun scheme => scheme.toList == toAsciiLowercase word

/-! ## Text -/

variable (exts : Externals)

/-- The state of the redactor's loop: the output so far, the run that may
    introduce the next one, and whether anything was redacted. -/
structure Scan where
  output : List Char
  previousRun : Option (List Char)
  found : Bool

/-- Whether the run is redacted, by the run before it or on its own. -/
def Scan.redacts (s : Scan) (run : List Char) : Bool :=
  (s.previousRun.any schemeIntroducesSecret && minSecretLength ≤ byteLen run) || runIsSecret run

/-- The loop of `redact_text` over the rest of the text. -/
def redactLoop (s : Scan) (rest : List Char) : Scan :=
  match rest with
  | [] => s
  | c :: cs =>
    if isTokenChar c then
      let run := c :: cs.takeWhile isTokenChar
      let hit := s.redacts run
      redactLoop
        { output := s.output ++
            if hit then (exts.redactionMarker run.length).toList else run
          previousRun := some run
          found := s.found || hit }
        (cs.dropWhile isTokenChar)
    else
      -- only whitespace separates a scheme from its credential
      redactLoop
        { s with
          output := s.output ++ [c]
          previousRun := if isWhitespace c then s.previousRun else none }
        cs
termination_by rest.length
decreasing_by
  · have := (List.dropWhile_suffix (p := isTokenChar) (l := cs)).length_le
    simp only [List.length_cons]; omega
  · simp

/-- Replaces every credential inside one string, or answers `none` when there
    was none. -/
def redactText (text : String) : Option String :=
  let s := redactLoop exts ⟨[], none, false⟩ text.toList
  if s.found then some (String.ofList s.output) else none

/-! ## Values -/

/-- Which rule redacted a value. -/
inductive RedactionReason
  | key
  | shape
  deriving DecidableEq, Repr

/-- One redaction: the dotted path of the redacted node and the rule. -/
structure Redaction where
  path : String
  reason : RedactionReason
  deriving DecidableEq, Repr

/-- A redacted rendering of one value, with what was hidden. -/
structure Redacted where
  value : Value
  redactions : List Redaction

def Redacted.isClean (r : Redacted) : Bool := r.redactions.isEmpty

/-- What `walk` threads: the path buffer and the redactions found. -/
structure Walk where
  path : String
  found : List Redaction

/-- `path.push('.')` unless empty, then `path.push_str(step)`. -/
def Walk.enter (w : Walk) (step : String) : Walk :=
  { w with path := if w.path.isEmpty then w.path ++ step else w.path ++ "." ++ step }

/-- `path.truncate(restore)`. -/
def Walk.truncate (w : Walk) (restore : ℕ) : Walk :=
  { w with path := String.ofList (w.path.toList.take restore) }

/-- `found.push(..)` at the current path. -/
def Walk.report (w : Walk) (reason : RedactionReason) : Walk :=
  { w with found := w.found ++ [⟨w.path, reason⟩] }

/-- A secret key holding a non-string is still a secret: the marker counts its
    JSON text. -/
def hide (w : Walk) (other : Value) : Value × Walk :=
  (.string (exts.redactionMarker (exts.valueToString other).toList.length), w.report .key)

mutual

/-- Redacts one value below the current path. -/
def walk (keySaysSecret : Bool) (w : Walk) : Value → Value × Walk
  | .string text =>
    if keySaysSecret then
      (.string (exts.redactionMarker text.toList.length), w.report .key)
    else
      match redactText exts text with
      | some redacted => (.string redacted, w.report .shape)
      | none => (.string text, w)
  | .null => (.null, w)
  | .bool b =>
    if keySaysSecret then hide exts w (.bool b) else (.bool b, w)
  | .number n =>
    if keySaysSecret then hide exts w (.number n) else (.number n, w)
  | .array items =>
    if keySaysSecret then hide exts w (.array items)
    else
      let r := walkItems w 0 items
      (.array r.1, r.2)
  | .object fields =>
    if keySaysSecret then hide exts w (.object fields)
    else
      let r := walkFields w fields
      (.object r.1, r.2)

def walkItems (w : Walk) (index : ℕ) : List Value → List Value × Walk
  | [] => ([], w)
  | item :: items =>
    let restore := w.path.length
    let r := walk false (w.enter (toString index)) item
    let rs := walkItems (r.2.truncate restore) (index + 1) items
    (r.1 :: rs.1, rs.2)

def walkFields (w : Walk) : List (String × Value) → List (String × Value) × Walk
  | [] => ([], w)
  | (key, field) :: fields =>
    let restore := w.path.length
    let r := walk (keyIsSecret key) (w.enter key) field
    let rs := walkFields (r.2.truncate restore) fields
    ((key, r.1) :: rs.1, rs.2)

end

/-- Redacts every secret scalar in one JSON value. -/
def redact (value : Value) : Redacted :=
  let r := walk exts false ⟨"", []⟩ value
  ⟨r.1, r.2.found⟩

/-! ## Sanitisation -/

/-- Replacement drawn where a control character was removed. -/
def controlReplacement : Char := Char.ofNat 0xfffd

/-- The directional characters that `sanitize` replaces. -/
def isBidiControl (c : Char) : Bool :=
  c.toNat == 0x200e || c.toNat == 0x200f || (0x202a ≤ c.toNat && c.toNat ≤ 0x202e) ||
    (0x2066 ≤ c.toNat && c.toNat ≤ 0x2069)

def sanitizeChar (c : Char) : Char :=
  if c == '\t' || c == '\n' then c
  else if isBidiControl c then controlReplacement
  else if isControl c then controlReplacement
  else c

/-- Strips terminal control sequences from borrowed text before it reaches a
    buffer. -/
def sanitize (text : String) : String := String.ofList (text.toList.map sanitizeChar)

/-- Sanitises and collapses text into one displayable line. -/
def sanitizeLine (text : String) : String :=
  String.ofList ((sanitize text).toList.map fun c => if c == '\n' || c == '\t' then ' ' else c)

end DekoponConsole
