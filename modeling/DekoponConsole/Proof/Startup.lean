/-
  What an accepted startup guarantees.

  The document it goes by is well formed, `checkSelection` lets through what is
  `Selected`, and `execute_cases` inverts startup.
-/
import DekoponConsole.Proof.Profiles

namespace DekoponConsole

section
variable {exts : Externals} {launch : Launch} {cli : Cli} {document : ProfilesDocument}

/-! ## The profile document -/

/-- What startup goes by is a well-formed document. -/
theorem wellFormed_of_loadDocument (h : loadDocument launch cli = .ok document) :
    document.WellFormed := by
  unfold loadDocument at h
  cases hp : cli.profiles with
  | none =>
    simp only [hp, Except.ok.injEq] at h
    exact h ▸ wellFormed_default
  | some path =>
    simp only [hp] at h
    cases hd : launch.document with
    | error error => simp [hd] at h
    | ok parsed =>
      simp only [hd] at h
      obtain ⟨hwell, rfl⟩ := readProfiles_ok_iff.1 h
      exact hwell

theorem names_nodup (h : loadDocument launch cli = .ok document) :
    (document.profiles.map OperatorProfile.name).Nodup :=
  (wellFormed_of_loadDocument h).distinct

/-! ## Selection -/

/-- What `checkSelection` lets through. -/
structure Selected (cli : Cli) (document : ProfilesDocument) : Prop where
  named : ∀ name, cli.profile = some name → ∃ p ∈ document.profiles, p.name = name
  single : cli.agent.isSome → cli.profile = none → (matchingProfiles cli document).length ≤ 1
  exclusive : document.profiles ≠ [] → cli.subject = none
  agrees : ∀ agent p, cli.agent = some agent → initialProfile cli document = some p →
    agent = p.agent

theorem selected_of_ok (h : checkSelection cli document = .ok ()) : Selected cli document := by
  unfold checkSelection at h
  split at h
  · cases h
  next hnamed =>
    split at h
    · cases h
    next hsingle =>
      split at h
      · cases h
      next hexclusive =>
        refine ⟨?_, ?_, ?_, ?_⟩
        · intro name hn
          simp only [hn, Option.isSome_some, true_and, Bool.not_eq_true', Bool.not_eq_false] at hnamed
          obtain ⟨p, hp, hpn⟩ := List.any_eq_true.1 hnamed
          exact ⟨p, hp, by simpa using hpn⟩
        · intro ha hp
          simpa [ha, hp] using hsingle
        · intro hne
          by_contra hs
          exact hexclusive ⟨Option.isSome_iff_ne_none.2 hs, by simpa using hne⟩
        · intro agent p ha hi
          by_contra hne
          simp [ha, hi, hne] at h

theorem bind_eq_ok {ε α β : Type} {x : Except ε α} {f : α → Except ε β} {b : β}
    (h : (x >>= f) = .ok b) : ∃ a, x = .ok a ∧ f a = .ok b := by
  cases x with
  | error e => cases h
  | ok a => exact ⟨a, rfl, h⟩

/-- **What startup checked and made.** -/
theorem execute_cases {app : App} {options : ConsoleOptions}
    (h : execute exts launch cli = .ok (app, options)) :
    ∃ document catalog subject socket credential, loadDocument launch cli = .ok document ∧
      Selected cli document ∧
      ((initialProfile cli document).map OperatorProfile.subject).or cli.subject = some subject ∧
      options = startOptions cli document (initialProfile cli document) subject ∧
      app = startApp exts catalog options (initialProfile cli document) socket credential := by
  unfold execute at h
  obtain ⟨document, hd, h⟩ := bind_eq_ok h
  obtain ⟨_, hs, h⟩ := bind_eq_ok h
  obtain ⟨catalog, -, h⟩ := bind_eq_ok h
  obtain ⟨_, -, h⟩ := bind_eq_ok h
  dsimp only at h
  split at h
  · cases h
  next subject hsubject =>
    obtain ⟨_, -, h⟩ := bind_eq_ok h
    split at h
    · cases h
    split at h
    all_goals
      obtain ⟨credential, -, h⟩ := bind_eq_ok h
      obtain ⟨socket, -, h⟩ := bind_eq_ok h
      obtain ⟨rfl, rfl⟩ := Prod.mk.inj (Except.ok.inj h)
      exact ⟨document, catalog, subject, socket, credential, hd, selected_of_ok hs, hsubject, rfl,
        rfl⟩

end

/-! ## A console to instantiate the theorems at -/

namespace Sample

/-- Two agents, each with a profile of its own. -/
def document : ProfilesDocument where
  defaultProfile := none
  profiles := [
    ⟨"night", ⟨"ops"⟩, ⟨"operator"⟩, some "large", some 4, none⟩,
    ⟨"day", ⟨"dev"⟩, ⟨"developer"⟩, none, none, some 8⟩]

def catalog : List Agent :=
  [⟨"ops", "operations", true, none, none⟩, ⟨"dev", "development", true, none, none⟩]

/-- `--profiles profiles.json --agent ops`. -/
def cli : Cli where
  config := none
  socket := none
  serverUid := none
  subject := none
  agent := some ⟨"ops"⟩
  smokeConversation := false
  profiles := some "profiles.json"
  profile := none
  model := none
  authFile := none
  endpoint := none
  apiKeyEnv := none
  maxSteps := none
  maxCapabilityCalls := none
  structured := false

def launch : Launch where
  document := .ok document
  catalog := .ok catalog
  stdinTty := true
  stdoutTty := true
  credential := .ok "auth.json"
  broker := .ok "broker.sock"

def options : ConsoleOptions :=
  startOptions cli document (initialProfile cli document) ⟨"operator"⟩

def app : App :=
  startApp .plain catalog options (initialProfile cli document) "broker.sock" "auth.json"

/-- A broker that grants one capability to whoever asks. -/
def answers : Answers where
  leg := .ok ⟨[⟨"files.read", "read", "low", ""⟩], [], [], "trace"⟩
  record := .ok ⟨"Succeeded", true, none⟩
  parent := ⟨[]⟩
  model := .ok ()
  blob bytes := .ok ⟨bytes⟩

/-- A broker that is gone. -/
def gone : Answers := { answers with leg := .error (.root ⟨"connection refused", none⟩) }

/-- A hop into `ops`, and `h` typed there. -/
def typed : List Label :=
  [.key ⟨.enter, .none⟩ answers, .key ⟨.char 'h', .none⟩ answers]

theorem loadDocument_eq : loadDocument launch cli = .ok document := by rfl

theorem execute_eq : execute .plain launch cli = .ok (app, options) := by rfl

end Sample

end DekoponConsole
