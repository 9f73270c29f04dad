/-
  Whose identity startup selects.

  * `selectIdentity` is startup as far as the subject, `openConsole` what follows
    it (`execute_eq`);
  * `NamesIdentity` says which subject a document and a command line name;
  * `selection_iff`: the checks and the fallbacks together select just that one.
-/
import DekoponConsole.Proof.Startup

namespace DekoponConsole

/-! ## Startup in two parts -/

/-- What identity selection leaves. -/
structure Identity where
  document : ProfilesDocument
  catalog : List Agent
  initial : Option OperatorProfile
  subject : ExternalSubject

/-- `execute` up to the subject it acts under. -/
def selectIdentity (launch : Launch) (cli : Cli) : Except ConsoleError Identity := do
  let document ← loadDocument launch cli
  checkSelection cli document
  let catalog ← launch.catalog.mapError .config
  checkCatalog cli document catalog
  let initial := initialProfile cli document
  match (initial.map OperatorProfile.subject).or cli.subject with
  | none => .error .noSubject
  | some subject => .ok ⟨document, catalog, initial, subject⟩

/-- `execute` from the subject on. -/
def openConsole (exts : Externals) (launch : Launch) (cli : Cli) (identity : Identity) :
    Except ConsoleError (App × ConsoleOptions) := do
  validateTerminal cli launch.stdinTty launch.stdoutTty
  if cli.structured ∧ cli.agent.isNone ∧ cli.profile.isNone then .error .structuredAgent
  else
    let options := startOptions cli identity.document identity.initial identity.subject
    let credential ← match options.modelChoice with
      | .chatGptSubscription _ => launch.credential.mapError .session
      | .openAiCompatible endpoint _ => .ok endpoint
    let socket ← launch.broker.mapError .session
    .ok (startApp exts identity.catalog options identity.initial socket credential, options)

theorem execute_eq (exts : Externals) (launch : Launch) (cli : Cli) :
    execute exts launch cli = selectIdentity launch cli >>= openConsole exts launch cli := by
  unfold execute selectIdentity
  cases loadDocument launch cli with
  | error error => rfl
  | ok document =>
    simp only [bind, Except.bind]
    cases checkSelection cli document with
    | error error => rfl
    | ok =>
      simp only
      cases launch.catalog.mapError ConsoleError.config with
      | error error => rfl
      | ok catalog =>
        simp only
        cases checkCatalog cli document catalog with
        | error error => rfl
        | ok =>
          simp only
          cases ((initialProfile cli document).map OperatorProfile.subject).or cli.subject with
          | none => rfl
          | some subject => rfl

/-! ## The specification -/

/-- The subject that a document and a command line name. -/
inductive NamesIdentity (cli : Cli) (document : ProfilesDocument) : ExternalSubject → Prop
  /-- no profiles: `--subject`, and no `--profile` -/
  | subjectOnly {subject : ExternalSubject} (hp : document.profiles = [])
      (hn : cli.profile = none) (hs : cli.subject = some subject) :
      NamesIdentity cli document subject
  /-- `--profile`, bound to `--agent` if that is given -/
  | named {p : OperatorProfile} (hm : p ∈ document.profiles) (hs : cli.subject = none)
      (hn : cli.profile = some p.name) (ha : ∀ agent, cli.agent = some agent → p.agent = agent) :
      NamesIdentity cli document p.subject
  /-- `--agent` alone: the only profile bound to it -/
  | bound {p : OperatorProfile} (hm : p ∈ document.profiles) (hs : cli.subject = none)
      (hn : cli.profile = none) (ha : cli.agent = some p.agent)
      (hone : ∀ q ∈ document.profiles, q.agent = p.agent → q = p) :
      NamesIdentity cli document p.subject
  /-- neither: the default profile -/
  | authored {p : OperatorProfile} (hm : p ∈ document.profiles) (hs : cli.subject = none)
      (hn : cli.profile = none) (ha : cli.agent = none)
      (hd : document.defaultProfile = some p.name) : NamesIdentity cli document p.subject

section
variable {cli : Cli} {document : ProfilesDocument} {p : OperatorProfile}

theorem find?_name (hnames : (document.profiles.map OperatorProfile.name).Nodup)
    (hm : p ∈ document.profiles) :
    document.profiles.find? (fun q => q.name == p.name) = some p := by
  cases hf : document.profiles.find? fun q => q.name == p.name with
  | none =>
    have := List.find?_eq_none.1 hf p hm
    simp at this
  | some q =>
    have hq : q.name = p.name := by simpa using List.find?_some hf
    rw [List.inj_on_of_nodup_map hnames (List.mem_of_find?_eq_some hf) hm hq]

/-- The profile the console starts under, by the options that are given. -/
theorem initialProfile_named {name : String} (hn : cli.profile = some name) :
    initialProfile cli document = document.profiles.find? fun q => q.name == name := by
  simp [initialProfile, chosenProfile, hn]

theorem initialProfile_bound {agent : AgentId} (hn : cli.profile = none)
    (ha : cli.agent = some agent) :
    initialProfile cli document = (document.profiles.filter fun q => q.agent == agent).head? := by
  simp [initialProfile, chosenProfile, matchingProfiles, hn, ha]

theorem initialProfile_authored (hn : cli.profile = none) (ha : cli.agent = none) :
    initialProfile cli document =
      document.defaultProfile.bind fun name => document.profiles.find? fun q => q.name == name := by
  simp [initialProfile, chosenProfile, matchingProfiles, hn, ha]

/-- The only element satisfying a test is all that filtering keeps. -/
theorem filter_agent_eq (hnames : (document.profiles.map OperatorProfile.name).Nodup)
    (hm : p ∈ document.profiles) (hone : ∀ q ∈ document.profiles, q.agent = p.agent → q = p) :
    document.profiles.filter (fun q => q.agent == p.agent) = [p] := by
  have hnodup : (document.profiles.filter fun q => q.agent == p.agent).Nodup :=
    hnames.of_map.filter _
  refine List.perm_singleton.1 ((List.perm_ext_iff_of_nodup hnodup (by simp)).2 ?_)
  intro q
  rw [List.mem_filter, List.mem_singleton, beq_iff_eq]
  constructor
  · rintro ⟨hq, ha⟩
    exact hone q hq ha
  · rintro rfl
    exact ⟨hm, rfl⟩

theorem eq_of_length_filter {agent : AgentId} {q : OperatorProfile}
    (hlen : (document.profiles.filter fun q => q.agent == agent).length ≤ 1)
    (hp : (document.profiles.filter fun q => q.agent == agent).head? = some p)
    (hq : q ∈ document.profiles) (ha : q.agent = agent) : q = p := by
  have hmem : q ∈ document.profiles.filter fun q => q.agent == agent :=
    List.mem_filter.2 ⟨hq, by simpa using ha⟩
  cases hf : document.profiles.filter fun q => q.agent == agent with
  | nil => simp [hf] at hmem
  | cons r rest =>
    rw [hf] at hlen hp hmem
    obtain rfl : rest = [] := List.length_eq_zero_iff.1 (by simpa using hlen)
    obtain rfl : r = p := by simpa using hp
    simpa using hmem

/-! ## The checks select it -/

/-- What the checks let through with a subject is named. -/
theorem namesIdentity_of_selected {subject : ExternalSubject} (hsel : Selected cli document)
    (h : ((initialProfile cli document).map OperatorProfile.subject).or cli.subject =
      some subject) : NamesIdentity cli document subject := by
  have hexclusive {q : OperatorProfile} (hq : q ∈ document.profiles) : cli.subject = none :=
    hsel.exclusive (List.ne_nil_of_mem hq)
  cases hi : initialProfile cli document with
  | none =>
    have hs : cli.subject = some subject := by simpa [hi] using h
    have hp : document.profiles = [] := by
      by_contra hne
      simp [hsel.exclusive hne] at hs
    refine .subjectOnly hp ?_ hs
    cases hn : cli.profile with
    | none => rfl
    | some name =>
      obtain ⟨q, hq, -⟩ := hsel.named name hn
      simp [hp] at hq
  | some p =>
    obtain rfl : p.subject = subject := by simpa [hi] using h
    cases hn : cli.profile with
    | some name =>
      have hfind := (initialProfile_named hn).symm.trans hi
      have hm := List.mem_of_find?_eq_some hfind
      have hname : p.name = name := by simpa using List.find?_some hfind
      exact .named hm (hexclusive hm) (hname ▸ hn) fun agent ha => (hsel.agrees agent p ha hi).symm
    | none =>
      cases ha : cli.agent with
      | some agent =>
        have hhead := (initialProfile_bound hn ha).symm.trans hi
        have hlen := hsel.single (by simp [ha]) hn
        rw [matchingProfiles, ha] at hlen
        obtain ⟨hm, hagent⟩ := List.mem_filter.1 (List.mem_of_head? hhead)
        obtain rfl : p.agent = agent := by simpa using hagent
        exact .bound hm (hexclusive hm) hn ha fun q hq hqa => eq_of_length_filter hlen hhead hq hqa
      | none =>
        obtain ⟨name, hd, hfind⟩ :=
          Option.bind_eq_some_iff.1 ((initialProfile_authored hn ha).symm.trans hi)
        have hm := List.mem_of_find?_eq_some hfind
        have hname : p.name = name := by simpa using List.find?_some hfind
        exact .authored hm (hexclusive hm) hn ha (hname ▸ hd)

/-- The converse of `selected_of_ok`, where some identity is named. -/
theorem checkSelection_eq_ok (hsel : Selected cli document)
    (h : (initialProfile cli document).isSome ∨ cli.subject.isSome) :
    checkSelection cli document = .ok () := by
  have hnamed : ¬ (cli.profile.isSome ∧
      !document.profiles.any fun p => some p.name == cli.profile) := by
    rintro ⟨hs, hany⟩
    obtain ⟨name, hn⟩ := Option.isSome_iff_exists.1 hs
    obtain ⟨p, hp, rfl⟩ := hsel.named name hn
    have hp : document.profiles.any fun p => some p.name == cli.profile :=
      List.any_eq_true.2 ⟨p, hp, by simp [hn]⟩
    simp [hp] at hany
  have hsingle : ¬ (cli.agent.isSome ∧ cli.profile.isNone ∧
      (matchingProfiles cli document).length > 1) := by
    rintro ⟨ha, hp, hlen⟩
    have := hsel.single ha (by simpa using hp)
    omega
  have hexclusive : ¬ (cli.subject.isSome ∧ !document.profiles.isEmpty) := by
    rintro ⟨hs, hp⟩
    simp [hsel.exclusive (by simpa using hp)] at hs
  rw [checkSelection, if_neg hnamed, if_neg hsingle, if_neg hexclusive]
  cases ha : cli.agent with
  | some agent =>
    cases hi : initialProfile cli document with
    | some p => exact if_neg (not_not.2 (hsel.agrees agent p ha hi))
    | none => rfl
  | none =>
    cases hi : initialProfile cli document with
    | some p => rfl
    | none =>
      have hs : cli.subject.isSome := by simpa [hi] using h
      obtain ⟨subject, hs⟩ := Option.isSome_iff_exists.1 hs
      simp [hs]

/-- A named identity passes the checks, and is the one selected. -/
theorem NamesIdentity.selected {subject : ExternalSubject}
    (hnames : (document.profiles.map OperatorProfile.name).Nodup)
    (h : NamesIdentity cli document subject) : Selected cli document ∧
      ((initialProfile cli document).map OperatorProfile.subject).or cli.subject = some subject := by
  cases h with
  | subjectOnly hp hn hs =>
    have hmatching : matchingProfiles cli document = [] := by
      rw [matchingProfiles, hp]
      cases cli.agent <;> rfl
    have hi : initialProfile cli document = none := by simp [initialProfile, hp, hmatching]
    refine ⟨⟨?_, ?_, ?_, ?_⟩, by simp [hi, hs]⟩
    · simp [hn]
    · simp [hmatching]
    · exact fun hne => absurd hp hne
    · simp [hi]
  | @named p hm hs hn ha =>
    have hi : initialProfile cli document = some p :=
      (initialProfile_named hn).trans (find?_name hnames hm)
    refine ⟨⟨?_, ?_, fun _ => hs, ?_⟩, by simp [hi]⟩
    · intro name hname
      exact ⟨p, hm, Option.some.inj (hn.symm.trans hname)⟩
    · simp [hn]
    · rintro agent q hagent hq
      obtain rfl : p = q := Option.some.inj (hi.symm.trans hq)
      exact (ha agent hagent).symm
  | @bound p hm hs hn ha hone =>
    have hfilter := filter_agent_eq hnames hm hone
    have hi : initialProfile cli document = some p := by
      rw [initialProfile_bound hn ha, hfilter]
      rfl
    refine ⟨⟨?_, ?_, fun _ => hs, ?_⟩, by simp [hi]⟩
    · simp [hn]
    · intro _ _
      rw [matchingProfiles, ha]
      simp only [hfilter]
      simp
    · rintro agent q hagent hq
      obtain rfl : p = q := Option.some.inj (hi.symm.trans hq)
      exact Option.some.inj (hagent.symm.trans ha)
  | @authored p hm hs hn ha hd =>
    have hi : initialProfile cli document = some p := by
      rw [initialProfile_authored hn ha, hd]
      exact find?_name hnames hm
    refine ⟨⟨?_, ?_, fun _ => hs, ?_⟩, by simp [hi]⟩
    · simp [hn]
    · simp [ha]
    · simp [ha]

/-- **The checks and the fallbacks** let through just what names an identity. -/
theorem selection_iff (hnames : (document.profiles.map OperatorProfile.name).Nodup)
    {subject : ExternalSubject} :
    checkSelection cli document = .ok () ∧
        ((initialProfile cli document).map OperatorProfile.subject).or cli.subject =
          some subject ↔
      NamesIdentity cli document subject := by
  constructor
  · rintro ⟨hok, hsubject⟩
    exact namesIdentity_of_selected (selected_of_ok hok) hsubject
  · intro h
    obtain ⟨hsel, hsubject⟩ := h.selected hnames
    refine ⟨checkSelection_eq_ok hsel ?_, hsubject⟩
    cases hi : initialProfile cli document with
    | some p => exact Or.inl rfl
    | none => exact Or.inr (by simp [show cli.subject = some subject by simpa [hi] using hsubject])

end

/-! ## Startup -/

/-- The agents named by `--agent` and by the profiles are in the catalog. -/
def InCatalog (cli : Cli) (document : ProfilesDocument) (catalog : List Agent) : Prop :=
  (∀ agent, cli.agent = some agent → ∃ a ∈ catalog, a.name = agent.asStr) ∧
    ∀ p ∈ document.profiles, ∃ a ∈ catalog, a.name = p.agent.asStr

theorem checkCatalog_eq_ok {cli : Cli} {document : ProfilesDocument} {catalog : List Agent}
    (h : InCatalog cli document catalog) : checkCatalog cli document catalog = .ok () := by
  have hknown (agent : AgentId) (ha : ∃ a ∈ catalog, a.name = agent.asStr) :
      (!catalog.any fun a => a.name == agent.asStr) = false := by
    obtain ⟨a, hm, hn⟩ := ha
    have : (catalog.any fun a => a.name == agent.asStr) = true :=
      List.any_eq_true.2 ⟨a, hm, by simp [hn]⟩
    simp [this]
  have hagent : (cli.agent.filter fun agent => !catalog.any fun a => a.name == agent.asStr) =
      none := by
    cases ha : cli.agent with
    | none => rfl
    | some agent => simp only [Option.filter, hknown agent (h.1 agent ha), Bool.false_eq_true, if_false]
  have hprofiles : (document.profiles.find? fun p =>
      !catalog.any fun a => a.name == p.agent.asStr) = none := by
    refine List.find?_eq_none.2 ?_
    intro p hp
    simp [hknown p.agent (h.2 p hp)]
  simp only [checkCatalog, hagent, hprofiles]

/-- **Startup selects the identity its specification names**, acts under it, and
    refuses where none is named. -/
theorem execute_selects {exts : Externals} {launch : Launch} {cli : Cli}
    {document : ProfilesDocument} {catalog : List Agent}
    (hd : loadDocument launch cli = .ok document) (hc : launch.catalog = .ok catalog)
    (hk : InCatalog cli document catalog) :
    execute exts launch cli = selectIdentity launch cli >>= openConsole exts launch cli ∧
      (∀ subject, (∃ identity, selectIdentity launch cli = .ok identity ∧
        identity.subject = subject) ↔ NamesIdentity cli document subject) ∧
      (∀ app options, execute exts launch cli = .ok (app, options) →
        NamesIdentity cli document options.subject ∧ app.subject = options.subject.asStr) ∧
      ((∀ subject, ¬ NamesIdentity cli document subject) →
        ∃ error, selectIdentity launch cli = .error error ∧
          execute exts launch cli = .error error) := by
  have hnames := names_nodup hd
  have hiff (subject : ExternalSubject) : (∃ identity, selectIdentity launch cli = .ok identity ∧
      identity.subject = subject) ↔ NamesIdentity cli document subject := by
    rw [← selection_iff hnames]
    constructor
    · rintro ⟨identity, hi, rfl⟩
      unfold selectIdentity at hi
      obtain ⟨document', hd', hi⟩ := bind_eq_ok hi
      obtain rfl : document = document' := Except.ok.inj (hd.symm.trans hd')
      obtain ⟨_, hs, hi⟩ := bind_eq_ok hi
      obtain ⟨_, -, hi⟩ := bind_eq_ok hi
      obtain ⟨_, -, hi⟩ := bind_eq_ok hi
      refine ⟨hs, ?_⟩
      dsimp only at hi
      split at hi
      · cases hi
      next subject hsubject =>
        obtain rfl := Except.ok.inj hi
        exact hsubject
    · rintro ⟨hs, hsubject⟩
      refine ⟨⟨document, catalog, initialProfile cli document, subject⟩, ?_, rfl⟩
      simp only [selectIdentity, hd, hs, hc, checkCatalog_eq_ok hk, bind, Except.bind,
        Except.mapError, hsubject]
  refine ⟨execute_eq exts launch cli, hiff, ?_, ?_⟩
  · intro app options h
    obtain ⟨document', _, subject, _, _, hd', hsel, hsubject, hoptions, happ⟩ := execute_cases h
    obtain rfl : document = document' := Except.ok.inj (hd.symm.trans hd')
    have hopt : options.subject = subject := by rw [hoptions]; rfl
    rw [hopt]
    refine ⟨namesIdentity_of_selected hsel hsubject, ?_⟩
    rw [happ, ← hopt]
    rfl
  · intro hnone
    cases hi : selectIdentity launch cli with
    | ok identity => exact absurd ((hiff _).1 ⟨identity, hi, rfl⟩) (hnone _)
    | error error =>
      refine ⟨error, rfl, ?_⟩
      rw [execute_eq, hi]
      rfl

theorem execute_selects_sample :
    execute .plain Sample.launch Sample.cli =
        selectIdentity Sample.launch Sample.cli >>= openConsole .plain Sample.launch Sample.cli ∧
      (∀ subject, (∃ identity, selectIdentity Sample.launch Sample.cli = .ok identity ∧
        identity.subject = subject) ↔ NamesIdentity Sample.cli Sample.document subject) ∧
      (∀ app options, execute .plain Sample.launch Sample.cli = .ok (app, options) →
        NamesIdentity Sample.cli Sample.document options.subject ∧
          app.subject = options.subject.asStr) ∧
      ((∀ subject, ¬ NamesIdentity Sample.cli Sample.document subject) →
        ∃ error, selectIdentity Sample.launch Sample.cli = .error error ∧
          execute .plain Sample.launch Sample.cli = .error error) := by
  have hcatalog : InCatalog Sample.cli Sample.document Sample.catalog := by
    refine ⟨?_, by decide⟩
    rintro agent h
    obtain rfl := Option.some.inj h
    decide
  exact execute_selects Sample.loadDocument_eq rfl hcatalog

end DekoponConsole
