/-
  Which profile documents are accepted.

  * `OperatorProfile.Valid` and `ProfilesDocument.WellFormed`: what a document has
    to be, said of the document as a whole;
  * `checkProfiles_ok_iff`: the loop accepts valid profiles whose names are new and
    distinct, and has then seen exactly their names;
  * `accepted_iff_wellFormed`: a document is accepted exactly if it is well formed.
-/
import DekoponConsole.Execute

namespace DekoponConsole

/-! ## Well-formed documents -/

/-- What a profile may say by itself: a name of letters, digits, hyphens and
    underscores, a model that is not blank, and bounds within their ranges. -/
structure OperatorProfile.Valid (p : OperatorProfile) : Prop where
  named : p.name ≠ ""
  letters : ∀ c ∈ p.name.toList, c.isAlphanum ∨ c = '-' ∨ c = '_'
  model : ∀ model, p.model = some model → ∃ c ∈ model.toList, isWhitespace c = false
  steps : ∀ n, p.maxSteps = some n → 1 ≤ n ∧ n ≤ 64
  calls : ∀ n, p.maxCapabilityCalls = some n → 1 ≤ n ∧ n ≤ 256

/-- Valid profiles under distinct names, and a default among them if any. -/
structure ProfilesDocument.WellFormed (document : ProfilesDocument) : Prop where
  valid : ∀ p ∈ document.profiles, p.Valid
  distinct : (document.profiles.map OperatorProfile.name).Nodup
  default_ : ∀ name, document.defaultProfile = some name →
    name ∈ document.profiles.map OperatorProfile.name

theorem wellFormed_default : ProfilesDocument.default.WellFormed :=
  ⟨by simp [ProfilesDocument.default], List.nodup_nil, by simp [ProfilesDocument.default]⟩

/-! ## The checks of one profile -/

/-- A text is blank when it is all white space. -/
theorem isEmpty_trim_iff {text : String} :
    (trim text).isEmpty = true ↔ ∀ c ∈ text.toList, isWhitespace c = true := by
  have hall (l : List Char) : (l.dropWhile isWhitespace).reverse.dropWhile isWhitespace = [] ↔
      ∀ c ∈ l, isWhitespace c = true := by
    rw [List.dropWhile_eq_nil_iff]
    constructor
    · intro h
      by_contra hne
      have hdrop : l.dropWhile isWhitespace ≠ [] := mt List.dropWhile_eq_nil_iff.1 hne
      have hhead := List.head_dropWhile_not isWhitespace hdrop
      have := h _ (List.mem_reverse.2 (List.head_mem hdrop))
      simp [hhead] at this
    · intro h c hc
      exact h c ((List.dropWhile_suffix _).subset (List.mem_reverse.1 hc))
  rw [String.isEmpty_iff, trim, String.ofList_eq_empty_iff, List.reverse_eq_nil_iff, hall]

theorem badModelOrBounds_eq_false_iff {p : OperatorProfile} :
    p.badModelOrBounds = false ↔
      (∀ model, p.model = some model → ∃ c ∈ model.toList, isWhitespace c = false) ∧
        (∀ n, p.maxSteps = some n → 1 ≤ n ∧ n ≤ 64) ∧
        ∀ n, p.maxCapabilityCalls = some n → 1 ≤ n ∧ n ≤ 256 := by
  have hmodel (model : String) : (trim model).isEmpty = false ↔
      ∃ c ∈ model.toList, isWhitespace c = false := by
    rw [← Bool.not_eq_true, isEmpty_trim_iff]
    simp
  simp [OperatorProfile.badModelOrBounds, Option.any_eq_false, hmodel, and_assoc]

/-- A profile is valid when the loop raises neither of its errors, the one for a
    name seen before apart. -/
theorem valid_iff {p : OperatorProfile} :
    p.Valid ↔ (p.name.isEmpty = false ∧ p.name.toList.all isNameChar = true) ∧
      p.badModelOrBounds = false := by
  have hname : p.name.isEmpty = false ↔ p.name ≠ "" := by
    rw [← Bool.not_eq_true, String.isEmpty_iff]
  have hletters : p.name.toList.all isNameChar = true ↔
      ∀ c ∈ p.name.toList, c.isAlphanum ∨ c = '-' ∨ c = '_' := by
    simp [isNameChar, or_assoc]
  rw [hname, hletters, badModelOrBounds_eq_false_iff]
  constructor
  · rintro ⟨hnamed, hl, hm, hs, hc⟩
    exact ⟨⟨hnamed, hl⟩, hm, hs, hc⟩
  · rintro ⟨⟨hnamed, hl⟩, hm, hs, hc⟩
    exact ⟨hnamed, hl, hm, hs, hc⟩

/-! ## The loop -/

theorem checkProfiles_cons_ok_iff {names names' : List String} {p : OperatorProfile}
    {ps : List OperatorProfile} :
    checkProfiles names (p :: ps) = .ok names' ↔
      p.Valid ∧ p.name ∉ names ∧ checkProfiles (p.name :: names) ps = .ok names' := by
  rw [checkProfiles, valid_iff]
  by_cases hname : p.name.isEmpty || !p.name.toList.all isNameChar || names.contains p.name
  · rw [if_pos hname]
    refine iff_of_false (by simp) ?_
    rintro ⟨⟨⟨he, hl⟩, -⟩, hnew, -⟩
    simp [he, hl, hnew] at hname
  · have hgood : (p.name.isEmpty = false ∧ p.name.toList.all isNameChar = true) ∧
        p.name ∉ names := by
      simpa [and_assoc] using hname
    rw [if_neg hname]
    by_cases hbad : p.badModelOrBounds
    · rw [if_pos hbad]
      exact iff_of_false (by simp) fun h => by simp [hbad] at h
    · rw [if_neg hbad]
      simp only [Bool.not_eq_true] at hbad
      simp [hgood.1, hgood.2, hbad]

/-- **The loop of `read_profiles`**, from any set of names seen so far. -/
theorem checkProfiles_ok_iff {names names' : List String} {profiles : List OperatorProfile} :
    checkProfiles names profiles = .ok names' ↔
      (∀ p ∈ profiles, p.Valid) ∧ (profiles.map OperatorProfile.name).Nodup ∧
        (∀ p ∈ profiles, p.name ∉ names) ∧
        names' = (profiles.map OperatorProfile.name).reverse ++ names := by
  induction profiles generalizing names with
  | nil => simp [checkProfiles, eq_comm]
  | cons p ps ih =>
    rw [checkProfiles_cons_ok_iff, ih]
    rw [List.map_cons, List.nodup_cons, List.forall_mem_cons, List.forall_mem_cons,
      List.reverse_cons, List.append_assoc, List.singleton_append]
    simp only [List.mem_cons, not_or]
    constructor
    · rintro ⟨hp, hnew, hps, hnodup, hfresh, rfl⟩
      refine ⟨⟨hp, hps⟩, ⟨?_, hnodup⟩, ⟨hnew, fun q hq => (hfresh q hq).2⟩, rfl⟩
      intro hmem
      obtain ⟨q, hq, hqn⟩ := List.mem_map.1 hmem
      exact (hfresh q hq).1 hqn
    · rintro ⟨⟨hp, hps⟩, ⟨hnot, hnodup⟩, ⟨hnew, hfresh⟩, rfl⟩
      refine ⟨hp, hnew, hps, hnodup, fun q hq => ⟨?_, hfresh q hq⟩, rfl⟩
      intro hqn
      exact hnot (List.mem_map.2 ⟨q, hq, hqn⟩)

/-! ## The document -/

/-- A document is accepted as it is. -/
theorem readProfiles_ok_iff {document accepted : ProfilesDocument} :
    readProfiles document = .ok accepted ↔ document.WellFormed ∧ accepted = document := by
  have hseen : checkProfiles [] document.profiles =
      .ok (document.profiles.map OperatorProfile.name).reverse ↔
        (∀ p ∈ document.profiles, p.Valid) ∧
          (document.profiles.map OperatorProfile.name).Nodup := by
    rw [checkProfiles_ok_iff]
    simp
  constructor
  · intro h
    cases hc : checkProfiles [] document.profiles with
    | error error => simp [readProfiles, hc, bind, Except.bind] at h
    | ok names =>
      obtain ⟨hvalid, hdistinct, -, rfl⟩ := checkProfiles_ok_iff.1 hc
      simp only [readProfiles, hc, bind, Except.bind] at h
      cases hd : document.defaultProfile with
      | none =>
        rw [hd] at h
        exact ⟨⟨hvalid, hdistinct, by simp [hd]⟩, (Except.ok.inj h).symm⟩
      | some name =>
        simp only [hd] at h
        split_ifs at h with hmem
        refine ⟨⟨hvalid, hdistinct, ?_⟩, (Except.ok.inj h).symm⟩
        intro name' hn
        obtain rfl := Option.some.inj (hd.symm.trans hn)
        simpa using hmem
  · rintro ⟨⟨hvalid, hdistinct, hdefault⟩, rfl⟩
    rw [readProfiles, hseen.2 ⟨hvalid, hdistinct⟩]
    cases hd : accepted.defaultProfile with
    | none => rfl
    | some name =>
      have hmem := hdefault name hd
      simp [bind, Except.bind, hmem]

/-- **Documents are accepted iff well formed.** -/
theorem accepted_iff_wellFormed (document : ProfilesDocument) :
    (∃ accepted, readProfiles document = .ok accepted) ↔ document.WellFormed := by
  constructor
  · rintro ⟨accepted, h⟩
    exact (readProfiles_ok_iff.1 h).1
  · intro h
    exact ⟨document, readProfiles_ok_iff.2 ⟨h, rfl⟩⟩

end DekoponConsole
