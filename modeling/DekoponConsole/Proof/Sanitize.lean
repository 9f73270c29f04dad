/-
  What sanitising does to a text.

  * `sanitizeChar_eq`: a character is `Kept`, as the `Harmless` ones, tabs and newlines
    are, or replaced;
  * `intercalate_sanitizeLine`: sanitising line by line and as a whole agree;
  * `Sanitizes` is what a renderer relies on, over Unicode's own directional
    characters (`BidiControl`);
  * `sanitizes_iff`: it holds of exactly the texts without an Arabic letter mark,
    the one directional character `sanitize` does not replace.
-/
import DekoponConsole.Lib.Framing
import DekoponConsole.Redact

namespace DekoponConsole

/-! ## One character -/

/-- A terminal takes the character for text. -/
def Harmless (c : Char) : Prop := isControl c = false ∧ isBidiControl c = false

instance : DecidablePred Harmless := fun _ => inferInstanceAs (Decidable (_ ∧ _))

theorem harmless_replacement : Harmless controlReplacement := by decide

/-- The characters `sanitize` keeps: text, and the ones a renderer decides about. -/
def Kept (c : Char) : Prop := c = '\t' ∨ c = '\n' ∨ Harmless c

instance : DecidablePred Kept := fun _ => inferInstanceAs (Decidable (_ ∨ _))

theorem sanitizeChar_eq (c : Char) :
    sanitizeChar c = if Kept c then c else controlReplacement := by
  unfold sanitizeChar
  by_cases hline : c = '\t' ∨ c = '\n'
  · have hkept : Kept c := hline.imp_right Or.inl
    rw [if_pos (by simpa using hline), if_pos hkept]
  · obtain ⟨htab, hnewline⟩ := not_or.1 hline
    have hkept : Kept c ↔ isControl c = false ∧ isBidiControl c = false := by
      simp [Kept, Harmless, htab, hnewline]
    rw [if_neg (by simpa using hline)]
    cases hbidi : isBidiControl c <;> cases hcontrol : isControl c <;>
      simp [hkept, hbidi, hcontrol]

theorem sanitizeChar_of_kept {c : Char} (h : Kept c) : sanitizeChar c = c := by
  rw [sanitizeChar_eq, if_pos h]

theorem kept_sanitizeChar (c : Char) : Kept (sanitizeChar c) := by
  rw [sanitizeChar_eq]
  split_ifs with h
  · exact h
  · exact Or.inr (Or.inr harmless_replacement)

theorem sanitizeChar_sanitizeChar (c : Char) : sanitizeChar (sanitizeChar c) = sanitizeChar c :=
  sanitizeChar_of_kept (kept_sanitizeChar c)

/-- What is kept comes from itself alone, the replacement apart. -/
theorem sanitizeChar_eq_iff {c d : Char} (hd : Kept d) (hne : d ≠ controlReplacement) :
    sanitizeChar c = d ↔ c = d := by
  constructor
  · intro h
    rw [sanitizeChar_eq] at h
    split_ifs at h
    · exact h
    · exact absurd h.symm hne
  · rintro rfl
    exact sanitizeChar_of_kept hd

/-! ## Texts and lines -/

@[simp] theorem length_sanitizeLine (line : String) :
    (sanitizeLine line).toList.length = line.toList.length := by
  simp [sanitizeLine, sanitize]

theorem mem_sanitize {text : String} {c : Char} :
    c ∈ (sanitize text).toList ↔ ∃ d ∈ text.toList, sanitizeChar d = c := by
  simp [sanitize]

/-- A sanitised line is text throughout. -/
theorem harmless_of_mem_sanitizeLine {text : String} {c : Char}
    (h : c ∈ (sanitizeLine text).toList) : Harmless c := by
  simp only [sanitizeLine, String.toList_ofList, List.mem_map] at h
  obtain ⟨d, hd, rfl⟩ := h
  obtain ⟨d, -, rfl⟩ := mem_sanitize.1 hd
  split_ifs with hline
  · decide
  · simp only [Bool.or_eq_true, beq_iff_eq, not_or] at hline
    rcases kept_sanitizeChar d with h | h | h
    · exact absurd h hline.2
    · exact absurd h hline.1
    · exact h

theorem newline_not_mem_sanitizeLine (line : String) : '\n' ∉ (sanitizeLine line).toList := by
  intro h
  exact absurd (harmless_of_mem_sanitizeLine h) (by decide)

theorem sanitize_sanitize (text : String) : sanitize (sanitize text) = sanitize text := by
  rw [sanitize, sanitize, String.toList_ofList, List.map_map]
  congr 2
  funext c
  exact sanitizeChar_sanitizeChar c

/-- A text whose tabs are turned into spaces. -/
def tabsToSpaces (text : String) : String :=
  String.ofList (text.toList.map fun c => if c = '\t' then ' ' else c)

/-- **Line by line and as a whole.**  The sanitised lines of a text join to the
    sanitised text, with its tabs turned into spaces. -/
theorem intercalate_sanitizeLine (text : String) :
    "\n".intercalate ((split text '\n').map sanitizeLine) = tabsToSpaces (sanitize text) := by
  have hpieces : ((split text '\n').map sanitizeLine).map String.toList =
      (text.toList.splitOn '\n').map (List.map fun c =>
        if sanitizeChar c == '\n' || sanitizeChar c == '\t' then ' ' else sanitizeChar c) := by
    simp [split, sanitizeLine, sanitize, Function.comp_def]
  refine String.toList_injective ?_
  rw [String.toList_intercalate, hpieces]
  show ['\n'].intercalate _ = _
  rw [Framing.intercalate_map_splitOn, tabsToSpaces, sanitize, String.toList_ofList,
    String.toList_ofList, List.map_map]
  refine List.map_congr_left ?_
  intro c _
  rw [Function.comp_apply]
  by_cases hc : c = '\n'
  · subst hc
    rfl
  · have hne : sanitizeChar c ≠ '\n' := by rwa [ne_eq, sanitizeChar_eq_iff (by decide) (by decide)]
    simp [hc, hne]

/-! ## Unicode's directional characters -/

/-- The property `Bidi_Control` of Unicode. -/
def BidiControl (c : Char) : Prop :=
  c.toNat = 0x61c ∨ c.toNat = 0x200e ∨ c.toNat = 0x200f ∨
    (0x202a ≤ c.toNat ∧ c.toNat ≤ 0x202e) ∨ (0x2066 ≤ c.toNat ∧ c.toNat ≤ 0x2069)

instance : DecidablePred BidiControl := fun _ => inferInstanceAs (Decidable (_ ∨ _))

/-- The directional character that `sanitize` keeps. -/
def arabicLetterMark : Char := Char.ofNat 0x61c

theorem eq_arabicLetterMark {c : Char} : c = arabicLetterMark ↔ c.toNat = 0x61c := by
  constructor
  · rintro rfl
    rfl
  · intro h
    exact Char.toNat_inj.1 (h.trans rfl)

theorem bidiControl_iff {c : Char} :
    BidiControl c ↔ c = arabicLetterMark ∨ isBidiControl c = true := by
  rw [eq_arabicLetterMark]
  simp [BidiControl, isBidiControl, or_assoc]

/-- Text that no terminal acts on or reorders by. -/
def Inert (c : Char) : Prop := isControl c = false ∧ ¬BidiControl c

theorem inert_iff {c : Char} : Inert c ↔ Harmless c ∧ c ≠ arabicLetterMark := by
  rw [Inert, Harmless, bidiControl_iff, not_or, Bool.not_eq_true]
  tauto

/-- What is promised of sanitising a text: every character that is inert, a tab or a
    newline stays at its place, no other one is left, and a line has none but inert
    ones; sanitising again changes nothing, and neither does sanitising by lines,
    the tabs apart. -/
structure Sanitizes (text : String) : Prop where
  length : (sanitize text).toList.length = text.toList.length
  kept : ∀ (i : ℕ) (c : Char), text.toList[i]? = some c → (c = '\t' ∨ c = '\n' ∨ Inert c) →
    (sanitize text).toList[i]? = some c
  complete : ∀ c ∈ (sanitize text).toList, c = '\t' ∨ c = '\n' ∨ Inert c
  idempotent : sanitize (sanitize text) = sanitize text
  line : ∀ c ∈ (sanitizeLine text).toList, c ≠ '\t' ∧ c ≠ '\n' ∧ Inert c
  joined : "\n".intercalate ((split text '\n').map sanitizeLine) = tabsToSpaces (sanitize text)

theorem arabicLetterMark_mem_sanitize {text : String} :
    arabicLetterMark ∈ (sanitize text).toList ↔ arabicLetterMark ∈ text.toList := by
  have hmark (c : Char) : sanitizeChar c = arabicLetterMark ↔ c = arabicLetterMark :=
    sanitizeChar_eq_iff (by decide) (by decide)
  simp [mem_sanitize, hmark]

/-- **Exactly when sanitising is complete.**  Sanitising keeps its promise on every
    text but those with an Arabic letter mark, which it lets through. -/
theorem sanitizes_iff (text : String) : Sanitizes text ↔ arabicLetterMark ∉ text.toList := by
  constructor
  · intro h hmem
    rcases h.complete _ (arabicLetterMark_mem_sanitize.2 hmem) with h | h | h
    · exact absurd h (by decide)
    · exact absurd h (by decide)
    · exact (inert_iff.1 h).2 rfl
  · intro hmark
    refine ⟨by simp [sanitize], ?_, ?_, sanitize_sanitize text, ?_, intercalate_sanitizeLine text⟩
    · intro i c hc hkept
      have hs : sanitizeChar c = c :=
        sanitizeChar_of_kept (hkept.imp_right (Or.imp_right fun h => (inert_iff.1 h).1))
      simp [sanitize, hc, hs]
    · intro c hc
      have hne : c ≠ arabicLetterMark := fun he => hmark (arabicLetterMark_mem_sanitize.1 (he ▸ hc))
      obtain ⟨d, -, rfl⟩ := mem_sanitize.1 hc
      exact (kept_sanitizeChar d).imp_right (Or.imp_right fun h => inert_iff.2 ⟨h, hne⟩)
    · intro c hc
      have hharm := harmless_of_mem_sanitizeLine hc
      refine ⟨fun he => absurd (he ▸ hharm) (by decide), fun he => absurd (he ▸ hharm) (by decide),
        inert_iff.2 ⟨hharm, ?_⟩⟩
      rintro rfl
      simp only [sanitizeLine, String.toList_ofList, List.mem_map] at hc
      obtain ⟨d, hd, hcollapsed⟩ := hc
      split_ifs at hcollapsed
      · exact absurd hcollapsed (by decide)
      · exact hmark (arabicLetterMark_mem_sanitize.1 (hcollapsed ▸ hd))

/-- A name that is reordered by the mark in it reaches a renderer as it is. -/
theorem letter_mark_survives :
    sanitize (String.ofList ['a', arabicLetterMark, '1']) =
        String.ofList ['a', arabicLetterMark, '1'] ∧
      BidiControl arabicLetterMark ∧
      ¬Sanitizes (String.ofList ['a', arabicLetterMark, '1']) := by
  refine ⟨by decide, by decide, ?_⟩
  intro h
  rcases h.complete arabicLetterMark (by decide) with h | h | h
  · exact absurd h (by decide)
  · exact absurd h (by decide)
  · exact h.2 (by decide)

end DekoponConsole
