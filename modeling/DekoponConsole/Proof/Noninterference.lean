/-
  What is drawn of a secret depends on its length only.

  * `SameText`: two texts whose pieces are the same, but for runs that one rule
    hides in both, of one length;
  * `SameValue`: two values of one shape that differ in such runs, and in what
    stands under secret keys;
  * a hidden run is too long for a scheme word, so it introduces nothing
    (`SameText.introduced`), and both texts hide the same pieces;
  * `redact_sameValue`: such values are redacted to the same.
-/
import DekoponConsole.Lib.Framing
import DekoponConsole.Proof.RedactText
import DekoponConsole.Proof.Walk

namespace DekoponConsole

open Segments

variable (exts : Externals)

/-! ## Hidden runs are long -/

theorem SchemeWord.length_lt {word : List Char} (h : SchemeWord word) :
    word.length < minSecretLength := by
  obtain ⟨scheme, hmem, he⟩ := h
  have hlength : word.length = scheme.toList.length := by
    rw [← he, toAsciiLowercase, List.length_map]
  have hscheme : ∀ s ∈ ["bearer", "basic", "token"], s.toList.length < minSecretLength := by decide
  rw [hlength]
  exact hscheme scheme hmem

theorem length_of_isSecretBody {body : List Char} (h : isSecretBody body) :
    minSecretLength ≤ body.length := by
  rw [isSecretBody, Bool.and_eq_true, decide_eq_true_eq] at h
  have hbytes := byteLen_of_isTokenChar fun c hc =>
    isTokenChar_of_isBodyChar (List.all_eq_true.1 h.2 c hc)
  rw [← hbytes]
  exact h.1

theorem length_of_runIsSecret {run : List Char} (h : runIsSecret run) :
    minSecretLength ≤ run.length := by
  rw [runIsSecret, Bool.or_eq_true, Bool.and_eq_true] at h
  rcases h with h | ⟨hthree, hall⟩
  · obtain ⟨p, -, hp⟩ := List.any_eq_true.1 h
    cases hb : p.toList.isPrefixOf? run with
    | none => simp [hb] at hp
    | some body =>
      have hlength := congrArg List.length (List.isPrefixOf?_eq_some_iff_append_eq.1 hb)
      have hbody := length_of_isSecretBody (by simpa [hb] using hp)
      rw [List.length_append] at hlength
      omega
  · -- the first of three long segments is long
    obtain ⟨segment, rest, hs⟩ := List.exists_cons_of_ne_nil (List.splitOn_ne_nil '.' run)
    have hsegment : isSecretBody segment := by
      have := List.all_eq_true.1 hall segment (by simp [hs])
      simp_all
    have hlength := length_of_isSecretBody hsegment
    have hsum := Framing.length_splitOn_sum '.' run
    have hfilter := List.length_filter_le (· != '.') run
    rw [hs, List.map_cons, List.sum_cons] at hsum
    omega

theorem IsSecret.length_le {before : List (Seg Char)} {run : List Char} (h : IsSecret before run) :
    minSecretLength ≤ run.length := by
  rcases h with h | ⟨h, -⟩
  · exact length_of_runIsSecret h
  · exact h

/-! ## Texts -/

/-- The runs at a place are hidden by one rule, each in its own text, and have
    one length. -/
def HiddenAlike (l l' : List (Seg Char)) (i : ℕ) : Prop :=
  ∃ run run', l[i]? = some (.run run) ∧ l'[i]? = some (.run run') ∧ run.length = run'.length ∧
    ((runIsSecret run ∧ runIsSecret run') ∨
      (minSecretLength ≤ run.length ∧ Introduced (l.take i) ∧ Introduced (l'.take i)))

/-- The pieces are the same, but for runs hidden alike. -/
structure SamePieces (l l' : List (Seg Char)) : Prop where
  length : l.length = l'.length
  alike : ∀ i, l[i]? = l'[i]? ∨ HiddenAlike l l' i

/-- The texts differ in hidden runs only. -/
def SameText (text text' : String) : Prop :=
  SamePieces (segments isTokenChar text.toList) (segments isTokenChar text'.toList)

/-- A scheme word before a place, and whitespace between. -/
theorem introduced_take_iff {l : List (Seg Char)} {i : ℕ} (hi : i ≤ l.length) :
    Introduced (l.take i) ↔ ∃ j word, j + 1 < i ∧ l[j]? = some (.run word) ∧ SchemeWord word ∧
      ∀ k, j < k → k < i → ∃ piece, l[k]? = some piece ∧ White piece := by
  have hlength : (l.take i).length = i := by rw [List.length_take]; omega
  constructor
  · rintro ⟨earlier, word, gap, he, hne, hgap, hword⟩
    have hsum := congrArg List.length he
    rw [hlength, List.length_append, List.length_cons] at hsum
    have hpos := List.length_pos_iff.2 hne
    have hget : ∀ k < i, l[k]? = (earlier ++ .run word :: gap)[k]? := by
      intro k hk
      rw [← he, List.getElem?_take_of_lt hk]
    refine ⟨earlier.length, word, by omega, ?_, hword, ?_⟩
    · rw [hget _ (by omega)]
      simp
    · intro k hjk hki
      rw [hget k hki, List.getElem?_append_right (by omega),
        List.getElem?_cons, if_neg (by omega)]
      have hk : k - earlier.length - 1 < gap.length := by omega
      exact ⟨gap[k - earlier.length - 1], List.getElem?_eq_getElem hk, hgap _ (List.getElem_mem hk)⟩
  · rintro ⟨j, word, hj, hword, hscheme, hgap⟩
    have hget : (l.take i)[j]? = some (.run word) := by
      rw [List.getElem?_take_of_lt (by omega), hword]
    obtain ⟨gap, he⟩ := getElem?_eq_some_run.1 hget
    have hearlier : ((l.take i).take j).length = j := by rw [List.length_take]; omega
    have hsum := congrArg List.length he
    rw [hlength, List.length_append, List.length_cons, hearlier] at hsum
    refine ⟨(l.take i).take j, word, gap, he, ?_, ?_, hscheme⟩
    · rintro rfl
      simp at hsum
      omega
    · intro piece hp
      obtain ⟨k, hk, rfl⟩ := List.getElem_of_mem hp
      obtain ⟨piece, hpiece, hwhite⟩ := hgap (j + 1 + k) (by omega) (by omega)
      rw [← List.getElem?_take_of_lt (show j + 1 + k < i by omega), he,
        List.getElem?_append_right (by omega), hearlier,
        show j + 1 + k - j = k + 1 by omega, List.getElem?_cons_succ,
        List.getElem?_eq_getElem hk] at hpiece
      rwa [Option.some.inj hpiece]

theorem HiddenAlike.symm {l l' : List (Seg Char)} {i : ℕ} (h : HiddenAlike l l' i) :
    HiddenAlike l' l i := by
  obtain ⟨run, run', hrun, hrun', hlength, hrule⟩ := h
  refine ⟨run', run, hrun', hrun, hlength.symm, ?_⟩
  rcases hrule with ⟨hs, hs'⟩ | ⟨hlong, hi, hi'⟩
  · exact Or.inl ⟨hs', hs⟩
  · exact Or.inr ⟨hlength ▸ hlong, hi', hi⟩

/-- A run hidden alike is a secret in its own text. -/
theorem HiddenAlike.hiddenAt {l l' : List (Seg Char)} {i : ℕ} (h : HiddenAlike l l' i) :
    HiddenAt l i := by
  obtain ⟨run, run', hrun, -, -, hrule⟩ := h
  refine ⟨run, hrun, ?_⟩
  rcases hrule with ⟨hs, -⟩ | ⟨hlong, hi, -⟩
  · exact Or.inl hs
  · exact Or.inr ⟨hlong, hi⟩

/-- A scheme word is too short to be hidden. -/
theorem not_hiddenAt_schemeWord {l : List (Seg Char)} {j : ℕ} {word : List Char}
    (hj : l[j]? = some (.run word))
    (hword : SchemeWord word) : ¬ HiddenAt l j := by
  rintro ⟨run, hrun, hs⟩
  obtain rfl : word = run := by simpa [hj] using hrun
  have hlt := hword.length_lt
  have hle := hs.length_le
  omega

namespace SamePieces
variable {l l' : List (Seg Char)} (h : SamePieces l l')
include h

theorem symm : SamePieces l' l := by
  refine ⟨h.length.symm, ?_⟩
  intro i
  rcases h.alike i with he | ha
  · exact Or.inl he.symm
  · exact Or.inr ha.symm

/-- A short run, or a separator, is the same in both. -/
theorem eq_of_not_hidden {i : ℕ} (hn : ¬ HiddenAt l i) : l[i]? = l'[i]? := by
  rcases h.alike i with he | ha
  · exact he
  · exact absurd ha.hiddenAt hn

/-- What introduces a run in one text does so in the other. -/
theorem introduced {i : ℕ} (hi : i ≤ l.length) (hin : Introduced (l.take i)) :
    Introduced (l'.take i) := by
  obtain ⟨j, word, hj, hword, hscheme, hgap⟩ := (introduced_take_iff hi).1 hin
  refine (introduced_take_iff (h.length ▸ hi)).2 ⟨j, word, hj, ?_, hscheme, ?_⟩
  · rw [← h.eq_of_not_hidden (not_hiddenAt_schemeWord hword hscheme), hword]
  · intro k hjk hki
    obtain ⟨piece, hpiece, c, rfl, hc⟩ := hgap k hjk hki
    have hsep : ¬ HiddenAt l k := by
      rintro ⟨run, hrun, -⟩
      simp [hpiece] at hrun
    exact ⟨.sep c, by rw [← h.eq_of_not_hidden hsep, hpiece], c, rfl, hc⟩

/-- Both texts hide the same pieces. -/
theorem hiddenAt {i : ℕ} (hi : HiddenAt l i) : HiddenAt l' i := by
  rcases h.alike i with he | ha
  · obtain ⟨run, hrun, hs⟩ := hi
    have hlt : i < l.length := (List.getElem?_eq_some_iff.1 hrun).1
    refine ⟨run, he ▸ hrun, ?_⟩
    rcases hs with hs | ⟨hlong, hin⟩
    · exact Or.inl hs
    · exact Or.inr ⟨hlong, h.introduced hlt.le hin⟩
  · exact ha.symm.hiddenAt

theorem hiddenAt_iff {i : ℕ} : HiddenAt l i ↔ HiddenAt l' i := ⟨h.hiddenAt, h.symm.hiddenAt⟩

/-- Both texts are shown the same. -/
theorem shownText_eq : shownText exts l = shownText exts l' := by
  have hpieces : l.mapIdx (shownPiece exts l) = l'.mapIdx (shownPiece exts l') := by
    refine List.ext_getElem (by simp [h.length]) ?_
    intro i hi hi'
    rw [List.length_mapIdx] at hi hi'
    rw [List.getElem_mapIdx, List.getElem_mapIdx, shownPiece, shownPiece]
    have hget := List.getElem?_eq_getElem hi
    have hget' := List.getElem?_eq_getElem hi'
    by_cases hh : HiddenAt l i
    · rw [if_pos hh, if_pos (h.hiddenAt hh)]
      rcases h.alike i with he | ⟨run, run', hrun, hrun', hlength, -⟩
      · have hsame : l[i] = l'[i] := by simpa [hget, hget'] using he
        rw [hsame]
      · have hl : l[i] = .run run := by simpa [hget] using hrun
        have hl' : l'[i] = .run run' := by simpa [hget'] using hrun'
        rw [hl, hl', Seg.text_run, Seg.text_run, hlength]
    · have hsame : l[i] = l'[i] := by simpa [hget, hget'] using h.eq_of_not_hidden hh
      rw [if_neg hh, if_neg (mt h.hiddenAt_iff.2 hh), hsame]
  rw [shownText, shownText, hpieces]

/-- Where nothing is hidden, the pieces are the same. -/
theorem eq_of_none_hidden (hn : ¬ ∃ i, HiddenAt l i) : l = l' :=
  List.ext_getElem? fun i => h.eq_of_not_hidden fun hi => hn ⟨i, hi⟩

end SamePieces

/-- **Texts that differ in hidden runs only** are redacted to the same; where
    nothing is redacted, they are the same. -/
theorem redactText_sameText {text text' : String} (h : SameText text text') :
    redactText exts text = redactText exts text' ∧ (redactText exts text = none → text = text') := by
  have hw : Well isTokenChar (segments isTokenChar text.toList) := well_segments text.toList
  have hw' : Well isTokenChar (segments isTokenChar text'.toList) := well_segments text'.toList
  by_cases hn : ∃ i, HiddenAt (segments isTokenChar text.toList) i
  · have hn' : ∃ i, HiddenAt (segments isTokenChar text'.toList) i := by
      obtain ⟨i, hi⟩ := hn
      exact ⟨i, h.hiddenAt hi⟩
    rw [redactText_eq_some exts hn, redactText_eq_some exts hn', h.shownText_eq exts]
    simp
  · have hflat := congrArg flat (h.eq_of_none_hidden hn)
    rw [flat_segments, flat_segments] at hflat
    obtain rfl : text = text' := String.toList_injective hflat
    simp

/-! ## Values -/

/-- What stands under a secret key: null in both values, or in neither and of
    one counted length. -/
def SameSecret (v v' : Value) : Prop :=
  (v = .null ∧ v' = .null) ∨
    (v ≠ .null ∧ v' ≠ .null ∧ countedLength exts v = countedLength exts v')

/-- The values have one shape and differ in hidden content only. -/
inductive SameValue : Value → Value → Prop
  | null : SameValue .null .null
  | bool (b : Bool) : SameValue (.bool b) (.bool b)
  | number (text : String) : SameValue (.number text) (.number text)
  | string {text text' : String} (h : SameText text text') : SameValue (.string text) (.string text')
  | array {items items' : List Value} (hlength : items.length = items'.length)
      (h : ∀ (i : ℕ) (v v' : Value), items[i]? = some v → items'[i]? = some v' → SameValue v v') :
      SameValue (.array items) (.array items')
  | object {fields fields' : List (String × Value)}
      (hkeys : fields.map Prod.fst = fields'.map Prod.fst)
      (hsecret : ∀ (i : ℕ) (key : String) (v v' : Value), fields[i]? = some (key, v) →
        fields'[i]? = some (key, v') → keyIsSecret key → SameSecret exts v v')
      (h : ∀ (i : ℕ) (key : String) (v v' : Value), fields[i]? = some (key, v) →
        fields'[i]? = some (key, v') → keyIsSecret key = false → SameValue v v') :
      SameValue (.object fields) (.object fields')

theorem walk_sameSecret {v v' : Value} (h : SameSecret exts v v') (w : Walk) :
    walk exts true w v = walk exts true w v' := by
  rcases h with ⟨rfl, rfl⟩ | ⟨hv, hv', hlength⟩
  · rfl
  · rw [walk_true, walk_true, if_neg (mt Value.isNull_iff.1 hv),
      if_neg (mt Value.isNull_iff.1 hv'), hlength]

theorem walkItems_congr {items items' : List Value} (hlength : items.length = items'.length)
    (h : ∀ (i : ℕ) (v v' : Value), items[i]? = some v → items'[i]? = some v' →
      ∀ w, walk exts false w v = walk exts false w v') (w : Walk) (index : ℕ) :
    walkItems exts w index items = walkItems exts w index items' := by
  induction items generalizing items' w index with
  | nil =>
    obtain rfl : items' = [] := List.length_eq_zero_iff.1 hlength.symm
    rfl
  | cons v items ih =>
    obtain ⟨v', items', rfl⟩ := List.exists_cons_of_length_pos (l := items') (by
      rw [← hlength]
      simp)
    have hrest := ih (by simpa using hlength) fun i v v' hv hv' => h (i + 1) v v' hv hv'
    rw [walkItems, walkItems, h 0 v v' rfl rfl]
    simp only [hrest]

theorem walkFields_congr {fields fields' : List (String × Value)}
    (hkeys : fields.map Prod.fst = fields'.map Prod.fst)
    (h : ∀ (i : ℕ) (key : String) (v v' : Value), fields[i]? = some (key, v) →
      fields'[i]? = some (key, v') →
        ∀ w, walk exts (keyIsSecret key) w v = walk exts (keyIsSecret key) w v') (w : Walk) :
    walkFields exts w fields = walkFields exts w fields' := by
  induction fields generalizing fields' w with
  | nil =>
    obtain rfl : fields' = [] := by simpa using hkeys.symm
    rfl
  | cons f fields ih =>
    cases fields' with
    | nil => simp at hkeys
    | cons f' fields' =>
      obtain ⟨key, v⟩ := f
      obtain ⟨key', v'⟩ := f'
      obtain ⟨rfl, hkeys'⟩ : key = key' ∧ fields.map Prod.fst = fields'.map Prod.fst := by
        simpa using hkeys
      have hrest := ih hkeys' fun i key v v' hv hv' => h (i + 1) key v v' hv hv'
      rw [walkFields, walkFields, h 0 key v v' rfl rfl]
      simp only [hrest]

/-- A walk goes the same through both values. -/
theorem walk_sameValue {v v' : Value} (h : SameValue exts v v') (w : Walk) :
    walk exts false w v = walk exts false w v' := by
  induction h generalizing w with
  | null | bool | number => rfl
  | @string text text' h =>
    obtain ⟨he, hsame⟩ := redactText_sameText exts h
    cases hr : redactText exts text with
    | none => rw [hsame hr]
    | some output => simp [walk, ← he, hr]
  | array hlength _ ih =>
    rw [walk_array, walk_array, walkItems_congr exts hlength ih]
  | object hkeys hsecret _ ih =>
    rw [walk_object, walk_object, walkFields_congr exts hkeys]
    intro i key v v' hv hv'
    cases hk : keyIsSecret key with
    | true => exact walk_sameSecret exts (hsecret i key v v' hv hv' hk)
    | false => exact ih i key v v' hv hv' hk

/-- **Redaction is noninterfering.**  Values that differ in hidden content only
    are redacted to the same, value and report. -/
theorem redact_sameValue {v v' : Value} (h : SameValue exts v v') :
    redact exts v = redact exts v' := by
  rw [redact, redact, walk_sameValue exts h]

/-! ## A credential after a scheme word -/

section
variable {scheme run run' : List Char}

theorem segments_scheme (hs : scheme ≠ [] ∧ ∀ c ∈ scheme, isTokenChar c)
    (hr : run ≠ [] ∧ ∀ c ∈ run, isTokenChar c) :
    segments isTokenChar (scheme ++ ' ' :: run) = [.run scheme, .sep ' ', .run run] := by
  refine (well_and_flat_iff.1 ⟨?_, by simp⟩).symm
  simp only [Well]
  refine ⟨hs, ?_, by decide, hr, by simp, trivial⟩
  simp [show isTokenChar ' ' = false by decide]

/-- Two long credentials of one length after a scheme word. -/
theorem sameText_scheme (hscheme : SchemeWord scheme)
    (hs : scheme ≠ [] ∧ ∀ c ∈ scheme, isTokenChar c) (hr : run ≠ [] ∧ ∀ c ∈ run, isTokenChar c)
    (hr' : run' ≠ [] ∧ ∀ c ∈ run', isTokenChar c) (hlength : run.length = run'.length)
    (hlong : minSecretLength ≤ run.length) :
    SameText (String.ofList (scheme ++ ' ' :: run)) (String.ofList (scheme ++ ' ' :: run')) := by
  have hin (l : List Char) : Introduced ([.run scheme, .sep ' ', .run l].take 2) :=
    ⟨[], scheme, [.sep ' '], rfl, by simp, by simp [White, isWhitespace], hscheme⟩
  rw [SameText, String.toList_ofList, String.toList_ofList, segments_scheme hs hr,
    segments_scheme hs hr']
  refine ⟨rfl, ?_⟩
  intro i
  rcases i with _ | _ | _ | i
  · exact Or.inl rfl
  · exact Or.inl rfl
  · exact Or.inr ⟨run, run', rfl, rfl, hlength, Or.inr ⟨hlong, hin run, hin run'⟩⟩
  · exact Or.inl rfl

end

/-- A text that introduces a credential. -/
def introducing (credential : List Char) : String :=
  String.ofList (['T', 'o', 'k', 'e', 'n'] ++ ' ' :: credential)

/-- A credential in a note, and a password. -/
def pasted (credential : List Char) (password : String) : Value :=
  .object [("note", .string (introducing credential)), ("password", .string password)]

theorem redact_sameValue_pasted :
    redact .plain (pasted (List.replicate 20 'a') "abc") =
      redact .plain (pasted (List.replicate 20 'b') "xyz") := by
  have hletter (c : Char) (hc : isTokenChar c) :
      List.replicate 20 c ≠ [] ∧ ∀ d ∈ List.replicate 20 c, isTokenChar d :=
    ⟨by simp, fun d hd => List.eq_of_mem_replicate hd ▸ hc⟩
  have htext : SameText (introducing (List.replicate 20 'a')) (introducing (List.replicate 20 'b')) :=
    sameText_scheme ⟨"token", by simp, by decide⟩ ⟨by simp, by simp [isTokenChar]⟩
      (hletter 'a' (by decide)) (hletter 'b' (by decide)) rfl (by decide)
  refine redact_sameValue .plain (.object rfl ?_ ?_)
  · intro i key v v' hv hv' hk
    rcases i with _ | _ | i
    · obtain rfl : "note" = key := congrArg Prod.fst (Option.some.inj hv)
      exact absurd hk (by decide)
    · obtain rfl : .string "abc" = v := congrArg Prod.snd (Option.some.inj hv)
      obtain rfl : .string "xyz" = v' := congrArg Prod.snd (Option.some.inj hv')
      exact Or.inr ⟨by simp, by simp, rfl⟩
    · simp at hv
  · intro i key v v' hv hv' hk
    rcases i with _ | _ | i
    · obtain rfl := congrArg Prod.snd (Option.some.inj hv)
      obtain rfl := congrArg Prod.snd (Option.some.inj hv')
      exact .string htext
    · obtain rfl : "password" = key := congrArg Prod.fst (Option.some.inj hv)
      exact absurd hk (by decide)
    · simp at hv

end DekoponConsole
