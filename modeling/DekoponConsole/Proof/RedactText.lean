/-
  What the text redactor removes.

  * a text has one cut into maximal runs of token characters and separators;
  * `HiddenAt pieces i`: the run at a place is a credential on its own, or long
    and introduced by a scheme word (`Introduced`);
  * `shownText`: the pieces with the hidden runs replaced by their markers;
  * `redactText_eq`: the redactor answers `shownText` where something is hidden,
    and nothing elsewhere.
-/
import DekoponConsole.Proof.Redact

namespace DekoponConsole

open Segments

variable (exts : Externals)

/-! ## Hidden runs -/

/-- A word that announces a credential, in any ASCII case. -/
def SchemeWord (word : List Char) : Prop :=
  ∃ scheme ∈ ["bearer", "basic", "token"], toAsciiLowercase word = scheme.toList

/-- A separator that is whitespace. -/
def White (piece : Seg Char) : Prop := ∃ c, piece = .sep c ∧ isWhitespace c

/-- The pieces end in a scheme word and, after it, whitespace alone and some. -/
def Introduced (before : List (Seg Char)) : Prop :=
  ∃ earlier word gap, before = earlier ++ .run word :: gap ∧ gap ≠ [] ∧
    (∀ piece ∈ gap, White piece) ∧ SchemeWord word

/-- A run after the given pieces is a secret. -/
def IsSecret (before : List (Seg Char)) (run : List Char) : Prop :=
  runIsSecret run ∨ (minSecretLength ≤ run.length ∧ Introduced before)

/-- The piece at a place is a run that is a secret there. -/
def HiddenAt (pieces : List (Seg Char)) (i : ℕ) : Prop :=
  ∃ run, pieces[i]? = some (.run run) ∧ IsSecret (pieces.take i) run

open Classical in
/-- What is shown of a piece: the marker of its length where it is hidden. -/
noncomputable def shownPiece (pieces : List (Seg Char)) (i : ℕ) (piece : Seg Char) : List Char :=
  if HiddenAt pieces i then (exts.redactionMarker piece.text.length).toList else piece.text

/-- The pieces in order, each as it is shown. -/
noncomputable def shownText (pieces : List (Seg Char)) : String :=
  String.ofList (pieces.mapIdx (shownPiece exts pieces)).flatten

theorem schemeIntroducesSecret_iff {word : List Char} :
    schemeIntroducesSecret word ↔ SchemeWord word := by
  simp only [schemeIntroducesSecret, SchemeWord, List.any_eq_true, beq_iff_eq]
  exact exists_congr fun scheme => and_congr_right fun _ => eq_comm

/-! ## The previous run -/

/-- The previous run is the last one, if whitespace alone follows it. -/
theorem foldl_nextRun_eq_some {before : List (Seg Char)} {word : List Char} :
    before.foldl nextRun none = some word ↔
      ∃ earlier gap, before = earlier ++ .run word :: gap ∧ ∀ piece ∈ gap, White piece := by
  induction before using List.reverseRecOn with
  | nil => simp
  | append_singleton before piece ih =>
    rw [List.foldl_concat]
    constructor
    · intro h
      cases piece with
      | run run =>
        obtain rfl : run = word := by simpa [nextRun] using h
        exact ⟨before, [], rfl, by simp⟩
      | sep c =>
        by_cases hc : isWhitespace c
        · obtain ⟨earlier, gap, rfl, hgap⟩ := ih.1 (by simpa [nextRun, hc] using h)
          refine ⟨earlier, gap ++ [.sep c], by simp, ?_⟩
          intro piece hp
          rcases List.mem_append.1 hp with hp | hp
          · exact hgap piece hp
          · exact ⟨c, by simpa using hp, hc⟩
        · simp [nextRun, hc] at h
    · rintro ⟨earlier, gap, he, hgap⟩
      rcases List.eq_nil_or_concat gap with rfl | ⟨gap, last, rfl⟩
      · obtain ⟨-, rfl⟩ := List.append_inj' he rfl |>.imp id List.singleton_inj.1
        rfl
      · obtain ⟨c, rfl, hc⟩ := hgap last (by simp)
        obtain ⟨rfl, rfl⟩ : before = earlier ++ .run word :: gap ∧ piece = .sep c := by
          have he' : before ++ [piece] = (earlier ++ .run word :: gap) ++ [.sep c] := by
            simpa using he
          simpa using List.append_inj' he' rfl
        have hgap' : ∀ piece ∈ gap, White piece := fun piece hp => hgap piece (by simp [hp])
        have hword := ih.2 ⟨earlier, gap, rfl, hgap'⟩
        simp [nextRun, hc, hword]

/-- Before a run, the previous run is a scheme word just where one introduces it. -/
theorem any_previous_iff {before post : List (Seg Char)} {run : List Char}
    (h : Well isTokenChar (before ++ .run run :: post)) :
    (before.foldl nextRun none).any schemeIntroducesSecret ↔ Introduced before := by
  rw [Option.any_eq_true]
  constructor
  · rintro ⟨word, hword, hscheme⟩
    obtain ⟨earlier, gap, rfl, hgap⟩ := foldl_nextRun_eq_some.1 hword
    refine ⟨earlier, word, gap, rfl, ?_, hgap, schemeIntroducesSecret_iff.1 hscheme⟩
    -- two maximal runs do not touch
    rintro rfl
    rw [List.append_assoc] at h
    obtain ⟨-, hbreaks, hrun⟩ := h.of_append_right
    obtain ⟨c, cs, rfl⟩ := List.exists_cons_of_ne_nil hrun.1.1
    have hc : isTokenChar c = false := by simpa using hbreaks
    simp [hrun.1.2 c (by simp)] at hc
  · rintro ⟨earlier, word, gap, rfl, -, hgap, hscheme⟩
    exact ⟨word, foldl_nextRun_eq_some.2 ⟨earlier, gap, rfl, hgap⟩,
      schemeIntroducesSecret_iff.2 hscheme⟩

theorem redactsAfter_iff_isSecret {before post : List (Seg Char)} {run : List Char}
    (h : Well isTokenChar (before ++ .run run :: post)) :
    redactsAfter (before.foldl nextRun none) run ↔ IsSecret before run := by
  have hlen := byteLen_of_isTokenChar h.of_append_right.1.2
  rw [redactsAfter, Bool.or_eq_true, Bool.and_eq_true, any_previous_iff h, decide_eq_true_eq, hlen,
    IsSecret, or_comm, and_comm]

/-! ## The redactor -/

theorem getElem?_eq_some_run {l : List (Seg Char)} {i : ℕ} {run : List Char} :
    l[i]? = some (.run run) ↔ ∃ post, l = l.take i ++ .run run :: post := by
  constructor
  · intro h
    obtain ⟨hi, hrun⟩ := List.getElem?_eq_some_iff.1 h
    refine ⟨l.drop (i + 1), ?_⟩
    rw [← hrun, ← List.drop_eq_getElem_cons hi, List.take_append_drop]
  · rintro ⟨post, hl⟩
    have hi : (l.take i).length = i := by
      have := congrArg List.length hl
      simp only [List.length_append, List.length_cons, List.length_take] at this ⊢
      omega
    rw [hl, List.getElem?_append_right (by omega), hi, Nat.sub_self]
    rfl

variable {l : List (Seg Char)} (h : Well isTokenChar l)
include h

theorem hiddenAt_iff {i : ℕ} {run : List Char} (hi : l[i]? = some (.run run)) :
    HiddenAt l i ↔ redactsAfter ((l.take i).foldl nextRun none) run := by
  obtain ⟨post, hl⟩ := getElem?_eq_some_run.1 hi
  rw [redactsAfter_iff_isSecret (hl ▸ h), HiddenAt, hi]
  simp

theorem redactsSome_iff : RedactsSome none l ↔ ∃ i, HiddenAt l i := by
  constructor
  · rintro ⟨before, run, post, rfl, hr⟩
    refine ⟨before.length, run, by simp, ?_⟩
    rw [List.take_left]
    exact (redactsAfter_iff_isSecret h).1 hr
  · rintro ⟨i, run, hi, hr⟩
    obtain ⟨post, hl⟩ := getElem?_eq_some_run.1 hi
    exact ⟨l.take i, run, post, hl, (redactsAfter_iff_isSecret (hl ▸ h)).2 hr⟩

theorem render_eq_shownText :
    render nextRun (renderRun exts) none l = (shownText exts l).toList := by
  rw [render_eq_flatten, shownText, String.toList_ofList]
  refine congrArg _ (List.mapIdx_eq_mapIdx_iff.2 ?_)
  intro i hi
  have hget := List.getElem?_eq_getElem hi
  cases hx : l[i] with
  | sep c =>
    have hc : ¬ HiddenAt l i := by
      rintro ⟨run, hrun, -⟩
      simp [hget, hx] at hrun
    simp [shownPiece, hc]
  | run run =>
    have hiff := hiddenAt_iff h (hget.trans (congrArg some hx))
    show renderRun exts _ run = shownPiece exts l i (.run run)
    simp only [renderRun, shownPiece, hiff, Seg.text_run]

omit h

/-- Where a run is hidden, the redactor answers the text as it is shown. -/
theorem redactText_eq_some {text : String}
    (hi : ∃ i, HiddenAt (segments isTokenChar text.toList) i) :
    redactText exts text = some (shownText exts (segments isTokenChar text.toList)) := by
  have hw : Well isTokenChar (segments isTokenChar text.toList) := well_segments text.toList
  have hsome := (redactText_isSome exts text).trans (redactsSome_iff hw)
  obtain ⟨output, houtput⟩ := Option.isSome_iff_exists.1 (hsome.2 hi)
  have hlist := toList_redactText exts text
  rw [houtput, Option.getD_some, rendered, render_eq_shownText exts hw] at hlist
  rw [houtput, String.toList_injective hlist]

theorem redactText_eq_none {text : String}
    (hi : ¬ ∃ i, HiddenAt (segments isTokenChar text.toList) i) : redactText exts text = none := by
  have hw : Well isTokenChar (segments isTokenChar text.toList) := well_segments text.toList
  rw [← Option.not_isSome_iff_eq_none, redactText_isSome, redactsSome_iff hw]
  exact hi

open Classical in
/-- **What the text redactor removes.**  A text has one cut into maximal runs and
    separators; where a run of it is hidden the redactor answers the cut with the
    hidden runs marked, and elsewhere nothing. -/
theorem redactText_eq (text : String) :
    ∃ pieces, (∀ l, Well isTokenChar l ∧ flat l = text.toList ↔ l = pieces) ∧
      redactText exts text =
        if ∃ i, HiddenAt pieces i then some (shownText exts pieces) else none := by
  refine ⟨segments isTokenChar text.toList, fun l => well_and_flat_iff, ?_⟩
  split_ifs with hi
  · exact redactText_eq_some exts hi
  · exact redactText_eq_none exts hi

end DekoponConsole
