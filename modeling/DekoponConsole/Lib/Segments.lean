/-
  A list cut into maximal runs of the elements satisfying a test, and the single
  elements that separate them.

  * `segments p text` is the cut, `flat` puts it together again, and `Well p`
    says that a list of segments can be one (`well_and_flat_iff`: the only one);
  * `IsRun p text a run b`: `run` stands in `text` as a maximal run, `a` before
    and `b` after it;
  * `render next out s` rewrites the runs one after another with a state and
    keeps the separators; a word of run elements that occurs in the rendered text
    occurs in one rendered run (`infix_render`).
-/
import Mathlib

namespace Segments

variable {α σ : Type*} {p : α → Bool}

/-- One piece of a cut list. -/
inductive Seg (α : Type*)
  | run (r : List α)
  | sep (a : α)

namespace Seg

/-- The elements of a piece. -/
def text : Seg α → List α
  | run r => r
  | sep a => [a]

@[simp] theorem text_run (r : List α) : (run r).text = r := rfl

@[simp] theorem text_sep (a : α) : (sep a).text = [a] := rfl

end Seg

/-! ## Cutting -/

/-- Puts an element of a run before a cut. -/
def push (c : α) : List (Seg α) → List (Seg α)
  | .run r :: l => .run (c :: r) :: l
  | l => .run [c] :: l

/-- The maximal runs of a list, and what separates them. -/
def segments (p : α → Bool) : List α → List (Seg α)
  | [] => []
  | c :: cs => if p c then push c (segments p cs) else .sep c :: segments p cs

/-- The list a cut was made of. -/
def flat (l : List (Seg α)) : List α := l.flatMap Seg.text

@[simp] theorem flat_nil : flat ([] : List (Seg α)) = [] := rfl

@[simp] theorem flat_cons (s : Seg α) (l : List (Seg α)) : flat (s :: l) = s.text ++ flat l := rfl

@[simp] theorem flat_append (l l' : List (Seg α)) : flat (l ++ l') = flat l ++ flat l' := by
  simp [flat]

@[simp] theorem flat_push (c : α) (l : List (Seg α)) : flat (push c l) = c :: flat l := by
  cases l with
  | nil => rfl
  | cons s l => cases s <;> rfl

@[simp] theorem flat_segments (text : List α) : flat (segments p text) = text := by
  induction text with
  | nil => rfl
  | cons c cs ih => by_cases h : p c <;> simp [segments, h, ih]

/-- The list does not go on with an element of a run. -/
def Breaks (p : α → Bool) (text : List α) : Prop := ∀ c ∈ text.head?, p c = false

/-- The list does not end in an element of a run. -/
def Ends (p : α → Bool) (text : List α) : Prop := ∀ c ∈ text.getLast?, p c = false

@[simp] theorem breaks_nil : Breaks p [] := by simp [Breaks]

@[simp] theorem breaks_cons {c : α} {cs : List α} : Breaks p (c :: cs) ↔ p c = false := by
  simp [Breaks]

@[simp] theorem ends_nil : Ends p [] := by simp [Ends]

/-- The runs are maximal: not empty, all of run elements, and followed by a
    separator or nothing; the separators are no run elements. -/
def Well (p : α → Bool) : List (Seg α) → Prop
  | [] => True
  | .sep a :: l => p a = false ∧ Well p l
  | .run r :: l => (r ≠ [] ∧ ∀ c ∈ r, p c) ∧ Breaks p (flat l) ∧ Well p l

theorem push_eq_cons {c : α} {l : List (Seg α)} (hl : Well p l) (hb : Breaks p (flat l)) :
    push c l = .run [c] :: l := by
  match l with
  | [] => rfl
  | .sep a :: l => rfl
  | .run [] :: l => simp [Well] at hl
  | .run (a :: r) :: l => simp_all [Well]

theorem well_push {c : α} (hc : p c) {l : List (Seg α)} (hl : Well p l) : Well p (push c l) := by
  match l with
  | [] => simp [push, Well, hc]
  | .sep a :: l => simp_all [push, Well]
  | .run r :: l =>
    obtain ⟨⟨-, hr⟩, hb, hl⟩ := hl
    exact ⟨⟨by simp, by simpa [hc] using hr⟩, hb, hl⟩

theorem well_segments (text : List α) : Well p (segments p text) := by
  induction text with
  | nil => trivial
  | cons c cs ih =>
    by_cases h : p c
    · simpa [segments, h] using well_push h ih
    · simpa [segments, h, Well] using ih

theorem segments_run_append {r : List α} (hr : r ≠ []) (hp : ∀ c ∈ r, p c) {text : List α}
    (hb : Breaks p text) : segments p (r ++ text) = .run r :: segments p text := by
  induction r with
  | nil => exact absurd rfl hr
  | cons c r ih =>
    have hc : p c := hp c (by simp)
    cases r with
    | nil =>
      rw [List.singleton_append, segments, if_pos hc]
      exact push_eq_cons (well_segments text) (by simpa using hb)
    | cons d r =>
      rw [List.cons_append, segments, if_pos hc, ih (by simp) fun c h => hp c (by simp [h])]
      rfl

/-- A well-formed list is the only cut of what it is made of. -/
theorem segments_flat {l : List (Seg α)} (h : Well p l) : segments p (flat l) = l := by
  induction l with
  | nil => rfl
  | cons s l ih =>
    cases s with
    | sep a => simp [segments, h.1, ih h.2]
    | run r =>
      obtain ⟨⟨hr, hp⟩, hb, hl⟩ := h
      rw [flat_cons, Seg.text_run, segments_run_append hr hp hb, ih hl]

theorem well_and_flat_iff {l : List (Seg α)} {text : List α} :
    Well p l ∧ flat l = text ↔ l = segments p text := by
  constructor
  · rintro ⟨h, rfl⟩
    exact (segments_flat h).symm
  · rintro rfl
    exact ⟨well_segments text, flat_segments text⟩

theorem Well.of_append_left {l l' : List (Seg α)} (h : Well p (l ++ l')) : Well p l := by
  induction l with
  | nil => trivial
  | cons s l ih =>
    cases s with
    | sep a => exact ⟨h.1, ih h.2⟩
    | run r =>
      obtain ⟨hr, hb, hl⟩ := h
      refine ⟨hr, ?_, ih hl⟩
      cases hf : flat l with
      | nil => simp
      | cons c cs => simpa [hf] using hb

theorem Well.of_append_right {l l' : List (Seg α)} (h : Well p (l ++ l')) : Well p l' := by
  induction l with
  | nil => exact h
  | cons s l ih =>
    cases s with
    | sep a => exact ih h.2
    | run r => exact ih h.2.2

/-- Before a run of a well-formed list no run ends. -/
theorem Well.ends {pre post : List (Seg α)} {r : List α} (h : Well p (pre ++ .run r :: post)) :
    Ends p (flat pre) := by
  induction pre with
  | nil => simp
  | cons s pre ih =>
    cases pre with
    | nil =>
      obtain ⟨⟨hr, hp⟩, -⟩ := h.of_append_right (l := [s])
      cases s with
      | sep a => simpa [Ends] using h.1
      | run q =>
        obtain ⟨c, r, rfl⟩ := List.exists_cons_of_ne_nil hr
        have hb := h.2.1
        simp [hp c (by simp)] at hb
    | cons s' pre =>
      have ih := ih (h.of_append_right (l := [s]))
      have hne : flat (s' :: pre) ≠ [] := by
        have hw := (h.of_append_right (l := [s])).of_append_left (l := [s'])
        cases s' with
        | sep a => simp
        | run q => simp [hw.1.1]
      rw [flat_cons, Ends, List.getLast?_append_of_ne_nil _ hne]
      exact ih

/-! ## Maximal runs -/

/-- `run` stands in `text` between `a` and `b` as a maximal run. -/
structure IsRun (p : α → Bool) (text a run b : List α) : Prop where
  eq : text = a ++ run ++ b
  ne_nil : run ≠ []
  all : ∀ c ∈ run, p c
  left : Ends p a
  right : Breaks p b

theorem isRun_of_segments {text r : List α} {pre post : List (Seg α)}
    (h : segments p text = pre ++ .run r :: post) : IsRun p text (flat pre) r (flat post) := by
  have hw : Well p (pre ++ .run r :: post) := h ▸ well_segments text
  have hr := hw.of_append_right
  refine ⟨?_, hr.1.1, hr.1.2, hw.ends, hr.2.1⟩
  rw [← flat_segments (p := p) text, h]
  simp

theorem segments_append {a : List α} (ha : Ends p a) (text : List α) :
    segments p (a ++ text) = segments p a ++ segments p text := by
  induction a with
  | nil => rfl
  | cons c cs ih =>
    cases cs with
    | nil =>
      have hc : p c = false := by simpa [Ends] using ha
      simp [segments, hc]
    | cons d cs =>
      have ha : Ends p (d :: cs) := by simpa [Ends] using ha
      rw [List.cons_append, segments, segments, ih ha]
      split_ifs with hc
      · have hne : segments p (d :: cs) ≠ [] := by
          intro he
          simpa [he] using flat_segments (p := p) (d :: cs)
        obtain ⟨s, l, hs⟩ := List.exists_cons_of_ne_nil hne
        rw [hs]
        cases s <;> rfl
      · rfl

theorem IsRun.segments_eq {text a r b : List α} (h : IsRun p text a r b) :
    segments p text = segments p a ++ .run r :: segments p b := by
  rw [h.eq, List.append_assoc, segments_append h.left, segments_run_append h.ne_nil h.all h.right]

/-! ## Words in one piece -/

/-- A word without `c` that occurs around `c` occurs on one side of it. -/
theorem infix_of_not_mem {w x y : List α} {c : α} (hc : c ∉ w) (h : w <:+: x ++ c :: y) :
    w <:+: x ∨ w <:+: y := by
  obtain ⟨s, t, h⟩ := h
  rcases List.append_eq_append_iff.1 h with ⟨l, rfl, -⟩ | ⟨l, hs, ht⟩
  · exact Or.inl ⟨s, l, rfl⟩
  · cases l with
    | nil => exact Or.inl ⟨s, [], by simpa using hs⟩
    | cons d l =>
      obtain ⟨rfl, rfl⟩ : c = d ∧ y = l ++ t := by simpa using ht
      rcases List.append_eq_append_iff.1 hs with ⟨m, -, hm⟩ | ⟨m, -, hm⟩
      · exact absurd (by simp [hm]) hc
      · cases m with
        | nil =>
          rw [List.nil_append] at hm
          exact absurd (by simp [← hm]) hc
        | cons e m =>
          obtain ⟨rfl, rfl⟩ : c = e ∧ l = m ++ w := by simpa using hm
          exact Or.inr ⟨m, t, by simp⟩

/-- Rewrites the runs, each in the state the pieces before it leave. -/
def render (next : σ → Seg α → σ) (out : σ → List α → List α) : σ → List (Seg α) → List α
  | _, [] => []
  | s, .run r :: l => out s r ++ render next out (next s (.run r)) l
  | s, .sep a :: l => a :: render next out (next s (.sep a)) l

variable {next : σ → Seg α → σ} {out : σ → List α → List α}

theorem render_append (s : σ) (l l' : List (Seg α)) :
    render next out s (l ++ l') = render next out s l ++ render next out (l.foldl next s) l' := by
  induction l generalizing s with
  | nil => rfl
  | cons x l ih => cases x <;> simp [render, ih]

/-- A rendering, piece by piece: each run in the state of the pieces before it. -/
theorem render_eq_flatten (l : List (Seg α)) (s : σ) :
    render next out s l = (l.mapIdx fun i x =>
      match x with
      | .run r => out ((l.take i).foldl next s) r
      | .sep a => [a]).flatten := by
  induction l generalizing s with
  | nil => rfl
  | cons x l ih =>
    rw [List.mapIdx_cons, List.flatten_cons]
    cases x with
    | run r => exact congrArg (out s r ++ ·) (ih (next s (.run r)))
    | sep a => exact congrArg ([a] ++ ·) (ih (next s (.sep a)))

/-- Where every run is left as it is, so is the text. -/
theorem render_eq_flat (l : List (Seg α)) (s : σ)
    (h : ∀ pre r post, l = pre ++ .run r :: post → out (pre.foldl next s) r = r) :
    render next out s l = flat l := by
  induction l generalizing s with
  | nil => rfl
  | cons x l ih =>
    have ih := ih (next s x) fun pre r post he => h (x :: pre) r post (by simp [he])
    cases x with
    | sep a => simp [render, ih]
    | run r =>
      have hr : out s r = r := h [] r l rfl
      simp [render, ih, hr]

/-- A rendered run occurs in the rendered text. -/
theorem infix_render_of_run (s : σ) (pre post : List (Seg α)) (r : List α) :
    out (pre.foldl next s) r <:+: render next out s (pre ++ .run r :: post) := by
  rw [render_append, render]
  exact ⟨_, _, by rw [List.append_assoc]⟩

/-- **A word of run elements occurs in one rendered run.** -/
theorem infix_render {w : List α} (hw : w ≠ []) (hp : ∀ c ∈ w, p c) {l : List (Seg α)}
    (hl : Well p l) (s : σ) (h : w <:+: render next out s l) :
    ∃ pre r post, l = pre ++ .run r :: post ∧ w <:+: out (pre.foldl next s) r := by
  have hsep (a : α) (ha : p a = false) : a ∉ w := fun hm => by simp [hp a hm] at ha
  induction l generalizing s with
  | nil => exact absurd (List.infix_nil.1 h) hw
  | cons x l ih =>
    match x, l, hl, h with
    | .sep a, l, hl, h =>
      rcases infix_of_not_mem (x := []) (hsep a hl.1) h with hi | hi
      · exact absurd (List.infix_nil.1 hi) hw
      · obtain ⟨pre, r, post, he, ho⟩ := ih hl.2 _ hi
        exact ⟨.sep a :: pre, r, post, by simp [he], ho⟩
    | .run r, [], _, h => exact ⟨[], r, [], rfl, by simpa [render] using h⟩
    | .run r, .sep a :: l, hl, h =>
      rcases infix_of_not_mem (hsep a hl.2.2.1) h with hi | hi
      · exact ⟨[], r, .sep a :: l, rfl, hi⟩
      · obtain ⟨pre, q, post, he, ho⟩ :=
          ih hl.2.2 (next s (.run r)) (hi.trans ⟨[a], [], by simp [render]⟩)
        exact ⟨.run r :: pre, q, post, by simp [he], ho⟩
    | .run r, .run q :: l, hl, _ =>
      obtain ⟨c, q, rfl⟩ := List.exists_cons_of_ne_nil hl.2.2.1.1
      have hb := hl.2.1
      simp [hl.2.2.1.2 c (by simp)] at hb

end Segments
