/-
  What one press of `r` reveals.

  * two dotted paths are equal just when the steps have the same `pathSegments`:
    the keys and indices split at their dots, empty outermost ones dropped
    (`dottedPath_inj`);
  * `presses n app`: the console after a number of presses, `shown app fields`
    which of the fields count as revealed;
  * `oneByOne_iff`: the presses reveal the fields of a call one by one exactly
    when no two hidden nodes of its input have the same segments.
-/
import DekoponConsole.App
import DekoponConsole.Lib.Framing
import DekoponConsole.Proof.Walk

namespace DekoponConsole

variable (exts : Externals)

/-! ## Dotted paths -/

/-- The segments of the path of some steps. -/
def pathSegments (steps : List String) : List String :=
  (steps.dropWhile String.isEmpty).flatMap fun step => split step '.'

theorem isEmpty_eq_false {s : String} (h : s ≠ "") : s.isEmpty = false := by
  simpa [String.isEmpty_iff] using h

theorem foldl_enterPath {path : String} (h : path ≠ "") (steps : List String) :
    steps.foldl enterPath path = ".".intercalate (path :: steps) := by
  induction steps generalizing path with
  | nil => simp
  | cons step steps ih =>
    have hne : path ++ "." ++ step ≠ "" := by simp [h]
    rw [List.foldl_cons, enterPath, if_neg (by simp [isEmpty_eq_false h]), ih hne,
      String.intercalate_cons_append, String.intercalate_cons_cons]

theorem foldl_enterPath_ne_empty {path : String} (h : path ≠ "") (steps : List String) :
    steps.foldl enterPath path ≠ "" := by
  induction steps generalizing path with
  | nil => exact h
  | cons step steps ih =>
    refine ih ?_
    rw [enterPath, if_neg (by simp [isEmpty_eq_false h])]
    simp [h]

/-- The dotted path joins the steps from the first that is not empty. -/
theorem dottedPath_eq (steps : List String) :
    dottedPath steps = ".".intercalate (steps.dropWhile String.isEmpty) := by
  induction steps with
  | nil => simp [dottedPath]
  | cons step steps ih =>
    by_cases h : step = ""
    · subst h
      exact ih
    · rw [List.dropWhile_cons_of_neg (by simp [isEmpty_eq_false h]), ← foldl_enterPath h]
      rfl

theorem intercalate_split (step : String) : ".".intercalate (split step '.') = step := by
  refine String.toList_injective ?_
  rw [String.toList_intercalate, split, List.map_map]
  have hid : String.toList ∘ String.ofList = id := funext fun _ => String.toList_ofList
  rw [hid, List.map_id]
  exact List.intercalate_splitOn '.'

theorem split_ne_nil (step : String) : split step '.' ≠ [] := by
  simp [split, List.splitOn_ne_nil]

theorem intercalate_flatMap_split (steps : List String) :
    ".".intercalate (steps.flatMap fun step => split step '.') = ".".intercalate steps := by
  induction steps with
  | nil => rfl
  | cons step steps ih =>
    rw [List.flatMap_cons]
    cases steps with
    | nil => simp [intercalate_split]
    | cons step' steps =>
      have hne : ((step' :: steps).flatMap fun step => split step '.') ≠ [] := by
        simp [split_ne_nil]
      rw [String.intercalate_append_of_ne_nil (split_ne_nil step) hne, ih, intercalate_split,
        String.intercalate_cons_cons]

theorem dottedPath_eq_segments (steps : List String) :
    dottedPath steps = ".".intercalate (pathSegments steps) := by
  rw [dottedPath_eq, pathSegments, intercalate_flatMap_split]

theorem not_mem_pathSegments {steps : List String} : ∀ s ∈ pathSegments steps, '.' ∉ s.toList := by
  intro s hs
  obtain ⟨step, -, hs⟩ := List.mem_flatMap.1 hs
  obtain ⟨l, hl, rfl⟩ := List.mem_map.1 hs
  rw [String.toList_ofList]
  exact Framing.not_mem_of_mem_splitOn '.' hl

/-- Only steps without segments have an empty path. -/
theorem dottedPath_eq_empty {steps : List String} :
    dottedPath steps = "" ↔ pathSegments steps = [] := by
  constructor
  · intro h
    rw [dottedPath_eq] at h
    rw [pathSegments]
    cases hd : steps.dropWhile String.isEmpty with
    | nil => rfl
    | cons step rest =>
      have hstep : step ≠ "" := by
        rintro rfl
        have := List.head?_dropWhile_not String.isEmpty steps
        simp [hd] at this
      rw [hd, ← foldl_enterPath hstep] at h
      exact absurd h (foldl_enterPath_ne_empty hstep rest)
  · intro h
    rw [dottedPath_eq_segments, h, String.intercalate_nil]

/-- **Two paths are equal** just when their segments are. -/
theorem dottedPath_inj {steps steps' : List String} :
    dottedPath steps = dottedPath steps' ↔ pathSegments steps = pathSegments steps' := by
  constructor
  · intro h
    by_cases hnil : pathSegments steps = []
    · have hempty := dottedPath_eq_empty.2 hnil
      rw [hnil, dottedPath_eq_empty.1 (h ▸ hempty)]
    · have hnil' : pathSegments steps' ≠ [] := by
        intro he
        exact hnil (dottedPath_eq_empty.1 (h.trans (dottedPath_eq_empty.2 he)))
      -- the segments hold no dot, so splitting the path gives them back
      have hsplit : ∀ {steps : List String}, pathSegments steps ≠ [] →
          (dottedPath steps).toList.splitOn '.' = (pathSegments steps).map String.toList := by
        intro steps hne
        rw [dottedPath_eq_segments, String.toList_intercalate]
        refine List.splitOn_intercalate '.' ?_ (by simpa using hne)
        simpa using not_mem_pathSegments
      have hmap : (pathSegments steps).map String.toList = (pathSegments steps').map String.toList := by
        rw [← hsplit hnil, ← hsplit hnil', h]
      exact List.map_injective_iff.2 (fun _ _ => String.toList_injective) hmap
  · intro h
    rw [dottedPath_eq_segments, dottedPath_eq_segments, h]

/-! ## Presses -/

/-- Whether a redacted field counts as revealed. -/
def App.shows (app : App) (field : RevealedField) : Bool :=
  app.isRevealed field.call field.payload field.path

/-- Which of the fields count as revealed. -/
def shown (app : App) (fields : List RevealedField) : List Bool := fields.map app.shows

/-- The fields of a call that do not. -/
def hiddenCount (app : App) (fields : List RevealedField) : ℕ := (shown app fields).count false

/-- The console after a number of presses. -/
def presses (n : ℕ) (app : App) : App := (App.revealNext exts)^[n] app

/-- The first hidden field, and no other, is shown after. -/
def RevealsFirst (before after : List Bool) : Prop :=
  ∃ pre post, false ∉ pre ∧ before = pre ++ false :: post ∧ after = pre ++ true :: post

/-- The cursor is on a call. -/
def OnCall (app : App) (target : CallTarget) (call : CapabilityCall) : Prop :=
  app.cursorCall = some target ∧ app.callAt target = some call

theorem presses_succ (n : ℕ) (app : App) :
    presses exts (n + 1) app = (presses exts n app).revealNext exts :=
  Function.iterate_succ_apply' _ n app

theorem RevealsFirst.count {before after : List Bool} (h : RevealsFirst before after) :
    before.count false = after.count false + 1 := by
  obtain ⟨pre, post, -, rfl, rfl⟩ := h
  simp
  omega

theorem shows_reveal (app : App) (field other : RevealedField) :
    (app.reveal field).shows other = (app.shows other || decide (other = field)) := by
  rw [App.reveal, App.shows, App.shows]
  by_cases h : app.isRevealed field.call field.payload field.path
  · rw [if_pos h]
    by_cases he : other = field
    · simp [he, h]
    · simp [he]
  · rw [if_neg h]
    have hiff : (decide (field.call = other.call) && decide (field.payload = other.payload) &&
        decide (field.path = other.path)) = decide (other = field) := by
      obtain ⟨call, payload, path⟩ := field
      obtain ⟨call', payload', path'⟩ := other
      simp [eq_comm, Bool.and_assoc, RevealedField.mk.injEq]
    simp [App.isRevealed, ← hiff]

section
variable {app : App} {target : CallTarget} {call : CapabilityCall}

/-- A press on a call reveals its first hidden field, or finds none. -/
theorem revealNext_eq (h : OnCall app target call) :
    app.revealNext exts =
      match (App.revealCandidates exts target call).find? fun field => !app.shows field with
      | none => app.setNotice (.info "nothing left to reveal in this call")
      | some field => app.reveal field := by
  rw [App.revealNext, h.1]
  simp only [h.2]
  rfl

theorem OnCall.reveal (h : OnCall app target call) (field : RevealedField) :
    OnCall (app.reveal field) target call := by
  rw [App.reveal]
  split_ifs
  · exact h
  · exact h

/-- The cursor stays on the call. -/
theorem OnCall.press (h : OnCall app target call) : OnCall (app.revealNext exts) target call := by
  rw [revealNext_eq exts h]
  cases (App.revealCandidates exts target call).find? fun field => !app.shows field with
  | none => exact h
  | some field => exact h.reveal field

theorem OnCall.presses (h : OnCall app target call) (n : ℕ) :
    OnCall (DekoponConsole.presses exts n app) target call := by
  induction n with
  | zero => exact h
  | succ n ih =>
    rw [presses_succ]
    exact ih.press exts

/-- **One press** with something hidden shows the first hidden field, where no
    other field has its identity. -/
theorem revealsFirst_press (h : OnCall app target call)
    (hnodup : (App.revealCandidates exts target call).Nodup)
    (hcount : 0 < hiddenCount app (App.revealCandidates exts target call)) :
    RevealsFirst (shown app (App.revealCandidates exts target call))
      (shown (app.revealNext exts) (App.revealCandidates exts target call)) := by
  rw [revealNext_eq exts h]
  cases hf : (App.revealCandidates exts target call).find? fun field => !app.shows field with
  | none =>
    obtain ⟨field, hm, hs⟩ := List.mem_map.1 (List.count_pos_iff.1 hcount)
    have := List.find?_eq_none.1 hf field hm
    simp [hs] at this
  | some field =>
    obtain ⟨hs, pre, post, hl, hpre⟩ := List.find?_eq_some_iff_append.1 hf
    rw [hl] at hnodup ⊢
    obtain ⟨-, hfield, hne⟩ := List.nodup_append.1 hnodup
    have hs : app.shows field = false := by simpa using hs
    have hother : ∀ other, other ≠ field → (app.reveal field).shows other = app.shows other := by
      intro other ho
      simp [shows_reveal, ho]
    have hfst : pre.map (app.reveal field).shows = pre.map app.shows :=
      List.map_congr_left fun other ho => hother other (hne other ho field (by simp))
    have hsnd : post.map (app.reveal field).shows = post.map app.shows := by
      refine List.map_congr_left fun other ho => hother other ?_
      rintro rfl
      exact (List.nodup_cons.1 hfield).1 ho
    refine ⟨pre.map app.shows, post.map app.shows, ?_, by simp [shown, hs], ?_⟩
    · intro hm
      obtain ⟨other, ho, hs⟩ := List.mem_map.1 hm
      have := hpre other ho
      simp [hs] at this
    · simp [shown, hfst, hsnd, shows_reveal]

/-- One press with nothing hidden says so. -/
theorem press_nothing (h : OnCall app target call)
    (hcount : hiddenCount app (App.revealCandidates exts target call) = 0) :
    app.revealNext exts = app.setNotice (.info "nothing left to reveal in this call") := by
  have hf : (App.revealCandidates exts target call).find? (fun field => !app.shows field) = none := by
    refine List.find?_eq_none.2 fun field hm hs => ?_
    have hs : app.shows field = false := by simpa using hs
    exact List.count_eq_zero.1 hcount (List.mem_map.2 ⟨field, hm, hs⟩)
  rw [revealNext_eq exts h, hf]

/-- A press shows nothing of another call. -/
theorem shows_press_other (h : OnCall app target call) {field : RevealedField}
    (hf : field.call ≠ target) : (app.revealNext exts).shows field = app.shows field := by
  rw [revealNext_eq exts h]
  cases hfind : (App.revealCandidates exts target call).find? fun field => !app.shows field with
  | none => rfl
  | some next =>
    have hnext : next.call = target := by
      obtain ⟨x, -, hx⟩ := List.mem_flatMap.1 (List.mem_of_find?_eq_some hfind)
      obtain ⟨redaction, -, rfl⟩ := List.mem_map.1 hx
      rfl
    have hne : field ≠ next := fun he => hf (he ▸ hnext)
    simp [shows_reveal, hne]

end

/-! ## One by one -/

/-- In every console whose cursor is on a call with the input, whatever is
    revealed already: its fields are the redactions, told apart, each press shows
    the first hidden one of them until none is left, and no press shows a field
    of another call. -/
def OneByOne (input : Value) : Prop :=
  ∀ (app : App) (target : CallTarget) (call : CapabilityCall), OnCall app target call →
    call.input = input →
    let fields := App.revealCandidates exts target call
    fields.map RevealedField.path = (redact exts input).redactions.map Redaction.path ∧
      fields.Nodup ∧
      ∀ n, (if n < hiddenCount app fields then
          RevealsFirst (shown (presses exts n app) fields) (shown (presses exts (n + 1) app) fields)
        else presses exts (n + 1) app =
          (presses exts n app).setNotice (.info "nothing left to reveal in this call")) ∧
        ∀ field, field.call ≠ target → (presses exts n app).shows field = app.shows field

/-- No two hidden nodes of the value have the same path segments. -/
def SegmentsApart (v : Value) : Prop :=
  ∀ pos pos' n n', HiddenNode exts v pos n → HiddenNode exts v pos' n' →
    pathSegments n.steps = pathSegments n'.steps → pos = pos'

theorem revealCandidates_eq (target : CallTarget) (call : CapabilityCall) :
    App.revealCandidates exts target call = (hiddenNodes exts call.input).map fun x =>
      ⟨target, .input, dottedPath x.2.steps⟩ := by
  rw [App.revealCandidates, CapabilityCall.payloads, List.flatMap_singleton]
  simp only [redactions_redact, List.map_map]
  rfl

theorem nodup_positions (v : Value) : ((hiddenNodes exts v).map Prod.fst).Nodup := by
  refine List.nodup_iff_pairwise_ne.2 (List.pairwise_map.2 ((ordered_hiddenNodes exts v).imp ?_))
  intro x y hlt
  exact ne_of_lt hlt

/-- The fields of a call are told apart where the segments are. -/
theorem nodup_candidates_iff (target : CallTarget) (call : CapabilityCall) :
    (App.revealCandidates exts target call).Nodup ↔ SegmentsApart exts call.input := by
  have hpos := nodup_positions exts call.input
  rw [revealCandidates_eq, List.nodup_map_iff_inj_on hpos.of_map]
  constructor
  · intro h pos pos' n n' hn hn' he
    have hxy := h (pos, n) ((mem_hiddenNodes exts).2 hn) (pos', n') ((mem_hiddenNodes exts).2 hn')
      (by rw [dottedPath_inj.2 he])
    exact congrArg Prod.fst hxy
  · intro h x hx y hy he
    have hpath : dottedPath x.2.steps = dottedPath y.2.steps := congrArg RevealedField.path he
    have hfst := h x.1 y.1 x.2 y.2 ((mem_hiddenNodes exts).1 hx) ((mem_hiddenNodes exts).1 hy)
      (dottedPath_inj.1 hpath)
    exact List.inj_on_of_nodup_map hpos hx hy hfst

/-- Each press until none is left leaves one hidden field less. -/
theorem hiddenCount_presses {app : App} {target : CallTarget} {call : CapabilityCall}
    (h : OnCall app target call) (hnodup : (App.revealCandidates exts target call).Nodup) (n : ℕ) :
    hiddenCount (presses exts n app) (App.revealCandidates exts target call) =
      hiddenCount app (App.revealCandidates exts target call) - n := by
  induction n with
  | zero => rfl
  | succ n ih =>
    have hn := h.presses exts n
    rw [presses_succ, Nat.sub_add_eq, ← ih]
    by_cases hcount : 0 < hiddenCount (presses exts n app) (App.revealCandidates exts target call)
    · have := (revealsFirst_press exts hn hnodup hcount).count
      simp only [hiddenCount] at this ⊢
      omega
    · have hzero : hiddenCount (presses exts n app) (App.revealCandidates exts target call) = 0 := by
        omega
      rw [press_nothing exts hn hzero]
      show hiddenCount (presses exts n app) _ = _
      omega

theorem shows_presses_other {app : App} {target : CallTarget} {call : CapabilityCall}
    (h : OnCall app target call) {field : RevealedField} (hf : field.call ≠ target) (n : ℕ) :
    (presses exts n app).shows field = app.shows field := by
  induction n with
  | zero => rfl
  | succ n ih => rw [presses_succ, shows_press_other exts (h.presses exts n) hf, ih]

/-- A call with the given input. -/
def callWith (input : Value) : CapabilityCall := ⟨1, "gh.issue.read", input, .succeeded, 0⟩

/-- A console whose only call has the given input. -/
def consoleWith (input : Value) : App :=
  { App.new [] "" "" "" with
    transcript := ⟨[{ Turn.opened 1 "" with scripts := [⟨1, "", [callWith input], none⟩] }]⟩ }

theorem onCall_consoleWith (input : Value) :
    OnCall (consoleWith input) (0, 0, 0) (callWith input) := ⟨rfl, rfl⟩

/-- **Exactly when presses reveal one field each**: when no two hidden nodes of
    the input have the same path segments. -/
theorem oneByOne_iff (input : Value) : OneByOne exts input ↔ SegmentsApart exts input := by
  constructor
  · intro h
    exact (nodup_candidates_iff exts _ _).1
      (h _ _ _ (onCall_consoleWith input) rfl).2.1
  · rintro h app target call hcall rfl
    have hnodup := (nodup_candidates_iff exts target call).2 h
    refine ⟨by simp [revealCandidates_eq, redactions_redact], hnodup, ?_⟩
    intro n
    have hcount := hiddenCount_presses exts hcall hnodup n
    refine ⟨?_, fun field hf => shows_presses_other exts hcall hf n⟩
    rw [presses_succ]
    split_ifs with hn
    · exact revealsFirst_press exts (hcall.presses exts n) hnodup (by omega)
    · exact press_nothing exts (hcall.presses exts n) (by omega)

/-- Keys with a dot: two fields have the path `a.b.token`. -/
def dottedKeys : Value :=
  .object [("a", .object [("b", .object [("token", .string "1")])]),
    ("a.b", .object [("token", .string "2")])]

/-- One press reveals both fields. -/
theorem press_reveals_two :
    let fields := App.revealCandidates .plain (0, 0, 0) (callWith dottedKeys)
    OnCall (consoleWith dottedKeys) (0, 0, 0) (callWith dottedKeys) ∧
      shown (consoleWith dottedKeys) fields = [false, false] ∧
      shown (presses .plain 1 (consoleWith dottedKeys)) fields = [true, true] ∧
      ¬ OneByOne .plain dottedKeys := by
  have hpress : shown (presses .plain 1 (consoleWith dottedKeys))
      (App.revealCandidates .plain (0, 0, 0) (callWith dottedKeys)) = [true, true] := by decide
  refine ⟨onCall_consoleWith dottedKeys, by decide, hpress, ?_⟩
  intro h
  obtain ⟨-, hnodup, -⟩ := h _ _ _ (onCall_consoleWith dottedKeys) rfl
  revert hnodup
  decide

end DekoponConsole
