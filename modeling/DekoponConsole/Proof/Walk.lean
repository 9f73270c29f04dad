/-
  What a walk through a value hides, reports and leaves.

  * `HiddenNode v pos node`: an outermost value under a secret key, or a string
    outside of those in which the redactor finds a secret, with the steps to it,
    the rule and what is shown in its place;
  * `hiddenNodes v` lists them in document order (`mem_hiddenNodes`,
    `pairwise_hiddenNodes`), and a walk reports just this list (`found_walk`);
  * `redact_hiddenNodes`: every hidden node is reported and replaced, and nothing
    else changes.
-/
import DekoponConsole.Proof.Redact

namespace DekoponConsole

/-! ## Values -/

/-- Induction on a value, with the hypothesis for every item and every field. -/
@[elab_as_elim]
theorem Value.induct {P : Value → Prop} (null : P .null) (bool : ∀ b, P (.bool b))
    (number : ∀ n, P (.number n)) (string : ∀ text, P (.string text))
    (array : ∀ items, (∀ v ∈ items, P v) → P (.array items))
    (object : ∀ fields : List (String × Value), (∀ f ∈ fields, P f.2) → P (.object fields))
    (v : Value) : P v := by
  refine @Value.rec P (fun items => ∀ v ∈ items, P v) (fun fields => ∀ f ∈ fields, P f.2)
    (fun f => P f.2) null bool number string array object ?_ ?_ ?_ ?_ ?_ v
  · simp
  · intro item items hitem hitems
    exact List.forall_mem_cons.2 ⟨hitem, hitems⟩
  · simp
  · intro f fields hf hfields
    exact List.forall_mem_cons.2 ⟨hf, hfields⟩
  · intro key v hv
    exact hv

theorem Value.isNull_iff {v : Value} : v.isNull ↔ v = .null := by
  cases v <;> simp [Value.isNull]

/-- Two values look alike as nodes: equal scalars, arrays of one length, objects
    of the same keys. -/
def SameNode : Value → Value → Prop
  | .array items, .array items' => items.length = items'.length
  | .object fields, .object fields' => fields.map Prod.fst = fields'.map Prod.fst
  | v, v' => v = v'

variable (exts : Externals)

/-- The length a marker counts: the characters of a string, or of the JSON text. -/
def countedLength : Value → ℕ
  | .string text => text.toList.length
  | other => (exts.valueToString other).toList.length

/-! ## Hidden nodes -/

/-- A hidden node: the steps to it, the rule that hides it, and what is shown. -/
structure Node where
  steps : List String
  reason : RedactionReason
  shown : Value

/-- The node, seen from one step above. -/
def Node.below (step : String) (n : Node) : Node := { n with steps := step :: n.steps }

/-- A hidden node of a value, at a position. -/
inductive HiddenNode : Value → List ℕ → Node → Prop
  | shape {text output : String} (h : redactText exts text = some output) :
      HiddenNode (.string text) [] ⟨[], .shape, .string output⟩
  | key {fields : List (String × Value)} {i : ℕ} {key : String} {v : Value}
      (hi : fields[i]? = some (key, v)) (hk : keyIsSecret key) (hv : v ≠ .null) :
      HiddenNode (.object fields) [i]
        ⟨[key], .key, .string (exts.redactionMarker (countedLength exts v))⟩
  | item {items : List Value} {i : ℕ} {v : Value} {pos : List ℕ} {n : Node}
      (hi : items[i]? = some v) (h : HiddenNode v pos n) :
      HiddenNode (.array items) (i :: pos) (n.below (toString i))
  | field {fields : List (String × Value)} {i : ℕ} {key : String} {v : Value} {pos : List ℕ}
      {n : Node} (hi : fields[i]? = some (key, v)) (hk : keyIsSecret key = false)
      (h : HiddenNode v pos n) : HiddenNode (.object fields) (i :: pos) (n.below key)

/-- A node with its position, seen from one step above. -/
def below (i : ℕ) (step : String) (x : List ℕ × Node) : List ℕ × Node := (i :: x.1, x.2.below step)

mutual

/-- The hidden nodes of a value, in document order. -/
def hiddenNodes : Value → List (List ℕ × Node)
  | .string text =>
    match redactText exts text with
    | some output => [([], ⟨[], .shape, .string output⟩)]
    | none => []
  | .array items => hiddenItems 0 items
  | .object fields => hiddenFields 0 fields
  | .null | .bool _ | .number _ => []

def hiddenItems (i : ℕ) : List Value → List (List ℕ × Node)
  | [] => []
  | item :: items => (hiddenNodes item).map (below i (toString i)) ++ hiddenItems (i + 1) items

def hiddenFields (i : ℕ) : List (String × Value) → List (List ℕ × Node)
  | [] => []
  | (key, v) :: fields =>
    (if keyIsSecret key then
        if v.isNull then []
        else [([], ⟨[], .key, .string (exts.redactionMarker (countedLength exts v))⟩)]
      else hiddenNodes v).map (below i key) ++ hiddenFields (i + 1) fields

end

section
variable {pos : List ℕ} {n : Node}

theorem mem_map_below {l : List (List ℕ × Node)} {i : ℕ} {step : String} :
    (pos, n) ∈ l.map (below i step) ↔
      ∃ pos' n', (pos', n') ∈ l ∧ pos = i :: pos' ∧ n = n'.below step := by
  constructor
  · intro h
    obtain ⟨⟨pos', n'⟩, hm, he⟩ := List.mem_map.1 h
    obtain ⟨rfl, rfl⟩ := Prod.mk.inj he
    exact ⟨pos', n', hm, rfl, rfl⟩
  · rintro ⟨pos', n', hm, rfl, rfl⟩
    exact List.mem_map_of_mem hm

/-- The hidden nodes of a field, as those of its object see them. -/
def fieldNodes (key : String) (v : Value) : List (List ℕ × Node) :=
  if keyIsSecret key then
    if v.isNull then []
    else [([], ⟨[], .key, .string (exts.redactionMarker (countedLength exts v))⟩)]
  else hiddenNodes exts v

theorem hiddenFields_cons (i : ℕ) (key : String) (v : Value) (fields : List (String × Value)) :
    hiddenFields exts i ((key, v) :: fields) =
      (fieldNodes exts key v).map (below i key) ++ hiddenFields exts (i + 1) fields := by
  rw [hiddenFields, fieldNodes]

/-- Every item lists its hidden nodes one step below it. -/
theorem mem_hiddenItems {items : List Value} {i : ℕ} :
    (pos, n) ∈ hiddenItems exts i items ↔
      ∃ (k : ℕ) (v : Value) (pos' : List ℕ) (n' : Node), items[k]? = some v ∧
        (pos', n') ∈ hiddenNodes exts v ∧ pos = (i + k) :: pos' ∧
          n = n'.below (toString (i + k)) := by
  induction items generalizing i with
  | nil => simp [hiddenItems]
  | cons item items ih =>
    rw [hiddenItems, List.mem_append, mem_map_below, ih]
    constructor
    · rintro (⟨pos', n', hm, hp, hn⟩ | ⟨k, v, pos', n', hk, hm, hp, hn⟩)
      · exact ⟨0, item, pos', n', rfl, hm, hp, hn⟩
      · refine ⟨k + 1, v, pos', n', hk, hm, ?_⟩
        rw [← Nat.add_assoc, Nat.add_right_comm]
        exact ⟨hp, hn⟩
    · rintro ⟨k, v, pos', n', hk, hm, hp, hn⟩
      cases k with
      | zero =>
        obtain rfl : item = v := by simpa using hk
        exact Or.inl ⟨pos', n', hm, hp, hn⟩
      | succ k =>
        refine Or.inr ⟨k, v, pos', n', by simpa using hk, hm, ?_⟩
        rw [Nat.add_right_comm, Nat.add_assoc]
        exact ⟨hp, hn⟩

theorem mem_hiddenFields {fields : List (String × Value)} {i : ℕ} :
    (pos, n) ∈ hiddenFields exts i fields ↔
      ∃ (k : ℕ) (key : String) (v : Value) (pos' : List ℕ) (n' : Node),
        fields[k]? = some (key, v) ∧ (pos', n') ∈ fieldNodes exts key v ∧
          pos = (i + k) :: pos' ∧ n = n'.below key := by
  induction fields generalizing i with
  | nil => simp [hiddenFields]
  | cons f fields ih =>
    rw [hiddenFields_cons, List.mem_append, mem_map_below, ih]
    constructor
    · rintro (⟨pos', n', hm, hp, hn⟩ | ⟨k, key, v, pos', n', hk, hm, hp, hn⟩)
      · exact ⟨0, f.1, f.2, pos', n', rfl, hm, hp, hn⟩
      · refine ⟨k + 1, key, v, pos', n', hk, hm, ?_, hn⟩
        rw [hp, ← Nat.add_assoc, Nat.add_right_comm]
    · rintro ⟨k, key, v, pos', n', hk, hm, hp, hn⟩
      cases k with
      | zero =>
        obtain rfl : f = (key, v) := by simpa using hk
        exact Or.inl ⟨pos', n', hm, hp, hn⟩
      | succ k =>
        refine Or.inr ⟨k, key, v, pos', n', by simpa using hk, hm, ?_, hn⟩
        rw [hp, Nat.add_right_comm, Nat.add_assoc]

theorem mem_fieldNodes {key : String} {v : Value} :
    (pos, n) ∈ fieldNodes exts key v ↔
      (keyIsSecret key ∧ v ≠ .null ∧ pos = [] ∧
        n = ⟨[], .key, .string (exts.redactionMarker (countedLength exts v))⟩) ∨
      (keyIsSecret key = false ∧ (pos, n) ∈ hiddenNodes exts v) := by
  rw [fieldNodes]
  split_ifs with hk hv
  · simp [hk, Value.isNull_iff.1 hv]
  · simp [hk, mt Value.isNull_iff.2 hv]
  · simp [hk]

/-- **The list of the hidden nodes** holds just those. -/
theorem mem_hiddenNodes {v : Value} : (pos, n) ∈ hiddenNodes exts v ↔ HiddenNode exts v pos n := by
  constructor
  · intro h
    induction v using Value.induct generalizing pos n with
    | null => simp [hiddenNodes] at h
    | bool b => simp [hiddenNodes] at h
    | number m => simp [hiddenNodes] at h
    | string text =>
      rw [hiddenNodes] at h
      cases ht : redactText exts text with
      | none => simp [ht] at h
      | some output =>
        obtain ⟨rfl, rfl⟩ : pos = [] ∧ n = ⟨[], .shape, .string output⟩ := by simpa [ht] using h
        exact .shape ht
    | array items ih =>
      rw [hiddenNodes] at h
      obtain ⟨k, v, pos', n', hk, hm, rfl, rfl⟩ := (mem_hiddenItems exts).1 h
      rw [Nat.zero_add]
      exact .item hk (ih v (List.mem_of_getElem? hk) hm)
    | object fields ih =>
      rw [hiddenNodes] at h
      obtain ⟨k, key, v, pos', n', hk, hm, rfl, rfl⟩ := (mem_hiddenFields exts).1 h
      rw [Nat.zero_add]
      rcases (mem_fieldNodes exts).1 hm with ⟨hs, hv, rfl, rfl⟩ | ⟨hs, hm⟩
      · exact .key hk hs hv
      · exact .field hk hs (ih _ (List.mem_of_getElem? hk) hm)
  · intro h
    induction h with
    | shape h => simp [hiddenNodes, h]
    | key hi hk hv =>
      rw [hiddenNodes, mem_hiddenFields]
      exact ⟨_, _, _, [], _, hi, (mem_fieldNodes exts).2 (Or.inl ⟨hk, hv, rfl, rfl⟩),
        by rw [Nat.zero_add], rfl⟩
    | item hi _ ih =>
      rw [hiddenNodes, mem_hiddenItems]
      exact ⟨_, _, _, _, hi, ih, by rw [Nat.zero_add], by rw [Nat.zero_add]⟩
    | field hi hk _ ih =>
      rw [hiddenNodes, mem_hiddenFields]
      exact ⟨_, _, _, _, _, hi, (mem_fieldNodes exts).2 (Or.inr ⟨hk, ih⟩), by rw [Nat.zero_add], rfl⟩

end

/-! ## Document order -/

/-- The positions of the nodes grow. -/
def Ordered (l : List (List ℕ × Node)) : Prop := l.Pairwise fun x y => x.1 < y.1

theorem Ordered.below {l : List (List ℕ × Node)} (h : Ordered l) (i : ℕ) (step : String) :
    Ordered (l.map (DekoponConsole.below i step)) := by
  refine List.pairwise_map.2 (h.imp ?_)
  intro x y hxy
  exact List.cons_lt_cons_iff.2 (Or.inr ⟨rfl, hxy⟩)

/-- The nodes below one step come before those below a later one. -/
theorem Ordered.append {l l' : List (List ℕ × Node)} {i : ℕ} {step : String} (h : Ordered l)
    (h' : Ordered l') (hl' : ∀ x ∈ l', ∃ k pos, x.1 = (i + 1 + k) :: pos) :
    Ordered (l.map (DekoponConsole.below i step) ++ l') := by
  refine List.pairwise_append.2 ⟨h.below i step, h', ?_⟩
  intro x hx y hy
  obtain ⟨z, -, rfl⟩ := List.mem_map.1 hx
  obtain ⟨k, pos, hp⟩ := hl' y hy
  rw [hp]
  exact List.cons_lt_cons_iff.2 (Or.inl (by omega))

theorem ordered_hiddenItems {items : List Value} (h : ∀ v ∈ items, Ordered (hiddenNodes exts v))
    (i : ℕ) : Ordered (hiddenItems exts i items) := by
  induction items generalizing i with
  | nil => exact List.Pairwise.nil
  | cons item items ih =>
    obtain ⟨hitem, hitems⟩ := List.forall_mem_cons.1 h
    refine hitem.append (ih hitems (i + 1)) ?_
    intro x hx
    obtain ⟨k, -, pos, -, -, -, hp, -⟩ := (mem_hiddenItems exts).1 hx
    exact ⟨k, pos, hp⟩

theorem ordered_fieldNodes {key : String} {v : Value} (h : Ordered (hiddenNodes exts v)) :
    Ordered (fieldNodes exts key v) := by
  rw [fieldNodes]
  split_ifs
  · exact List.Pairwise.nil
  · exact List.pairwise_singleton _ _
  · exact h

theorem ordered_hiddenFields {fields : List (String × Value)}
    (h : ∀ f ∈ fields, Ordered (hiddenNodes exts f.2)) (i : ℕ) :
    Ordered (hiddenFields exts i fields) := by
  induction fields generalizing i with
  | nil => exact List.Pairwise.nil
  | cons f fields ih =>
    obtain ⟨hf, hfields⟩ := List.forall_mem_cons.1 h
    rw [hiddenFields_cons]
    refine (ordered_fieldNodes exts hf).append (ih hfields (i + 1)) ?_
    intro x hx
    obtain ⟨k, -, -, pos, -, -, -, hp, -⟩ := (mem_hiddenFields exts).1 hx
    exact ⟨k, pos, hp⟩

theorem ordered_hiddenNodes (v : Value) : Ordered (hiddenNodes exts v) := by
  induction v using Value.induct with
  | null | bool | number => exact List.Pairwise.nil
  | string text =>
    rw [hiddenNodes]
    cases redactText exts text with
    | none => exact List.Pairwise.nil
    | some output => exact List.pairwise_singleton _ _
  | array items ih => exact ordered_hiddenItems exts ih 0
  | object fields ih => exact ordered_hiddenFields exts ih 0

/-! ## The walk reports the list -/

/-- What a walk reports of a hidden node below a path. -/
def reportAt (path : String) (x : List ℕ × Node) : Redaction :=
  ⟨x.2.steps.foldl enterPath path, x.2.reason⟩

theorem map_reportAt_below (path : String) (i : ℕ) (step : String) (l : List (List ℕ × Node)) :
    (l.map (below i step)).map (reportAt path) = l.map (reportAt (enterPath path step)) := by
  rw [List.map_map]
  rfl

/-- Under a secret key a value is replaced whole, unless it is null. -/
theorem walk_true (w : Walk) (v : Value) :
    walk exts true w v =
      if v.isNull then (v, w)
      else (.string (exts.redactionMarker (countedLength exts v)), w.report .key) := by
  cases v <;> rfl

theorem walk_array (w : Walk) (items : List Value) :
    walk exts false w (.array items) =
      (.array (walkItems exts w 0 items).1, (walkItems exts w 0 items).2) := rfl

theorem walk_object (w : Walk) (fields : List (String × Value)) :
    walk exts false w (.object fields) =
      (.object (walkFields exts w fields).1, (walkFields exts w fields).2) := rfl

theorem found_walkField (key : String) {v : Value}
    (h : ∀ w, (walk exts false w v).2.found =
      w.found ++ (hiddenNodes exts v).map (reportAt w.path)) (w : Walk) :
    (walk exts (keyIsSecret key) w v).2.found =
      w.found ++ (fieldNodes exts key v).map (reportAt w.path) := by
  rw [fieldNodes]
  cases hk : keyIsSecret key with
  | true =>
    rw [walk_true]
    cases hv : v.isNull <;> simp [Walk.report, reportAt]
  | false => simpa using h w

theorem found_walkItems {items : List Value}
    (h : ∀ v ∈ items, ∀ w, (walk exts false w v).2.found =
      w.found ++ (hiddenNodes exts v).map (reportAt w.path)) (w : Walk) (i : ℕ) :
    (walkItems exts w i items).2.found =
      w.found ++ (hiddenItems exts i items).map (reportAt w.path) := by
  induction items generalizing w i with
  | nil => simp [walkItems, hiddenItems]
  | cons item items ih =>
    obtain ⟨hitem, hitems⟩ := List.forall_mem_cons.1 h
    have hleave := (walk_extends exts false (w.enter (toString i)) item).leave.1
    have hfound := hitem (w.enter (toString i))
    rw [walkItems, ih hitems, hleave, hiddenItems, List.map_append, ← List.append_assoc,
      map_reportAt_below]
    exact congrArg (· ++ _) hfound

theorem found_walkFields {fields : List (String × Value)}
    (h : ∀ f ∈ fields, ∀ w, (walk exts false w f.2).2.found =
      w.found ++ (hiddenNodes exts f.2).map (reportAt w.path)) (w : Walk) (i : ℕ) :
    (walkFields exts w fields).2.found =
      w.found ++ (hiddenFields exts i fields).map (reportAt w.path) := by
  induction fields generalizing w i with
  | nil => simp [walkFields, hiddenFields]
  | cons f fields ih =>
    obtain ⟨hf, hfields⟩ := List.forall_mem_cons.1 h
    have hleave := (walk_extends exts (keyIsSecret f.1) (w.enter f.1) f.2).leave.1
    have hfound := found_walkField exts f.1 hf (w.enter f.1)
    rw [walkFields, ih hfields _ (i + 1), hleave, hiddenFields_cons, List.map_append,
      ← List.append_assoc, map_reportAt_below]
    exact congrArg (· ++ _) hfound

/-- **A walk reports** the hidden nodes, in order and after what it had found. -/
theorem found_walk (v : Value) (w : Walk) :
    (walk exts false w v).2.found = w.found ++ (hiddenNodes exts v).map (reportAt w.path) := by
  induction v using Value.induct generalizing w with
  | null | bool | number => simp [walk, hiddenNodes]
  | string text =>
    simp only [walk, hiddenNodes]
    cases redactText exts text with
    | none => simp
    | some output => rfl
  | array items ih => exact found_walkItems exts ih w 0
  | object fields ih => exact found_walkFields exts ih w 0

theorem redactions_redact (v : Value) :
    (redact exts v).redactions =
      (hiddenNodes exts v).map fun x => ⟨dottedPath x.2.steps, x.2.reason⟩ :=
  found_walk exts v ⟨"", []⟩

/-! ## What is shown -/

/-- A hidden node is replaced by what is shown of it. -/
theorem walk_hiddenNode {v : Value} {pos : List ℕ} {n : Node} (h : HiddenNode exts v pos n)
    (w : Walk) : (walk exts false w v).1.at pos = some n.shown := by
  induction h generalizing w with
  | shape h => simp [walk, h, Value.at]
  | key hi hk hv =>
    obtain ⟨w', -, hget, -⟩ := walkFields_getElem exts hi w
    rw [hk, walk_true, if_neg (mt Value.isNull_iff.1 hv)] at hget
    simp [walk, Value.at, hget]
  | item hi _ ih =>
    obtain ⟨w', -, hget, -⟩ := walkItems_getElem exts hi w 0
    simp [walk, Value.at, hget, ih w', Node.below]
  | field hi hk _ ih =>
    obtain ⟨w', -, hget, -⟩ := walkFields_getElem exts hi w
    rw [hk] at hget
    simp [walk, Value.at, hget, ih w', Node.below]

theorem length_walkItems (items : List Value) (w : Walk) (i : ℕ) :
    (walkItems exts w i items).1.length = items.length := by
  induction items generalizing w i with
  | nil => rfl
  | cons item items ih => rw [walkItems, List.length_cons, List.length_cons, ih]

theorem keys_walkFields (fields : List (String × Value)) (w : Walk) :
    (walkFields exts w fields).1.map Prod.fst = fields.map Prod.fst := by
  induction fields generalizing w with
  | nil => rfl
  | cons f fields ih => rw [walkFields, List.map_cons, List.map_cons, ih]

/-- A node at a position, neither hidden nor inside a hidden one. -/
def Outside (v : Value) (pos : List ℕ) (node : Value) : Prop :=
  v.at pos = some node ∧ ∀ pos' n, HiddenNode exts v pos' n → ¬ pos' <+: pos

/-- What is not hidden itself stays as it is. -/
theorem sameNode_walk {v : Value} (h : ∀ n, ¬ HiddenNode exts v [] n) (w : Walk) :
    SameNode v (walk exts false w v).1 := by
  cases v with
  | null => rfl
  | bool b => rfl
  | number m => rfl
  | string text =>
    have hnone : redactText exts text = none := by
      cases ht : redactText exts text with
      | none => rfl
      | some output => exact absurd (.shape ht) (h _)
    simp [walk, hnone, SameNode]
  | array items => exact (length_walkItems exts items w 0).symm
  | object fields => exact (keys_walkFields exts fields w).symm

/-- **A node outside the hidden ones** stays as it is, in its place. -/
theorem walk_outside {v : Value} {pos : List ℕ} {node : Value} (h : Outside exts v pos node)
    (w : Walk) : ∃ node', (walk exts false w v).1.at pos = some node' ∧ SameNode node node' := by
  obtain ⟨hat, hout⟩ := h
  induction pos generalizing v w with
  | nil =>
    obtain rfl : v = node := by simpa [Value.at] using hat
    exact ⟨_, by simp [Value.at], sameNode_walk exts (fun n hn => hout [] n hn (by simp)) w⟩
  | cons i pos ih =>
    cases v with
    | null => simp [Value.at] at hat
    | bool b => simp [Value.at] at hat
    | number m => simp [Value.at] at hat
    | string text => simp [Value.at] at hat
    | array items =>
      obtain ⟨v, hi, hat⟩ := Option.bind_eq_some_iff.1 (by simpa [Value.at] using hat)
      obtain ⟨w', -, hget, -⟩ := walkItems_getElem exts hi w 0
      have hout' : ∀ pos' n, HiddenNode exts v pos' n → ¬ pos' <+: pos := by
        intro pos' n hn hp
        exact hout _ _ (.item hi hn) (List.cons_prefix_cons.2 ⟨rfl, hp⟩)
      obtain ⟨node', hat', hsame⟩ := ih w' hat hout'
      exact ⟨node', by simpa [walk, Value.at, hget] using hat', hsame⟩
    | object fields =>
      obtain ⟨⟨key, v⟩, hi, hat⟩ := Option.bind_eq_some_iff.1 (by simpa [Value.at] using hat)
      obtain ⟨w', -, hget, -⟩ := walkFields_getElem exts hi w
      by_cases hk : keyIsSecret key
      · -- only null is not replaced under a secret key
        have hv : v = .null := by
          by_contra hv
          exact hout _ _ (.key hi hk hv) (List.cons_prefix_cons.2 ⟨rfl, by simp⟩)
        subst hv
        obtain ⟨rfl, rfl⟩ : pos = [] ∧ node = .null := by
          cases pos with
          | nil => simpa [Value.at, eq_comm] using hat
          | cons j pos => simp [Value.at] at hat
        rw [hk, walk_true, if_pos (Value.isNull_iff.2 rfl)] at hget
        exact ⟨.null, by simp [walk, Value.at, hget], rfl⟩
      · have hk : keyIsSecret key = false := by simpa using hk
        have hout' : ∀ pos' n, HiddenNode exts v pos' n → ¬ pos' <+: pos := by
          intro pos' n hn hp
          exact hout _ _ (.field hi hk hn) (List.cons_prefix_cons.2 ⟨rfl, hp⟩)
        obtain ⟨node', hat', hsame⟩ := ih w' hat hout'
        rw [hk] at hget
        exact ⟨node', by simpa [walk, Value.at, hget] using hat', hsame⟩

/-! ## Nothing hidden -/

theorem walkItems_eq {items : List Value} {i : ℕ}
    (h : ∀ v ∈ items, hiddenNodes exts v = [] → ∀ w, (walk exts false w v).1 = v)
    (hnil : hiddenItems exts i items = []) (w : Walk) : (walkItems exts w i items).1 = items := by
  induction items generalizing w i with
  | nil => rfl
  | cons item items ih =>
    obtain ⟨hitem, hitems⟩ := List.forall_mem_cons.1 h
    obtain ⟨hi, his⟩ := List.append_eq_nil_iff.1 (by simpa [hiddenItems] using hnil)
    rw [walkItems, hitem (by simpa using hi), ih hitems his]

theorem walkField_eq {key : String} {v : Value}
    (h : hiddenNodes exts v = [] → ∀ w, (walk exts false w v).1 = v)
    (hnil : fieldNodes exts key v = []) (w : Walk) : (walk exts (keyIsSecret key) w v).1 = v := by
  rw [fieldNodes] at hnil
  cases hk : keyIsSecret key with
  | true =>
    rw [hk, if_pos rfl] at hnil
    split_ifs at hnil with hv
    rw [walk_true, if_pos hv]
  | false => exact h (by simpa [hk] using hnil) w

theorem walkFields_eq {fields : List (String × Value)} {i : ℕ}
    (h : ∀ f ∈ fields, hiddenNodes exts f.2 = [] → ∀ w, (walk exts false w f.2).1 = f.2)
    (hnil : hiddenFields exts i fields = []) (w : Walk) : (walkFields exts w fields).1 = fields := by
  induction fields generalizing w i with
  | nil => rfl
  | cons f fields ih =>
    obtain ⟨hf, hfields⟩ := List.forall_mem_cons.1 h
    rw [hiddenFields_cons] at hnil
    obtain ⟨hi, his⟩ := List.append_eq_nil_iff.1 hnil
    rw [walkFields, walkField_eq exts hf (by simpa using hi), ih hfields his]

/-- A value without hidden nodes is not changed. -/
theorem walk_eq {v : Value} (h : hiddenNodes exts v = []) (w : Walk) :
    (walk exts false w v).1 = v := by
  induction v using Value.induct generalizing w with
  | null | bool | number => rfl
  | string text =>
    rw [hiddenNodes] at h
    cases ht : redactText exts text with
    | none => simp [walk, ht]
    | some output => simp [ht] at h
  | array items ih => exact congrArg Value.array (walkItems_eq exts ih h w)
  | object fields ih => exact congrArg Value.object (walkFields_eq exts ih h w)

theorem hiddenNodes_eq_nil {v : Value} :
    hiddenNodes exts v = [] ↔ ∀ pos n, ¬ HiddenNode exts v pos n := by
  rw [List.eq_nil_iff_forall_not_mem]
  constructor
  · intro h pos n hn
    exact h _ ((mem_hiddenNodes exts).2 hn)
  · rintro h ⟨pos, n⟩ hm
    exact h pos n ((mem_hiddenNodes exts).1 hm)

/-- **Every redaction is reported and nothing else changes.** -/
theorem redact_hiddenNodes (v : Value) :
    ∃ nodes : List (List ℕ × Node),
      (∀ pos n, (pos, n) ∈ nodes ↔ HiddenNode exts v pos n) ∧
      nodes.Pairwise (fun x y => x.1 < y.1) ∧
      (redact exts v).redactions = nodes.map (fun x => ⟨dottedPath x.2.steps, x.2.reason⟩) ∧
      (∀ pos n, HiddenNode exts v pos n → (redact exts v).value.at pos = some n.shown) ∧
      (∀ pos node, Outside exts v pos node →
        ∃ node', (redact exts v).value.at pos = some node' ∧ SameNode node node') ∧
      ((redact exts v).isClean ↔ ∀ pos n, ¬ HiddenNode exts v pos n) ∧
      ((redact exts v).isClean → (redact exts v).value = v) := by
  have hclean : (redact exts v).isClean ↔ hiddenNodes exts v = [] := by
    rw [Redacted.isClean, redactions_redact, List.isEmpty_iff, List.map_eq_nil_iff]
  refine ⟨hiddenNodes exts v, ?_, ordered_hiddenNodes exts v, redactions_redact exts v, ?_, ?_, ?_, ?_⟩
  · intro pos n
    exact mem_hiddenNodes exts
  · intro pos n hn
    exact walk_hiddenNode exts hn ⟨"", []⟩
  · intro pos node hout
    exact walk_outside exts hout ⟨"", []⟩
  · rw [hclean, hiddenNodes_eq_nil]
  · intro h
    exact walk_eq exts (hclean.1 h) ⟨"", []⟩

end DekoponConsole
