/-
  What the text of an error chain keeps of its links.

  * `DynError.texts`: the texts `chain` goes through, one for each link visited;
  * `DynError.kept`: the messages that are not left out, those that are no suffix of
    the text before them;
  * `chain_keeps_causes`: the text has the message of every link, has just been
    brought to end with each one visited, and joins the kept ones.
-/
import DekoponConsole.Report

namespace DekoponConsole

/-! ## The texts on the way -/

/-- The messages of the causes, the error itself left out. -/
def DynError.causes (e : DynError) : List String := e.links.tail.map ErrorLink.display

/-- The text after each link visited, that of the error itself first. -/
def DynError.texts (e : DynError) : List String := e.causes.scanl chainExtend e.link.display

/-- The messages `chain` joins: the first, and that of every cause which is no suffix
    of the text before it. -/
def DynError.kept (e : DynError) : List String :=
  e.link.display ::
    ((e.causes.zip e.texts).filter fun (cause, text) =>
      ¬cause.toList <:+ text.toList).map Prod.fst

theorem links_eq (e : DynError) : e.links = e.link :: e.links.tail := by
  cases e <;> rfl

theorem chainLoop_eq_foldl (text : String) (e : DynError) :
    chainLoop text e = (e.links.map ErrorLink.display).foldl chainExtend text := by
  induction e generalizing text with
  | root l => rfl
  | caused l e ih => exact ih _

theorem chain_eq_foldl (e : DynError) : chain e = e.causes.foldl chainExtend e.link.display := by
  cases e with
  | root l => rfl
  | caused l e => exact chainLoop_eq_foldl _ e

/-! ## One link -/

/-- A visited link leaves what is there, and ends the text. -/
theorem chainExtend_spec (text cause : String) :
    text.toList <+: (chainExtend text cause).toList ∧
      cause.toList <:+ (chainExtend text cause).toList := by
  unfold chainExtend
  split_ifs with h
  · exact ⟨List.prefix_rfl, by simpa using h⟩
  · rw [String.toList_append, String.toList_append]
    exact ⟨⟨_, (List.append_assoc _ _ _).symm⟩, List.suffix_append _ _⟩

/-- A link that is not left out is joined to the text. -/
theorem intercalate_chainExtend {text cause : String} (h : ¬cause.toList <:+ text.toList)
    (rest : List String) :
    ": ".intercalate (chainExtend text cause :: rest) =
      ": ".intercalate (text :: cause :: rest) := by
  rw [chainExtend, if_neg (by simpa using h), String.intercalate_cons_append,
    String.intercalate_cons_cons]

/-! ## Every link -/

theorem prefix_foldl (text : String) (causes : List String) :
    text.toList <+: (causes.foldl chainExtend text).toList := by
  induction causes generalizing text with
  | nil => exact List.prefix_rfl
  | cons cause causes ih => exact (chainExtend_spec text cause).1.trans (ih _)

/-- Each text ends with the message it was extended by. -/
theorem forall₂_suffix_scanl {text message : String} (h : message.toList <:+ text.toList)
    (causes : List String) :
    List.Forall₂ (fun message text => message.toList <:+ text.toList) (message :: causes)
      (causes.scanl chainExtend text) := by
  induction causes generalizing text message with
  | nil => exact .cons h .nil
  | cons cause causes ih =>
    rw [List.scanl_cons]
    exact .cons h (ih (chainExtend_spec text cause).2)

/-- The text has the message of every link that was visited. -/
theorem infix_foldl (text : String) {cause : String} {causes : List String} (h : cause ∈ causes) :
    cause.toList <:+: (causes.foldl chainExtend text).toList := by
  induction causes generalizing text with
  | nil => cases h
  | cons cause' causes ih =>
    rcases List.mem_cons.1 h with rfl | h
    · exact (chainExtend_spec text cause).2.isInfix.trans (prefix_foldl _ causes).isInfix
    · exact ih _ h

theorem foldl_eq_intercalate (text : String) (causes : List String) :
    causes.foldl chainExtend text =
      ": ".intercalate (text ::
        ((causes.zip (causes.scanl chainExtend text)).filter fun (cause, text) =>
          ¬cause.toList <:+ text.toList).map Prod.fst) := by
  induction causes generalizing text with
  | nil => simp
  | cons cause causes ih =>
    rw [List.foldl_cons, ih, List.scanl_cons, List.zip_cons_cons]
    by_cases h : cause.toList <:+ text.toList
    · rw [List.filter_cons_of_neg (by simpa using h), chainExtend, if_pos (by simpa using h)]
    · rw [List.filter_cons_of_pos (by simpa using h), List.map_cons, intercalate_chainExtend h]

/-! ## The chain -/

/-- **No cause is lost from an error chain.**  The text starts with the first
    message and has every other one in it; after each link visited it ends with that
    link's message; and it joins the messages, those left out that already end the
    text before them. -/
theorem chain_keeps_causes (e : DynError) :
    e.link.display.toList <+: (chain e).toList ∧
      (∀ link ∈ e.links, link.display.toList <:+: (chain e).toList) ∧
      List.Forall₂ (fun link text => link.display.toList <:+ text.toList) e.links e.texts ∧
      e.texts.getLast? = some (chain e) ∧
      chain e = ": ".intercalate e.kept := by
  have hends : List.Forall₂ (fun link text => link.display.toList <:+ text.toList) e.links
      e.texts := by
    have h := forall₂_suffix_scanl (List.suffix_refl e.link.display.toList) e.causes
    rw [DynError.causes, ← List.map_cons (f := ErrorLink.display), ← links_eq,
      List.forall₂_map_left_iff] at h
    exact h
  refine ⟨?_, ?_, hends, ?_, ?_⟩
  · rw [chain_eq_foldl]
    exact prefix_foldl _ _
  · intro link hlink
    rw [chain_eq_foldl]
    rw [links_eq] at hlink
    rcases List.mem_cons.1 hlink with rfl | hlink
    · exact (prefix_foldl _ _).isInfix
    · exact infix_foldl _ (List.mem_map.2 ⟨link, hlink, rfl⟩)
  · rw [chain_eq_foldl]
    exact List.getLast?_scanl
  · rw [chain_eq_foldl]
    exact foldl_eq_intercalate _ _

end DekoponConsole
