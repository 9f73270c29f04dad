/-
  Journals: lists that grow at their end and whose entries are completed in place.

  * `Extends R l l'`: every entry of `l` is an entry of `l'` at the same place, changed
    at most as `R` allows;
  * `Extends.append`, `Extends.middle`, `Extends.mapIdx`: growing, changing one entry,
    and changing all of them;
  * `extends_exec` is the rule for runs.
-/
import DekoponConsole.Lib.Runs

namespace Journal

variable {α : Type*} {R : α → α → Prop}

/-- Every entry of `l` is an entry of `l'` at the same place, changed as `R` allows. -/
def Extends (R : α → α → Prop) (l l' : List α) : Prop :=
  ∀ (i : ℕ) (a : α), l[i]? = some a → ∃ b, l'[i]? = some b ∧ R a b

theorem Extends.nil (l : List α) : Extends R [] l := by
  intro i a ha
  cases ha

/-- Every entry changes. -/
theorem Extends.mapIdx {f : ℕ → α → α} (h : ∀ i a, R a (f i a)) (l : List α) :
    Extends R l (l.mapIdx f) := by
  intro i a ha
  exact ⟨f i a, by rw [List.getElem?_mapIdx, ha, Option.map_some], h i a⟩

theorem Extends.length_le {l l' : List α} (h : Extends R l l') : l.length ≤ l'.length := by
  by_contra hlt
  rw [not_le] at hlt
  obtain ⟨b, hb, -⟩ := h l'.length _ (List.getElem?_eq_getElem hlt)
  rw [List.getElem?_eq_none le_rfl] at hb
  cases hb

section
variable [Std.Refl R]

theorem Extends.refl (l : List α) : Extends R l l := fun _ a ha => ⟨a, ha, Std.Refl.refl a⟩

/-- Entries are added at the end. -/
theorem Extends.append (l tail : List α) : Extends R l (l ++ tail) := by
  intro i a ha
  obtain ⟨hi, -⟩ := List.getElem?_eq_some_iff.1 ha
  exact ⟨a, by rw [List.getElem?_append_left hi, ha], Std.Refl.refl a⟩

/-- One entry changes. -/
theorem Extends.middle (before after : List α) {a b : α} (h : R a b) :
    Extends R (before ++ a :: after) (before ++ b :: after) := by
  intro i x hx
  rcases lt_trichotomy i before.length with hi | rfl | hi
  · rw [List.getElem?_append_left hi] at hx
    exact ⟨x, by rw [List.getElem?_append_left hi, hx], Std.Refl.refl x⟩
  · rw [List.getElem?_append_right le_rfl, Nat.sub_self, List.getElem?_cons_zero] at hx
    obtain rfl := Option.some.inj hx
    exact ⟨b, by simp, h⟩
  · obtain ⟨k, hk⟩ : ∃ k, i - before.length = k + 1 := ⟨i - before.length - 1, by omega⟩
    rw [List.getElem?_append_right hi.le, hk, List.getElem?_cons_succ] at hx
    exact ⟨x, by rw [List.getElem?_append_right hi.le, hk, List.getElem?_cons_succ, hx],
      Std.Refl.refl x⟩

end

theorem Extends.trans [IsTrans α R] {l l' l'' : List α} (h : Extends R l l')
    (h' : Extends R l' l'') : Extends R l l'' := by
  intro i a ha
  obtain ⟨b, hb, hab⟩ := h i a ha
  obtain ⟨c, hc, hbc⟩ := h' i b hb
  exact ⟨c, hc, IsTrans.trans a b c hab hbc⟩

/-! ## Runs -/

/-- **The rule for journals.**  Where every step extends the journal under the invariant,
    every run does. -/
theorem extends_exec [Std.Refl R] [IsTrans α R] {σ ℓ : Type*} {step : σ → ℓ → σ}
    {C : σ → ℓ → Prop} {I : σ → Prop} {f : σ → List α}
    (hI : ∀ s l, C s l → I s → I (step s l))
    (hstep : ∀ s l, C s l → I s → Extends R (f s) (f (step s l)))
    {s : σ} {ls : List ℓ} (h₀ : I s) (hC : Runs.Steps step C s ls) :
    Extends R (f s) (f (Runs.exec step s ls)) := by
  induction ls generalizing s with
  | nil => exact .refl _
  | cons l ls ih => exact (hstep s l hC.1 h₀).trans (ih (hI s l hC.1 h₀) hC.2)

end Journal
