/-
  The order of a list without duplicates, read off the places of its elements.

  `pairwise_idxOf_iff_sublist`: some of its elements come at increasing places
  exactly when they form a sublist of it.
-/
import Mathlib

namespace Ranks

variable {α : Type*} [DecidableEq α]

/-- The elements of a list come at increasing places of it. -/
theorem pairwise_idxOf {l : List α} (h : l.Nodup) :
    l.Pairwise fun a b => l.idxOf a < l.idxOf b := by
  rw [List.pairwise_iff_getElem]
  intro i j hi hj hij
  rwa [h.idxOf_getElem, h.idxOf_getElem]

theorem sublist_of_pairwise_idxOf {l l' : List α} (hsub : l' ⊆ l)
    (h : l'.Pairwise fun a b => l.idxOf a < l.idxOf b) : l'.Sublist l := by
  induction l generalizing l' with
  | nil => rw [List.subset_nil.1 hsub]
  | cons a l ih =>
    -- past the head, places are counted from the tail
    have htail {m : List α} (hm : m ⊆ a :: l) (ha : a ∉ m)
        (hpair : m.Pairwise fun b c => (a :: l).idxOf b < (a :: l).idxOf c) : m.Sublist l := by
      have hne {b : α} (hb : b ∈ m) : b ≠ a := fun hba => ha (hba ▸ hb)
      refine ih (fun b hb => List.mem_of_ne_of_mem (hne hb) (hm hb)) ?_
      refine hpair.imp_of_mem ?_
      intro b c hb hc hlt
      rw [List.idxOf_cons_ne _ (hne hb).symm, List.idxOf_cons_ne _ (hne hc).symm] at hlt
      omega
    cases l' with
    | nil => exact List.nil_sublist _
    | cons b m =>
      rw [List.pairwise_cons] at h
      by_cases hb : b = a
      · subst hb
        refine (htail (fun c hc => hsub (List.mem_cons_of_mem _ hc)) ?_ h.2).cons_cons b
        intro hmem
        exact lt_irrefl _ (h.1 b hmem)
      · refine (htail hsub ?_ (List.pairwise_cons.2 h)).cons a
        rintro hmem
        rcases List.mem_cons.1 hmem with rfl | hmem
        · exact hb rfl
        · have := h.1 a hmem
          simp at this

/-- **Increasing places are a sublist**, and the other way round. -/
theorem pairwise_idxOf_iff_sublist {l l' : List α} (h : l.Nodup) (hsub : l' ⊆ l) :
    l'.Pairwise (fun a b => l.idxOf a < l.idxOf b) ↔ l'.Sublist l :=
  ⟨sublist_of_pairwise_idxOf hsub, fun hl => (pairwise_idxOf h).sublist hl⟩

end Ranks
