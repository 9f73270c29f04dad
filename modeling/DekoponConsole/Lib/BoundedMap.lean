/-
  A bounded map with fresh identifiers.

  A `BoundedMap size maxTotal maxItems` holds values under identifiers that were
  handed out in increasing order; the sizes of what it holds sum up to at most
  `maxTotal`, and it holds at most `maxItems` values.  `insert` takes the proofs
  that there is room, so no map out of bounds can be built.
-/
import Mathlib

namespace Bounded

variable {β : Type*}

/-- What is held, oldest first, and the last identifier handed out. -/
structure BoundedMap (size : β → ℕ) (maxTotal maxItems : ℕ) where
  last : ℕ
  held : List (ℕ × β)
  sorted : held.Pairwise fun a b => a.1 < b.1
  le_last : ∀ e ∈ held, e.1 ≤ last
  total_le : (held.map fun e => size e.2).sum ≤ maxTotal
  length_le : held.length ≤ maxItems

namespace BoundedMap

variable {size : β → ℕ} {maxTotal maxItems : ℕ} (m : BoundedMap size maxTotal maxItems)

/-- The sizes of the held values, summed up. -/
def total : ℕ := (m.held.map fun e => size e.2).sum

/-- The value held under an identifier. -/
def find (id : ℕ) : Option β := (m.held.find? fun e => e.1 == id).map Prod.snd

/-- Nothing held, nothing handed out. -/
def empty : BoundedMap size maxTotal maxItems where
  last := 0
  held := []
  sorted := .nil
  le_last := by simp
  total_le := by simp
  length_le := by simp

/-- Holds a value that there is room for, under the next identifier. -/
def insert (b : β) (ht : m.total + size b ≤ maxTotal) (hl : m.held.length < maxItems) :
    BoundedMap size maxTotal maxItems where
  last := m.last + 1
  held := m.held ++ [(m.last + 1, b)]
  sorted := by
    refine List.pairwise_append.2 ⟨m.sorted, List.pairwise_singleton _ _, ?_⟩
    intro e he e' he'
    obtain rfl := List.mem_singleton.1 he'
    exact Nat.lt_succ_of_le (m.le_last e he)
  le_last e he := by
    rcases List.mem_append.1 he with he | he
    · exact (m.le_last e he).trans (Nat.le_succ _)
    · obtain rfl := List.mem_singleton.1 he
      exact le_rfl
  total_le := by simpa [total] using ht
  length_le := by simpa using hl

/-- Lets go of what is held under an identifier. -/
def remove (id : ℕ) : BoundedMap size maxTotal maxItems where
  last := m.last
  held := m.held.filter fun e => e.1 != id
  sorted := m.sorted.filter _
  le_last e he := m.le_last e (List.mem_filter.1 he).1
  total_le := ((List.filter_sublist.map _).sum_le_sum fun _ _ => Nat.zero_le _).trans m.total_le
  length_le := (List.length_filter_le _ _).trans m.length_le

variable {m}

theorem keys_nodup : (m.held.map Prod.fst).Nodup := (List.pairwise_map.2 m.sorted).nodup

theorem find_eq_some_iff {id : ℕ} {b : β} : m.find id = some b ↔ (id, b) ∈ m.held := by
  constructor
  · intro h
    obtain ⟨e, he, rfl⟩ := Option.map_eq_some_iff.1 h
    obtain rfl : e.1 = id := by simpa using List.find?_some he
    exact List.mem_of_find?_eq_some he
  · intro h
    cases hf : m.held.find? fun e => e.1 == id with
    | none => simpa using List.find?_eq_none.1 hf _ h
    | some e =>
      have he : e.1 = id := by simpa using List.find?_some hf
      have := List.inj_on_of_nodup_map keys_nodup (List.mem_of_find?_eq_some hf) h he
      simp [find, hf, this]

@[simp] theorem last_insert {b : β} {ht : m.total + size b ≤ maxTotal}
    {hl : m.held.length < maxItems} : (m.insert b ht hl).last = m.last + 1 := rfl

theorem find_insert {b : β} {ht : m.total + size b ≤ maxTotal} {hl : m.held.length < maxItems}
    (id : ℕ) : (m.insert b ht hl).find id = if id = m.last + 1 then some b else m.find id := by
  refine Option.ext ?_
  intro b'
  rw [find_eq_some_iff, insert, List.mem_append, List.mem_singleton]
  split_ifs with h
  · subst h
    have hn : (m.last + 1, b') ∉ m.held := fun hm => by
      have := m.le_last _ hm
      simp at this
    simp [hn, eq_comm]
  · simp [h, find_eq_some_iff]

theorem find_remove (id id' : ℕ) :
    (m.remove id).find id' = if id' = id then none else m.find id' := by
  refine Option.ext ?_
  intro b
  rw [find_eq_some_iff, remove, List.mem_filter]
  split_ifs with h <;> simp [h, find_eq_some_iff]

theorem total_insert {b : β} {ht : m.total + size b ≤ maxTotal} {hl : m.held.length < maxItems} :
    (m.insert b ht hl).total = m.total + size b := by
  simp [total, insert]

theorem size_le_total {id : ℕ} {b : β} (h : m.find id = some b) : size b ≤ m.total :=
  List.single_le_sum (fun _ _ => Nat.zero_le _) _
    (List.mem_map.2 ⟨_, find_eq_some_iff.1 h, rfl⟩)

theorem total_remove {id : ℕ} {b : β} (h : m.find id = some b) :
    (m.remove id).total + size b = m.total := by
  obtain ⟨older, newer, hs⟩ := List.append_of_mem (find_eq_some_iff.1 h)
  have hsorted := m.sorted
  rw [hs, List.pairwise_append, List.pairwise_cons] at hsorted
  obtain ⟨-, ⟨hnewer, -⟩, holder⟩ := hsorted
  have hf : m.held.filter (fun e => e.1 != id) = older ++ newer := by
    rw [hs, List.filter_append, List.filter_cons_of_neg (by simp), List.filter_eq_self.2,
      List.filter_eq_self.2]
    · intro e he
      simpa using (hnewer e he).ne'
    · intro e he
      simpa using (holder e he _ List.mem_cons_self).ne
  have ht : (m.remove id).total = ((older ++ newer).map fun e => size e.2).sum :=
    congrArg (fun l => (l.map fun e => size e.2).sum) hf
  have ht' : m.total = ((older ++ (id, b) :: newer).map fun e => size e.2).sum :=
    congrArg (fun l => (l.map fun e => size e.2).sum) hs
  simp only [ht, ht', List.map_append, List.map_cons, List.sum_append, List.sum_cons]
  omega

end BoundedMap

end Bounded
