/-
  Counters that interleaved callers take numbers from.

  Every place has a counter.  A caller takes the next number of a place and uses it
  at once, or takes it in one step and uses it in a later one; the counters may wrap
  at `size`.

  * `Stage` and `Desk.step`: the steps of the callers, in any order;
  * `Served`: which numbers were taken, which are held, and which were used;
  * `used_nodup`: no number of a place is used twice, while at most `size` were
    taken there.
-/
import DekoponConsole.Lib.Runs

namespace Tickets

variable {ι κ : Type*}

/-- One step of a caller. -/
inductive Stage (ι κ : Type*)
  | serve (place : ι)
  | take (place : ι) (caller : κ)
  | use (caller : κ)

/-- The counters, the ticket each caller holds, and the tickets used. -/
@[ext] structure Desk (ι κ : Type*) where
  next : ι → ℕ
  held : κ → Option (ι × ℕ)
  used : List (ι × ℕ)

/-- The desk at the start, nothing taken. -/
def Desk.open_ (start : ι → ℕ) : Desk ι κ := ⟨start, fun _ => none, []⟩

/-! ## What was taken -/

section
variable [DecidableEq ι]

/-- How often a number was taken at a place. -/
def taken (place : ι) (stages : List (Stage ι κ)) : ℕ :=
  stages.countP fun
    | .serve place' | .take place' _ => place' = place
    | .use _ => false

theorem taken_concat_serve (place place' : ι) (stages : List (Stage ι κ)) :
    taken place (stages ++ [.serve place']) =
      taken place stages + if place' = place then 1 else 0 := by
  simp [taken, List.countP_append]

theorem taken_concat_take (place place' : ι) (caller : κ) (stages : List (Stage ι κ)) :
    taken place (stages ++ [.take place' caller]) =
      taken place stages + if place' = place then 1 else 0 := by
  simp [taken, List.countP_append]

theorem taken_concat_use (place : ι) (caller : κ) (stages : List (Stage ι κ)) :
    taken place (stages ++ [.use caller]) = taken place stages := by
  simp [taken, List.countP_append]

variable (size : ℕ)

/-- The ticket is one of those taken so far. -/
def Issued (start : ι → ℕ) (stages : List (Stage ι κ)) (ticket : ι × ℕ) : Prop :=
  ∃ i < taken ticket.1 stages, ticket.2 ≡ start ticket.1 + i [MOD size]

/-- The desk after some stages: every counter has moved on by the numbers taken,
    and the tickets held and used are distinct ones of them. -/
structure Served (start : ι → ℕ) (stages : List (Stage ι κ)) (d : Desk ι κ) : Prop where
  next : ∀ place, d.next place ≡ start place + taken place stages [MOD size]
  issued : ∀ ticket, (∃ caller, d.held caller = some ticket) ∨ ticket ∈ d.used →
    Issued size start stages ticket
  held : ∀ caller caller' ticket, d.held caller = some ticket → d.held caller' = some ticket →
    caller = caller'
  fresh : ∀ caller ticket, d.held caller = some ticket → ticket ∉ d.used
  nodup : d.used.Nodup

variable {size} {start : ι → ℕ} {stages : List (Stage ι κ)} {d : Desk ι κ}

theorem Issued.concat {ticket : ι × ℕ} (h : Issued size start stages ticket)
    (stage : Stage ι κ) : Issued size start (stages ++ [stage]) ticket := by
  obtain ⟨i, hi, hmod⟩ := h
  refine ⟨i, hi.trans_le ?_, hmod⟩
  rw [taken, taken, List.countP_append]
  exact Nat.le_add_right _ _

/-- The number a counter stands at was not taken before. -/
theorem Served.not_issued (h : Served size start stages d) {place : ι}
    (hsize : taken place stages < size) : ¬Issued size start stages (place, d.next place) := by
  rintro ⟨i, hi, hmod⟩
  have hsame : i ≡ taken place stages [MOD size] :=
    Nat.ModEq.add_left_cancel' (start place) (hmod.symm.trans (h.next place))
  exact hi.ne (hsame.eq_of_lt_of_lt (hi.trans hsize) hsize)

/-- Where one more number was taken, the counter has moved on by one. -/
theorem Served.next_update (h : Served size start stages d) {place : ι} {stages' : List (Stage ι κ)}
    (ht : ∀ place', taken place' stages' = taken place' stages + if place = place' then 1 else 0)
    (place' : ι) : Function.update d.next place ((d.next place + 1) % size) place' ≡
      start place' + taken place' stages' [MOD size] := by
  rw [ht]
  by_cases hp : place' = place
  · subst hp
    rw [Function.update_self, if_pos rfl]
    exact (Nat.mod_modEq _ _).trans ((h.next place').add_right 1)
  · rw [Function.update_of_ne hp, if_neg (Ne.symm hp), add_zero]
    exact h.next place'

/-- The number a counter stood at is one of those taken since. -/
theorem Served.issued_next (h : Served size start stages d) {place : ι}
    {stages' : List (Stage ι κ)}
    (ht : ∀ place', taken place' stages' = taken place' stages + if place = place' then 1 else 0) :
    Issued size start stages' (place, d.next place) := by
  refine ⟨taken place stages, ?_, h.next place⟩
  rw [ht, if_pos rfl]
  exact Nat.lt_succ_self _

theorem served_open (start : ι → ℕ) : Served size start ([] : List (Stage ι κ)) (.open_ start) := by
  refine ⟨fun place => .refl _, ?_, ?_, ?_, List.nodup_nil⟩
  · rintro ticket (⟨caller, h⟩ | h)
    · cases h
    · cases h
  · intro caller caller' ticket h
    cases h
  · intro caller ticket h
    cases h

end

/-! ## Runs -/

section
variable [DecidableEq ι] [DecidableEq κ]

def Desk.step (size : ℕ) (d : Desk ι κ) : Stage ι κ → Desk ι κ
  | .serve place =>
    { d with
      next := Function.update d.next place ((d.next place + 1) % size)
      used := d.used ++ [(place, d.next place)] }
  | .take place caller =>
    { d with
      next := Function.update d.next place ((d.next place + 1) % size)
      held := Function.update d.held caller (some (place, d.next place)) }
  | .use caller =>
    match d.held caller with
    | some ticket =>
      { d with held := Function.update d.held caller none, used := d.used ++ [ticket] }
    | none => d

variable {size : ℕ} {start : ι → ℕ} {stages : List (Stage ι κ)} {d : Desk ι κ}

/-- A number that is served is new, and used at once. -/
theorem Served.serve (h : Served size start stages d) {place : ι}
    (hsize : taken place stages < size) :
    Served size start (stages ++ [.serve place]) (d.step size (.serve place)) := by
  have hnew := h.not_issued hsize
  have ht (place' : ι) := taken_concat_serve place' place stages
  refine ⟨h.next_update ht, ?_, h.held, ?_, ?_⟩
  · rintro ticket (⟨caller, hheld⟩ | hused)
    · exact (h.issued ticket (Or.inl ⟨caller, hheld⟩)).concat _
    · rcases List.mem_append.1 hused with hused | hused
      · exact (h.issued ticket (Or.inr hused)).concat _
      · obtain rfl := List.mem_singleton.1 hused
        exact h.issued_next ht
  · intro caller ticket hheld hused
    rcases List.mem_append.1 hused with hused | hused
    · exact h.fresh caller ticket hheld hused
    · obtain rfl := List.mem_singleton.1 hused
      exact hnew (h.issued _ (Or.inl ⟨caller, hheld⟩))
  · show (d.used ++ [(place, d.next place)]).Nodup
    rw [List.nodup_append]
    refine ⟨h.nodup, List.nodup_singleton _, ?_⟩
    rintro ticket hused _ hmem rfl
    obtain rfl := List.mem_singleton.1 hmem
    exact hnew (h.issued _ (Or.inr hused))

/-- A number that is taken is new, and held by its caller alone. -/
theorem Served.take (h : Served size start stages d) {place : ι}
    (hsize : taken place stages < size) (caller : κ) :
    Served size start (stages ++ [.take place caller]) (d.step size (.take place caller)) := by
  have hnew := h.not_issued hsize
  have htaken (place' : ι) := taken_concat_take place' place caller stages
  have hheld {caller' : κ} {ticket : ι × ℕ}
      (ht : (d.step size (.take place caller)).held caller' = some ticket) :
      (caller' = caller ∧ ticket = (place, d.next place)) ∨
        (caller' ≠ caller ∧ d.held caller' = some ticket) := by
    by_cases hc : caller' = caller
    · subst hc
      simp only [Desk.step, Function.update_self, Option.some.injEq] at ht
      exact Or.inl ⟨rfl, ht.symm⟩
    · simp only [Desk.step, Function.update_of_ne hc] at ht
      exact Or.inr ⟨hc, ht⟩
  refine ⟨h.next_update htaken, ?_, ?_, ?_, h.nodup⟩
  · rintro ticket (⟨caller', ht⟩ | ht)
    · rcases hheld ht with ⟨-, rfl⟩ | ⟨-, ht⟩
      · exact h.issued_next htaken
      · exact (h.issued ticket (Or.inl ⟨caller', ht⟩)).concat _
    · exact (h.issued ticket (Or.inr ht)).concat _
  · intro caller₁ caller₂ ticket h₁ h₂
    rcases hheld h₁ with ⟨rfl, rfl⟩ | ⟨-, h₁⟩
    · rcases hheld h₂ with ⟨rfl, -⟩ | ⟨-, h₂⟩
      · rfl
      · exact absurd (h.issued _ (Or.inl ⟨_, h₂⟩)) hnew
    · rcases hheld h₂ with ⟨-, rfl⟩ | ⟨-, h₂⟩
      · exact absurd (h.issued _ (Or.inl ⟨_, h₁⟩)) hnew
      · exact h.held _ _ _ h₁ h₂
  · intro caller' ticket ht hused
    rcases hheld ht with ⟨-, rfl⟩ | ⟨-, ht⟩
    · exact hnew (h.issued _ (Or.inr hused))
    · exact h.fresh caller' ticket ht hused

/-- A ticket that is used was held, and not used before. -/
theorem Served.use (h : Served size start stages d) (caller : κ) :
    Served size start (stages ++ [.use caller]) (d.step size (.use caller)) := by
  have hnext (place : ι) : d.next place ≡ start place + taken place (stages ++ [.use caller])
      [MOD size] := by
    rw [taken_concat_use]
    exact h.next place
  cases hc : d.held caller with
  | none =>
    simp only [Desk.step, hc]
    exact ⟨hnext, fun ticket ht => (h.issued ticket ht).concat _, h.held, h.fresh, h.nodup⟩
  | some ticket =>
    simp only [Desk.step, hc]
    have hheld {caller' : κ} {ticket' : ι × ℕ}
        (ht : Function.update d.held caller none caller' = some ticket') :
        caller' ≠ caller ∧ d.held caller' = some ticket' := by
      by_cases hne : caller' = caller
      · subst hne
        simp at ht
      · rw [Function.update_of_ne hne] at ht
        exact ⟨hne, ht⟩
    refine ⟨hnext, ?_, ?_, ?_, ?_⟩
    · rintro ticket' (⟨caller', ht⟩ | ht)
      · exact (h.issued _ (Or.inl ⟨caller', (hheld ht).2⟩)).concat _
      · rcases List.mem_append.1 ht with ht | ht
        · exact (h.issued _ (Or.inr ht)).concat _
        · obtain rfl := List.mem_singleton.1 ht
          exact (h.issued _ (Or.inl ⟨caller, hc⟩)).concat _
    · intro caller₁ caller₂ ticket' h₁ h₂
      exact h.held _ _ _ (hheld h₁).2 (hheld h₂).2
    · intro caller' ticket' ht hused
      rcases List.mem_append.1 hused with hused | hused
      · exact h.fresh _ _ (hheld ht).2 hused
      · obtain rfl := List.mem_singleton.1 hused
        exact (hheld ht).1 (h.held _ _ _ (hheld ht).2 hc)
    · rw [List.nodup_append]
      refine ⟨h.nodup, List.nodup_singleton _, ?_⟩
      rintro ticket' ht _ hmem rfl
      rw [List.mem_singleton] at hmem
      exact h.fresh caller ticket hc (hmem ▸ ht)

theorem served_exec (start : ι → ℕ) (stages : List (Stage ι κ))
    (hsize : ∀ place, taken place stages ≤ size) :
    Served size start stages (Runs.exec (Desk.step size) (.open_ start) stages) := by
  induction stages using List.reverseRecOn with
  | nil => exact served_open start
  | append_singleton stages stage ih =>
    rw [Runs.exec_concat]
    have hroom {place : ι} (ht : ∀ place', taken place' (stages ++ [stage]) =
        taken place' stages + if place = place' then 1 else 0) :
        (∀ place', taken place' stages ≤ size) ∧ taken place stages < size := by
      refine ⟨fun place' => ?_, ?_⟩
      · have := hsize place'
        rw [ht] at this
        omega
      · have := hsize place
        rw [ht, if_pos rfl] at this
        omega
    cases stage with
    | serve place =>
      obtain ⟨hbefore, hlt⟩ := hroom fun place' => taken_concat_serve place' place stages
      exact (ih hbefore).serve hlt
    | take place caller =>
      obtain ⟨hbefore, hlt⟩ := hroom fun place' => taken_concat_take place' place caller stages
      exact (ih hbefore).take hlt caller
    | use caller => exact (ih fun place => by rw [← taken_concat_use]; exact hsize place).use caller

/-- **No number is used twice**, in whatever order callers take and use them,
    where a counter does not come round. -/
theorem used_nodup (start : ι → ℕ) (stages : List (Stage ι κ))
    (hsize : ∀ place, taken place stages ≤ size) :
    (Runs.exec (Desk.step size) (.open_ start) stages).used.Nodup :=
  (served_exec start stages hsize).nodup

end

end Tickets
