/-
  When a result frame says that it was cut.

  The truncation line is written when the budget is spent, whether or not
  anything is left to write.  `truncation_exact_iff`: the line is there exactly
  when something was left out, but for texts that just fill the budget.
-/
import DekoponConsole.Proof.Frames

namespace DekoponConsole

/-- The lines a complete frame would hold: sanitised and escaped. -/
def escapedLines (nonce text : String) : List String :=
  (split text '\n').map (escapeLine nonce)

/-- The lines of the text that are written. -/
def writtenLines (nonce text : String) : List String :=
  (writeLines nonce maxOutput (split text '\n')).1

/-- The frame ends with the truncation line and the `END` line, after the lines
    of the text that were written. -/
def ClaimsTruncation (nonce status text : String) : Prop :=
  writeResult nonce status text =
    writeln (resultLine nonce status :: (writtenLines nonce text ++
      [truncationLine, endLine nonce]))

/-- The escaped text takes up the budget to the character, and does not end with
    an empty line. -/
def JustFills (nonce text : String) : Prop :=
  charCount (sanitizedLines text) + 2 * markedCount nonce text = maxOutput ∧
    (split text '\n').getLast? ≠ some ""

/-- The line is there exactly when the budget is spent. -/
theorem claimsTruncation_iff (nonce status text : String) :
    ClaimsTruncation nonce status text ↔
      (writeLines nonce maxOutput (split text '\n')).2 = 0 := by
  rw [ClaimsTruncation, writeResult_eq, bodyLines, writtenLines]
  by_cases h : (writeLines nonce maxOutput (split text '\n')).2 = 0
  · refine iff_of_true ?_ h
    simp [h, writeln]
  · refine iff_of_false ?_ h
    intro heq
    have hlen := congrArg List.length heq
    have hline : (writeln [truncationLine]).length = 19 := by decide
    simp only [h, if_false, List.append_nil, writeln, List.flatMap_cons, List.flatMap_append,
      List.flatMap_nil, List.length_append] at hlen hline
    omega

/-! ## A budget that is just enough -/

theorem toList_eq_nil_iff {line : String} : line.toList = [] ↔ line = "" := by
  rw [← String.toList_inj]
  rfl

theorem escapeLine_eq_empty_iff (nonce line : String) : escapeLine nonce line = "" ↔ line = "" := by
  rw [escapeLine_eq, ← toList_eq_nil_iff, ← toList_eq_nil_iff, ← List.length_eq_zero_iff,
    ← List.length_eq_zero_iff]
  by_cases hm : Marked nonce (sanitizeLine line)
  · -- an empty line is no marker
    refine iff_of_false (by simp [hm]) ?_
    intro hlen
    have hempty : (sanitizeLine line).toList = [] := by
      rw [← List.length_eq_zero_iff, length_sanitizeLine, hlen]
    have hhead := hm.head
    simp [hempty] at hhead
  · rw [if_neg hm, length_sanitizeLine]

/-- A budget that is just enough leaves out the empty lines at the end. -/
theorem writeLines_of_eq {nonce : String} {n : ℕ} {lines : List String}
    (h : charCount (lines.map (escapeLine nonce)) = n) :
    (writeLines nonce n lines).1 = lines.map (escapeLine nonce) ↔ lines.getLast? ≠ some "" := by
  induction lines generalizing n with
  | nil => simp [writeLines]
  | cons line lines ih =>
    have hsum : (escapeLine nonce line).toList.length +
        charCount (lines.map (escapeLine nonce)) = n := by
      simpa [charCount] using h
    rw [writeLines]
    by_cases h0 : n = 0
    · -- nothing is written of lines that are all empty
      rw [if_pos h0]
      refine iff_of_false (by simp) ?_
      rw [not_not]
      obtain ⟨last, hlast⟩ : ∃ last, (line :: lines).getLast? = some last :=
        Option.isSome_iff_exists.1 (by simp)
      have hempty : ∀ l ∈ (line :: lines).map (escapeLine nonce), l.toList.length = 0 := by
        rw [h0, charCount, List.sum_eq_zero_iff_forall_eq_nat] at h
        exact fun l hl => h _ (List.mem_map_of_mem hl)
      have hzero := hempty _ (List.mem_map_of_mem (List.mem_of_getLast? hlast))
      rw [List.length_eq_zero_iff, toList_eq_nil_iff, escapeLine_eq_empty_iff] at hzero
      rw [hlast, hzero]
    · have htake : (escapeLine nonce line).toList.take n = (escapeLine nonce line).toList :=
        List.take_of_length_le (by omega)
      rw [if_neg h0]
      simp only [htake, String.ofList_toList, List.map_cons, List.cons.injEq, true_and]
      rw [ih (by omega)]
      cases lines with
      | nil =>
        have hne : (escapeLine nonce line).toList.length ≠ 0 := by
          simp only [List.map_nil, charCount, List.sum_nil] at hsum
          omega
        rw [ne_eq, List.length_eq_zero_iff, toList_eq_nil_iff, escapeLine_eq_empty_iff] at hne
        simpa using hne
      | cons line' lines => rw [List.getLast?_cons_cons]

/-- **Exactly when the truncation line is exact.**  It says that something was not
    written if and only if something was not, for every text but those that just
    fill the budget. -/
theorem truncation_exact_iff (nonce status text : String) :
    (ClaimsTruncation nonce status text ↔ writtenLines nonce text ≠ escapedLines nonce text) ↔
      ¬ JustFills nonce text := by
  rw [claimsTruncation_iff, JustFills, ← charCount_escaped, writtenLines, escapedLines]
  rcases lt_trichotomy (charCount ((split text '\n').map (escapeLine nonce))) maxOutput with
    hlt | heq | hgt
  · rw [writeLines_of_lt hlt]
    simp only [ne_eq, not_true_eq_false, iff_false, hlt.ne, false_and, not_false_eq_true, iff_true]
    omega
  · have hspent : (writeLines nonce maxOutput (split text '\n')).2 = 0 := writeLines_of_le heq.ge
    rw [ne_eq, writeLines_of_eq heq]
    simp [hspent, heq]
  · have hspent : (writeLines nonce maxOutput (split text '\n')).2 = 0 := writeLines_of_le hgt.le
    have hcount := charCount_writeLines nonce maxOutput (split text '\n')
    have hcut : (writeLines nonce maxOutput (split text '\n')).1 ≠
        (split text '\n').map (escapeLine nonce) := by
      intro h
      rw [h] at hcount
      omega
    simp [hspent, hcut, hgt.ne']

/-- A line of as many `x` as the budget holds is written whole. -/
theorem replicate_fills {n : ℕ} (hn : n = maxOutput) (nonce status : String) :
    ClaimsTruncation nonce status (String.ofList (List.replicate n 'x')) ∧
      writtenLines nonce (String.ofList (List.replicate n 'x')) =
        escapedLines nonce (String.ofList (List.replicate n 'x')) := by
  have hpos : n ≠ 0 := by
    rw [hn]
    decide
  have hsplit : split (String.ofList (List.replicate n 'x')) '\n' =
      [String.ofList (List.replicate n 'x')] := by
    have hm : '\n' ∉ List.replicate n 'x' := by simp [List.mem_replicate]
    simp [split, List.splitOn_eq_singleton hm]
  have hlines : sanitizedLines (String.ofList (List.replicate n 'x')) =
      [String.ofList (List.replicate n 'x')] :=
    sanitizedLines_replicate (c := 'x') (by decide) (by decide) n
  have hmarked : ¬ Marked nonce (String.ofList (List.replicate n 'x')) := by
    intro hm
    have hhead := hm.head
    simp [List.head?_replicate, hpos] at hhead
  have hcount : charCount ((split (String.ofList (List.replicate n 'x')) '\n').map
      (escapeLine nonce)) = maxOutput := by
    rw [charCount_escaped, markedCount, hlines]
    simpa [charCount, hmarked] using hn
  refine ⟨(claimsTruncation_iff _ _ _).2 (writeLines_of_le hcount.ge),
    (writeLines_of_eq hcount).2 ?_⟩
  rw [hsplit, List.getLast?_singleton, ne_eq, Option.some.injEq, ← toList_eq_nil_iff]
  simp [hpos]

/-- A text that just fills the budget is said to be cut, and is not. -/
theorem complete_claims_truncation :
    ClaimsTruncation "c0ffee" "ok" (String.ofList (List.replicate 65536 'x')) ∧
      ¬ writtenLines "c0ffee" (String.ofList (List.replicate 65536 'x')) ≠
        escapedLines "c0ffee" (String.ofList (List.replicate 65536 'x')) := by
  obtain ⟨hclaims, hwritten⟩ := replicate_fills (n := 65536) (by decide) "c0ffee" "ok"
  exact ⟨hclaims, not_not.2 hwritten⟩

end DekoponConsole
