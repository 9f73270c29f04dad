/-
  Result frames: a session's output decodes into its results, whatever the
  results say, and exactly which texts keep a frame within its bound.

  * `Marked` is what the escaping keeps out of a body;
  * `writeResult_body_le_iff`: a body keeps to `resultBound` bytes exactly when
    its text `Fits`;
  * `readFrames` is the reader of a session's output, and by
    `readFrames_writeResult` it reads back what was written.
-/
import DekoponConsole.Structured
import DekoponConsole.Proof.Sanitize

namespace DekoponConsole

open Framing

/-! ## Lines and markers -/

theorem writeln_eq_unlines (lines : List String) :
    writeln lines = unlines '\n' (lines.map String.toList) := by
  simp [writeln, unlines, List.flatMap_map]

@[simp] theorem writeln_append (lines lines' : List String) :
    writeln (lines ++ lines') = writeln lines ++ writeln lines' := by
  simp [writeln]

/-- A line that begins like one of the session's own. -/
def Marked (nonce line : String) : Prop := ∃ m ∈ markers nonce, startsWith line m

instance (nonce line : String) : Decidable (Marked nonce line) := by
  unfold Marked; infer_instance

theorem Marked.of_prefix {nonce line line' : String} (h : Marked nonce line)
    (hp : line.toList <+: line'.toList) : Marked nonce line' := by
  obtain ⟨m, hm, hs⟩ := h
  exact ⟨m, hm, startsWith_iff.2 ((startsWith_iff.1 hs).trans hp)⟩

theorem marker_head {nonce m : String} (hm : m ∈ markers nonce) :
    m.toList.head? = some 'R' ∨ m.toList.head? = some 'E' := by
  simp only [markers, List.mem_cons, List.not_mem_nil, or_false] at hm
  rcases hm with rfl | rfl | rfl <;> simp

/-- Only a line beginning with `R` or `E` is marked. -/
theorem Marked.head {nonce line : String} (h : Marked nonce line) :
    line.toList.head? = some 'R' ∨ line.toList.head? = some 'E' := by
  obtain ⟨m, hm, hs⟩ := h
  obtain ⟨rest, hr⟩ := startsWith_iff.1 hs
  rw [← hr]
  rcases marker_head hm with h | h <;> simp [List.head?_append, h]

theorem endLine_marked (nonce : String) : Marked nonce (endLine nonce) :=
  ⟨"END " ++ nonce, by simp [markers], by simp [startsWith, endLine]⟩

/-! ## Escaping -/

theorem escapeLine_eq (nonce line : String) :
    escapeLine nonce line =
      if Marked nonce (sanitizeLine line) then "> " ++ sanitizeLine line else sanitizeLine line := by
  simp [escapeLine, Marked]

theorem escapeLine_not_marked (nonce line : String) : ¬ Marked nonce (escapeLine nonce line) := by
  rw [escapeLine_eq]
  split_ifs with h
  · intro hm
    have := hm.head
    simp at this
  · exact h

theorem newline_not_mem_escapeLine (nonce line : String) :
    '\n' ∉ (escapeLine nonce line).toList := by
  have := newline_not_mem_sanitizeLine line
  rw [escapeLine_eq]
  split_ifs <;> simp [this]

/-! ## The body of a frame -/

/-- Every line written is cut from an escaped line. -/
theorem mem_writeLines {nonce l : String} {n : ℕ} {lines : List String}
    (h : l ∈ (writeLines nonce n lines).1) :
    ∃ line k, l = String.ofList ((escapeLine nonce line).toList.take k) := by
  induction lines generalizing n with
  | nil => simp [writeLines] at h
  | cons line lines ih =>
    simp only [writeLines] at h
    split_ifs at h with h0
    · simp at h
    · rcases List.mem_cons.1 h with rfl | h
      · exact ⟨line, n, rfl⟩
      · exact ih h

theorem mem_bodyLines {nonce text l : String} (h : l ∈ bodyLines nonce text) :
    (∃ line k, l = String.ofList ((escapeLine nonce line).toList.take k)) ∨ l = truncationLine := by
  simp only [bodyLines, List.mem_append] at h
  rcases h with h | h
  · exact Or.inl (mem_writeLines h)
  · split_ifs at h <;> simp_all

theorem bodyLines_not_marked {nonce text l : String} (h : l ∈ bodyLines nonce text) :
    ¬ Marked nonce l := by
  rcases mem_bodyLines h with ⟨line, k, rfl⟩ | rfl
  · intro hm
    exact escapeLine_not_marked nonce line (hm.of_prefix (by simp [List.take_prefix]))
  · intro hm
    have := hm.head
    simp [truncationLine] at this

theorem newline_not_mem_bodyLines {nonce text l : String} (h : l ∈ bodyLines nonce text) :
    '\n' ∉ l.toList := by
  rcases mem_bodyLines h with ⟨line, k, rfl⟩ | rfl
  · simp only [String.toList_ofList]
    exact fun hm => newline_not_mem_escapeLine nonce line (List.mem_of_mem_take hm)
  · decide

/-! ## The budget -/

/-- The characters of the lines. -/
def charCount (lines : List String) : ℕ := (lines.map fun line => line.toList.length).sum

/-- The UTF-8 bytes of the lines, without their terminators. -/
def byteCount (lines : List String) : ℕ := (lines.map fun line => byteLen line.toList).sum

theorem byteLen_writeln (lines : List String) :
    byteLen (writeln lines) = byteCount lines + lines.length := by
  induction lines with
  | nil => rfl
  | cons line lines ih =>
    have h : byteLen ['\n'] = 1 := by decide
    simp only [writeln, List.flatMap_cons, byteLen_append, h] at ih ⊢
    simp only [ih, byteCount, List.map_cons, List.sum_cons, List.length_cons]
    omega

theorem charCount_le_byteCount (lines : List String) : charCount lines ≤ byteCount lines := by
  induction lines with
  | nil => simp [charCount]
  | cons line lines ih =>
    have := length_le_byteLen line.toList
    simp only [charCount, byteCount, List.map_cons, List.sum_cons] at ih ⊢
    omega

/-- The budget is what the lines written and the rest make up. -/
theorem charCount_writeLines (nonce : String) (n : ℕ) (lines : List String) :
    charCount (writeLines nonce n lines).1 + (writeLines nonce n lines).2 = n := by
  induction lines generalizing n with
  | nil => simp [writeLines, charCount]
  | cons line lines ih =>
    simp only [writeLines]
    split_ifs with h0
    · simp [charCount]
    · have := ih (n - min n (escapeLine nonce line).toList.length)
      simp only [charCount, List.map_cons, List.sum_cons, String.toList_ofList,
        List.length_take] at this ⊢
      omega

/-- Within the budget, the escaped lines are written whole. -/
theorem writeLines_of_lt {nonce : String} {n : ℕ} {lines : List String}
    (h : charCount (lines.map (escapeLine nonce)) < n) :
    writeLines nonce n lines =
      (lines.map (escapeLine nonce), n - charCount (lines.map (escapeLine nonce))) := by
  induction lines generalizing n with
  | nil => simp [writeLines, charCount]
  | cons line lines ih =>
    simp only [charCount, List.map_cons, List.sum_cons] at h
    have hl : (escapeLine nonce line).toList.length ≤ n := by omega
    have ih := @ih (n - (escapeLine nonce line).toList.length) (by simp only [charCount]; omega)
    rw [writeLines, if_neg (by omega)]
    simp only [List.take_of_length_le hl, ih, charCount, List.map_cons, List.sum_cons,
      String.ofList_toList, Prod.mk.injEq, true_and]
    omega

/-- Past the budget, nothing of it is left. -/
theorem writeLines_of_le {nonce : String} {n : ℕ} {lines : List String}
    (h : n ≤ charCount (lines.map (escapeLine nonce))) : (writeLines nonce n lines).2 = 0 := by
  induction lines generalizing n with
  | nil => simpa [writeLines, charCount] using h
  | cons line lines ih =>
    simp only [charCount, List.map_cons, List.sum_cons] at h
    simp only [writeLines]
    split_ifs with h0
    · exact h0
    · exact ih (by simp only [charCount, List.length_take]; omega)

/-- The text's lines, sanitised. -/
def sanitizedLines (text : String) : List String := (split text '\n').map sanitizeLine

/-- How many of them take the escape prefix. -/
def markedCount (nonce text : String) : ℕ :=
  (sanitizedLines text).countP fun line => Marked nonce line

theorem charCount_escaped (nonce text : String) :
    charCount ((split text '\n').map (escapeLine nonce)) =
      charCount (sanitizedLines text) + 2 * markedCount nonce text := by
  unfold markedCount sanitizedLines
  induction split text '\n' with
  | nil => simp [charCount]
  | cons line lines ih =>
    simp only [charCount, List.map_cons, List.sum_cons, List.countP_cons, decide_eq_true_eq,
      escapeLine_eq] at ih ⊢
    split_ifs <;> simp_all <;> omega

theorem byteCount_escaped (nonce text : String) :
    byteCount ((split text '\n').map (escapeLine nonce)) =
      byteCount (sanitizedLines text) + 2 * markedCount nonce text := by
  have h : byteLen ['>', ' '] = 2 := by decide
  unfold markedCount sanitizedLines
  induction split text '\n' with
  | nil => simp [byteCount]
  | cons line lines ih =>
    simp only [byteCount, List.map_cons, List.sum_cons, List.countP_cons, decide_eq_true_eq,
      escapeLine_eq] at ih ⊢
    split_ifs with hm
    · rw [String.toList_append, byteLen_append, ih]
      simp only [String.reduceToList, h]
      omega
    · omega

/-! ## The body's size -/

/-- What a result is bounded to: 64 KiB, and the line that says it was cut. -/
def resultBound : ℕ := maxOutput + byteLen (writeln [truncationLine])

/-- The sanitised text has fewer than `maxOutput` characters, and its bytes with
    one terminator a line stay within the bound; escape prefixes count. -/
def Fits (nonce text : String) : Prop :=
  charCount (sanitizedLines text) + 2 * markedCount nonce text < maxOutput ∧
    byteCount (sanitizedLines text) + 2 * markedCount nonce text + (sanitizedLines text).length ≤
      resultBound

theorem bodyLines_of_lt {nonce text : String}
    (h : charCount (sanitizedLines text) + 2 * markedCount nonce text < maxOutput) :
    bodyLines nonce text = (split text '\n').map (escapeLine nonce) := by
  rw [← charCount_escaped] at h
  rw [bodyLines, writeLines_of_lt h]
  simp only
  rw [if_neg (by omega), List.append_nil]

theorem body_bytes_of_lt {nonce text : String}
    (h : charCount (sanitizedLines text) + 2 * markedCount nonce text < maxOutput) :
    byteLen (writeln (bodyLines nonce text)) =
      byteCount (sanitizedLines text) + 2 * markedCount nonce text +
        (sanitizedLines text).length := by
  rw [bodyLines_of_lt h, byteLen_writeln, byteCount_escaped]
  simp [sanitizedLines]

/-- A body that is cut spends its whole budget on characters, and a terminator
    on top. -/
theorem body_bytes_of_le {nonce text : String}
    (h : maxOutput ≤ charCount (sanitizedLines text) + 2 * markedCount nonce text) :
    resultBound < byteLen (writeln (bodyLines nonce text)) := by
  rw [← charCount_escaped] at h
  have hb := writeLines_of_le h
  have hc := charCount_writeLines nonce maxOutput (split text '\n')
  have hbytes := charCount_le_byteCount (writeLines nonce maxOutput (split text '\n')).1
  have hne : (writeLines nonce maxOutput (split text '\n')).1 ≠ [] := by
    intro he
    rw [he, hb] at hc
    exact absurd hc (by decide)
  have hlen := List.length_pos_iff.2 hne
  rw [bodyLines, hb, if_pos rfl, writeln_append, byteLen_append, byteLen_writeln, resultBound]
  omega

theorem writeResult_eq (nonce status text : String) :
    writeResult nonce status text =
      writeln [resultLine nonce status] ++ writeln (bodyLines nonce text) ++
        writeln [endLine nonce] := by
  simp [writeResult, frameLines, writeln]

/-- **Exactly when a result keeps to its bound.**  Between its two lines a frame
    holds at most 64 KiB and the truncation line if and only if the text fits. -/
theorem writeResult_body_le_iff (nonce status text : String) :
    ∃ body, writeResult nonce status text =
        writeln [resultLine nonce status] ++ body ++ writeln [endLine nonce] ∧
      (byteLen body ≤ resultBound ↔ Fits nonce text) := by
  refine ⟨writeln (bodyLines nonce text), writeResult_eq nonce status text, ?_⟩
  by_cases h : charCount (sanitizedLines text) + 2 * markedCount nonce text < maxOutput
  · rw [body_bytes_of_lt h]
    exact ⟨fun hb => ⟨h, hb⟩, fun hf => hf.2⟩
  · have := @body_bytes_of_le nonce text (by omega)
    exact ⟨fun hb => absurd hb (by omega), fun hf => absurd hf.1 h⟩

section
variable {c : Char} (hs : sanitizeChar c = c) (hl : c ≠ '\n' ∧ c ≠ '\t') (n : ℕ)
include hs hl

theorem sanitizedLines_replicate :
    sanitizedLines (String.ofList (List.replicate n c)) = [String.ofList (List.replicate n c)] := by
  have hm : '\n' ∉ List.replicate n c := by simp [List.mem_replicate, hl.1.symm]
  simp [sanitizedLines, split, List.splitOn_eq_singleton hm, sanitizeLine, sanitize, hs, hl]

theorem body_bytes_replicate {nonce : String} (hc : c ≠ 'R' ∧ c ≠ 'E') (hn : n < maxOutput) :
    byteLen (writeln (bodyLines nonce (String.ofList (List.replicate n c)))) =
      n * c.utf8Size + 1 := by
  have hlines := sanitizedLines_replicate hs hl n
  have hm : ¬ Marked nonce (String.ofList (List.replicate n c)) := by
    intro hm
    have := hm.head
    cases n <;> simp_all [List.replicate_succ]
  rw [body_bytes_of_lt]
  · simp [hlines, markedCount, hm, byteCount, byteLen]
  · simpa [hlines, markedCount, hm, charCount] using hn

end

/-- A text one character under the budget, three bytes a character: it is not cut,
    and takes three times the bound. -/
theorem writeResult_body_exceeds :
    ∃ body, writeResult "c0ffee" "ok" (String.ofList (List.replicate 65535 '€')) =
        writeln [resultLine "c0ffee" "ok"] ++ body ++ writeln [endLine "c0ffee"] ∧
      byteLen body = 196606 ∧ ¬ byteLen body ≤ resultBound := by
  have hb : byteLen (writeln (bodyLines "c0ffee" (String.ofList (List.replicate 65535 '€')))) =
      65535 * '€'.utf8Size + 1 :=
    body_bytes_replicate (by decide) (by decide) _ (by decide) (by decide)
  have hu : '€'.utf8Size = 3 := by decide
  have hr : resultBound = 65555 := by decide
  rw [hu] at hb
  refine ⟨_, writeResult_eq _ _ _, ?_, ?_⟩ <;> omega

/-! ## Reading a session's output -/

/-- A reader of result frames: a line `RESULT <nonce> <status>` opens one, the
    line `END <nonce>` closes it. -/
def readFrames (nonce : String) (output : List Char) : Option (List (String × List String)) :=
  deframe (fun line => stripPrefix line ("RESULT " ++ nonce ++ " ")) (· == endLine nonce) none
    ((lines '\n' output).map String.ofList)

/-- The sanitised text, its lines joined again. -/
def joinLines (lines : List String) : List Char := ['\n'].intercalate (lines.map String.toList)

theorem frames_eq_enframe (nonce : String) (results : List (String × String)) :
    (results.flatMap fun r => frameLines nonce r.1 r.2) =
      enframe (resultLine nonce) (endLine nonce)
        (results.map fun r => (r.1, bodyLines nonce r.2)) := by
  simp [enframe, frameLines, List.flatMap_map]

theorem newline_not_mem_frameLines {nonce status text : String} (hn : '\n' ∉ nonce.toList)
    (hs : '\n' ∉ status.toList) {l : String} (h : l ∈ frameLines nonce status text) :
    '\n' ∉ l.toList := by
  simp only [frameLines, List.mem_cons, List.mem_append, List.not_mem_nil, or_false] at h
  rcases h with rfl | h | rfl
  · simp [resultLine, hn, hs]
  · exact newline_not_mem_bodyLines h
  · simp [endLine, hn]

theorem opens_resultLine (nonce status : String) :
    stripPrefix (resultLine nonce status) ("RESULT " ++ nonce ++ " ") = some status := by
  rw [stripPrefix_eq_some, resultLine]

theorem lines_writeResults {nonce : String} (hn : '\n' ∉ nonce.toList)
    {results : List (String × String)} (hs : ∀ r ∈ results, '\n' ∉ r.1.toList) :
    (lines '\n' (results.flatMap fun r => writeResult nonce r.1 r.2)).map String.ofList =
      results.flatMap fun r => frameLines nonce r.1 r.2 := by
  have hw : (results.flatMap fun r => writeResult nonce r.1 r.2) =
      unlines '\n' ((results.flatMap fun r => frameLines nonce r.1 r.2).map String.toList) := by
    simp [List.map_flatMap, unlines_flatMap, writeResult, writeln_eq_unlines]
  rw [hw, lines_unlines]
  · simp [Function.comp_def]
  · intro l hl
    obtain ⟨line, hline, rfl⟩ := List.mem_map.1 hl
    obtain ⟨r, hr, hline⟩ := List.mem_flatMap.1 hline
    exact newline_not_mem_frameLines hn (hs r hr) hline

/-- A text within the budget, no line of which begins like a marker, is written
    line by line as it is sanitised. -/
theorem bodyLines_eq_sanitizedLines {nonce text : String}
    (hc : (text.toList.filter (· != '\n')).length < maxOutput)
    (hm : ∀ line ∈ sanitizedLines text, ¬ Marked nonce line) :
    bodyLines nonce text = sanitizedLines text := by
  have h0 : markedCount nonce text = 0 := by simpa [markedCount] using hm
  have hcount : charCount (sanitizedLines text) = (text.toList.filter (· != '\n')).length := by
    simp [charCount, sanitizedLines, split, ← length_splitOn_sum, Function.comp_def]
  rw [bodyLines_of_lt (by omega), sanitizedLines]
  refine List.map_congr_left ?_
  intro line hline
  rw [escapeLine_eq, if_neg (hm _ (List.mem_map_of_mem hline))]

/-- **Frames cannot be forged.**  Whatever the results, reading what was written
    for them gives back their statuses and bodies; no body line begins like a
    marker; and a text within the budget without such lines is there whole. -/
theorem readFrames_writeResult (nonce : String) (hn : '\n' ∉ nonce.toList)
    (results : List (String × String)) (hs : ∀ r ∈ results, '\n' ∉ r.1.toList) :
    readFrames nonce (results.flatMap fun r => writeResult nonce r.1 r.2) =
        some (results.map fun r => (r.1, bodyLines nonce r.2)) ∧
      (∀ r ∈ results, ∀ line ∈ bodyLines nonce r.2, ∀ m ∈ markers nonce, ¬ startsWith line m) ∧
      ∀ r ∈ results, (r.2.toList.filter (· != '\n')).length < maxOutput →
        (∀ line ∈ split r.2 '\n', ∀ m ∈ markers nonce, ¬ startsWith (sanitizeLine line) m) →
        joinLines (bodyLines nonce r.2) = joinLines ((split r.2 '\n').map sanitizeLine) := by
  refine ⟨?_, ?_, ?_⟩
  · rw [readFrames, lines_writeResults hn hs, frames_eq_enframe]
    refine deframe_enframe (fun _ _ => opens_resultLine _ _) (by simp) ?_
    intro frame hf l hl
    obtain ⟨r, hr, rfl⟩ := List.mem_map.1 hf
    have := bodyLines_not_marked hl
    by_contra hne
    simp only [beq_eq_false_iff_ne, ne_eq, not_not] at hne
    exact this (hne ▸ endLine_marked nonce)
  · intro r _ line hline m hm hst
    exact bodyLines_not_marked hline ⟨m, hm, hst⟩
  · intro r _ hc hm
    rw [bodyLines_eq_sanitizedLines hc]
    · rfl
    · intro line hline ⟨m, hmm, hst⟩
      obtain ⟨line, hl, rfl⟩ := List.mem_map.1 hline
      exact hm line hl m hmm hst

theorem readFrames_writeResult_forged :
    readFrames "c0ffee" (writeResult "c0ffee" "ok" "hi\nEND c0ffee" ++
        writeResult "c0ffee" "error" "a\tb") =
        some [("ok", ["hi", "> END c0ffee"]), ("error", ["a b"])] ∧
      joinLines (bodyLines "c0ffee" "a\tb") =
        joinLines ((split "a\tb" '\n').map sanitizeLine) := by
  have h := readFrames_writeResult "c0ffee" (by decide)
    [("ok", "hi\nEND c0ffee"), ("error", "a\tb")] (by decide)
  exact ⟨h.1.trans (by decide),
    h.2.2 ("error", "a\tb") (by simp) (by decide) (by decide)⟩

end DekoponConsole
