/-
  What the consumer of a session's output reads, wherever the output was cut.

  * `framesSeen` reads the results that are there in full; `attemptAt` is the frame a
    session writes in each place, and `told` its output up to one;
  * `framesSeen_told`: of a part of that output the consumer reads the first frames, as
    many as are there with their closing lines;
  * `cut_output_reads_true`: so it does of any part of the output of any session.
-/
import DekoponConsole.Proof.Frames
import DekoponConsole.Proof.Transport

namespace DekoponConsole

open Framing

/-- The status of the frame that a line opens, if it opens one. -/
def openedBy (nonce line : String) : Option String := stripPrefix line ("RESULT " ++ nonce ++ " ")

def closedBy (nonce line : String) : Bool := line == endLine nonce

/-- The results that are there in full in a part of a session's output. -/
def framesSeen (nonce : String) (seen : List Char) : List (String × List String) :=
  closedFrames (openedBy nonce) (closedBy nonce) none ((lines '\n' seen).map String.ofList)

/-- A frame as it is read. -/
def Frame.decoded (nonce : String) (frame : Frame) : String × List String :=
  (frame.status, bodyLines nonce frame.text)

section
variable (exts : Externals) (orc : SessionOracle) (nonce : String) (c₀ : Console)
  (submissions : List String)

/-- The frame a session writes in place `i`: the outcome of command `i`, that it timed
    out, or the refusal of one command too many. -/
def attemptAt (i : ℕ) : Frame :=
  if i = maxCommands then limitFrame
  else if (orc.command i).timeout then timeoutFrame
  else frameAt exts orc c₀ submissions i

/-- The output up to place `n`. -/
def told (n : ℕ) : List Char :=
  opening nonce ++ (List.range n).flatMap fun i =>
    (attemptAt exts orc c₀ submissions i).bytes nonce

end

/-! ## Reading -/

section
variable {exts : Externals} {orc : SessionOracle} {nonce : String} {c₀ : Console}
  {submissions : List String}

theorem newline_not_mem_status (i : ℕ) :
    '\n' ∉ (attemptAt exts orc c₀ submissions i).status.toList := by
  unfold attemptAt
  split_ifs
  · decide
  · decide
  · simp only [frameAt, commandFrame]
    split <;> decide

theorem openedBy_readyLine (nonce : String) : openedBy nonce (readyLine nonce) = none := by
  cases h : openedBy nonce (readyLine nonce) with
  | none => rfl
  | some rest =>
    have hlist := congrArg String.toList (stripPrefix_eq_some.1 h)
    simp [readyLine] at hlist

/-- The output up to a place, as a stream of lines. -/
theorem told_eq_unlines (n : ℕ) : told exts orc nonce c₀ submissions n =
    unlines '\n' (([readyLine nonce] ++ enframe (resultLine nonce) (endLine nonce)
      ((List.range n).map fun i => (attemptAt exts orc c₀ submissions i).decoded nonce)).map
        String.toList) := by
  have hframes := frames_eq_enframe nonce ((List.range n).map fun i =>
    ((attemptAt exts orc c₀ submissions i).status, (attemptAt exts orc c₀ submissions i).text))
  rw [List.map_map] at hframes
  have hdecoded : (List.range n).map (fun i => (attemptAt exts orc c₀ submissions i).decoded nonce) =
      (List.range n).map ((fun r => (r.1, bodyLines nonce r.2)) ∘ fun i =>
        ((attemptAt exts orc c₀ submissions i).status,
          (attemptAt exts orc c₀ submissions i).text)) := rfl
  rw [hdecoded, ← hframes, List.map_append, unlines_append, ← writeln_eq_unlines,
    ← writeln_eq_unlines, told, opening]
  congr 1
  simp [writeln, List.flatMap_map, List.flatMap_assoc, Frame.bytes, writeResult]

/-- **A part of the output** holds the first frames, as many as are there in full. -/
theorem framesSeen_told (hn : '\n' ∉ nonce.toList) {n : ℕ} {seen : List Char}
    (hseen : seen <+: told exts orc nonce c₀ submissions n) :
    ∃ k ≤ n, framesSeen nonce seen =
        (List.range k).map (fun i => (attemptAt exts orc c₀ submissions i).decoded nonce) ∧
      (k ≠ 0 → told exts orc nonce c₀ submissions k <+: seen) := by
  rw [told_eq_unlines] at hseen
  have htake {k : ℕ} (hk : k ≤ n) :
      ((List.range n).map fun i => (attemptAt exts orc c₀ submissions i).decoded nonce).take k =
        (List.range k).map fun i => (attemptAt exts orc c₀ submissions i).decoded nonce := by
    rw [← List.map_take, List.take_range, Nat.min_eq_left hk]
  have hready : ∀ l ∈ [readyLine nonce], openedBy nonce l = none := by
    simp [openedBy_readyLine]
  have hopens : ∀ frame ∈ (List.range n).map fun i =>
      (attemptAt exts orc c₀ submissions i).decoded nonce,
      openedBy nonce (resultLine nonce frame.1) = some frame.1 :=
    fun frame _ => opens_resultLine nonce frame.1
  have hcloses : closedBy nonce (endLine nonce) = true := beq_self_eq_true _
  have hbody : ∀ frame ∈ (List.range n).map fun i =>
      (attemptAt exts orc c₀ submissions i).decoded nonce, ∀ l ∈ frame.2, closedBy nonce l = false := by
    intro frame hframe l hl
    obtain ⟨i, -, rfl⟩ := List.mem_map.1 hframe
    refine beq_eq_false_iff_ne.2 fun hend => ?_
    exact bodyLines_not_marked hl (hend ▸ endLine_marked nonce)
  have hlines : ∀ l ∈ [readyLine nonce] ++ enframe (resultLine nonce) (endLine nonce)
      ((List.range n).map fun i => (attemptAt exts orc c₀ submissions i).decoded nonce),
      '\n' ∉ l.toList := by
    intro l hl
    rcases List.mem_append.1 hl with hl | hl
    · rw [List.mem_singleton.1 hl]
      simp [readyLine, hn]
    · obtain ⟨frame, hframe, hl⟩ := List.mem_flatMap.1 hl
      obtain ⟨i, -, rfl⟩ := List.mem_map.1 hframe
      exact newline_not_mem_frameLines hn (newline_not_mem_status i) hl
  obtain ⟨k, hk, hread, hfull⟩ := closedFrames_cut (fun l => String.ofList_toList) hready hopens
    hcloses hbody hlines hseen
  rw [List.length_map, List.length_range] at hk
  rw [htake hk] at hread hfull
  exact ⟨k, hk, hread, fun h => told_eq_unlines k ▸ hfull h⟩

/-! ## Writing -/

theorem out_writeFrame (s : Session) (frame : Frame) :
    (s.writeFrame orc nonce frame).1.out <+: s.out ++ frame.bytes nonce := by
  rcases writeFrame_cases orc nonce s frame with ⟨-, h⟩ | ⟨n, -, h⟩
  · rw [h]
  · rw [h]
    exact (List.prefix_append_right_inj _).2 (List.take_prefix n _)

theorem out_read (s : Session) : (s.read orc).1.out = s.out := by
  unfold Session.read
  split_ifs <;> rfl

namespace Serving

variable {ending : Except String Unit} {s : Session} {k : ℕ}

theorem out_eq_told (h : Serving exts orc nonce c₀ submissions ending s k) :
    s.out = told exts orc nonce c₀ submissions k := by
  have hframe (i : ℕ) (hi : i < k) :
      attemptAt exts orc c₀ submissions i = frameAt exts orc c₀ submissions i := by
    have hmax := h.bounded
    rw [attemptAt, if_neg (by omega), if_neg (by simp [h.ran i hi])]
  rw [h.out, h.frames, told, List.flatMap_map]
  refine congrArg (opening nonce ++ ·) (List.flatMap_congr fun i hi => ?_)
  rw [hframe i (List.mem_range.1 hi)]

/-- The frame in place `k` is written up to place `k + 1`. -/
theorem writeFrame_told (h : Serving exts orc nonce c₀ submissions ending s k) (s' : Session)
    {frame : Frame} (hframe : frame = attemptAt exts orc c₀ submissions k)
    (hout : s'.out = s.out) {n : ℕ} (hn : s'.dispatched.length = n) :
    (s'.writeFrame orc nonce frame).1.out <+: told exts orc nonce c₀ submissions (k + 1) ∧
      (s'.writeFrame orc nonce frame).1.dispatched.length = n := by
  have htold : told exts orc nonce c₀ submissions (k + 1) = s'.out ++ frame.bytes nonce := by
    rw [hout, h.out_eq_told, hframe, told, told, List.range_succ, List.flatMap_append,
      List.append_assoc, List.flatMap_singleton]
  rw [htold, (Session.writeFrame_eq orc nonce s' frame).1]
  exact ⟨out_writeFrame s' frame, hn⟩

theorem command_told (h : Serving exts orc nonce c₀ submissions ending s k) (hmax : k < maxCommands)
    (rest : Reader) :
    let r := Session.command exts orc nonce { s with input := rest } (submissions.getD k "")
    r.1.out <+: told exts orc nonce c₀ submissions (k + 1) ∧ r.1.dispatched.length = k + 1 := by
  have hattempt : attemptAt exts orc c₀ submissions k =
      if (orc.command k).timeout then timeoutFrame else frameAt exts orc c₀ submissions k :=
    if_neg hmax.ne
  have hlength : (s.dispatched ++ [submissions.getD k ""]).length = k + 1 := by
    rw [List.length_append, h.length_dispatched, List.length_singleton]
  have hran : frameAt exts orc c₀ submissions k = commandFrame s.console.app.shellHistory.length
      (runCommand exts (orc.command k) (submissions.getD k "") s.console).app := by
    rw [h.console]
    rfl
  unfold Session.command
  simp only [h.length_dispatched]
  cases ht : (orc.command k).timeout with
  | true =>
    rw [ht, if_pos rfl] at hattempt
    rw [if_pos rfl]
    have hwritten := h.writeFrame_told { s with
      input := rest
      dispatched := s.dispatched ++ [submissions.getD k ""]
      console := cutCommand exts (orc.command k) (submissions.getD k "") s.console }
      hattempt.symm rfl hlength
    generalize Session.writeFrame orc nonce _ timeoutFrame = r at hwritten ⊢
    obtain ⟨s', _ | _⟩ := r <;> exact hwritten
  | false =>
    rw [ht, if_neg Bool.false_ne_true, hran] at hattempt
    rw [if_neg Bool.false_ne_true]
    exact h.writeFrame_told { s with
      input := rest
      dispatched := s.dispatched ++ [submissions.getD k ""]
      console := runCommand exts (orc.command k) (submissions.getD k "") s.console }
      hattempt.symm rfl hlength

/-- A session that writes nothing more has written what it should. -/
theorem stopped_told (h : Serving exts orc nonce c₀ submissions ending s k) {s' : Session}
    (hout : s'.out = s.out) (hd : s'.dispatched = s.dispatched) :
    ∃ n, s'.out <+: told exts orc nonce c₀ submissions n ∧
      ∀ i < n, i < s'.dispatched.length ∨ i = maxCommands := by
  rw [hout, hd, h.out_eq_told, h.length_dispatched]
  exact ⟨k, List.prefix_rfl, fun i hi => Or.inl hi⟩

/-- **The loop writes what it should**, or a part of it. -/
theorem commands_told (hidle : Idle c₀) (fuel : ℕ)
    (h : Serving exts orc nonce c₀ submissions ending s k) (hfuel : k + fuel = maxCommands) :
    ∃ n, (s.commands exts orc nonce fuel).1.out <+: told exts orc nonce c₀ submissions n ∧
      ∀ i < n, i < (s.commands exts orc nonce fuel).1.dispatched.length ∨ i = maxCommands := by
  induction fuel generalizing s k with
  | zero =>
    unfold Session.commands Session.refuseFurther
    have hread := h.stopped_told (out_read s) (Session.read_eq orc s).1
    have hlast : limitFrame = attemptAt exts orc c₀ submissions k := (if_pos hfuel).symm
    have hlimit := h.writeFrame_told (s.read orc).1 hlast (out_read s)
      ((congrArg List.length (Session.read_eq orc s).1).trans h.length_dispatched)
    generalize s.read orc = r at hread hlimit ⊢
    obtain ⟨s', _ | _ | line⟩ := r
    · exact hread
    · exact hread
    · simp only at hlimit ⊢
      generalize s'.writeFrame orc nonce limitFrame = w at hlimit ⊢
      have hwritten : ∃ n, w.1.out <+: told exts orc nonce c₀ submissions n ∧
          ∀ i < n, i < w.1.dispatched.length ∨ i = maxCommands := by
        refine ⟨k + 1, hlimit.1, fun i hi => ?_⟩
        rw [hlimit.2]
        omega
      obtain ⟨s'', _ | _⟩ := w <;> exact hwritten
  | succ fuel ih =>
    unfold Session.commands
    have hread := h.stopped_told (out_read s) (Session.read_eq orc s).1
    rcases h.read_cases hidle with
      ⟨s', error, heq, -⟩ | ⟨s', heq, -⟩ | ⟨hk, hdeadline, rest, heq, hrest⟩
    · rw [heq] at hread ⊢
      exact hread
    · rw [heq] at hread ⊢
      exact hread
    · rw [heq]
      obtain ⟨hout, hlength⟩ := h.command_told (by omega) rest
      rcases h.command_cases hidle hk (by omega) hdeadline hrest with
        ⟨s', hcommand, hs'⟩ | ⟨s', error, hcommand, -⟩
      · simp only [hcommand]
        exact ih hs' (by omega)
      · rw [hcommand] at hout hlength
        simp only [hcommand]
        exact ⟨k + 1, hout, fun i hi => Or.inl (hlength ▸ hi)⟩

end Serving

end

/-- Every session writes what it should, or a part of it. -/
theorem runWithLimits_told (exts : Externals) (orc : SessionOracle) (nonce : String) {app : App}
    (options : ConsoleOptions) (input : Reader) (hsession : app.session = none) :
    let c₀ := (dispatchEnter exts orc.hop (Console.start app options)).1
    let r := runWithLimits exts orc nonce app options input
    ∃ n, r.1.out <+: told exts orc nonce c₀ (submitted input).1 n ∧
      ∀ i < n, i < r.1.dispatched.length ∨ i = maxCommands := by
  intro c₀ r
  have hnone {s : Session} (h : s.out <+: opening nonce) :
      ∃ n, s.out <+: told exts orc nonce c₀ (submitted input).1 n ∧
        ∀ i < n, i < s.dispatched.length ∨ i = maxCommands :=
    ⟨0, by simpa [told] using h, fun i hi => absurd hi (Nat.not_lt_zero i)⟩
  have hc₀ : (dispatch exts orc.hop (Console.start app options) .enter).1 = c₀ := rfl
  unfold r runWithLimits
  simp only [hc₀]
  split_ifs with hdeadline hrefused
  · exact hnone List.nil_prefix
  · exact hnone List.nil_prefix
  have hopen : c₀.app.session ≠ none := by simpa using hrefused
  have hidle : Idle c₀ := idle_enter hsession (Option.isSome_iff_ne_none.2 hopen)
  unfold Session.afterHop Session.write
  cases hw : orc.write 0 with
  | some n => exact hnone (by simpa [opening] using List.take_prefix n _)
  | none =>
    have hserving : Serving exts orc nonce c₀ (submitted input).1 (submitted input).2
        ⟨c₀, input, [] ++ writeln [readyLine nonce], 0 + 1, [], []⟩ 0 := by
      refine ⟨Nat.zero_le _, Nat.zero_le _, rfl, rfl, rfl, rfl, ?_, rfl, ?_,
        fun i hi => absurd hi (Nat.not_lt_zero i), fun i hi => absurd hi (Nat.not_lt_zero i)⟩
      · simp [opening]
      · intro i hi
        rw [Nat.le_zero.1 hi, hw]
    exact hserving.commands_told hidle maxCommands (Nat.zero_add _)

/-- **What the consumer reads is true**, wherever the output was cut: by a deadline, by a
    failed write, or by the consumer itself.  Of any part of what a session wrote it reads
    the outcomes of the first commands, in their order, of just as many as are there in
    full, and every command it reads of was dispatched, or refused as one too many. -/
theorem cut_output_reads_true (exts : Externals) (orc : SessionOracle) (nonce : String) (app : App)
    (options : ConsoleOptions) (input : Reader) (hn : '\n' ∉ nonce.toList)
    (hsession : app.session = none) :
    let c₀ := (dispatchEnter exts orc.hop (Console.start app options)).1
    let lines := (submitted input).1
    let r := runWithLimits exts orc nonce app options input
    ∀ seen, seen <+: r.1.out → ∃ k,
      framesSeen nonce seen =
        (List.range k).map (fun i => (attemptAt exts orc c₀ lines i).decoded nonce) ∧
      (k ≠ 0 → told exts orc nonce c₀ lines k <+: seen) ∧
      ∀ i < k, i < r.1.dispatched.length ∨ i = maxCommands := by
  intro c₀ lines r seen hseen
  obtain ⟨n, hout, hdispatched⟩ := runWithLimits_told exts orc nonce options input hsession
  obtain ⟨k, hk, hread, hfull⟩ := framesSeen_told hn (hseen.trans hout)
  exact ⟨k, hread, hfull, fun i hi => hdispatched i (hi.trans_le hk)⟩

/-- The first forty characters of a session that runs `ls`. -/
theorem cut_output_reads_true_sample :
    let c₀ := (dispatchEnter .plain Sample.answers (Console.start Sample.app Sample.options)).1
    let input := delivers [[108], [115, 10]]
    let r := runWithLimits .plain Sample.oracle "nonce" Sample.app Sample.options input
    ∃ k, framesSeen "nonce" (r.1.out.take 40) = (List.range k).map (fun i =>
        (attemptAt .plain Sample.oracle c₀ (submitted input).1 i).decoded "nonce") ∧
      (k ≠ 0 → told .plain Sample.oracle "nonce" c₀ (submitted input).1 k <+: r.1.out.take 40) ∧
      ∀ i < k, i < r.1.dispatched.length ∨ i = maxCommands :=
  cut_output_reads_true .plain Sample.oracle "nonce" Sample.app Sample.options
    (delivers [[108], [115, 10]]) (by decide) rfl _ (List.take_prefix 40 _)

end DekoponConsole
