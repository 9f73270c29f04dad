/-
  Terminated lines, fixed-length blocks and framed line streams, over any alphabet.

  * `unlines x ls` terminates every line with `x`, and `lines x` reads the
    terminated lines of a text back;
  * `flatMap_injective`: blocks of one length read back without a terminator;
  * a frame is a header and a body; `enframe` writes frames, each closed by one
    closing line, and `deframe` reads them, given which lines open a frame and
    which close one;
  * `closedFrames` reads what there is of a stream that was cut anywhere, and by
    `closedFrames_cut` finds exactly the frames that are there in full.
-/
import Mathlib

namespace Framing

/-! ## Lines -/

section
variable {α : Type*} (x : α)

/-- The lines, each terminated by `x`. -/
def unlines (ls : List (List α)) : List α := ls.flatMap fun l => l ++ [x]

@[simp] theorem unlines_nil : unlines x [] = [] := rfl

@[simp] theorem unlines_cons (l : List α) (ls : List (List α)) :
    unlines x (l :: ls) = l ++ x :: unlines x ls := by
  simp [unlines]

theorem unlines_append (ls ls' : List (List α)) :
    unlines x (ls ++ ls') = unlines x ls ++ unlines x ls' := List.flatMap_append

theorem unlines_flatMap {β : Type*} (f : β → List (List α)) (bs : List β) :
    unlines x (bs.flatMap f) = bs.flatMap fun b => unlines x (f b) := by
  simp [unlines, List.flatMap_assoc]

variable [BEq α] [LawfulBEq α]

/-- The terminated lines of a text. -/
def lines (text : List α) : List (List α) := (text.splitOn x).dropLast

theorem splitOn_unlines {ls : List (List α)} (h : ∀ l ∈ ls, x ∉ l) :
    (unlines x ls).splitOn x = ls ++ [[]] := by
  induction ls with
  | nil => simp
  | cons l ls ih =>
    rw [unlines_cons, List.splitOn_append_cons_self_of_not_mem (h l (by simp)),
      ih fun l' h' => h l' (by simp [h'])]
    simp

/-- **Lines read back.** -/
theorem lines_unlines {ls : List (List α)} (h : ∀ l ∈ ls, x ∉ l) : lines x (unlines x ls) = ls := by
  simp [lines, splitOn_unlines x h]

theorem splitOn_unlines_append {ls : List (List α)} (h : ∀ l ∈ ls, x ∉ l) {rest : List α}
    (hrest : x ∉ rest) : (unlines x ls ++ rest).splitOn x = ls ++ [rest] := by
  induction ls with
  | nil => exact List.splitOn_eq_singleton hrest
  | cons l ls ih =>
    rw [unlines_cons, List.append_assoc, List.cons_append,
      List.splitOn_append_cons_self_of_not_mem (h l (by simp)), ih fun l' h' => h l' (by simp [h'])]
    rfl

/-- What follows the last terminator is no line. -/
theorem lines_unlines_append {ls : List (List α)} (h : ∀ l ∈ ls, x ∉ l) {rest : List α}
    (hrest : x ∉ rest) : lines x (unlines x ls ++ rest) = ls := by
  rw [lines, splitOn_unlines_append x h hrest, List.dropLast_concat]

omit [LawfulBEq α] in
/-- A part of a text has a part of its lines. -/
theorem lines_prefix {text text' : List α} (h : text <+: text') : lines x text <+: lines x text' := by
  obtain ⟨rest, rfl⟩ := h
  unfold lines
  induction text with
  | nil => simp
  | cons a text ih =>
    obtain ⟨l, ls, hs⟩ := List.exists_cons_of_ne_nil (List.splitOn_ne_nil x text)
    obtain ⟨l', ls', hs'⟩ := List.exists_cons_of_ne_nil (List.splitOn_ne_nil x (text ++ rest))
    rw [hs, hs'] at ih
    rw [List.cons_append, List.splitOn_cons_eq_if_modifyHead, List.splitOn_cons_eq_if_modifyHead, hs,
      hs']
    split_ifs
    · rw [List.dropLast_cons_cons, List.dropLast_cons_cons]
      exact List.cons_prefix_cons.2 ⟨rfl, ih⟩
    · rw [List.modifyHead_cons, List.modifyHead_cons]
      cases ls with
      | nil => exact List.nil_prefix
      | cons m ls =>
        cases ls' with
        | nil => simp at ih
        | cons m' ls' =>
          rw [List.dropLast_cons_cons, List.dropLast_cons_cons] at ih ⊢
          obtain ⟨rfl, htail⟩ := List.cons_prefix_cons.1 ih
          exact List.cons_prefix_cons.2 ⟨rfl, htail⟩

theorem not_mem_of_mem_splitOn {text l : List α} (h : l ∈ text.splitOn x) : x ∉ l := by
  induction text generalizing l with
  | nil =>
    obtain rfl : l = [] := by simpa using h
    simp
  | cons a text ih =>
    obtain ⟨l', ls, hs⟩ := List.exists_cons_of_ne_nil (List.splitOn_ne_nil x text)
    rw [hs] at ih
    rw [List.splitOn_cons_eq_if_modifyHead, hs] at h
    split_ifs at h with ha
    · rcases List.mem_cons.1 h with rfl | h
      · simp
      · exact ih h
    · rw [List.modifyHead_cons] at h
      rcases List.mem_cons.1 h with rfl | h
      · have hne : x ≠ a := fun he => ha (by simp [he])
        have hl' : x ∉ l' := ih List.mem_cons_self
        simp [hne, hl']
      · exact ih (List.mem_cons_of_mem _ h)

/-- The last piece of a text is what follows its last `x`. -/
theorem getLast?_splitOn (text : List α) :
    (text.splitOn x).getLast? = some (text.rtakeWhile (· != x)) := by
  have hlast : x ∉ text.rtakeWhile (· != x) := by
    intro h
    simpa using List.mem_rtakeWhile_imp h
  conv_lhs => rw [← List.rdropWhile_append_rtakeWhile (p := (· != x)) (l := text)]
  by_cases hd : text.rdropWhile (· != x) = []
  · rw [hd, List.nil_append, List.splitOn_eq_singleton hlast, List.getLast?_singleton]
  · have hx : (text.rdropWhile (· != x)).getLast hd = x := by
      simpa using List.rdropWhile_last_not (· != x) text hd
    rw [← List.dropLast_append_getLast hd, hx, List.append_assoc, List.singleton_append,
      List.splitOn_append_cons_self, List.splitOn_eq_singleton hlast, List.getLast?_concat]

omit [LawfulBEq α] in
theorem length_splitOn_sum (text : List α) :
    ((text.splitOn x).map List.length).sum = (text.filter (· != x)).length := by
  induction text with
  | nil => simp
  | cons a text ih =>
    obtain ⟨l, ls, hs⟩ := List.exists_cons_of_ne_nil (List.splitOn_ne_nil x text)
    rw [List.splitOn_cons_eq_if_modifyHead]
    cases h : a == x
    · simp only [hs, List.map_cons, List.sum_cons] at ih
      have hf : (a :: text).filter (· != x) = a :: text.filter (· != x) :=
        List.filter_cons_of_pos (by simp [bne, h])
      rw [hf, List.length_cons, ← ih, hs]
      simp only [Bool.false_eq_true, if_false, List.modifyHead_cons, List.map_cons, List.sum_cons,
        List.length_cons]
      omega
    · have hf : (a :: text).filter (· != x) = text.filter (· != x) :=
        List.filter_cons_of_neg (by simp [bne, h])
      simp [hf, ih]

omit [LawfulBEq α] in
/-- Pieces that are mapped one by one join to the text mapped as a whole. -/
theorem intercalate_map_splitOn {β : Type*} (f : α → β) (y : β) (text : List α) :
    [y].intercalate ((text.splitOn x).map (List.map f)) =
      text.map fun a => if a == x then y else f a := by
  induction text with
  | nil => simp
  | cons a text ih =>
    obtain ⟨l, ls, hs⟩ := List.exists_cons_of_ne_nil (List.splitOn_ne_nil x text)
    rw [List.splitOn_cons_eq_if_modifyHead, List.map_cons, ← ih, hs, List.map_cons]
    split_ifs with ha
    · rw [List.map_cons, List.map_cons, List.map_nil, List.intercalate_cons_cons]
      simp
    · rw [List.modifyHead_cons, List.map_cons, List.map_cons, List.intercalate_cons_cons_left]

end

/-! ## Blocks -/

/-- Blocks of one length that are told apart are read off their concatenation. -/
theorem flatMap_injective {α β : Type*} {f : α → List β} {n : ℕ} (hn : 0 < n)
    (hlength : ∀ a, (f a).length = n) (hf : Function.Injective f) :
    Function.Injective fun l : List α => l.flatMap f := by
  intro l
  have hne (a : α) : f a ≠ [] := List.ne_nil_of_length_pos (by rw [hlength]; exact hn)
  induction l with
  | nil =>
    intro l' h
    cases l' with
    | nil => rfl
    | cons a l' => simp [hne] at h
  | cons a l ih =>
    intro l' h
    cases l' with
    | nil => simp [hne] at h
    | cons a' l' =>
      simp only [List.flatMap_cons] at h
      obtain ⟨hhead, htail⟩ := List.append_inj h (by rw [hlength, hlength])
      rw [hf hhead, ih htail]

/-! ## Frames -/

section
variable {β τ : Type*}

/-- The lines of the frames: header, body, closing line. -/
def enframe (header : τ → β) (closer : β) (frames : List (τ × List β)) : List β :=
  frames.flatMap fun frame => header frame.1 :: (frame.2 ++ [closer])

theorem enframe_append (header : τ → β) (closer : β) (frames frames' : List (τ × List β)) :
    enframe header closer (frames ++ frames') =
      enframe header closer frames ++ enframe header closer frames' := List.flatMap_append

/-- Reads frames, with the frame being read, if one is open.  Lines outside
    frames are passed over; a stream that ends inside a frame has no reading. -/
def deframe (opens : β → Option τ) (closes : β → Bool) :
    Option (τ × List β) → List β → Option (List (τ × List β))
  | none, [] => some []
  | some _, [] => none
  | none, l :: ls =>
    match opens l with
    | some t => deframe opens closes (some (t, [])) ls
    | none => deframe opens closes none ls
  | some (t, body), l :: ls =>
    if closes l then (deframe opens closes none ls).map ((t, body) :: ·)
    else deframe opens closes (some (t, body ++ [l])) ls

variable {opens : β → Option τ} {closes : β → Bool} {header : τ → β} {closer : β}

theorem deframe_body (hc : closes closer) (t : τ) (read body : List β)
    (hb : ∀ l ∈ body, closes l = false) (rest : List β) :
    deframe opens closes (some (t, read)) (body ++ closer :: rest) =
      (deframe opens closes none rest).map ((t, read ++ body) :: ·) := by
  induction body generalizing read with
  | nil => simp [deframe, hc]
  | cons l body ih =>
    have hl : closes l = false := hb l (by simp)
    simp [deframe, hl, ih (read ++ [l]) fun l' h' => hb l' (by simp [h'])]

/-- **Frames read back**, when every header opens its own frame and only the
    closing line closes one. -/
theorem deframe_enframe {frames : List (τ × List β)}
    (ho : ∀ frame ∈ frames, opens (header frame.1) = some frame.1) (hc : closes closer)
    (hb : ∀ frame ∈ frames, ∀ l ∈ frame.2, closes l = false) :
    deframe opens closes none (enframe header closer frames) = some frames := by
  induction frames with
  | nil => rfl
  | cons frame frames ih =>
    have ih := ih (fun f hf => ho f (by simp [hf])) fun f hf => hb f (by simp [hf])
    simp only [enframe, List.flatMap_cons, List.cons_append, List.append_assoc, deframe,
      ho frame (by simp)] at ih ⊢
    rw [List.nil_append, deframe_body hc _ _ _ (hb frame (by simp)), ih]
    simp

/-! ### Cut streams -/

/-- The frames that are closed in a stream, with the frame being read, if one is
    open.  A stream that ends inside a frame has the frames before it. -/
def closedFrames (opens : β → Option τ) (closes : β → Bool) :
    Option (τ × List β) → List β → List (τ × List β)
  | _, [] => []
  | none, l :: ls =>
    match opens l with
    | some t => closedFrames opens closes (some (t, [])) ls
    | none => closedFrames opens closes none ls
  | some (t, body), l :: ls =>
    if closes l then (t, body) :: closedFrames opens closes none ls
    else closedFrames opens closes (some (t, body ++ [l])) ls

/-- A part of a stream has a part of its frames. -/
theorem closedFrames_prefix {ls ls' : List β} (h : ls <+: ls') (state : Option (τ × List β)) :
    closedFrames opens closes state ls <+: closedFrames opens closes state ls' := by
  induction ls generalizing state ls' with
  | nil => exact List.nil_prefix
  | cons l ls ih =>
    obtain ⟨rest, rfl⟩ := h
    have ih (state : Option (τ × List β)) : closedFrames opens closes state ls <+:
        closedFrames opens closes state (ls ++ rest) := ih (List.prefix_append ls rest) state
    cases state with
    | none =>
      simp only [List.cons_append, closedFrames]
      cases opens l with
      | none => exact ih none
      | some t => exact ih (some (t, []))
    | some frame =>
      obtain ⟨t, body⟩ := frame
      simp only [List.cons_append, closedFrames]
      split_ifs
      · exact List.cons_prefix_cons.2 ⟨rfl, ih none⟩
      · exact ih _

/-- An open frame is none of the closed ones. -/
theorem closedFrames_open (t : τ) (read body : List β) (hb : ∀ l ∈ body, closes l = false) :
    closedFrames opens closes (some (t, read)) body = [] := by
  induction body generalizing read with
  | nil => rfl
  | cons l body ih =>
    rw [closedFrames, if_neg (by simp [hb l])]
    exact ih _ fun l' h' => hb l' (by simp [h'])

/-- Lines that open no frame are passed over. -/
theorem closedFrames_append {lead : List β} (hlead : ∀ l ∈ lead, opens l = none) (ls : List β) :
    closedFrames opens closes none (lead ++ ls) = closedFrames opens closes none ls := by
  induction lead with
  | nil => rfl
  | cons l lead ih =>
    rw [List.cons_append, closedFrames, hlead l (by simp)]
    exact ih fun l' h' => hlead l' (by simp [h'])

theorem closedFrames_body (hc : closes closer) (t : τ) (read body : List β)
    (hb : ∀ l ∈ body, closes l = false) (rest : List β) :
    closedFrames opens closes (some (t, read)) (body ++ closer :: rest) =
      (t, read ++ body) :: closedFrames opens closes none rest := by
  induction body generalizing read with
  | nil => simp [closedFrames, hc]
  | cons l body ih =>
    have hl : closes l = false := hb l (by simp)
    simp [closedFrames, hl, ih (read ++ [l]) fun l' h' => hb l' (by simp [h'])]

theorem closedFrames_enframe {frames : List (τ × List β)}
    (ho : ∀ frame ∈ frames, opens (header frame.1) = some frame.1) (hc : closes closer)
    (hb : ∀ frame ∈ frames, ∀ l ∈ frame.2, closes l = false) (rest : List β) :
    closedFrames opens closes none (enframe header closer frames ++ rest) =
      frames ++ closedFrames opens closes none rest := by
  induction frames with
  | nil => rfl
  | cons frame frames ih =>
    have ih := ih (fun f hf => ho f (by simp [hf])) fun f hf => hb f (by simp [hf])
    simp only [enframe, List.flatMap_cons, List.cons_append, List.append_assoc, closedFrames,
      ho frame (by simp)] at ih ⊢
    rw [List.nil_append, closedFrames_body hc _ _ _ (hb frame (by simp)), ih]
    simp

end

section
variable {α β τ : Type*} [BEq α] [LawfulBEq α] {x : α} {opens : β → Option τ} {closes : β → Bool}
  {header : τ → β} {closer : β} {lead : List β} {frames : List (τ × List β)} {spell : β → List α}
  {read : List α → β}

/-- **A stream that was cut** has just the frames that are there in full, with their
    closing lines. -/
theorem closedFrames_cut (hspell : ∀ l, read (spell l) = l) (hlead : ∀ l ∈ lead, opens l = none)
    (ho : ∀ frame ∈ frames, opens (header frame.1) = some frame.1) (hc : closes closer)
    (hb : ∀ frame ∈ frames, ∀ l ∈ frame.2, closes l = false)
    (hx : ∀ l ∈ lead ++ enframe header closer frames, x ∉ spell l) {seen : List α}
    (hseen : seen <+: unlines x ((lead ++ enframe header closer frames).map spell)) :
    ∃ k ≤ frames.length,
      closedFrames opens closes none ((lines x seen).map read) = frames.take k ∧
      (k ≠ 0 → unlines x ((lead ++ enframe header closer (frames.take k)).map spell) <+: seen) := by
  have hread (j : ℕ) (rest : List β) : closedFrames opens closes none
      (lead ++ (enframe header closer (frames.take j) ++ rest)) =
        frames.take j ++ closedFrames opens closes none rest := by
    rw [closedFrames_append hlead, closedFrames_enframe
      (fun f hf => ho f (List.mem_of_mem_take hf)) hc fun f hf => hb f (List.mem_of_mem_take hf)]
  have hlines {ls : List β} (h : ∀ l ∈ ls, x ∉ spell l) {rest : List α} (hrest : x ∉ rest) :
      (lines x (unlines x (ls.map spell) ++ rest)).map read = ls := by
    rw [lines_unlines_append x (by simpa using h) hrest, List.map_map]
    simp [Function.comp_def, hspell]
  have hpart {text text' : List α} (h : text <+: text') :
      closedFrames opens closes none ((lines x text).map read) <+:
        closedFrames opens closes none ((lines x text').map read) :=
    closedFrames_prefix (( lines_prefix x h).map read) none
  have hframes : closedFrames opens closes none ((lines x seen).map read) <+: frames := by
    have h := hlines hx List.not_mem_nil
    have hall := hread frames.length []
    rw [List.append_nil] at h
    rw [List.take_length, List.append_nil, closedFrames, List.append_nil] at hall
    have hle := hpart hseen
    rwa [h, hall] at hle
  refine ⟨_, hframes.length_le, List.prefix_iff_eq_take.1 hframes, fun hk => ?_⟩
  obtain ⟨j, hj⟩ := Nat.exists_eq_succ_of_ne_zero hk
  have hlt : j < frames.length := by
    have := hframes.length_le
    omega
  rw [hj, List.take_succ_eq_append_getElem hlt]
  generalize hframe : frames[j] = frame
  obtain ⟨t, body⟩ := frame
  have hmem : (t, body) ∈ frames := hframe ▸ List.getElem_mem hlt
  set cut := lead ++ (enframe header closer (frames.take j) ++ header t :: body) with hcut
  have htold : lead ++ enframe header closer (frames.take j ++ [(t, body)]) = cut ++ [closer] := by
    simp [hcut, enframe]
  have hwhole : cut ++ [closer] <+: lead ++ enframe header closer frames := by
    rw [← htold, ← hframe, ← List.take_succ_eq_append_getElem hlt]
    refine ⟨enframe header closer (frames.drop (j + 1)), ?_⟩
    rw [List.append_assoc, ← enframe_append, List.take_append_drop]
  have hx' : ∀ l ∈ cut ++ [closer], x ∉ spell l := fun l hl => hx l (hwhole.subset hl)
  -- without the last terminator frame `j` is not closed
  have hshort : closedFrames opens closes none
      ((lines x (unlines x (cut.map spell) ++ spell closer)).map read) = frames.take j := by
    rw [hlines (fun l hl => hx' l (by simp [hl])) (hx' closer (by simp)), hcut, hread, closedFrames,
      ho (t, body) hmem]
    simp only [closedFrames_open t [] body (hb (t, body) hmem), List.append_nil]
  have hwritten : unlines x ((cut ++ [closer]).map spell) =
      unlines x (cut.map spell) ++ spell closer ++ [x] := by
    rw [List.map_append, unlines_append, List.map_singleton, unlines_cons, unlines_nil,
      List.append_assoc]
  have hpre : unlines x ((cut ++ [closer]).map spell) <+:
      unlines x ((lead ++ enframe header closer frames).map spell) := by
    obtain ⟨rest, hrest⟩ := hwhole
    exact ⟨unlines x (rest.map spell), by rw [← unlines_append, ← List.map_append, hrest]⟩
  rw [htold]
  rcases List.prefix_or_prefix_of_prefix hpre hseen with h | h
  · exact h
  rw [hwritten] at h ⊢
  rcases List.prefix_concat_iff.1 h with heq | h
  · rw [heq]
  · have hless := (hshort ▸ hpart h).length_le
    rw [List.length_take] at hless
    omega

end

end Framing
