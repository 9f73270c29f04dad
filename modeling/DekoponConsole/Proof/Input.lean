/-
  The commands that an input submits.

  * `submitted input` are the lines that `readLine` takes from a reader, one after
    another, and how the input ends; it is total, since every line uses up bytes;
  * `referenceLine` and `referenceLines` read the same from the bytes themselves;
    however a stream is cut into chunks, `readLine` reads what they do
    (`readLine_delivery`, `submitted_delivery`);
  * `Encodes` says which bytes are one command, `submitted_terminated` that a
    stream of commands, each ended by a newline, submits just them.
-/
import DekoponConsole.Structured

namespace DekoponConsole

/-! ## Lines of an input -/

/-- The bytes still to come. -/
def Reader.size : Reader → ℕ
  | [] => 0
  | .ok bytes :: rest => bytes.length + Reader.size rest
  | .error _ :: rest => Reader.size rest

theorem size_unread (bytes : List UInt8) (rest : Reader) :
    Reader.size (unread bytes rest) = bytes.length + Reader.size rest := by
  unfold unread
  split_ifs with h
  · simp [List.isEmpty_iff.1 h]
  · rfl

theorem atEnd_ne_some (bytes : List UInt8) (line : String) : atEnd bytes ≠ .ok (some line) := by
  unfold atEnd
  split_ifs <;> simp

/-- A line uses up bytes. -/
theorem size_readLineLoop {bytes : List UInt8} {input rest : Reader} {line : String}
    (h : readLineLoop bytes input = (.ok (some line), rest)) :
    Reader.size rest < Reader.size input := by
  induction input generalizing bytes with
  | nil => exact absurd (congrArg Prod.fst h) (atEnd_ne_some bytes line)
  | cons chunk input ih =>
    cases chunk with
    | error error => cases h
    | ok available =>
      unfold readLineLoop at h
      by_cases he : available.isEmpty
      · rw [if_pos he] at h
        exact absurd (congrArg Prod.fst h) (atEnd_ne_some bytes line)
      rw [if_neg he] at h
      have hpos : 0 < available.length := List.length_pos_iff.2 (by simpa using he)
      cases hi : available.idxOf? newline with
      | some i =>
        simp only [hi] at h
        split_ifs at h
        · simp at h
        · obtain ⟨-, rfl⟩ := Prod.mk.inj h
          rw [size_unread, List.length_drop, Reader.size]
          omega
      | none =>
        simp only [hi] at h
        split_ifs at h
        · simp at h
        · have := ih h
          rw [Reader.size]
          omega

/-- The lines an input submits, and how it ends. -/
def submitted (input : Reader) : List String × Except String Unit :=
  match _h : readLine input with
  | (.error error, _) => ([], .error error)
  | (.ok none, _) => ([], .ok ())
  | (.ok (some line), rest) => (line :: (submitted rest).1, (submitted rest).2)
termination_by Reader.size input
decreasing_by all_goals exact size_readLineLoop ‹_›

section
variable {input rest : Reader} {line error : String}

theorem submitted_error (h : readLine input = (.error error, rest)) :
    submitted input = ([], .error error) := by
  rw [submitted]
  split <;> simp_all

theorem submitted_none (h : readLine input = (.ok none, rest)) : submitted input = ([], .ok ()) := by
  rw [submitted]
  split <;> simp_all

theorem submitted_some (h : readLine input = (.ok (some line), rest)) :
    submitted input = (line :: (submitted rest).1, (submitted rest).2) := by
  rw [submitted]
  split <;> simp_all

end

/-! ## The reference -/

/-- The bytes of the next line, its newline not included. -/
def lineBytes (stream : List UInt8) : List UInt8 := stream.takeWhile (· != newline)

/-- One command from the bytes still to come, and the bytes after its newline. -/
def referenceLine (stream : List UInt8) : Except String (Option String) × List UInt8 :=
  match stream.dropWhile (· != newline) with
  | [] =>
    (if maxLine < stream.length then .error "command exceeds 16 KiB"
      else if stream.isEmpty then .ok none
      else .error "unterminated command", [])
  | _ :: rest =>
    (if maxLine < (lineBytes stream).length + 1 then .error "command exceeds 16 KiB"
      else
        match fromUtf8 (popByte carriageReturn (lineBytes stream)) with
        | some line => .ok (some line)
        | none => .error "invalid utf-8", rest)

theorem ne_newline {line : List UInt8} (h : newline ∉ line) : ∀ b ∈ line, (b != newline) = true :=
  fun _ hb => bne_iff_ne.2 fun he => h (he ▸ hb)

theorem decodeLine_append_newline (line : List UInt8) :
    decodeLine (line ++ [newline]) =
      match fromUtf8 (popByte carriageReturn line) with
      | some line => .ok (some line)
      | none => .error "invalid utf-8" := by
  have hpop : popByte newline (line ++ [newline]) = line := by simp [popByte]
  cases hutf8 : fromUtf8 (popByte carriageReturn line) with
  | none => simp [decodeLine, hpop, hutf8]
  | some text => simp [decodeLine, hpop, hutf8]

/-- The reference on a line and its newline. -/
theorem referenceLine_line {line : List UInt8} (h : newline ∉ line) (rest : List UInt8) :
    referenceLine (line ++ newline :: rest) =
      (if maxLine < line.length + 1 then .error "command exceeds 16 KiB"
        else decodeLine (line ++ [newline]), rest) := by
  have hline : lineBytes (line ++ newline :: rest) = line := by
    rw [lineBytes, List.takeWhile_append_of_pos (ne_newline h)]
    simp
  have hrest : (line ++ newline :: rest).dropWhile (· != newline) = newline :: rest := by
    rw [List.dropWhile_append_of_pos (ne_newline h)]
    simp
  rw [referenceLine, hrest, decodeLine_append_newline]
  simp only [hline]

/-- The reference on what no newline ends. -/
theorem referenceLine_open {stream : List UInt8} (h : newline ∉ stream) :
    referenceLine stream =
      (if maxLine < stream.length then .error "command exceeds 16 KiB" else atEnd stream, []) := by
  have hrest : stream.dropWhile (· != newline) = [] := List.dropWhile_eq_nil_iff.2 (ne_newline h)
  rw [referenceLine, hrest]
  rfl

theorem line_or_open (stream : List UInt8) :
    newline ∉ stream ∨ ∃ line rest, stream = line ++ newline :: rest ∧ newline ∉ line := by
  by_cases h : newline ∈ stream
  · obtain ⟨line, rest, he, hn⟩ := List.eq_append_cons_of_mem h
    exact Or.inr ⟨line, rest, he, hn⟩
  · exact Or.inl h

/-- A stream that begins with more than a line's bytes has no line. -/
theorem referenceLine_long {bytes : List UInt8} (h : newline ∉ bytes) (hlong : maxLine < bytes.length)
    (rest : List UInt8) :
    (referenceLine (bytes ++ rest)).1 = .error "command exceeds 16 KiB" := by
  rcases line_or_open rest with hrest | ⟨line, rest, rfl, hline⟩
  · rw [referenceLine_open (by simp [h, hrest]), if_pos (by rw [List.length_append]; omega)]
  · rw [← List.append_assoc, referenceLine_line (by simp [h, hline]),
      if_pos (by rw [List.length_append]; omega)]

/-- A line uses up bytes of the stream too. -/
theorem length_referenceLine {stream rest : List UInt8} {line : String}
    (h : referenceLine stream = (.ok (some line), rest)) : rest.length < stream.length := by
  rcases line_or_open stream with hopen | ⟨bytes, rest', rfl, hbytes⟩
  · rw [referenceLine_open hopen] at h
    split_ifs at h
    · simp at h
    · exact absurd (congrArg Prod.fst h) (atEnd_ne_some stream line)
  · rw [referenceLine_line hbytes] at h
    obtain ⟨-, rfl⟩ := Prod.mk.inj h
    simp only [List.length_append, List.length_cons]
    omega

/-- The commands of a stream, one after another, and how it ends. -/
def referenceLines (stream : List UInt8) : List String × Except String Unit :=
  match _h : referenceLine stream with
  | (.error error, _) => ([], .error error)
  | (.ok none, _) => ([], .ok ())
  | (.ok (some line), rest) => (line :: (referenceLines rest).1, (referenceLines rest).2)
termination_by stream.length
decreasing_by all_goals exact length_referenceLine ‹_›

section
variable {stream rest : List UInt8} {line error : String}

theorem referenceLines_error (h : (referenceLine stream).1 = .error error) :
    referenceLines stream = ([], .error error) := by
  rw [referenceLines]
  split <;> simp_all

theorem referenceLines_none (h : (referenceLine stream).1 = .ok none) :
    referenceLines stream = ([], .ok ()) := by
  rw [referenceLines]
  split <;> simp_all

theorem referenceLines_some (h : referenceLine stream = (.ok (some line), rest)) :
    referenceLines stream = (line :: (referenceLines rest).1, (referenceLines rest).2) := by
  rw [referenceLines]
  split <;> simp_all

end

/-! ## Deliveries -/

/-- A reader that delivers the chunks. -/
def delivers (chunks : List (List UInt8)) : Reader := chunks.map .ok

/-- The chunks, none of them empty, cut the stream. -/
structure Delivery (chunks : List (List UInt8)) (stream : List UInt8) : Prop where
  ne_nil : ∀ chunk ∈ chunks, chunk ≠ []
  flatten : chunks.flatten = stream

theorem Delivery.unread {chunks : List (List UInt8)} {stream : List UInt8} (h : Delivery chunks stream)
    (bytes : List UInt8) :
    ∃ chunks', DekoponConsole.unread bytes (delivers chunks) = delivers chunks' ∧
      Delivery chunks' (bytes ++ stream) := by
  unfold DekoponConsole.unread
  split_ifs with hb
  · obtain rfl := List.isEmpty_iff.1 hb
    exact ⟨chunks, rfl, h⟩
  · refine ⟨bytes :: chunks, rfl, ?_, ?_⟩
    · exact List.forall_mem_cons.2 ⟨by simpa using hb, h.ne_nil⟩
    · rw [List.flatten_cons, h.flatten]

/-- The loop reads what the reference reads from the bytes so far and those to come, and
    leaves the bytes after the line. -/
theorem readLineLoop_delivery {bytes : List UInt8} (hbytes : newline ∉ bytes)
    (hshort : bytes.length ≤ maxLine) {chunks : List (List UInt8)} {stream : List UInt8}
    (h : Delivery chunks stream) :
    (readLineLoop bytes (delivers chunks)).1 = (referenceLine (bytes ++ stream)).1 ∧
      ∀ line, (referenceLine (bytes ++ stream)).1 = .ok (some line) →
        ∃ chunks', (readLineLoop bytes (delivers chunks)).2 = delivers chunks' ∧
          Delivery chunks' (referenceLine (bytes ++ stream)).2 := by
  induction chunks generalizing bytes stream with
  | nil =>
    obtain rfl : stream = [] := h.flatten.symm
    rw [List.append_nil, referenceLine_open hbytes, if_neg (by omega)]
    refine ⟨rfl, ?_⟩
    intro line hline
    exact absurd hline (atEnd_ne_some bytes line)
  | cons available chunks ih =>
    obtain ⟨hav, hne⟩ := List.forall_mem_cons.1 h.ne_nil
    have hempty : available.isEmpty = false := by simpa using hav
    obtain rfl : available ++ chunks.flatten = stream := by rw [← h.flatten, List.flatten_cons]
    have hrest : Delivery chunks chunks.flatten := ⟨hne, rfl⟩
    unfold delivers
    rw [List.map_cons]
    unfold readLineLoop
    rw [if_neg (by simp [hempty]), ← List.append_assoc]
    -- the newline is past this chunk, or in it
    rcases line_or_open available with hopen | ⟨line, tail, rfl, hline⟩
    · have hboth : newline ∉ bytes ++ available := by simp [hbytes, hopen]
      simp only [List.idxOf?_eq_none_iff.2 hopen]
      split_ifs with hlong
      · rw [referenceLine_long hboth (by rw [List.length_append]; omega)]
        exact ⟨rfl, by simp⟩
      · exact ih hboth (by rw [List.length_append]; omega) hrest
    · have hboth : newline ∉ bytes ++ line := by simp [hbytes, hline]
      have hsome : (line ++ newline :: tail).idxOf? newline = some line.length := by
        have hnone : line.findIdx? (· == newline) = none := by
          refine List.findIdx?_eq_none_iff.2 fun b hb => ?_
          exact beq_false_of_ne fun h => hline (h ▸ hb)
        simp [List.idxOf?, List.findIdx?_append, List.findIdx?_cons, hnone]
      have hstream : bytes ++ (line ++ newline :: tail) ++ chunks.flatten =
          (bytes ++ line) ++ newline :: (tail ++ chunks.flatten) := by simp
      simp only [hsome]
      rw [hstream, referenceLine_line hboth, List.length_append, Nat.add_assoc]
      split_ifs with hlong
      · exact ⟨rfl, by simp⟩
      · have htake : (line ++ newline :: tail).take (line.length + 1) = line ++ [newline] := by
          simp [List.take_append]
        have hdrop : (line ++ newline :: tail).drop (line.length + 1) = tail := by
          simp [List.drop_append]
        rw [htake, hdrop, ← List.append_assoc]
        exact ⟨rfl, fun _ _ => hrest.unread tail⟩

/-- **A call of `read_line`** reads what the reference reads, however the stream is cut. -/
theorem readLine_delivery {chunks : List (List UInt8)} {stream : List UInt8}
    (h : Delivery chunks stream) :
    (readLine (delivers chunks)).1 = (referenceLine stream).1 ∧
      ∀ line, (referenceLine stream).1 = .ok (some line) →
        ∃ chunks', (readLine (delivers chunks)).2 = delivers chunks' ∧
          Delivery chunks' (referenceLine stream).2 :=
  readLineLoop_delivery (by simp) (by simp) h

/-- **Repeated calls** read what the reference reads, by induction on the stream. -/
theorem submitted_delivery {chunks : List (List UInt8)} {stream : List UInt8}
    (h : Delivery chunks stream) : submitted (delivers chunks) = referenceLines stream := by
  obtain ⟨n, hn⟩ : ∃ n, n = stream.length := ⟨_, rfl⟩
  induction n using Nat.strong_induction_on generalizing chunks stream with
  | _ n ih =>
    obtain ⟨hread, hleave⟩ := readLine_delivery h
    cases hr : (referenceLine stream).1 with
    | error error =>
      rw [referenceLines_error hr]
      exact submitted_error (Prod.ext (hread.trans hr) rfl)
    | ok result =>
      cases result with
      | none =>
        rw [referenceLines_none hr]
        exact submitted_none (Prod.ext (hread.trans hr) rfl)
      | some line =>
        obtain ⟨chunks', hrest, h'⟩ := hleave line hr
        have hs : referenceLine stream = (.ok (some line), (referenceLine stream).2) :=
          Prod.ext hr rfl
        have hlines := ih _ (hn ▸ length_referenceLine hs) h' rfl
        rw [submitted_some (Prod.ext (hread.trans hr) hrest), referenceLines_some hs, ← hlines]
        rfl

/-! ## Terminated commands -/

/-- The bytes of one command, without its newline. -/
structure Encodes (bytes : List UInt8) (command : String) : Prop where
  single : newline ∉ bytes
  short : bytes.length < maxLine
  decodes : fromUtf8 (popByte carriageReturn bytes) = some command

theorem Encodes.referenceLines {bytes : List UInt8} {command : String} (h : Encodes bytes command)
    (rest : List UInt8) :
    referenceLines (bytes ++ newline :: rest) =
      (command :: (DekoponConsole.referenceLines rest).1,
        (DekoponConsole.referenceLines rest).2) := by
  have hshort := h.short
  refine referenceLines_some ?_
  rw [referenceLine_line h.single, if_neg (by omega), decodeLine_append_newline, h.decodes]

/-- The input delivers the commands, each ended by a newline, in chunks that are
    not empty. -/
def Terminated (commands : List (List UInt8 × String)) (input : Reader) : Prop :=
  (∀ command ∈ commands, Encodes command.1 command.2) ∧ ∃ chunks, input = delivers chunks ∧
    (∀ chunk ∈ chunks, chunk ≠ []) ∧
      chunks.flatten = commands.flatMap fun command => command.1 ++ [newline]

/-- **A stream of terminated commands submits just them**, however it is cut. -/
theorem submitted_terminated {commands : List (List UInt8 × String)} {input : Reader}
    (h : Terminated commands input) : submitted input = (commands.map Prod.snd, .ok ()) := by
  obtain ⟨hc, chunks, rfl, hne, hflat⟩ := h
  rw [submitted_delivery ⟨hne, hflat⟩]
  clear hflat
  induction commands with
  | nil => exact referenceLines_none rfl
  | cons command commands ih =>
    obtain ⟨hcommand, hcommands⟩ := List.forall_mem_cons.1 hc
    rw [List.flatMap_cons, List.append_assoc, List.singleton_append, hcommand.referenceLines,
      ih hcommands]
    rfl

end DekoponConsole
