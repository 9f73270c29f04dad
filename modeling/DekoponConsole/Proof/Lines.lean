/-
  Commands at their limit, and lines however they are cut.

  * `submitted_unchunked`: repeated calls of `read_line` read the reference's
    lines from any delivery of a stream, each up to its newline and no further;
  * a `Command` is sent with either terminator; `documented` is what the console
    promises of a sequence of them;
  * `submitted_documented_iff`: it keeps the promise where every command before
    the first too long one fits together with its terminator.
-/
import DekoponConsole.Proof.Input

namespace DekoponConsole

/-! ## Any delivery -/

/-- **Line reading does not depend on chunking.**  Two deliveries of one stream
    submit the same, which is what the reference reads; a line leaves the bytes
    after its newline. -/
theorem submitted_unchunked {chunks chunks' : List (List UInt8)} {stream : List UInt8}
    (h : Delivery chunks stream) (h' : Delivery chunks' stream) :
    submitted (delivers chunks) = submitted (delivers chunks') ∧
      submitted (delivers chunks) = referenceLines stream ∧
      (readLine (delivers chunks)).1 = (referenceLine stream).1 ∧
      ∀ line, (readLine (delivers chunks)).1 = .ok (some line) →
        ∃ rest, (readLine (delivers chunks)).2 = delivers rest ∧
          Delivery rest (referenceLine stream).2 := by
  obtain ⟨hread, hleave⟩ := readLine_delivery h
  have hs := submitted_delivery h
  refine ⟨hs.trans (submitted_delivery h').symm, hs, hread, ?_⟩
  intro line hline
  exact hleave line (hread.symm.trans hline)

/-- The carriage return and the newline arrive apart. -/
theorem submitted_unchunked_split :
    submitted (delivers [[108, 115, 13], [10, 112]]) =
        submitted (delivers [[108], [115, 13, 10], [112]]) ∧
      submitted (delivers [[108, 115, 13], [10, 112]]) =
        referenceLines [108, 115, 13, 10, 112] ∧
      (readLine (delivers [[108, 115, 13], [10, 112]])).1 =
        (referenceLine [108, 115, 13, 10, 112]).1 ∧
      ∀ line, (readLine (delivers [[108, 115, 13], [10, 112]])).1 = .ok (some line) →
        ∃ rest, (readLine (delivers [[108, 115, 13], [10, 112]])).2 = delivers rest ∧
          Delivery rest (referenceLine [108, 115, 13, 10, 112]).2 :=
  submitted_unchunked ⟨by decide, rfl⟩ ⟨by decide, rfl⟩

/-! ## Commands -/

/-- A command as it is sent: valid UTF-8 without a newline, not ending in a
    carriage return, and which terminator follows it. -/
structure Command where
  bytes : List UInt8
  text : String
  crlf : Bool
  valid : fromUtf8 bytes = some text
  single : newline ∉ bytes
  bare : bytes.getLast? ≠ some carriageReturn

namespace Command

/-- What stands between a command and the newline. -/
def carriage (c : Command) : List UInt8 := if c.crlf then [carriageReturn] else []

/-- The command with its terminator. -/
def line (c : Command) : List UInt8 := c.bytes ++ c.carriage ++ [newline]

theorem newline_not_mem (c : Command) : newline ∉ c.bytes ++ c.carriage := by
  have hc : newline ∉ c.carriage := by
    rw [carriage]
    split_ifs <;> decide
  simp [c.single, hc]

theorem popByte_carriage (c : Command) : popByte carriageReturn (c.bytes ++ c.carriage) = c.bytes := by
  rw [carriage]
  split_ifs
  · simp [popByte]
  · rw [List.append_nil, popByte, if_neg c.bare]

end Command

/-- The bytes of the commands, one after another. -/
def streamOf (commands : List Command) : List UInt8 := commands.flatMap Command.line

/-- What the console promises: commands of up to 16 KiB are taken, a longer one
    is refused. -/
def documented : List Command → List String × Except String Unit
  | [] => ([], .ok ())
  | c :: commands =>
    if 16384 < c.bytes.length then ([], .error "command exceeds 16 KiB")
    else (c.text :: (documented commands).1, (documented commands).2)

/-- A command is read where it fits together with its terminator. -/
theorem referenceLines_command (c : Command) (rest : List UInt8) :
    referenceLines (c.line ++ rest) =
      if maxLine < c.line.length then ([], .error "command exceeds 16 KiB")
      else (c.text :: (referenceLines rest).1, (referenceLines rest).2) := by
  have hline : c.line ++ rest = (c.bytes ++ c.carriage) ++ newline :: rest := by
    simp [Command.line]
  have hlength : c.line.length = (c.bytes ++ c.carriage).length + 1 := by
    rw [Command.line, List.length_append, List.length_singleton]
  have hread := referenceLine_line c.newline_not_mem rest
  rw [hline, hlength]
  split_ifs with hlong
  · rw [if_pos hlong] at hread
    exact referenceLines_error (congrArg Prod.fst hread)
  · rw [if_neg hlong, decodeLine_append_newline, c.popByte_carriage, c.valid] at hread
    exact referenceLines_some hread

/-- **Exactly when the documented limit holds.**  The commands are submitted as
    documented if and only if each one before the first too long one fits into
    16 KiB together with its terminator. -/
theorem submitted_documented_iff {commands : List Command} {chunks : List (List UInt8)}
    (h : Delivery chunks (streamOf commands)) :
    submitted (delivers chunks) = documented commands ↔
      ∀ c ∈ commands.takeWhile fun c => c.bytes.length ≤ 16384, c.line.length ≤ 16384 := by
  rw [submitted_delivery h]
  clear h
  induction commands with
  | nil => simpa [streamOf, documented] using referenceLines_none rfl
  | cons c commands ih =>
    have hline : c.bytes.length ≤ c.line.length := by simp [Command.line]
    rw [streamOf, List.flatMap_cons, referenceLines_command, documented]
    by_cases hlong : 16384 < c.bytes.length
    · rw [if_pos (by simp only [maxLine]; omega), if_pos hlong,
        List.takeWhile_cons_of_neg (by simpa using hlong)]
      simp
    · rw [if_neg hlong, List.takeWhile_cons_of_pos (by simpa using hlong), List.forall_mem_cons,
        ← ih]
      by_cases hfits : c.line.length ≤ 16384
      · rw [if_neg (by simp only [maxLine]; omega)]
        simp [hfits, Prod.ext_iff, streamOf]
      · rw [if_pos (by simp only [maxLine]; omega)]
        simp [hfits]

/-- Two commands, the second over a chunk boundary. -/
theorem submitted_documented_iff_two :
    let commands : List Command :=
      [⟨[108, 115], "ls", true, by decide, by decide, by decide⟩,
        ⟨[112, 119, 100], "pwd", false, by decide, by decide, by decide⟩]
    submitted (delivers [[108, 115, 13, 10, 112], [119, 100, 10]]) = documented commands ↔
      ∀ c ∈ commands.takeWhile fun c => c.bytes.length ≤ 16384, c.line.length ≤ 16384 := by
  intro commands
  exact submitted_documented_iff ⟨by decide, rfl⟩

/-! ## At the limit -/

theorem fromUtf8_replicate (n : ℕ) :
    fromUtf8 (List.replicate n 97) = some (String.ofList (List.replicate n 'a')) := by
  have hencode : (List.replicate n 'a').flatMap String.utf8EncodeChar = List.replicate n 97 := by
    induction n with
    | zero => rfl
    | succ n ih =>
      rw [List.replicate_succ, List.flatMap_cons, ih]
      rfl
  have hbytes : (⟨(List.replicate n 97).toArray⟩ : ByteArray) =
      (String.ofList (List.replicate n 'a')).toByteArray := by
    rw [String.toByteArray_ofList, List.utf8Encode, hencode]
    exact ByteArray.ext (by simp)
  rw [fromUtf8, hbytes]
  exact dif_pos (String.isValidUTF8 _)

/-- A command of as many letters, ended by a newline. -/
def letters (n : ℕ) : Command where
  bytes := List.replicate n 97
  text := String.ofList (List.replicate n 'a')
  crlf := false
  valid := fromUtf8_replicate n
  single h := absurd (List.eq_of_mem_replicate h) (by decide)
  bare h := absurd (List.eq_of_mem_replicate (List.mem_of_getLast? h)) (by decide)

theorem length_letters (n : ℕ) : (letters n).bytes.length = n := List.length_replicate

theorem length_line_letters (n : ℕ) : (letters n).line.length = n + 1 := by
  rw [Command.line, Command.carriage, List.length_append, List.length_append, length_letters]
  rfl

theorem delivery_letters (n : ℕ) : Delivery [streamOf [letters n]] (streamOf [letters n]) := by
  refine ⟨?_, by simp⟩
  intro chunk hchunk he
  have hlength : chunk.length = n + 1 := by
    rw [List.mem_singleton.1 hchunk, streamOf, List.flatMap_singleton, length_line_letters]
  simp [he] at hlength

/-- A command of 16 KiB exactly is refused as longer. -/
theorem full_command_refused :
    submitted (delivers [streamOf [letters 16384]]) = ([], .error "command exceeds 16 KiB") ∧
      documented [letters 16384] = ([(letters 16384).text], .ok ()) := by
  constructor
  · rw [submitted_delivery (delivery_letters 16384), streamOf, List.flatMap_cons,
      referenceLines_command, if_pos (by rw [length_line_letters]; decide)]
  · rw [documented, if_neg (by rw [length_letters]; decide), documented]

end DekoponConsole
