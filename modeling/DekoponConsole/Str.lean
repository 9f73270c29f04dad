/-
  The text operations of Rust's standard library that the console uses, on
  Lean's strings: a `String` of either language is a sequence of Unicode scalar
  values.  The operations work on the list of characters.

  `isControl` and `isWhitespace` are the general category `Cc` and the property
  `White_Space`; `toLowercase` is `char::to_lowercase` as far as a comparison
  with ASCII text can see it.
-/
import DekoponConsole.Lib.Runs

namespace DekoponConsole

/-! ## Characters -/

/-- `char::is_control`: the general category `Cc`. -/
def isControl (c : Char) : Bool :=
  c.toNat < 0x20 || (0x7f ≤ c.toNat && c.toNat ≤ 0x9f)

/-- `char::is_whitespace`: the property `White_Space`. -/
def isWhitespace (c : Char) : Bool :=
  (0x09 ≤ c.toNat && c.toNat ≤ 0x0d) || c.toNat == 0x20 || c.toNat == 0x85 || c.toNat == 0xa0 ||
    c.toNat == 0x1680 || (0x2000 ≤ c.toNat && c.toNat ≤ 0x200a) || c.toNat == 0x2028 ||
    c.toNat == 0x2029 || c.toNat == 0x202f || c.toNat == 0x205f || c.toNat == 0x3000

/-- `char::to_lowercase`.  Outside ASCII only the two characters whose lower
    case contains an ASCII letter are mapped: every other one has a lower case
    without ASCII letters, as it has none itself. -/
def toLowercase (c : Char) : List Char :=
  if c.toNat = 0x130 then ['i', Char.ofNat 0x307]
  else if c.toNat = 0x212a then ['k']
  else [c.toLower]

/-! ## Strings -/

/-- `str::len`: the length in bytes. -/
def byteLen (text : List Char) : ℕ := (text.map Char.utf8Size).sum

/-- `str::starts_with`. -/
def startsWith (text pat : String) : Bool := pat.toList.isPrefixOf text.toList

/-- `str::strip_prefix`. -/
def stripPrefix (text pat : String) : Option String :=
  (pat.toList.isPrefixOf? text.toList).map String.ofList

/-- `str::strip_suffix`. -/
def stripSuffix (text pat : String) : Option String :=
  (pat.toList.isSuffixOf? text.toList).map String.ofList

/-- `str::split_once` at a character. -/
def splitOnce (text : String) (c : Char) : Option (String × String) :=
  if c ∈ text.toList then
    some (String.ofList (text.toList.takeWhile (· ≠ c)),
      String.ofList ((text.toList.dropWhile (· ≠ c)).drop 1))
  else none

/-- `str::split` at a character. -/
def split (text : String) (c : Char) : List String :=
  (text.toList.splitOn c).map String.ofList

/-- `str::lines`: a line ends at a line feed, and loses a carriage return before
    it; a text after the last line feed is a line if it is not empty. -/
def strLines (text : String) : List String :=
  let pieces := split text '\n'
  (pieces.dropLast.map fun line => (stripSuffix line "\r").getD line) ++
    (pieces.getLast?.toList.filter fun rest => !rest.isEmpty)

/-- `{text:>width$}`. -/
def padLeft (width : ℕ) (text : String) : String :=
  String.ofList (List.replicate (width - text.toList.length) ' ') ++ text

/-- `str::trim`. -/
def trim (text : String) : String :=
  String.ofList (((text.toList.dropWhile isWhitespace).reverse.dropWhile isWhitespace).reverse)

/-- `str::to_ascii_lowercase`. -/
def toAsciiLowercase (text : List Char) : List Char := text.map Char.toLower

/-! ## Machine integers -/

/-- One more than the largest `u16`. -/
def u16Size : ℕ := 2 ^ 16

/-- One more than the largest `u32`. -/
def u32Size : ℕ := 2 ^ 32

/-- One more than the largest `u64`, and the largest `usize` of the platforms
    the console is built for. -/
def u64Size : ℕ := 2 ^ 64

/-- `saturating_add` of an unsigned type with `size` values. -/
def saturatingAdd (size a b : ℕ) : ℕ := min (a + b) (size - 1)

theorem startsWith_iff {text pat : String} :
    startsWith text pat = true ↔ pat.toList <+: text.toList := by
  simp [startsWith]

theorem startsWith_iff_exists {text pat : String} :
    startsWith text pat = true ↔ ∃ rest, text = pat ++ rest := by
  rw [startsWith_iff]
  constructor
  · rintro ⟨rest, h⟩
    exact ⟨String.ofList rest, String.toList_injective (by simp [h])⟩
  · rintro ⟨rest, rfl⟩
    simp

theorem stripPrefix_eq_some {text pat rest : String} :
    stripPrefix text pat = some rest ↔ text = pat ++ rest := by
  rw [stripPrefix, Option.map_eq_some_iff]
  simp only [List.isPrefixOf?_eq_some_iff_append_eq]
  constructor
  · rintro ⟨l, h, rfl⟩
    exact String.toList_injective (by simp [← h])
  · rintro rfl
    exact ⟨rest.toList, by simp, by simp⟩

theorem stripSuffix_eq_some {text pat rest : String} :
    stripSuffix text pat = some rest ↔ text = rest ++ pat := by
  rw [stripSuffix, Option.map_eq_some_iff]
  simp only [List.isSuffixOf?_eq_some_iff_append_eq]
  constructor
  · rintro ⟨l, h, rfl⟩
    exact String.toList_injective (by simp [← h])
  · rintro rfl
    exact ⟨rest.toList, by simp, by simp⟩

theorem splitOnce_append {before : String} {c : Char} (h : c ∉ before.toList) (after : String) :
    splitOnce (before ++ String.singleton c ++ after) c = some (before, after) := by
  have hall : ∀ a ∈ before.toList, decide (a ≠ c) = true := by
    intro a ha
    have hne : a ≠ c := fun he => h (he ▸ ha)
    simpa using hne
  have htext : (before ++ String.singleton c ++ after).toList =
      before.toList ++ c :: after.toList := by simp
  rw [splitOnce, htext, if_pos (by simp), List.takeWhile_append_of_pos hall,
    List.dropWhile_append_of_pos hall]
  simp

@[simp] theorem byteLen_nil : byteLen [] = 0 := rfl

@[simp] theorem byteLen_cons (c : Char) (l : List Char) :
    byteLen (c :: l) = c.utf8Size + byteLen l := rfl

@[simp] theorem byteLen_append (l l' : List Char) : byteLen (l ++ l') = byteLen l + byteLen l' := by
  simp [byteLen]

theorem length_le_byteLen (l : List Char) : l.length ≤ byteLen l := by
  induction l with
  | nil => simp
  | cons c l ih =>
    have := c.utf8Size_pos
    simp only [List.length_cons, byteLen_cons]
    omega

end DekoponConsole
