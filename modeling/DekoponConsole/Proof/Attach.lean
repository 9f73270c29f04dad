/-
  What `attach_base64` accepts, and what it does.

  * `validMime_iff`: the MIME test, as the form of a text;
  * `attachBase64_ok_iff`: one inventory takes an attachment exactly when the
    text, both sizes and the room are right;
  * `attachBase64_iff`: the same in every inventory operations can lead to, with
    what an attachment adds and what a refusal leaves.
-/
import DekoponConsole.Lib.Base64
import DekoponConsole.Proof.Assets

namespace DekoponConsole

/-! ## MIME types -/

/-- The characters of a MIME type's parts. -/
def MimeChar (c : Char) : Prop := c.isAlphanum ∨ c ∈ "!#$&^_.+-".toList

/-- `type/subtype` of at most 127 characters. -/
def MimeText (mime : String) : Prop :=
  mime.toList.length ≤ 127 ∧ ∃ kind subtype, mime.toList = kind ++ '/' :: subtype ∧
    kind ≠ [] ∧ subtype ≠ [] ∧ ∀ c ∈ kind ++ subtype, MimeChar c

theorem punctuation_eq : "!#$&^_.+-".toList = ['!', '#', '$', '&', '^', '_', '.', '+', '-'] := by
  decide

theorem isMimeChar_iff (c : Char) : Inventory.isMimeChar c = true ↔ MimeChar c := by
  rw [Inventory.isMimeChar, MimeChar, punctuation_eq, Bool.or_eq_true, List.contains_iff_mem]

theorem MimeChar.lt {c : Char} (h : MimeChar c) : c.toNat < 0x80 := by
  rcases h with h | h
  · simp only [Char.isAlphanum, Char.isAlpha, Char.isUpper, Char.isLower, Char.isDigit,
      Bool.or_eq_true, Bool.and_eq_true, decide_eq_true_eq, UInt32.le_iff_toNat_le, ge_iff_le] at h
    have hc : c.toNat = c.val.toNat := rfl
    have hupper : 'Z'.val.toNat = 90 := rfl
    have hlower : 'z'.val.toNat = 122 := rfl
    have hdigit : '9'.val.toNat = 57 := rfl
    omega
  · rw [punctuation_eq] at h
    simp only [List.mem_cons, List.not_mem_nil, or_false] at h
    rcases h with rfl | rfl | rfl | rfl | rfl | rfl | rfl | rfl | rfl <;> decide

theorem not_mimeChar_slash : ¬ MimeChar '/' := by
  rw [← isMimeChar_iff]
  decide

theorem byteLen_of_ascii {l : List Char} (h : ∀ c ∈ l, c.toNat < 0x80) : byteLen l = l.length := by
  induction l with
  | nil => rfl
  | cons c l ih =>
    rw [List.forall_mem_cons] at h
    have hsize : c.utf8Size = 1 := by
      rw [Char.utf8Size_eq_one_iff, UInt32.le_iff_toNat_le]
      exact Nat.le_of_lt_succ h.1
    rw [byteLen_cons, ih h.2, hsize, List.length_cons, Nat.add_comm]

theorem eq_takeWhile_append {l : List Char} {c : Char} (h : c ∈ l) :
    l = l.takeWhile (· ≠ c) ++ c :: (l.dropWhile (· ≠ c)).drop 1 := by
  induction l with
  | nil => cases h
  | cons a l ih =>
    by_cases ha : a = c
    · simp [ha]
    · have hl : c ∈ l := by simpa [Ne.symm ha] using h
      simpa [ha] using ih hl

/-- What `split_once` cuts is the text. -/
theorem splitOnce_eq_some {text before after : String} {c : Char}
    (h : splitOnce text c = some (before, after)) :
    text.toList = before.toList ++ c :: after.toList := by
  unfold splitOnce at h
  split_ifs at h with hc
  obtain ⟨rfl, rfl⟩ := Prod.mk.inj (Option.some.inj h)
  rw [String.toList_ofList, String.toList_ofList]
  exact eq_takeWhile_append hc

/-- A text is cut at its first slash. -/
theorem splitOnce_slash {mime : String} {kind subtype : List Char}
    (h : mime.toList = kind ++ '/' :: subtype) (hk : '/' ∉ kind) :
    splitOnce mime '/' = some (String.ofList kind, String.ofList subtype) := by
  have hkind : ∀ c ∈ kind, (decide (c ≠ '/')) = true := by
    intro c hc
    simpa using fun heq : c = '/' => hk (heq ▸ hc)
  rw [splitOnce, h, if_pos (by simp), List.takeWhile_append_of_pos hkind,
    List.dropWhile_append_of_pos hkind]
  simp

/-- The MIME test tells what the texts of the form look like. -/
theorem validMime_iff (mime : String) : Inventory.validMime mime = true ↔ MimeText mime := by
  constructor
  · intro h
    unfold Inventory.validMime at h
    cases hsplit : splitOnce mime '/' with
    | none => simp [hsplit] at h
    | some parts =>
      obtain ⟨kind, subtype⟩ := parts
      simp only [hsplit, Bool.and_eq_true, decide_eq_true_eq, List.all_eq_true,
        Bool.not_eq_true', List.isEmpty_eq_false_iff, isMimeChar_iff] at h
      obtain ⟨⟨⟨hlen, -⟩, hascii⟩, ⟨hkind, hsubtype⟩, hchars⟩ := h
      rw [byteLen_of_ascii hascii] at hlen
      exact ⟨hlen, _, _, splitOnce_eq_some hsplit, hkind, hsubtype, hchars⟩
  · rintro ⟨hlen, kind, subtype, hcut, hkind, hsubtype, hchars⟩
    have hslash : '/' ∉ kind := fun hmem =>
      not_mimeChar_slash (hchars _ (List.mem_append_left _ hmem))
    have hascii : ∀ c ∈ mime.toList, c.toNat < 0x80 := by
      intro c hc
      rw [hcut] at hc
      rcases List.mem_append.1 hc with hc | hc
      · exact (hchars c (List.mem_append_left _ hc)).lt
      · rcases List.mem_cons.1 hc with rfl | hc
        · decide
        · exact (hchars c (List.mem_append_right _ hc)).lt
    simp only [Inventory.validMime, splitOnce_slash hcut hslash, Bool.and_eq_true,
      decide_eq_true_eq, List.all_eq_true, Bool.not_eq_true', List.isEmpty_eq_false_iff,
      isMimeChar_iff, String.toList_ofList]
    refine ⟨⟨⟨?_, by simp [hcut]⟩, hascii⟩, ⟨hkind, hsubtype⟩, hchars⟩
    rwa [byteLen_of_ascii hascii]

/-! ## Attaching -/

/-- The room an attachment of `len` bytes needs. -/
def HasRoom (inv : Inventory) (len : ℕ) : Prop :=
  inv.items.size < 16 ∧ (inv.items.toList.map fun item => item.2.2.len).sum + len ≤ 64 * 1024 * 1024

/-- What is accepted, and the bytes it stands for. -/
structure Accepts (inv : Inventory) (mime encoded : String) (bytes : List UInt8) : Prop where
  mime : MimeText mime
  encodedLen : byteLen encoded.toList ≤ 1024 * 1024
  standard : encoded.toList = Base64.encode bytes
  decodedLen : bytes.length ≤ 512 * 1024
  room : HasRoom inv bytes.length

/-- The inventory with an attachment. -/
def attachedTo (inv : Inventory) (mime : String) (bytes : List UInt8) : Inventory where
  nextId := inv.nextId + 1
  bytes := inv.bytes + bytes.length
  items := inv.items.insert (inv.nextId + 1) (⟨inv.nextId + 1, mime, .identity, some bytes.length,
    "console", false⟩, ⟨bytes⟩)

/-- Where the total is that of the items and an id is left, `insert` takes what there
    is room for. -/
theorem insert_of_room {inv : Inventory}
    (hbytes : inv.bytes = (inv.items.toList.map fun item => item.2.2.len).sum)
    (hid : inv.nextId < u64Size - 1) (mime : String) (bytes : List UInt8) :
    (HasRoom inv bytes.length ∧
        inv.insert ⟨bytes⟩ mime .identity "console" =
          (.ok (inv.nextId + 1), attachedTo inv mime bytes)) ∨
      (¬ HasRoom inv bytes.length ∧
        inv.insert ⟨bytes⟩ mime .identity "console" = (.error .capacity, inv)) := by
  have hlen : (⟨bytes⟩ : DiskBlob).len = bytes.length := rfl
  have hmax : maxItems = 16 ∧ maxBytes = 64 * 1024 * 1024 := ⟨rfl, rfl⟩
  have hsize : u64Size = 2 ^ 64 := rfl
  by_cases hroom : HasRoom inv bytes.length
  · left
    refine ⟨hroom, ?_⟩
    obtain ⟨hitems, htotal⟩ := hroom
    have hadd : wrappingAdd inv.bytes bytes.length = inv.bytes + bytes.length :=
      wrappingAdd_eq (by omega)
    have hcheck : checkedAdd inv.nextId 1 = some (inv.nextId + 1) := by
      rw [checkedAdd, if_pos (by omega)]
    rw [Inventory.insert, if_neg]
    · simp only [hcheck, hadd, hlen, attachedTo]
    · simp only [hlen, Bool.or_eq_true, decide_eq_true_eq, not_or]
      omega
  · right
    refine ⟨hroom, ?_⟩
    rw [Inventory.insert, if_pos]
    simp only [hlen, Bool.or_eq_true, decide_eq_true_eq]
    by_contra hnot
    exact hroom ⟨by omega, by omega⟩

section
variable {exts : Externals} {create : List UInt8 → Except BlobError DiskBlob}
  (hdecode : ∀ text bytes, exts.base64Decode text = .ok bytes ↔ text.toList = Base64.encode bytes)
  (hcreate : ∀ bytes, create bytes = .ok ⟨bytes⟩)
include hdecode hcreate

/-- **One attachment**: it is accepted and added, or refused and nothing changes. -/
theorem attachBase64_accepts {inv : Inventory}
    (hbytes : inv.bytes = (inv.items.toList.map fun item => item.2.2.len).sum)
    (hid : inv.nextId < u64Size - 1) (mime encoded : String) :
    (∃ bytes, Accepts inv mime encoded bytes ∧ inv.attachBase64 exts create mime encoded =
        (.ok (inv.nextId + 1), attachedTo inv mime bytes)) ∨
      ((∀ bytes, ¬ Accepts inv mime encoded bytes) ∧
        ∃ error, inv.attachBase64 exts create mime encoded = (.error error, inv)) := by
  have hmax : maxEncoded = 1024 * 1024 ∧ maxDecoded = 512 * 1024 := ⟨rfl, rfl⟩
  unfold Inventory.attachBase64
  by_cases hmime : MimeText mime
  · rw [if_neg (by simpa [validMime_iff] using hmime)]
    by_cases hlen : byteLen encoded.toList > maxEncoded
    · rw [if_pos hlen]
      refine Or.inr ⟨fun bytes h => ?_, _, rfl⟩
      have := h.encodedLen
      omega
    · rw [if_neg hlen]
      cases hd : exts.base64Decode encoded with
      | error error =>
        refine Or.inr ⟨fun bytes h => ?_, _, rfl⟩
        rw [(hdecode encoded bytes).2 h.standard] at hd
        cases hd
      | ok bytes =>
        have hstandard := (hdecode encoded bytes).1 hd
        have hsame {bytes' : List UInt8} (h : Accepts inv mime encoded bytes') : bytes' = bytes := by
          rw [(hdecode encoded bytes').2 h.standard] at hd
          exact Except.ok.inj hd
        by_cases hdecoded : bytes.length > maxDecoded
        · simp only [if_pos hdecoded]
          refine Or.inr ⟨fun bytes' h => ?_, _, rfl⟩
          have := h.decodedLen
          rw [hsame h] at this
          omega
        · simp only [if_neg hdecoded, hcreate]
          rcases insert_of_room hbytes hid mime bytes with ⟨hroom, hi⟩ | ⟨hroom, hi⟩
          · rw [hi]
            exact Or.inl ⟨bytes, ⟨hmime, by omega, hstandard, by omega, hroom⟩, rfl⟩
          · rw [hi]
            refine Or.inr ⟨fun bytes' h => ?_, _, rfl⟩
            exact hroom (hsame h ▸ h.room)
  · rw [if_pos (by simpa [← validMime_iff] using hmime)]
    exact Or.inr ⟨fun bytes h => hmime h.mime, _, rfl⟩

/-- **Attachment accepts exactly its documented input, and is atomic.**  With a
    correct decoder and a blob store that keeps what it is given, in an inventory
    any operations led to: an attachment succeeds if and only if it is accepted,
    then adds its row and its bytes, and otherwise leaves the inventory. -/
theorem attachBase64_iff (ops : List Op) (mime encoded : String)
    (hid : (Runs.exec (Logged.step exts) .start ops).inv.nextId < u64Size - 1) :
    let inv := (Runs.exec (Logged.step exts) .start ops).inv
    let r := inv.attachBase64 exts create mime encoded
    ((∃ id, r.1 = .ok id) ↔ ∃ bytes, Accepts inv mime encoded bytes) ∧
      (∀ bytes, Accepts inv mime encoded bytes →
        r = (.ok (inv.nextId + 1), attachedTo inv mime bytes)) ∧
      ∀ error, r.1 = .error error → r.2 = inv := by
  intro inv r
  have hbytes : inv.bytes = (inv.items.toList.map fun item => item.2.2.len).sum := by
    obtain ⟨m, h⟩ : ∃ m, Tracked exts (Runs.exec (Logged.step exts) .start ops) m :=
      exists_tracked exts ops
    rw [h.refines.items]
    exact h.refines.bytes
  have hunique {bytes bytes' : List UInt8} (h : Accepts inv mime encoded bytes)
      (h' : Accepts inv mime encoded bytes') : bytes = bytes' := by
    have hd := (hdecode encoded bytes).2 h.standard
    rw [(hdecode encoded bytes').2 h'.standard] at hd
    exact (Except.ok.inj hd).symm
  rcases attachBase64_accepts hdecode hcreate hbytes hid mime encoded with
    ⟨bytes, haccepts, hr⟩ | ⟨hnot, error, hr⟩
  · refine ⟨⟨fun _ => ⟨bytes, haccepts⟩, fun _ => ⟨_, congrArg Prod.fst hr⟩⟩, ?_, ?_⟩
    · intro bytes' haccepts'
      rw [hunique haccepts' haccepts]
      exact hr
    · intro error herror
      rw [show r = _ from hr] at herror
      cases herror
  · refine ⟨⟨?_, fun ⟨bytes, h⟩ => absurd h (hnot bytes)⟩, fun bytes h => absurd h (hnot bytes), ?_⟩
    · rintro ⟨id, hok⟩
      rw [show r = _ from hr] at hok
      cases hok
    · intro _ _
      exact congrArg Prod.snd hr

end

/-- The plain functions, with a decoder of standard base64. -/
def Externals.decoding : Externals :=
  { Externals.plain with
    base64Decode := fun text => ((Base64.decode text.toList).map Except.ok).getD
      (.error "invalid input") }

theorem decoding_ok_iff (text : String) (bytes : List UInt8) :
    Externals.decoding.base64Decode text = .ok bytes ↔ text.toList = Base64.encode bytes := by
  rw [← Base64.decode_eq_some_iff, Externals.decoding]
  cases h : Base64.decode text.toList <;> simp [h]

/-- The first attachment of an entry. -/
theorem attachBase64_iff_heic :
    Inventory.default.nextId < u64Size - 1 ∧
      Inventory.default.attachBase64 .decoding (fun bytes => .ok ⟨bytes⟩) "image/heic" "AAEC/w==" =
        (.ok 1, attachedTo .default "image/heic" [0, 1, 2, 255]) := by
  have hid : Inventory.default.nextId < u64Size - 1 := by decide
  obtain ⟨-, hattach, -⟩ := attachBase64_iff decoding_ok_iff
    (fun _ => rfl) [] "image/heic" "AAEC/w==" hid
  refine ⟨hid, hattach [0, 1, 2, 255] ⟨?_, by decide, by decide, by decide, ?_⟩⟩
  · exact (validMime_iff _).1 (by decide)
  · exact ⟨by decide, by decide⟩

end DekoponConsole
