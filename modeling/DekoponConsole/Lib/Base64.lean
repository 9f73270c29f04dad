/-
  Standard base64 with canonical padding, over lists of bytes and characters.

  * `encode` writes three bytes as four digits, and pads the last group;
  * `decode` reads digits back and accepts only what `encode` writes: complete
    groups, padding at the end, and no bits left over;
  * `decode_eq_some_iff`: what is decoded is what was encoded.
-/
import Mathlib

namespace Base64

/-! ## Digits -/

/-- The digits, in the order of their values. -/
def alphabet : List Char :=
  "ABCDEFGHIJKLMNOPQRSTUVWXYZabcdefghijklmnopqrstuvwxyz0123456789+/".toList

def digit (n : ℕ) : Char := alphabet.getD n '='

def value (c : Char) : Option ℕ := if c ∈ alphabet then some (alphabet.idxOf c) else none

theorem length_alphabet : alphabet.length = 64 := by decide

theorem nodup_alphabet : alphabet.Nodup := by decide

theorem pad_not_mem_alphabet : '=' ∉ alphabet := by decide

theorem digit_eq_getElem {n : ℕ} (h : n < alphabet.length) : digit n = alphabet[n] := by
  rw [digit, List.getD_eq_getElem _ _ h]

@[simp] theorem value_digit {n : ℕ} (h : n < 64) : value (digit n) = some n := by
  rw [← length_alphabet] at h
  rw [digit_eq_getElem h, value, if_pos (List.getElem_mem h), nodup_alphabet.idxOf_getElem]

theorem value_eq_some {c : Char} {n : ℕ} (h : value c = some n) : n < 64 ∧ c = digit n := by
  unfold value at h
  split_ifs at h with hc
  obtain rfl := Option.some.inj h
  have hlt := List.idxOf_lt_length_iff.2 hc
  exact ⟨length_alphabet ▸ hlt, by rw [digit_eq_getElem hlt, List.getElem_idxOf]⟩

theorem digit_ne_pad {n : ℕ} (h : n < 64) : digit n ≠ '=' := by
  rw [← length_alphabet] at h
  rw [digit_eq_getElem h]
  exact fun heq => pad_not_mem_alphabet (heq ▸ List.getElem_mem h)

/-! ## Groups -/

def encode : List UInt8 → List Char
  | [] => []
  | [a] => [digit (a.toNat / 4), digit (a.toNat % 4 * 16), '=', '=']
  | [a, b] =>
    [digit (a.toNat / 4), digit (a.toNat % 4 * 16 + b.toNat / 16), digit (b.toNat % 16 * 4), '=']
  | a :: b :: c :: rest =>
    digit (a.toNat / 4) :: digit (a.toNat % 4 * 16 + b.toNat / 16) ::
      digit (b.toNat % 16 * 4 + c.toNat / 64) :: digit (c.toNat % 64) :: encode rest

/-- The byte of a group of two digits. -/
def decodeOne (w x : Char) : Option (List UInt8) :=
  (value w).bind fun w => (value x).bind fun x =>
    if x % 16 = 0 then some [UInt8.ofNat (w * 4 + x / 16)] else none

/-- The bytes of a group of three digits. -/
def decodeTwo (w x y : Char) : Option (List UInt8) :=
  (value w).bind fun w => (value x).bind fun x => (value y).bind fun y =>
    if y % 4 = 0 then some [UInt8.ofNat (w * 4 + x / 16), UInt8.ofNat (x % 16 * 16 + y / 4)]
    else none

/-- The bytes of a full group. -/
def decodeThree (w x y z : Char) : Option (List UInt8) :=
  (value w).bind fun w => (value x).bind fun x => (value y).bind fun y => (value z).bind fun z =>
    some [UInt8.ofNat (w * 4 + x / 16), UInt8.ofNat (x % 16 * 16 + y / 4),
      UInt8.ofNat (y % 4 * 64 + z)]

def decode : List Char → Option (List UInt8)
  | [] => some []
  | w :: x :: y :: z :: rest =>
    if rest = [] ∧ z = '=' then if y = '=' then decodeOne w x else decodeTwo w x y
    else (decodeThree w x y z).bind fun group => (decode rest).map (group ++ ·)
  | _ => none

/-! ## The round trip -/

theorem ofNat_toNat_eq {a : UInt8} {n : ℕ} (h : n = a.toNat) : UInt8.ofNat n = a := by
  rw [h, UInt8.ofNat_toNat]

theorem decodeOne_encode (a : UInt8) :
    decodeOne (digit (a.toNat / 4)) (digit (a.toNat % 4 * 16)) = some [a] := by
  have ha := a.toNat_lt
  rw [decodeOne, value_digit (by omega), value_digit (by omega)]
  simp only [Option.bind_some]
  rw [if_pos (by omega), ofNat_toNat_eq (a := a) (by omega)]

theorem decodeTwo_encode (a b : UInt8) :
    decodeTwo (digit (a.toNat / 4)) (digit (a.toNat % 4 * 16 + b.toNat / 16))
      (digit (b.toNat % 16 * 4)) = some [a, b] := by
  have ha := a.toNat_lt
  have hb := b.toNat_lt
  rw [decodeTwo, value_digit (by omega), value_digit (by omega), value_digit (by omega)]
  simp only [Option.bind_some]
  rw [if_pos (by omega), ofNat_toNat_eq (a := a) (by omega), ofNat_toNat_eq (a := b) (by omega)]

theorem decodeThree_encode (a b c : UInt8) :
    decodeThree (digit (a.toNat / 4)) (digit (a.toNat % 4 * 16 + b.toNat / 16))
      (digit (b.toNat % 16 * 4 + c.toNat / 64)) (digit (c.toNat % 64)) = some [a, b, c] := by
  have ha := a.toNat_lt
  have hb := b.toNat_lt
  have hc := c.toNat_lt
  rw [decodeThree, value_digit (by omega), value_digit (by omega), value_digit (by omega),
    value_digit (by omega)]
  simp only [Option.bind_some]
  rw [ofNat_toNat_eq (a := a) (by omega), ofNat_toNat_eq (a := b) (by omega),
    ofNat_toNat_eq (a := c) (by omega)]

theorem decode_encode (bytes : List UInt8) : decode (encode bytes) = some bytes := by
  induction bytes using encode.induct with
  | case1 => rfl
  | case2 a => simp [encode, decode, decodeOne_encode]
  | case3 a b =>
    have hb := b.toNat_lt
    have hpad : digit (b.toNat % 16 * 4) ≠ '=' := digit_ne_pad (by omega)
    simp [encode, decode, hpad, decodeTwo_encode]
  | case4 a b c rest ih =>
    have hpad : digit (c.toNat % 64) ≠ '=' := digit_ne_pad (by omega)
    simp [encode, decode, hpad, decodeThree_encode, ih]

theorem toNat_ofNat_eq {n : ℕ} (h : n < 256) : (UInt8.ofNat n).toNat = n := by
  rw [UInt8.toNat_ofNat']
  omega

theorem encode_decodeOne {w x : Char} {bytes : List UInt8} (h : decodeOne w x = some bytes) :
    encode bytes = [w, x, '=', '='] := by
  simp only [decodeOne, Option.bind_eq_some_iff] at h
  obtain ⟨m, hm, n, hn, h⟩ := h
  split_ifs at h with hrest
  obtain rfl := Option.some.inj h
  obtain ⟨hm, rfl⟩ := value_eq_some hm
  obtain ⟨hn, rfl⟩ := value_eq_some hn
  have h₁ : (m * 4 + n / 16) / 4 = m := by omega
  have h₂ : (m * 4 + n / 16) % 4 * 16 = n := by omega
  rw [encode, toNat_ofNat_eq (by omega), h₁, h₂]

theorem encode_decodeTwo {w x y : Char} {bytes : List UInt8} (h : decodeTwo w x y = some bytes) :
    encode bytes = [w, x, y, '='] := by
  simp only [decodeTwo, Option.bind_eq_some_iff] at h
  obtain ⟨m, hm, n, hn, k, hk, h⟩ := h
  split_ifs at h with hrest
  obtain rfl := Option.some.inj h
  obtain ⟨hm, rfl⟩ := value_eq_some hm
  obtain ⟨hn, rfl⟩ := value_eq_some hn
  obtain ⟨hk, rfl⟩ := value_eq_some hk
  have h₁ : (m * 4 + n / 16) / 4 = m := by omega
  have h₂ : (m * 4 + n / 16) % 4 * 16 + (n % 16 * 16 + k / 4) / 16 = n := by omega
  have h₃ : (n % 16 * 16 + k / 4) % 16 * 4 = k := by omega
  rw [encode, toNat_ofNat_eq (by omega), toNat_ofNat_eq (by omega), h₁, h₂, h₃]

theorem encode_decodeThree {w x y z : Char} {bytes : List UInt8} (rest : List UInt8)
    (h : decodeThree w x y z = some bytes) :
    encode (bytes ++ rest) = w :: x :: y :: z :: encode rest := by
  simp only [decodeThree, Option.bind_eq_some_iff, Option.some.injEq] at h
  obtain ⟨m, hm, n, hn, k, hk, l, hl, rfl⟩ := h
  obtain ⟨hm, rfl⟩ := value_eq_some hm
  obtain ⟨hn, rfl⟩ := value_eq_some hn
  obtain ⟨hk, rfl⟩ := value_eq_some hk
  obtain ⟨hl, rfl⟩ := value_eq_some hl
  have h₁ : (m * 4 + n / 16) / 4 = m := by omega
  have h₂ : (m * 4 + n / 16) % 4 * 16 + (n % 16 * 16 + k / 4) / 16 = n := by omega
  have h₃ : (n % 16 * 16 + k / 4) % 16 * 4 + (k % 4 * 64 + l) / 64 = k := by omega
  have h₄ : (k % 4 * 64 + l) % 64 = l := by omega
  simp only [List.cons_append, List.nil_append, encode]
  rw [toNat_ofNat_eq (by omega), toNat_ofNat_eq (by omega), toNat_ofNat_eq (by omega), h₁, h₂, h₃,
    h₄]

theorem encode_of_decode {text : List Char} {bytes : List UInt8} (h : decode text = some bytes) :
    encode bytes = text := by
  induction text using decode.induct generalizing bytes with
  | case1 =>
    obtain rfl := Option.some.inj h
    rfl
  | case2 w x z rest hlast =>
    rw [decode, if_pos hlast, if_pos rfl] at h
    rw [encode_decodeOne h, hlast.1, hlast.2]
  | case3 w x y z rest hlast hy =>
    rw [decode, if_pos hlast, if_neg hy] at h
    rw [encode_decodeTwo h, hlast.1, hlast.2]
  | case4 w x y z rest hlast ih =>
    rw [decode, if_neg hlast, Option.bind_eq_some_iff] at h
    obtain ⟨group, hgroup, h⟩ := h
    obtain ⟨rest', hrest, rfl⟩ := Option.map_eq_some_iff.1 h
    rw [encode_decodeThree rest' hgroup, ih hrest]
  | case5 text hne hshort =>
    rw [decode.eq_3 text hne hshort] at h
    cases h

/-- **What is decoded is what was encoded.** -/
theorem decode_eq_some_iff {text : List Char} {bytes : List UInt8} :
    decode text = some bytes ↔ text = encode bytes := by
  constructor
  · intro h
    rw [encode_of_decode h]
  · rintro rfl
    exact decode_encode bytes

example : encode [0, 1, 2, 255] = "AAEC/w==".toList := by decide

end Base64
