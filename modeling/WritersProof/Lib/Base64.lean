/-
  WritersProof.Lib.Base64

  The base64 text of bytes, in the standard alphabet and with canonical padding, as
  the `STANDARD` engine of the `base64` crate writes and reads it.

  A text that decodes has four characters for every three bytes, rounded up
  (`length_of_decode`).
-/
import WritersProof.Lib.Hex

namespace Base64

/-- The character of six bits. -/
def digit (n : Nat) : Char :=
  if n < 26 then Char.ofNat (65 + n)
  else if n < 52 then Char.ofNat (71 + n)
  else if n < 62 then Char.ofNat (n - 4)
  else if n = 62 then '+'
  else '/'

def encodeChars : Bytes → List Char
  | [] => []
  | [a] => [digit (a.toNat / 4), digit (a.toNat % 4 * 16), '=', '=']
  | [a, b] => [digit (a.toNat / 4), digit (a.toNat % 4 * 16 + b.toNat / 16),
      digit (b.toNat % 16 * 4), '=']
  | a :: b :: c :: rest => [digit (a.toNat / 4), digit (a.toNat % 4 * 16 + b.toNat / 16),
      digit (b.toNat % 16 * 4 + c.toNat / 64), digit (c.toNat % 64)] ++ encodeChars rest

/-- `general_purpose::STANDARD.encode` -/
def encode (bytes : Bytes) : String := String.ofList (encodeChars bytes)

/-- The six bits of a character. -/
def digitValue (c : UInt8) : Option Nat :=
  let n := c.toNat
  if 65 ≤ n ∧ n ≤ 90 then some (n - 65)
  else if 97 ≤ n ∧ n ≤ 122 then some (n - 71)
  else if 48 ≤ n ∧ n ≤ 57 then some (n + 4)
  else if n = 43 then some 62
  else if n = 47 then some 63
  else none

/-- The byte `=` -/
def pad : UInt8 := 61

/-- The last four characters, of which the last one or two are padding; the bits that are left
over are zero. -/
def decodePadded (a b c : UInt8) : Option Bytes := do
  let v₀ ← digitValue a
  let v₁ ← digitValue b
  if c = pad then
    if v₁ % 16 = 0 then some [UInt8.ofNat (v₀ * 4 + v₁ / 16)] else none
  else do
    let v₂ ← digitValue c
    if v₂ % 4 = 0 then
      some [UInt8.ofNat (v₀ * 4 + v₁ / 16), UInt8.ofNat (v₁ % 16 * 16 + v₂ / 4)]
    else none

def decodeBytes : Bytes → Option Bytes
  | [] => some []
  | a :: b :: c :: d :: rest =>
    if rest = [] ∧ d = pad then decodePadded a b c
    else do
      let v₀ ← digitValue a
      let v₁ ← digitValue b
      let v₂ ← digitValue c
      let v₃ ← digitValue d
      let bytes ← decodeBytes rest
      some (UInt8.ofNat (v₀ * 4 + v₁ / 16) :: UInt8.ofNat (v₁ % 16 * 16 + v₂ / 4)
        :: UInt8.ofNat (v₂ % 4 * 64 + v₃) :: bytes)
  | _ => none

/-- `general_purpose::STANDARD.decode` -/
def decode (text : String) : Option Bytes := decodeBytes (Bytes.utf8 text)

/-! ## Length -/

theorem length_of_decodePadded {a b c : UInt8} {bytes : Bytes}
    (h : decodePadded a b c = some bytes) : bytes.length = 1 ∨ bytes.length = 2 := by
  simp only [decodePadded, Option.bind_eq_bind, Option.bind_eq_some_iff] at h
  obtain ⟨v₀, -, v₁, -, h⟩ := h
  split at h
  · split at h
    · exact .inl (by rw [← Option.some.inj h]; rfl)
    · cases h
  · obtain ⟨v₂, -, h⟩ := Option.bind_eq_some_iff.mp h
    split at h
    · exact .inr (by rw [← Option.some.inj h]; rfl)
    · cases h

theorem length_of_decodeBytes {text bytes : Bytes} (h : decodeBytes text = some bytes) :
    text.length = 4 * ((bytes.length + 2) / 3) := by
  induction text using decodeBytes.induct generalizing bytes with
  | case1 =>
    rw [decodeBytes] at h
    rw [← Option.some.inj h]
    rfl
  | case2 a b c d rest hpadded =>
    rw [decodeBytes, if_pos hpadded] at h
    have hlength := length_of_decodePadded h
    rw [hpadded.1, List.length_cons, List.length_cons, List.length_cons, List.length_cons,
      List.length_nil]
    omega
  | case3 a b c d rest hpadded ih =>
    rw [decodeBytes, if_neg hpadded] at h
    simp only [Option.bind_eq_bind, Option.bind_eq_some_iff] at h
    obtain ⟨v₀, -, v₁, -, v₂, -, v₃, -, tail, htail, h⟩ := h
    have hrest := ih htail
    rw [← Option.some.inj h]
    simp only [List.length_cons]
    omega
  | case4 text hnil hfour =>
    rw [decodeBytes.eq_3 text hnil hfour] at h
    cases h

theorem length_of_decode {text : String} {bytes : Bytes} (h : decode text = some bytes) :
    (Bytes.utf8 text).length = 4 * ((bytes.length + 2) / 3) :=
  length_of_decodeBytes h

/-! ## Round trip -/

/-- A character is one byte of UTF-8 that is no padding and has its six bits. -/
theorem digit_spec : ∀ n < 64, ∃ c, String.utf8EncodeChar (digit n) = [c] ∧ c ≠ pad
    ∧ digitValue c = some n := by
  have h : ∀ n < 64, ∃ c ∈ (String.utf8EncodeChar (digit n)).head?,
      String.utf8EncodeChar (digit n) = [c] ∧ c ≠ pad ∧ digitValue c = some n := by
    decide +kernel
  intro n hn
  obtain ⟨c, -, hc⟩ := h n hn
  exact ⟨c, hc⟩

theorem utf8_pad : String.utf8EncodeChar '=' = [pad] := by decide

theorem ofNat_of_eq {n : Nat} {byte : UInt8} (h : n = byte.toNat) : UInt8.ofNat n = byte := by
  rw [h, UInt8.ofNat_toNat]

theorem decodeBytes_encodeChars (bytes : Bytes) :
    decodeBytes ((encodeChars bytes).flatMap String.utf8EncodeChar) = some bytes := by
  induction bytes using encodeChars.induct with
  | case1 => rfl
  | case2 a =>
    have ha := a.toNat_lt
    obtain ⟨c₀, h₀, -, hv₀⟩ := digit_spec (a.toNat / 4) (by omega)
    obtain ⟨c₁, h₁, -, hv₁⟩ := digit_spec (a.toNat % 4 * 16) (by omega)
    have hvalue : UInt8.ofNat (a.toNat / 4 * 4 + a.toNat % 4 * 16 / 16) = a :=
      ofNat_of_eq (by omega)
    have hzero : a.toNat % 4 * 16 % 16 = 0 := by omega
    simp only [encodeChars, List.flatMap_cons, List.flatMap_nil, h₀, h₁, utf8_pad,
      List.singleton_append, List.append_nil, decodeBytes, decodePadded, and_self, if_true,
      hv₀, hv₁, hzero, Option.bind_eq_bind, Option.bind_some, hvalue]
  | case3 a b =>
    have ha := a.toNat_lt
    have hb := b.toNat_lt
    obtain ⟨c₀, h₀, -, hv₀⟩ := digit_spec (a.toNat / 4) (by omega)
    obtain ⟨c₁, h₁, -, hv₁⟩ := digit_spec (a.toNat % 4 * 16 + b.toNat / 16) (by omega)
    obtain ⟨c₂, h₂, hpad, hv₂⟩ := digit_spec (b.toNat % 16 * 4) (by omega)
    have hfirst : UInt8.ofNat (a.toNat / 4 * 4 + (a.toNat % 4 * 16 + b.toNat / 16) / 16) = a :=
      ofNat_of_eq (by omega)
    have hsecond : UInt8.ofNat ((a.toNat % 4 * 16 + b.toNat / 16) % 16 * 16
        + b.toNat % 16 * 4 / 4) = b := ofNat_of_eq (by omega)
    have hzero : b.toNat % 16 * 4 % 4 = 0 := by omega
    simp only [encodeChars, List.flatMap_cons, List.flatMap_nil, h₀, h₁, h₂, utf8_pad,
      List.singleton_append, List.append_nil, decodeBytes, decodePadded, and_self, if_true,
      if_neg hpad, hv₀, hv₁, hv₂, hzero, Option.bind_eq_bind, Option.bind_some, hfirst, hsecond]
  | case4 a b c rest ih =>
    have ha := a.toNat_lt
    have hb := b.toNat_lt
    have hc := c.toNat_lt
    obtain ⟨c₀, h₀, -, hv₀⟩ := digit_spec (a.toNat / 4) (by omega)
    obtain ⟨c₁, h₁, -, hv₁⟩ := digit_spec (a.toNat % 4 * 16 + b.toNat / 16) (by omega)
    obtain ⟨c₂, h₂, -, hv₂⟩ := digit_spec (b.toNat % 16 * 4 + c.toNat / 64) (by omega)
    obtain ⟨c₃, h₃, hpad, hv₃⟩ := digit_spec (c.toNat % 64) (by omega)
    have hfirst : UInt8.ofNat (a.toNat / 4 * 4 + (a.toNat % 4 * 16 + b.toNat / 16) / 16) = a :=
      ofNat_of_eq (by omega)
    have hsecond : UInt8.ofNat ((a.toNat % 4 * 16 + b.toNat / 16) % 16 * 16
        + (b.toNat % 16 * 4 + c.toNat / 64) / 4) = b := ofNat_of_eq (by omega)
    have hthird : UInt8.ofNat ((b.toNat % 16 * 4 + c.toNat / 64) % 4 * 64 + c.toNat % 64)
        = c := ofNat_of_eq (by omega)
    -- the fourth character is no padding, whatever follows
    simp only [encodeChars, List.flatMap_cons, h₀, h₁, h₂, h₃, List.cons_append,
      List.nil_append, decodeBytes, hpad, and_false, if_false, hv₀, hv₁, hv₂, hv₃, ih,
      Option.bind_eq_bind, Option.bind_some, hfirst, hsecond, hthird]

theorem decode_encode (bytes : Bytes) : decode (encode bytes) = some bytes := by
  rw [decode, encode, Hex.utf8_ofList, decodeBytes_encodeChars]

end Base64
