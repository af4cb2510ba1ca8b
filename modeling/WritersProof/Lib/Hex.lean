/-
  WritersProof.Lib.Hex

  The hexadecimal text of bytes, as the `hex` crate writes and reads it.
-/
import WritersProof.Lib.Bytes
import Mathlib.Data.List.Flatten

namespace Hex

/-- The lower-case digit of a number below 16. -/
def digit (n : Nat) : Char :=
  if n < 10 then Char.ofNat (48 + n) else Char.ofNat (87 + n)

def digits (b : UInt8) : List Char := [digit (b.toNat / 16), digit (b.toNat % 16)]

/-- `hex::encode` -/
def encode (bytes : Bytes) : String := String.ofList (bytes.flatMap digits)

def digitValue (c : UInt8) : Option Nat :=
  let n := c.toNat
  if 48 ≤ n ∧ n ≤ 57 then some (n - 48)
  else if 97 ≤ n ∧ n ≤ 102 then some (n - 87)
  else if 65 ≤ n ∧ n ≤ 70 then some (n - 55)
  else none

/-- Bytes from pairs of digits; an odd digit is left over. -/
def decodeBytes : Bytes → Option Bytes
  | [] => some []
  | [_] => none
  | hi :: lo :: rest => do
    let h ← digitValue hi
    let l ← digitValue lo
    let bytes ← decodeBytes rest
    some (UInt8.ofNat (16 * h + l) :: bytes)

/-- `hex::decode` -/
def decode (text : String) : Option Bytes := decodeBytes (Bytes.utf8 text)

/-! ## Round trip -/

theorem utf8_ofList (cs : List Char) :
    Bytes.utf8 (String.ofList cs) = cs.flatMap String.utf8EncodeChar := by
  rw [Bytes.utf8, String.toByteArray_ofList, List.utf8Encode, List.data_toByteArray]

theorem digit_spec :
    ∀ n < 16, ∃ c, String.utf8EncodeChar (digit n) = [c] ∧ digitValue c = some n := by
  have h : ∀ n < 16, ∃ c ∈ (String.utf8EncodeChar (digit n)).head?,
      String.utf8EncodeChar (digit n) = [c] ∧ digitValue c = some n := by
    decide
  intro n hn
  obtain ⟨c, -, hc⟩ := h n hn
  exact ⟨c, hc⟩

theorem decodeBytes_digits (bytes : Bytes) :
    decodeBytes ((bytes.flatMap digits).flatMap String.utf8EncodeChar) = some bytes := by
  induction bytes with
  | nil => rfl
  | cons b bytes ih =>
    have hb := b.toNat_lt
    obtain ⟨hi, hhi, hhiValue⟩ := digit_spec (b.toNat / 16) (by omega)
    obtain ⟨lo, hlo, hloValue⟩ := digit_spec (b.toNat % 16) (by omega)
    have hvalue : UInt8.ofNat (16 * (b.toNat / 16) + b.toNat % 16) = b := by
      rw [Nat.div_add_mod, UInt8.ofNat_toNat]
    rw [List.flatMap_cons, List.flatMap_append, digits, List.flatMap_cons, List.flatMap_singleton,
      hhi, hlo, List.singleton_append, List.cons_append, List.singleton_append, decodeBytes,
      hhiValue, hloValue]
    simp only [Option.bind_eq_bind, Option.bind_some, ih, hvalue]

theorem decode_encode (bytes : Bytes) : decode (encode bytes) = some bytes := by
  rw [decode, encode, utf8_ofList, decodeBytes_digits]

variable {bytes text : Bytes}

theorem length_of_decodeBytes (h : decodeBytes text = some bytes) :
    text.length = 2 * bytes.length := by
  induction text using decodeBytes.induct generalizing bytes with
  | case1 =>
    rw [decodeBytes] at h
    rw [← Option.some.inj h]
    rfl
  | case2 c =>
    rw [decodeBytes] at h
    cases h
  | case3 hi lo rest ih =>
    rw [decodeBytes] at h
    simp only [Option.bind_eq_bind, Option.bind_eq_some_iff] at h
    obtain ⟨high, -, low, -, tail, htail, h⟩ := h
    rw [← Option.some.inj h, List.length_cons, List.length_cons, List.length_cons, ih htail]
    omega

theorem length_of_decode {text : String} (h : decode text = some bytes) :
    (Bytes.utf8 text).length = 2 * bytes.length :=
  length_of_decodeBytes h

theorem exists_digit {c : Char} (h : c ∈ (encode bytes).toList) : ∃ n < 16, c = digit n := by
  rw [encode, String.toList_ofList] at h
  obtain ⟨b, -, hdigit⟩ := List.mem_flatMap.mp h
  have hb := b.toNat_lt
  rcases List.mem_cons.mp hdigit with rfl | hlow
  · exact ⟨_, by omega, rfl⟩
  · exact ⟨_, by omega, List.mem_singleton.mp hlow⟩

theorem digitValue_of_decodeBytes (h : decodeBytes text = some bytes) :
    ∀ c ∈ text, (digitValue c).isSome := by
  fun_induction decodeBytes text generalizing bytes with
  | case1 => exact List.forall_mem_nil _
  | case2 => cases h
  | case3 hi lo rest ih =>
    simp only [Option.bind_eq_bind, Option.bind_eq_some_iff] at h
    obtain ⟨n, hn, m, hm, bytes', hrest, -⟩ := h
    simp only [List.forall_mem_cons, hn, hm, Option.isSome_some, true_and]
    exact ih hrest

theorem nul_notMem_encode (bytes : Bytes) : (0 : UInt8) ∉ Bytes.utf8 (encode bytes) := by
  rw [encode, utf8_ofList]
  intro h
  obtain ⟨c, hc, hnul⟩ := List.mem_flatMap.mp h
  obtain ⟨b, -, hdigit⟩ := List.mem_flatMap.mp hc
  have hdigits : ∀ n < 16, (0 : UInt8) ∉ String.utf8EncodeChar (digit n) := by decide
  have hb := b.toNat_lt
  rcases List.mem_cons.mp hdigit with rfl | hlow
  · exact hdigits _ (by omega) hnul
  · rw [List.mem_singleton.mp hlow] at hnul
    exact hdigits _ (by omega) hnul

theorem encode_injective {a b : Bytes} (h : encode a = encode b) : a = b := by
  have hdecode := decode_encode a
  rw [h, decode_encode] at hdecode
  exact (Option.some.inj hdecode).symm

end Hex
