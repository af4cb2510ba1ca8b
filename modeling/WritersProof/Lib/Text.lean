/-
  WritersProof.Lib.Text

  Texts as lists of characters, and their UTF-8 bytes.

  A text whose bytes are a prefix of those of another one is a prefix of it
  (`prefix_of_bytes`), so a cut between characters can be told from the bytes.
-/
import WritersProof.Lib.Bytes
import Mathlib.Data.List.Induction

namespace Text

def bytes (text : List Char) : Bytes := text.flatMap String.utf8EncodeChar

theorem bytes_cons (c : Char) (text : List Char) :
    bytes (c :: text) = String.utf8EncodeChar c ++ bytes text := rfl

@[simp] theorem bytes_append (a b : List Char) : bytes (a ++ b) = bytes a ++ bytes b :=
  List.flatMap_append

theorem length_bytes_cons (c : Char) (text : List Char) :
    (bytes (c :: text)).length = c.utf8Size + (bytes text).length := by
  rw [bytes_cons, List.length_append, String.length_utf8EncodeChar]

theorem utf8Encode_eq (text : List Char) : text.utf8Encode = (bytes text).toByteArray := rfl

theorem utf8_ofList (text : List Char) : Bytes.utf8 (String.ofList text) = bytes text := by
  rw [Bytes.utf8, String.toByteArray_ofList, utf8Encode_eq]
  simp

theorem utf8_eq (s : String) : Bytes.utf8 s = bytes s.toList := by
  rw [← utf8_ofList, String.ofList_toList]

def fromUtf8 (bytes : Bytes) : Option String := String.fromUTF8? ⟨bytes.toArray⟩

/-- Only the bytes of a text are read as one. -/
theorem fromUtf8_eq_some {bytes : Bytes} {s : String} :
    fromUtf8 bytes = some s ↔ bytes = Bytes.utf8 s := by
  constructor
  · intro h
    rw [fromUtf8, String.fromUTF8?] at h
    split at h
    · rw [← Option.some.inj h]
      rfl
    · cases h
  · rintro rfl
    have harray : (⟨(Bytes.utf8 s).toArray⟩ : ByteArray) = s.toByteArray := rfl
    rw [fromUtf8, harray, String.fromUTF8?, dif_pos s.isValidUTF8]
    rfl

theorem utf8_append (s t : String) : Bytes.utf8 (s ++ t) = Bytes.utf8 s ++ Bytes.utf8 t := by
  rw [utf8_eq, utf8_eq, utf8_eq, String.toList_append, bytes_append]

variable {text whole front : List Char} {n : Nat} {rest : Bytes}

/-- Decimal numbers are digits, each a byte below that of the colon and above that of the
slash. -/
theorem mem_utf8_toString {byte : UInt8} (h : byte ∈ Bytes.utf8 (toString n)) :
    48 ≤ byte ∧ byte ≤ 57 := by
  rw [utf8_eq, Nat.toString_eq_repr, Nat.toList_repr, bytes] at h
  obtain ⟨c, hc, hbyte⟩ := List.mem_flatMap.mp h
  have hdigit := Nat.isDigit_of_mem_toDigits (by decide) (by decide) hc
  have hall : ∀ k < 58, (Char.ofNat k).isDigit = true →
      ∀ byte ∈ String.utf8EncodeChar (Char.ofNat k), 48 ≤ byte ∧ byte ≤ 57 := by
    decide +kernel
  have hlt : c.toNat < 58 := by
    rw [Char.isDigit] at hdigit
    have hle := of_decide_eq_true (Bool.and_eq_true_iff.mp hdigit).2
    exact Nat.lt_succ_of_le (UInt32.le_iff_toNat_le.mp hle)
  have hround : Char.ofNat c.toNat = c := Char.ofNat_toNat c
  exact hall c.toNat hlt (hround.symm ▸ hdigit) byte (hround.symm ▸ hbyte)

theorem length_bytes_of_ascii (h : ∀ c ∈ text, c.utf8Size = 1) :
    (bytes text).length = text.length := by
  induction text with
  | nil => rfl
  | cons c text ih =>
    obtain ⟨hc, htext⟩ := List.forall_mem_cons.mp h
    rw [length_bytes_cons, hc, ih htext, List.length_cons, Nat.add_comm]

/-- A decimal number takes a byte for each digit, so larger ones take no less. -/
theorem length_utf8_toString (n : Nat) :
    (Bytes.utf8 (toString n)).length = (Nat.toDigits 10 n).length := by
  rw [utf8_eq, Nat.toString_eq_repr, Nat.toList_repr]
  apply length_bytes_of_ascii
  intro c hc
  have hdigit := Nat.isDigit_of_mem_toDigits (by decide) (by decide) hc
  rw [Char.isDigit] at hdigit
  have hle := of_decide_eq_true (Bool.and_eq_true_iff.mp hdigit).2
  exact Char.utf8Size_eq_one_iff.mpr (UInt32.le_trans hle (by decide))

theorem length_utf8_toString_mono {m : Nat} (h : m ≤ n) :
    (Bytes.utf8 (toString m)).length ≤ (Bytes.utf8 (toString n)).length := by
  rw [length_utf8_toString, length_utf8_toString]
  have hpos : 0 < (Nat.toDigits 10 n).length := Nat.length_toDigits_pos
  have hlt := (Nat.length_toDigits_le_iff (by decide) hpos).mp (Nat.le_refl _)
  exact (Nat.length_toDigits_le_iff (by decide) hpos).mpr (Nat.lt_of_le_of_lt h hlt)

/-- What stands behind the last separator -/
theorem suffix_cons_iff {α : Type} {sep : α} {front a b : List α} (ha : sep ∉ a) (hb : sep ∉ b) :
    sep :: b <:+ front ++ sep :: a ↔ b = a := by
  constructor
  · rintro ⟨front', h⟩
    rcases List.append_eq_append_iff.mp h with ⟨between, -, h⟩ | ⟨between, -, h⟩
    · cases between with
      | nil => exact (List.cons.inj h).2
      | cons c between =>
        rw [List.cons_append, List.cons.injEq] at h
        exact absurd (h.2 ▸ List.mem_append_right _ List.mem_cons_self) hb
    · cases between with
      | nil => exact ((List.cons.inj h).2).symm
      | cons c between =>
        rw [List.cons_append, List.cons.injEq] at h
        exact absurd (h.2 ▸ List.mem_append_right _ List.mem_cons_self) ha
  · rintro rfl
    exact List.suffix_append _ _

theorem prefix_of_bytes (h : bytes text ++ rest = bytes whole) : text <+: whole := by
  apply List.isPrefix_of_utf8Encode_append_eq_utf8Encode rest.toByteArray
  rw [utf8Encode_eq, utf8Encode_eq, ← h, List.toByteArray_append]

theorem bytes_injective {a b : List Char} (h : bytes a = bytes b) : a = b := by
  rw [← utf8_ofList, ← utf8_ofList] at h
  simpa using congrArg String.toList (Bytes.utf8_injective h)

theorem exists_of_bytes (h : bytes text ++ rest = bytes whole) :
    ∃ after, whole = text ++ after ∧ bytes after = rest := by
  obtain ⟨after, rfl⟩ := prefix_of_bytes h
  rw [bytes_append] at h
  exact ⟨after, rfl, (List.append_cancel_left h).symm⟩

/-! ## Slices, separators and numbers -/

/-- `text.get(..n)`: the first `n` bytes, if they end between characters -/
def cut (n : Nat) : List Char → Option (List Char)
  | [] => if n = 0 then some [] else none
  | c :: text =>
    if n = 0 then some []
    else if c.utf8Size ≤ n then (cut (n - c.utf8Size) text).map (c :: ·)
    else none

theorem cut_eq_some : cut n text = some front ↔ front <+: text ∧ (bytes front).length = n := by
  induction text generalizing n front with
  | nil =>
    rw [cut, List.prefix_nil]
    by_cases hn : n = 0
    · rw [if_pos hn, hn, Option.some_inj]
      refine ⟨?_, fun h => h.1.symm⟩
      rintro rfl
      exact ⟨rfl, rfl⟩
    · rw [if_neg hn]
      constructor
      · intro h
        cases h
      · rintro ⟨rfl, h⟩
        exact absurd h.symm hn
  | cons c text ih =>
    rw [cut, List.prefix_cons_iff]
    have hpos := c.utf8Size_pos
    by_cases hn : n = 0
    · rw [if_pos hn, hn, Option.some_inj]
      constructor
      · rintro rfl
        exact ⟨.inl rfl, rfl⟩
      · rintro ⟨rfl | ⟨rest, rfl, -⟩, h⟩
        · rfl
        · rw [length_bytes_cons] at h
          omega
    rw [if_neg hn]
    by_cases hc : c.utf8Size ≤ n
    · rw [if_pos hc, Option.map_eq_some_iff]
      constructor
      · rintro ⟨rest, hrest, rfl⟩
        obtain ⟨hpre, hlen⟩ := ih.mp hrest
        rw [length_bytes_cons, hlen]
        exact ⟨.inr ⟨rest, rfl, hpre⟩, by omega⟩
      · rintro ⟨rfl | ⟨rest, rfl, hpre⟩, h⟩
        · exact absurd h.symm hn
        · rw [length_bytes_cons] at h
          exact ⟨rest, ih.mpr ⟨hpre, by omega⟩, rfl⟩
    · rw [if_neg hc]
      constructor
      · intro h
        cases h
      · rintro ⟨rfl | ⟨rest, rfl, -⟩, h⟩
        · exact absurd h.symm hn
        · rw [length_bytes_cons] at h
          omega

/-- Byte `n` of the text exists, or is its end, and lies within a character: there a slice
`text[..n]` aborts. -/
def CutsCharacter (n : Nat) (text : List Char) : Prop :=
  n ≤ (bytes text).length ∧ ∀ front, front <+: text → (bytes front).length ≠ n

theorem cut_eq_none_iff (h : n ≤ (bytes text).length) :
    cut n text = none ↔ CutsCharacter n text := by
  rw [Option.eq_none_iff_forall_ne_some]
  constructor
  · intro hnone
    refine ⟨h, ?_⟩
    intro front hpre hlen
    exact hnone front (cut_eq_some.mpr ⟨hpre, hlen⟩)
  · intro hcuts front hsome
    obtain ⟨hpre, hlen⟩ := cut_eq_some.mp hsome
    exact hcuts.2 front hpre hlen

def splitOnce (sep : Char) (text : List Char) : Option (List Char × List Char) :=
  match text.dropWhile (· ≠ sep) with
  | [] => none
  | _ :: back => some (text.takeWhile (· ≠ sep), back)

theorem prefix_of_splitOnce {sep : Char} {back : List Char}
    (h : splitOnce sep text = some (front, back)) : front <+: text := by
  rw [splitOnce] at h
  split at h
  · cases h
  · cases h
    exact List.takeWhile_prefix _

/-- The number that decimal digits denote -/
def ofDigits (digits : List Char) : Nat :=
  digits.foldl (fun n c => n * 10 + (c.toNat - 48)) 0

def dropSign : List Char → List Char
  | '+' :: rest => rest
  | text => text

def parseU32 (text : List Char) : Option Nat :=
  let digits := dropSign text
  if digits = [] ∨ digits.any (!·.isDigit) then none
  else if ofDigits digits < 2 ^ 32 then some (ofDigits digits)
  else none

theorem ofDigits_lt {digits : List Char} (h : digits.any (!·.isDigit) = false) :
    ofDigits digits < 10 ^ digits.length := by
  induction digits using List.reverseRecOn with
  | nil => decide
  | append_singleton digits c ih =>
    rw [List.any_append, Bool.or_eq_false_iff] at h
    have hfront := ih h.1
    have hdigit : c.isDigit = true := by simpa using h.2
    rw [Char.isDigit] at hdigit
    have hle := of_decide_eq_true (Bool.and_eq_true_iff.mp hdigit).2
    have hc : c.toNat ≤ 57 := UInt32.le_iff_toNat_le.mp hle
    rw [ofDigits] at hfront ⊢
    rw [List.foldl_append, List.length_append, List.length_singleton, Nat.pow_succ]
    simp only [List.foldl_cons, List.foldl_nil]
    omega

/-- A number has no more digits than its text has characters. -/
theorem parseU32_lt (h : parseU32 text = some n) : n < 10 ^ text.length := by
  have hlen : (dropSign text).length ≤ text.length := by
    fun_cases dropSign text with
    | case1 rest => exact Nat.le_succ _
    | case2 => exact Nat.le_refl _
  rw [parseU32] at h
  split at h
  · cases h
  · rename_i hdigits
    rw [not_or, Bool.not_eq_true] at hdigits
    split at h
    · cases h
      exact Nat.lt_of_lt_of_le (ofDigits_lt hdigits.2) (Nat.pow_le_pow_right (by decide) hlen)
    · cases h

end Text
