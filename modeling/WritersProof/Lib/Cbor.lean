/-
  WritersProof.Lib.Cbor

  CBOR data items of definite length and their encoding: a header with the major
  type and an argument in the shortest form, then the content.

  An encoded item is no prefix of another one (`encode_append_inj`), so a sequence of
  items is told apart from its bytes alone.  A structure with optional fields is a map
  whose keys tell which of them are there (`optional_append_inj`).
-/
import WritersProof.Lib.Bytes

inductive Cbor where
  | uint (n : UInt64)
  /-- `-1 - n` -/
  | nint (n : UInt64)
  | bytes (bs : Bytes)
  | text (s : String)
  | array (items : List Cbor)
  | map (entries : List (Cbor × Cbor))
  | null

namespace Cbor

/-! ## Headers -/

/-- How many bytes of its own an argument takes. -/
def width (n : Nat) : Nat :=
  if n < 24 then 0
  else if n < 2 ^ 8 then 1
  else if n < 2 ^ 16 then 2
  else if n < 2 ^ 32 then 4
  else 8

/-- The low bits of the first byte: the argument, or how many bytes it takes. -/
def additional (n : Nat) : Nat :=
  if n < 24 then n
  else if n < 2 ^ 8 then 24
  else if n < 2 ^ 16 then 25
  else if n < 2 ^ 32 then 26
  else 27

def argument (n : Nat) : Bytes := Bytes.toBE (width n) n

def header (major n : Nat) : Bytes :=
  UInt8.ofNat (major * 32 + additional n) :: argument n

theorem length_argument (n : Nat) : (argument n).length = width n := Bytes.length_toBE _ _

theorem width_le (n : Nat) : width n ≤ 8 := by
  unfold width
  repeat' split
  all_goals omega

theorem length_header (major n : Nat) : (header major n).length = 1 + width n := by
  rw [header, List.length_cons, length_argument, Nat.add_comm]

theorem additional_lt (n : Nat) : additional n < 28 := by
  unfold additional
  repeat' split
  all_goals omega

theorem length_header_pos (major n : Nat) : 0 < (header major n).length :=
  Nat.succ_pos _

variable {n m : Nat} {r s : Bytes}

/-- Where the low bits name a number of bytes, it is the width. -/
theorem width_cases (h : 24 ≤ n) :
    width n = 1 ∧ additional n = 24 ∧ n < 2 ^ 8 ∨ width n = 2 ∧ additional n = 25 ∧ n < 2 ^ 16
      ∨ width n = 4 ∧ additional n = 26 ∧ n < 2 ^ 32
      ∨ width n = 8 ∧ additional n = 27 ∧ 2 ^ 32 ≤ n := by
  have h24 : ¬ n < 24 := Nat.not_lt.mpr h
  rw [width, additional, if_neg h24, if_neg h24]
  by_cases h8 : n < 2 ^ 8
  · rw [if_pos h8, if_pos h8]
    exact .inl ⟨rfl, rfl, h8⟩
  rw [if_neg h8, if_neg h8]
  by_cases h16 : n < 2 ^ 16
  · rw [if_pos h16, if_pos h16]
    exact .inr (.inl ⟨rfl, rfl, h16⟩)
  rw [if_neg h16, if_neg h16]
  by_cases h32 : n < 2 ^ 32
  · rw [if_pos h32, if_pos h32]
    exact .inr (.inr (.inl ⟨rfl, rfl, h32⟩))
  · rw [if_neg h32, if_neg h32]
    exact .inr (.inr (.inr ⟨rfl, rfl, Nat.not_lt.mp h32⟩))

/-- An argument of 64 bits fits into its bytes. -/
theorem lt_of_width (h : 24 ≤ n) (hlt : n < 2 ^ 64) : n < 256 ^ width n := by
  rcases width_cases h with ⟨hw, -, hn⟩ | ⟨hw, -, hn⟩ | ⟨hw, -, hn⟩ | ⟨hw, -⟩
  · rw [hw]
    exact hn
  · rw [hw]
    exact hn
  · rw [hw]
    exact hn
  · rw [hw]
    exact hlt

theorem argument_of_lt (h : n < 24) : additional n = n ∧ argument n = [] := by
  rw [additional, argument, width, if_pos h, if_pos h]
  exact ⟨rfl, rfl⟩

/-- Low bits and bytes determine the argument. -/
theorem argument_append_inj (hm : m < 2 ^ 64) (hn : n < 2 ^ 64)
    (hadditional : additional m = additional n) (h : argument m ++ r = argument n ++ s) :
    m = n ∧ r = s := by
  by_cases hm24 : m < 24
  · obtain ⟨hadd, harg⟩ := argument_of_lt hm24
    have hn24 : n < 24 := by
      by_contra hn24
      have := width_cases (Nat.not_lt.mp hn24)
      omega
    obtain ⟨hadd', harg'⟩ := argument_of_lt hn24
    rw [harg, harg'] at h
    exact ⟨by omega, h⟩
  · have hn24 : ¬ n < 24 := by
      intro hn24
      obtain ⟨hadd, -⟩ := argument_of_lt hn24
      have := width_cases (Nat.not_lt.mp hm24)
      omega
    have hwm := width_cases (Nat.not_lt.mp hm24)
    have hwn := width_cases (Nat.not_lt.mp hn24)
    have hwidth : width m = width n := by omega
    have hboundm := lt_of_width (Nat.not_lt.mp hm24) hm
    have hboundn := lt_of_width (Nat.not_lt.mp hn24) hn
    rw [hwidth] at hboundm
    rw [argument, argument, hwidth] at h
    obtain ⟨hbytes, hrest⟩ := List.append_inj h (by simp)
    exact ⟨Bytes.toBE_injective hboundm hboundn hbytes, hrest⟩

theorem header_append_inj {major major' : Nat} (hmajor : major < 8) (hmajor' : major' < 8)
    (hm : m < 2 ^ 64) (hn : n < 2 ^ 64) (h : header major m ++ r = header major' n ++ s) :
    major = major' ∧ m = n ∧ r = s := by
  have haddm := additional_lt m
  have haddn := additional_lt n
  rw [header, header, List.cons_append, List.cons_append, List.cons.injEq] at h
  have hfirst := congrArg UInt8.toNat h.1
  rw [UInt8.toNat_ofNat', UInt8.toNat_ofNat', Nat.mod_eq_of_lt (by omega),
    Nat.mod_eq_of_lt (by omega)] at hfirst
  exact ⟨by omega, argument_append_inj hm hn (by omega) h.2⟩

/-! ## Items -/

mutual

/-- The bytes of an item. -/
def encode : Cbor → Bytes
  | uint n => header 0 n.toNat
  | nint n => header 1 n.toNat
  | bytes bs => header 2 bs.length ++ bs
  | text s => header 3 (Bytes.utf8 s).length ++ Bytes.utf8 s
  | array items => header 4 items.length ++ encodeItems items
  | map entries => header 5 entries.length ++ encodeEntries entries
  | null => header 7 22

def encodeItems : List Cbor → Bytes
  | [] => []
  | item :: items => encode item ++ encodeItems items

def encodeEntries : List (Cbor × Cbor) → Bytes
  | [] => []
  | entry :: entries => encodeEntry entry ++ encodeEntries entries

def encodeEntry : Cbor × Cbor → Bytes
  | (key, value) => encode key ++ encode value

end

mutual

/-- Arrays and maps around the innermost item. -/
def depth : Cbor → Nat
  | uint _ => 0
  | nint _ => 0
  | bytes _ => 0
  | text _ => 0
  | array items => depthItems items + 1
  | map entries => depthEntries entries + 1
  | null => 0

def depthItems : List Cbor → Nat
  | [] => 0
  | item :: items => max (depth item) (depthItems items)

def depthEntries : List (Cbor × Cbor) → Nat
  | [] => 0
  | entry :: entries => max (depthEntry entry) (depthEntries entries)

def depthEntry : Cbor × Cbor → Nat
  | (key, value) => max (depth key) (depth value)

end

theorem depthEntries_append (xs ys : List (Cbor × Cbor)) :
    depthEntries (xs ++ ys) = max (depthEntries xs) (depthEntries ys) := by
  induction xs with
  | nil => simp [depthEntries]
  | cons x xs ih => rw [List.cons_append, depthEntries, ih, depthEntries, max_assoc]

/-! ## Length -/

theorem length_encode_pos (item : Cbor) : 0 < (encode item).length := by
  cases item with
  | uint n => exact length_header_pos 0 _
  | nint n => exact length_header_pos 1 _
  | bytes bs => simp [encode, length_header_pos]
  | text s => simp [encode, length_header_pos]
  | array items => simp [encode, length_header_pos]
  | map entries => simp [encode, length_header_pos]
  | null => exact length_header_pos 7 22

theorem length_le_encodeItems (items : List Cbor) : items.length ≤ (encodeItems items).length := by
  induction items with
  | nil => exact Nat.le_refl 0
  | cons item items ih =>
    have hpos := length_encode_pos item
    simp only [encodeItems, List.length_cons, List.length_append]
    omega

theorem length_le_encodeEntries (entries : List (Cbor × Cbor)) :
    2 * entries.length ≤ (encodeEntries entries).length := by
  induction entries with
  | nil => exact Nat.le_refl 0
  | cons entry entries ih =>
    obtain ⟨key, value⟩ := entry
    have hkey := length_encode_pos key
    have hvalue := length_encode_pos value
    simp only [encodeEntries, encodeEntry, List.length_cons, List.length_append]
    omega

/-- A value in a map is no longer than the map. -/
theorem length_le_of_mem_entries {entry : Cbor × Cbor} {entries : List (Cbor × Cbor)}
    (h : entry ∈ entries) : entry.2.encode.length ≤ (map entries).encode.length := by
  have hall : entry.2.encode.length ≤ (encodeEntries entries).length := by
    induction entries with
    | nil => exact absurd h List.not_mem_nil
    | cons first entries ih =>
      obtain ⟨key, value⟩ := first
      rw [encodeEntries, encodeEntry, List.length_append, List.length_append]
      rcases List.mem_cons.mp h with rfl | h
      · dsimp only
        omega
      · have := ih h
        omega
  rw [encode, List.length_append]
  omega

/-! ## Items are told apart -/

def major : Cbor → Nat
  | uint _ => 0
  | nint _ => 1
  | bytes _ => 2
  | text _ => 3
  | array _ => 4
  | map _ => 5
  | null => 7

/-- The argument in the header of an item. -/
def arg : Cbor → Nat
  | uint n => n.toNat
  | nint n => n.toNat
  | bytes bs => bs.length
  | text s => (Bytes.utf8 s).length
  | array items => items.length
  | map entries => entries.length
  | null => 22

/-- What follows the header of an item. -/
def content : Cbor → Bytes
  | bytes bs => bs
  | text s => Bytes.utf8 s
  | array items => encodeItems items
  | map entries => encodeEntries entries
  | _ => []

theorem encode_eq (item : Cbor) : item.encode = header item.major item.arg ++ item.content := by
  cases item <;> simp [encode, major, arg, content]

theorem major_lt (item : Cbor) : item.major < 8 := by
  cases item <;> simp [major]

theorem arg_lt (item : Cbor) (h : item.encode.length < 2 ^ 64) : item.arg < 2 ^ 64 := by
  rw [encode_eq, List.length_append] at h
  cases item with
  | uint n => exact n.toNat_lt
  | nint n => exact n.toNat_lt
  | bytes bs =>
    simp only [arg, content] at h ⊢
    omega
  | text s =>
    simp only [arg, content] at h ⊢
    omega
  | array items =>
    have := length_le_encodeItems items
    simp only [arg, content] at h ⊢
    omega
  | map entries =>
    have := length_le_encodeEntries entries
    simp only [arg, content] at h ⊢
    omega
  | null => decide

/-- Equal encodings, with whatever follows them, have equal headers. -/
theorem content_of_encode {a b : Cbor} {r s : Bytes} (hlt : (a.encode ++ r).length < 2 ^ 64)
    (h : a.encode ++ r = b.encode ++ s) :
    a.major = b.major ∧ a.arg = b.arg ∧ a.content ++ r = b.content ++ s := by
  have hlt' : (b.encode ++ s).length < 2 ^ 64 := h ▸ hlt
  rw [List.length_append] at hlt hlt'
  have ha := arg_lt a (by omega)
  have hb := arg_lt b (by omega)
  rw [encode_eq, encode_eq, List.append_assoc, List.append_assoc] at h
  exact header_append_inj (major_lt a) (major_lt b) ha hb h

mutual

theorem encode_append_inj : ∀ (a b : Cbor) (r s : Bytes), (a.encode ++ r).length < 2 ^ 64 →
    a.encode ++ r = b.encode ++ s → a = b ∧ r = s
  | .uint m, b, r, s, hlt, h => by
    obtain ⟨hmajor, harg, hcontent⟩ := content_of_encode hlt h
    cases b <;> simp [major] at hmajor
    exact ⟨by rw [UInt64.toNat_inj.mp harg], hcontent⟩
  | .nint m, b, r, s, hlt, h => by
    obtain ⟨hmajor, harg, hcontent⟩ := content_of_encode hlt h
    cases b <;> simp [major] at hmajor
    exact ⟨by rw [UInt64.toNat_inj.mp harg], hcontent⟩
  | .bytes bs, b, r, s, hlt, h => by
    obtain ⟨hmajor, harg, hcontent⟩ := content_of_encode hlt h
    cases b <;> simp [major] at hmajor
    obtain ⟨rfl, rfl⟩ := List.append_inj hcontent harg
    exact ⟨rfl, rfl⟩
  | .text t, b, r, s, hlt, h => by
    obtain ⟨hmajor, harg, hcontent⟩ := content_of_encode hlt h
    cases b <;> simp [major] at hmajor
    obtain ⟨htext, rfl⟩ := List.append_inj hcontent harg
    exact ⟨by rw [Bytes.utf8_injective htext], rfl⟩
  | .array items, b, r, s, hlt, h => by
    obtain ⟨hmajor, harg, hcontent⟩ := content_of_encode hlt h
    cases b <;> simp [major] at hmajor
    rw [encode_eq, List.append_assoc, List.length_append] at hlt
    obtain ⟨rfl, rfl⟩ := encodeItems_append_inj items _ r s (by exact (Nat.lt_of_le_of_lt
      (Nat.le_add_left _ _) hlt)) harg hcontent
    exact ⟨rfl, rfl⟩
  | .map entries, b, r, s, hlt, h => by
    obtain ⟨hmajor, harg, hcontent⟩ := content_of_encode hlt h
    cases b <;> simp [major] at hmajor
    rw [encode_eq, List.append_assoc, List.length_append] at hlt
    obtain ⟨rfl, rfl⟩ := encodeEntries_append_inj entries _ r s (by exact (Nat.lt_of_le_of_lt
      (Nat.le_add_left _ _) hlt)) harg hcontent
    exact ⟨rfl, rfl⟩
  | .null, b, r, s, hlt, h => by
    obtain ⟨hmajor, harg, hcontent⟩ := content_of_encode hlt h
    cases b <;> simp [major] at hmajor
    exact ⟨rfl, hcontent⟩

theorem encodeItems_append_inj : ∀ (xs ys : List Cbor) (r s : Bytes),
    (encodeItems xs ++ r).length < 2 ^ 64 → xs.length = ys.length →
      encodeItems xs ++ r = encodeItems ys ++ s → xs = ys ∧ r = s
  | [], [], _, _, _, _, h => ⟨rfl, h⟩
  | x :: xs, y :: ys, r, s, hlt, hlen, h => by
    rw [encodeItems, List.append_assoc] at hlt
    rw [encodeItems, encodeItems, List.append_assoc, List.append_assoc] at h
    obtain ⟨rfl, hrest⟩ := encode_append_inj x y _ _ hlt h
    rw [List.length_append] at hlt
    obtain ⟨rfl, rfl⟩ := encodeItems_append_inj xs ys r s (by omega) (Nat.succ.inj hlen) hrest
    exact ⟨rfl, rfl⟩

theorem encodeEntries_append_inj : ∀ (xs ys : List (Cbor × Cbor)) (r s : Bytes),
    (encodeEntries xs ++ r).length < 2 ^ 64 → xs.length = ys.length →
      encodeEntries xs ++ r = encodeEntries ys ++ s → xs = ys ∧ r = s
  | [], [], _, _, _, _, h => ⟨rfl, h⟩
  | (key, value) :: xs, (key', value') :: ys, r, s, hlt, hlen, h => by
    rw [encodeEntries, encodeEntry, List.append_assoc, List.append_assoc] at hlt
    rw [encodeEntries, encodeEntry, List.append_assoc, List.append_assoc, encodeEntries,
      encodeEntry, List.append_assoc, List.append_assoc] at h
    obtain ⟨rfl, hvalues⟩ := encode_append_inj key key' _ _ hlt h
    rw [List.length_append] at hlt
    obtain ⟨rfl, hrest⟩ := encode_append_inj value value' _ _ (by omega) hvalues
    rw [List.length_append] at hlt
    obtain ⟨rfl, rfl⟩ := encodeEntries_append_inj xs ys r s (by omega) (Nat.succ.inj hlen) hrest
    exact ⟨rfl, rfl⟩

end

variable {a b : Cbor} {n : Int64} {key : String}

/-- The same where only the items themselves are known to be short. -/
theorem encode_append_inj_of_lt {r s : Bytes} (ha : a.encode.length < 2 ^ 64)
    (hb : b.encode.length < 2 ^ 64) (h : a.encode ++ r = b.encode ++ s) : a = b ∧ r = s := by
  -- the items are already told apart by as many bytes as the longer one has
  have htake := congrArg (List.take (max a.encode.length b.encode.length)) h
  rw [List.take_append, List.take_append, List.take_of_length_le (Nat.le_max_left _ _),
    List.take_of_length_le (Nat.le_max_right _ _)] at htake
  obtain ⟨rfl, -⟩ := encode_append_inj a b _ _ (by
    rw [List.length_append, List.length_take]
    omega) htake
  exact ⟨rfl, List.append_cancel_left h⟩

theorem encode_injective (hlt : a.encode.length < 2 ^ 64) (h : a.encode = b.encode) : a = b :=
  (encode_append_inj a b [] [] (by simpa using hlt) (by rw [h])).1

/-! ## Integers and optional fields -/

/-- An `i64` -/
def int (n : Int64) : Cbor := if n < 0 then .nint (~~~n.toUInt64) else .uint n.toUInt64

theorem int_injective {m : Int64} (h : int m = int n) : m = n := by
  have hbits : m.toUInt64 = n.toUInt64 := by
    unfold int at h
    split at h <;> split at h
    · exact UInt64.not_inj.mp (Cbor.nint.inj h)
    · cases h
    · cases h
    · exact Cbor.uint.inj h
  exact congrArg Int64.ofUInt64 hbits

/-- A `u64` and an `i64` are written alike where they are the same number. -/
theorem uint_eq_int {m : UInt64} : uint m = int n ↔ n.toInt = m.toNat := by
  have hbits : n.toInt = if 2 * n.toUInt64.toNat < 2 ^ 64 then (n.toUInt64.toNat : Int)
      else n.toUInt64.toNat - (2 ^ 64 : Nat) := BitVec.toInt_eq_toNat_cond n.toBitVec
  have hlt := n.toUInt64.toNat_lt
  unfold int
  split
  case isTrue hneg =>
    have hneg : n.toInt < 0 := Int64.lt_iff_toInt_lt.mp hneg
    exact ⟨nofun, fun h => by omega⟩
  case isFalse hneg =>
    have hneg : ¬ n.toInt < 0 := fun h => hneg (Int64.lt_iff_toInt_lt.mpr h)
    rw [Cbor.uint.injEq, ← UInt64.toNat_inj]
    split at hbits <;> omega

/-- The entry of a field that may be absent -/
def optional {α : Type} (key : String) (value : Option α) (enc : α → Cbor) : List (Cbor × Cbor) :=
  (value.map fun x => (Cbor.text key, enc x)).toList

@[simp] theorem optional_none {α : Type} (key : String) (enc : α → Cbor) :
    optional key none enc = [] := rfl

@[simp] theorem optional_some {α : Type} (key : String) (x : α) (enc : α → Cbor) :
    optional key (some x) enc = [(.text key, enc x)] := rfl

def HasKey (key : String) (entries : List (Cbor × Cbor)) : Prop :=
  ∃ value, (Cbor.text key, value) ∈ entries

@[simp] theorem hasKey_nil (key : String) : ¬ HasKey key [] := by
  simp [HasKey]

@[simp] theorem hasKey_append (key : String) (xs ys : List (Cbor × Cbor)) :
    HasKey key (xs ++ ys) ↔ HasKey key xs ∨ HasKey key ys := by
  simp [HasKey, exists_or]

@[simp] theorem hasKey_optional {α : Type} (key other : String) (value : Option α)
    (enc : α → Cbor) : HasKey key (optional other value enc) ↔ key = other ∧ value ≠ none := by
  cases value with
  | none => simp
  | some x => simp [HasKey]

/-- An entry is there exactly if its field is, when nothing after it has its key. -/
theorem optional_append_inj {α : Type} {v w : Option α} {enc : α → Cbor} {r s : List (Cbor × Cbor)}
    (hr : ¬ HasKey key r) (hs : ¬ HasKey key s) (henc : ∀ x y, enc x = enc y → x = y)
    (h : optional key v enc ++ r = optional key w enc ++ s) : v = w ∧ r = s := by
  cases v with
  | none =>
    cases w with
    | none => exact ⟨rfl, h⟩
    | some y =>
      have hr' : r = (.text key, enc y) :: s := h
      exact absurd ⟨enc y, hr' ▸ List.mem_cons_self⟩ hr
  | some x =>
    cases w with
    | none =>
      have hs' : (.text key, enc x) :: r = s := h
      exact absurd ⟨enc x, hs' ▸ List.mem_cons_self⟩ hs
    | some y =>
      obtain ⟨hentry, hrest⟩ := List.cons.inj h
      rw [henc x y (Prod.mk.inj hentry).2]
      exact ⟨rfl, hrest⟩

theorem optional_injective {α : Type} {v w : Option α} {enc : α → Cbor}
    (henc : ∀ x y, enc x = enc y → x = y) (h : optional key v enc = optional key w enc) : v = w :=
  (optional_append_inj (hasKey_nil key) (hasKey_nil key) henc (congrArg (· ++ []) h)).1

end Cbor
