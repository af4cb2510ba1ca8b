/-
  WritersProof.Protocol.Cbor

  The checks that the CBOR codec makes before it decodes
  (crates/authorproof-protocol/src/codec/cbor.rs): the size of the input, its semantic
  tag and how deeply it is nested.

  The depth check is a machine on a stack of open containers; on an encoded item it
  runs through (`check_encode`).
-/
import WritersProof.Lib.Cbor
import Mathlib.Logic.Relation

namespace WritersProof.Protocol

open Rust Cbor

/-- 16 MiB -/
def MAX_CBOR_PAYLOAD : Nat := 16 * 1024 * 1024

def MAX_CBOR_DEPTH : Nat := 32

def u64Max : Nat := 2 ^ 64 - 1

/-! ## Nesting depth -/

/-- `data[pos..pos + n]` as a big-endian integer, with what follows. -/
def takeInt (n : Nat) (rest : Bytes) : Option (Nat × Bytes) :=
  if rest.length < n then none else some (Bytes.ofBE (rest.take n), rest.drop n)

/-- The argument of a header, for the additional information of a definite length. -/
def readArg (additional : Nat) (rest : Bytes) : Option (Nat × Bytes) :=
  if additional ≤ 23 then some (additional, rest)
  else if additional = 24 then takeInt 1 rest
  else if additional = 25 then takeInt 2 rest
  else if additional = 26 then takeInt 4 rest
  else if additional = 27 then takeInt 8 rest
  else none

/-- Skip the content of a string; `len` is the length of the whole input. -/
def skipBytes (len n : Nat) (rest : Bytes) : Option Bytes :=
  let skip := min n len
  if skip ≤ rest.length then some (rest.drop skip) else none

/-- Skip the chunks of a string of indefinite length, up to the break. -/
def skipChunks (len : Nat) : Nat → Bytes → Option Bytes
  | 0, _ => none
  | _, [] => none
  | fuel + 1, first :: rest =>
    if first = 0xFF then some rest
    else do
      let (n, rest) ← readArg (first.toNat % 32) rest
      let rest ← skipBytes len n rest
      skipChunks len fuel rest

/-- Decrement the remaining-item count on the innermost container, popping containers that
become fully consumed. -/
def consumeItem : List Nat → List Nat
  | [] => []
  | r :: stack =>
    if r = u64Max then r :: stack
    else if r - 1 = 0 then consumeItem stack
    else (r - 1) :: stack

/-- Pop up to the innermost container of indefinite length. -/
def closeIndefinite : List Nat → List Nat
  | [] => []
  | r :: stack => if r = u64Max then stack else closeIndefinite stack

/-- The open containers, each with the number of items it still waits for, and the input
that is left. -/
abbrev Scan := List Nat × Bytes

def scanItem (len maxDepth major arg : Nat) (stack : List Nat) (rest : Bytes) : Option Scan :=
  match major with
  | 0 | 1 => some (consumeItem stack, rest)
  | 2 | 3 => do
    let rest ← if arg = u64Max then skipChunks len rest.length rest else skipBytes len arg rest
    some (consumeItem stack, rest)
  | 4 =>
    if maxDepth ≤ stack.length then none
    else if arg = 0 then some (consumeItem stack, rest)
    else some (arg :: stack, rest)
  | 5 =>
    if maxDepth ≤ stack.length then none
    else if arg = 0 then some (consumeItem stack, rest)
    else if arg = u64Max then some (u64Max :: stack, rest)
    else some (min (arg * 2) u64Max :: stack, rest)
  -- the tagged value is the next item
  | 6 => some (stack, rest)
  | 7 => some (consumeItem stack, rest)
  | _ => none

/-- One round of the loop; `none` rejects the input. -/
def scanStep (len maxDepth : Nat) : Scan → Option Scan
  | (_, []) => none
  | (stack, first :: rest) =>
    let major := first.toNat / 32
    let additional := first.toNat % 32
    if major = 7 ∧ additional = 31 then
      some (consumeItem (closeIndefinite stack), rest)
    else if additional = 31 then
      scanItem len maxDepth major u64Max stack rest
    else do
      let (arg, rest) ← readArg additional rest
      scanItem len maxDepth major arg stack rest

/-- `while pos < data.len()`: a round takes a byte at least, so `data.len()` rounds do. -/
def scanAll (len maxDepth : Nat) : Nat → Scan → Bool
  | _, (stack, []) => stack.isEmpty
  | 0, (_, _ :: _) => false
  | rounds + 1, scan =>
    match scanStep len maxDepth scan with
    | none => false
    | some scan => scanAll len maxDepth rounds scan

def checkCborDepth (data : Bytes) (maxDepth : Nat) : Bool :=
  scanAll data.length maxDepth data.length ([], data)

/-! ## Tags -/

def CBOR_TAG_CPOE : Nat := 1129336645

def cborTagHeader (tag : Nat) : Bytes := header 6 tag

def parseCborTagHeader (data : Bytes) : Option (Nat × Nat) :=
  match data with
  | [] => none
  | first :: rest =>
    if first.toNat / 32 ≠ 6 then none
    else do
      let (tag, after) ← readArg (first.toNat % 32) rest
      some (tag, data.length - after.length)

inductive CodecError where
  | cborEncode (message : String)
  | cborDecode (message : String)
  | missingTag
  | invalidTag (expected actual : Nat)
  | validation (message : String)

def CodecError.text : CodecError → String
  | cborEncode message => "CBOR encoding error: " ++ message
  | cborDecode message => "CBOR decoding error: " ++ message
  | missingTag => "missing semantic tag"
  | invalidTag expected actual => s!"invalid semantic tag: expected {expected}, got {actual}"
  | validation message => "validation error: " ++ message

def decodeTagged {α : Type} (fromReader : Bytes → Except String α) (data : Bytes)
    (expectedTag : Nat) : Except CodecError α :=
  if MAX_CBOR_PAYLOAD < data.length then
    .error (.validation s!"CBOR payload too large: {data.length} bytes (max {MAX_CBOR_PAYLOAD})")
  else
    match parseCborTagHeader data with
    | none => .error .missingTag
    | some (actualTag, innerOffset) =>
      if actualTag ≠ expectedTag then .error (.invalidTag expectedTag actualTag)
      else if !checkCborDepth (data.drop innerOffset) MAX_CBOR_DEPTH then
        .error (.validation s!"CBOR nesting depth exceeds maximum ({MAX_CBOR_DEPTH})")
      else
        match fromReader (data.drop innerOffset) with
        | .error e => .error (.cborDecode e)
        | .ok value => .ok value

/-! ## Encoded items pass -/

section Encoded

variable (len maxDepth : Nat)

def Rounds : Scan → Scan → Prop :=
  Relation.ReflTransGen fun s t => scanStep len maxDepth s = some t ∧ t.2.length < s.2.length

variable {len maxDepth}

/-- A loop that runs to the end of the input with nothing open accepts it. -/
theorem scanAll_of_rounds {s : Scan} (h : Rounds len maxDepth s ([], [])) :
    ∀ rounds, s.2.length ≤ rounds → scanAll len maxDepth rounds s = true := by
  induction h using Relation.ReflTransGen.head_induction_on with
  | refl =>
    intro rounds _
    cases rounds <;> rfl
  | @head s t hstep _ ih =>
    intro rounds hrounds
    obtain ⟨hnext, hlt⟩ := hstep
    obtain ⟨stack, rest⟩ := s
    cases rest with
    | nil => cases hnext
    | cons first rest =>
      cases rounds with
      | zero => exact absurd hrounds (Nat.not_succ_le_zero _)
      | succ rounds =>
        have hrun : scanAll len maxDepth (rounds + 1) (stack, first :: rest)
            = scanAll len maxDepth rounds t := by
          simp only [scanAll, hnext]
        rw [hrun]
        apply ih
        dsimp only at hlt hrounds
        omega

theorem readArg_argument (n : Nat) (rest : Bytes) :
    ∃ arg, readArg (additional n) (argument n ++ rest) = some (arg, rest)
      ∧ (n < 2 ^ 64 → arg = n) := by
  have hint : ∀ w, takeInt w (Bytes.toBE w n ++ rest) = some (n % 256 ^ w, rest) := by
    intro w
    have hlen := Bytes.length_toBE w n
    rw [takeInt, if_neg (by simp), List.take_left' hlen, List.drop_left' hlen, Bytes.ofBE_toBE]
  by_cases h24 : n < 24
  · obtain ⟨hadditional, hargument⟩ := argument_of_lt h24
    rw [hadditional, hargument, readArg, if_pos (by omega)]
    exact ⟨n, rfl, fun _ => rfl⟩
  · have hlt := lt_of_width (Nat.not_lt.mp h24)
    refine ⟨n % 256 ^ width n, ?_, fun h64 => Nat.mod_eq_of_lt (hlt h64)⟩
    rw [argument, ← hint]
    rcases width_cases (Nat.not_lt.mp h24) with
      ⟨hw, hadditional, -⟩ | ⟨hw, hadditional, -⟩ | ⟨hw, hadditional, -⟩ | ⟨hw, hadditional, -⟩
    all_goals
      rw [hadditional, hw]
      rfl

variable {major : Nat}

variable (len maxDepth) in
theorem scanStep_header (hmajor : major < 8) (n : Nat) (stack : List Nat) (rest : Bytes) :
    ∃ arg, scanStep len maxDepth (stack, header major n ++ rest)
        = scanItem len maxDepth major arg stack rest ∧ (n < 2 ^ 64 → arg = n) := by
  obtain ⟨arg, harg, hn⟩ := readArg_argument n rest
  have hadditional := additional_lt n
  have hfirst : (UInt8.ofNat (major * 32 + additional n)).toNat
      = major * 32 + additional n := by
    rw [UInt8.toNat_ofNat']
    exact Nat.mod_eq_of_lt (by omega)
  have hdiv : (major * 32 + additional n) / 32 = major := by omega
  have hmod : (major * 32 + additional n) % 32 = additional n := by omega
  refine ⟨arg, ?_, hn⟩
  rw [header, List.cons_append, scanStep, hfirst, hdiv, hmod, if_neg (by omega),
    if_neg (by omega), harg]
  rfl

variable {n : Nat} {stack : List Nat}

theorem rounds_header (hmajor : major < 8) {stack' : List Nat} {rest rest' : Bytes}
    (h : ∀ arg, (n < 2 ^ 64 → arg = n) →
      scanItem len maxDepth major arg stack rest = some (stack', rest'))
    (hle : rest'.length ≤ rest.length) :
    Rounds len maxDepth (stack, header major n ++ rest) (stack', rest') := by
  obtain ⟨arg, hstep, harg⟩ := scanStep_header len maxDepth hmajor n stack rest
  apply Relation.ReflTransGen.single
  refine ⟨hstep.trans (h arg harg), ?_⟩
  have hpos := length_header_pos major n
  rw [List.length_append]
  dsimp only
  omega

theorem rounds_string (hmajor : major = 2 ∨ major = 3) (bs : Bytes) (stack : List Nat)
    (rest : Bytes) (hlen : (bs ++ rest).length ≤ len) (hlt : len < u64Max) :
    Rounds len maxDepth (stack, header major bs.length ++ (bs ++ rest))
      (consumeItem stack, rest) := by
  rw [List.length_append] at hlen
  apply rounds_header (by omega)
  · intro arg harg
    have hsmall : bs.length < u64Max := by omega
    have h64 : u64Max < 2 ^ 64 := by decide
    obtain rfl := harg (hsmall.trans h64)
    have hskip : skipBytes len bs.length (bs ++ rest) = some rest := by
      rw [skipBytes, Nat.min_eq_left (by omega), if_pos (by simp), List.drop_left]
    rcases hmajor with rfl | rfl
    · rw [scanItem, if_neg (by omega), hskip]
      rfl
    · rw [scanItem, if_neg (by omega), hskip]
      rfl
  · simp

theorem consumeItem_succ (h : n + 2 < u64Max) (stack : List Nat) :
    consumeItem ((n + 2) :: stack) = (n + 1) :: stack := by
  rw [consumeItem, if_neg (by omega), if_neg (by omega)]
  rfl

theorem consumeItem_one (stack : List Nat) : consumeItem (1 :: stack) = consumeItem stack := by
  rw [consumeItem, if_neg (by decide), if_pos rfl]

/-- A container that has just got one of the `n + 1` items it waited for. -/
theorem consumeItem_next (h : n + 1 < u64Max) (stack : List Nat) :
    consumeItem ((n + 1) :: stack) = if n = 0 then consumeItem stack else n :: stack := by
  cases n with
  | zero => exact consumeItem_one stack
  | succ n =>
    rw [consumeItem_succ h, if_neg (Nat.succ_ne_zero n)]

/-- A container opens when the limit allows, and is an item itself when it is empty. -/
theorem rounds_open {count : Nat} (hmajor : major = 4 ∧ count = n ∨ major = 5 ∧ count = 2 * n)
    (hcount : count < u64Max) (hdepth : stack.length < maxDepth) (rest : Bytes) :
    Rounds len maxDepth (stack, header major n ++ rest)
      (if count = 0 then consumeItem stack else count :: stack, rest) := by
  apply rounds_header (by omega) _ (Nat.le_refl _)
  intro arg harg
  have h64 : u64Max < 2 ^ 64 := by decide
  obtain rfl := harg (by omega)
  rcases hmajor with ⟨rfl, rfl⟩ | ⟨rfl, rfl⟩
  · rw [scanItem, if_neg (by omega)]
    split <;> rfl
  · rw [scanItem, if_neg (by omega)]
    by_cases hzero : arg = 0
    · rw [if_pos hzero, if_pos (by omega)]
    · rw [if_neg hzero, if_neg (by omega), if_neg (by omega), Nat.mul_comm,
        Nat.min_eq_left (by omega)]

mutual

theorem rounds_encode (hlt : len < u64Max) : ∀ (item : Cbor) (stack : List Nat) (rest : Bytes),
    item.depth + stack.length ≤ maxDepth → (item.encode ++ rest).length ≤ len →
      Rounds len maxDepth (stack, item.encode ++ rest) (consumeItem stack, rest)
  | .uint n, stack, rest, _, _ =>
    rounds_header (by decide) (fun _ _ => rfl) (Nat.le_refl _)
  | .nint n, stack, rest, _, _ =>
    rounds_header (by decide) (fun _ _ => rfl) (Nat.le_refl _)
  | .bytes bs, stack, rest, _, hlen => by
    rw [encode, List.append_assoc, List.length_append] at hlen
    rw [encode, List.append_assoc]
    exact rounds_string (.inl rfl) bs stack rest (by omega) hlt
  | .text s, stack, rest, _, hlen => by
    rw [encode, List.append_assoc, List.length_append] at hlen
    rw [encode, List.append_assoc]
    exact rounds_string (.inr rfl) (Bytes.utf8 s) stack rest (by omega) hlt
  | .null, stack, rest, _, _ =>
    rounds_header (by decide) (fun _ _ => rfl) (Nat.le_refl _)
  | .array items, stack, rest, hdepth, hlen => by
    rw [encode, List.append_assoc, List.length_append, List.length_append] at hlen
    rw [encode, List.append_assoc]
    rw [depth] at hdepth
    have hcount := length_le_encodeItems items
    apply (rounds_open (.inl ⟨rfl, rfl⟩) (by omega) (by omega) _).trans
    by_cases hempty : items = []
    · subst hempty
      exact Relation.ReflTransGen.refl
    · rw [if_neg (by simpa using hempty)]
      exact rounds_items hlt items stack rest hempty (by omega) (by rw [List.length_append]; omega)
  | .map entries, stack, rest, hdepth, hlen => by
    rw [encode, List.append_assoc, List.length_append, List.length_append] at hlen
    rw [encode, List.append_assoc]
    rw [depth] at hdepth
    have hcount := length_le_encodeEntries entries
    apply (rounds_open (.inr ⟨rfl, rfl⟩) (by omega) (by omega) _).trans
    by_cases hempty : entries = []
    · subst hempty
      exact Relation.ReflTransGen.refl
    · rw [if_neg (by simpa using hempty)]
      exact rounds_entries hlt entries stack rest hempty (by omega)
        (by rw [List.length_append]; omega)

theorem rounds_items (hlt : len < u64Max) : ∀ (items : List Cbor) (stack : List Nat)
    (rest : Bytes), items ≠ [] → depthItems items + stack.length + 1 ≤ maxDepth →
      (encodeItems items ++ rest).length ≤ len →
      Rounds len maxDepth (items.length :: stack, encodeItems items ++ rest)
        (consumeItem stack, rest)
  | [], _, _, hne, _, _ => absurd rfl hne
  | item :: items, stack, rest, _, hdepth, hlen => by
    rw [encodeItems, List.append_assoc] at hlen
    rw [encodeItems, List.append_assoc, List.length_cons]
    rw [depthItems] at hdepth
    have hcount := length_le_encodeItems items
    have hpos := length_encode_pos item
    have hitem := rounds_encode hlt item ((items.length + 1) :: stack)
      (encodeItems items ++ rest) (by rw [List.length_cons]; omega) hlen
    apply hitem.trans
    simp only [List.length_append] at hlen
    rw [consumeItem_next (by omega)]
    by_cases hempty : items = []
    · subst hempty
      exact Relation.ReflTransGen.refl
    · rw [if_neg (by simpa using hempty)]
      exact rounds_items hlt items stack rest hempty (by omega) (by rw [List.length_append]; omega)

theorem rounds_entries (hlt : len < u64Max) : ∀ (entries : List (Cbor × Cbor))
    (stack : List Nat) (rest : Bytes), entries ≠ [] →
      depthEntries entries + stack.length + 1 ≤ maxDepth →
      (encodeEntries entries ++ rest).length ≤ len →
      Rounds len maxDepth (2 * entries.length :: stack, encodeEntries entries ++ rest)
        (consumeItem stack, rest)
  | [], _, _, hne, _, _ => absurd rfl hne
  | (key, value) :: entries, stack, rest, _, hdepth, hlen => by
    rw [encodeEntries, encodeEntry, List.append_assoc, List.append_assoc] at hlen
    rw [encodeEntries, encodeEntry, List.append_assoc, List.append_assoc,
      List.length_cons]
    rw [depthEntries, depthEntry] at hdepth
    have hcount := length_le_encodeEntries entries
    have hkeyPos := length_encode_pos key
    have hvaluePos := length_encode_pos value
    simp only [List.length_append] at hlen
    have hkey := rounds_encode hlt key ((2 * entries.length + 2) :: stack)
      (value.encode ++ (encodeEntries entries ++ rest)) (by rw [List.length_cons]; omega)
      (by simp only [List.length_append]; omega)
    rw [consumeItem_succ (by omega)] at hkey
    have hvalue := rounds_encode hlt value ((2 * entries.length + 1) :: stack)
      (encodeEntries entries ++ rest) (by rw [List.length_cons]; omega)
      (by simp only [List.length_append]; omega)
    apply (hkey.trans hvalue).trans
    rw [consumeItem_next (by omega)]
    by_cases hempty : entries = []
    · subst hempty
      exact Relation.ReflTransGen.refl
    · have hne : 2 * entries.length ≠ 0 := by
        have hlength := List.length_pos_of_ne_nil hempty
        omega
      rw [if_neg hne]
      exact rounds_entries hlt entries stack rest hempty (by omega)
        (by rw [List.length_append]; omega)

end

theorem checkCborDepth_encode {item : Cbor} (hdepth : item.depth ≤ maxDepth)
    (hlt : item.encode.length < u64Max) : checkCborDepth item.encode maxDepth = true := by
  have hrounds : Rounds item.encode.length maxDepth ([], item.encode ++ []) ([], []) :=
    rounds_encode hlt item [] [] (by simpa using hdepth) (by rw [List.append_nil])
  rw [List.append_nil] at hrounds
  exact scanAll_of_rounds hrounds _ (Nat.le_refl _)

theorem parseCborTagHeader_append {tag : Nat} (htag : tag < 2 ^ 64) (rest : Bytes) :
    parseCborTagHeader (cborTagHeader tag ++ rest) = some (tag, (cborTagHeader tag).length) := by
  obtain ⟨arg, harg, hn⟩ := readArg_argument tag rest
  obtain rfl := hn htag
  have hadditional := additional_lt arg
  have hfirst : (UInt8.ofNat (6 * 32 + additional arg)).toNat
      = 6 * 32 + additional arg := by
    rw [UInt8.toNat_ofNat']
    exact Nat.mod_eq_of_lt (by omega)
  have hmod : (6 * 32 + additional arg) % 32 = additional arg := by omega
  rw [cborTagHeader, header, List.cons_append, parseCborTagHeader, hfirst, hmod,
    if_neg (by omega), harg]
  show some (arg, _) = some (arg, _)
  simp only [List.length_cons, List.length_append]
  congr 2
  omega

theorem decodeTagged_encode {α : Type} {fromReader : Bytes → Except String α} {item : Cbor}
    {value : α} (hread : fromReader item.encode = .ok value) {tag : Nat} (htag : tag < 2 ^ 64)
    (hsize : (cborTagHeader tag ++ item.encode).length ≤ MAX_CBOR_PAYLOAD)
    (hdepth : item.depth ≤ MAX_CBOR_DEPTH) :
    decodeTagged fromReader (cborTagHeader tag ++ item.encode) tag = .ok value := by
  have hlt : item.encode.length < u64Max := by
    have hmax : MAX_CBOR_PAYLOAD < u64Max := by decide
    rw [List.length_append] at hsize
    omega
  unfold decodeTagged
  rw [if_neg (Nat.not_lt.mpr hsize), parseCborTagHeader_append htag]
  simp only [ne_eq, not_true_eq_false, if_false, List.drop_left,
    checkCborDepth_encode hdepth hlt, Bool.not_true, hread]
  rfl

end Encoded

end WritersProof.Protocol
