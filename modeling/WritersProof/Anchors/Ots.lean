/-
  WritersProof.Anchors.Ots

  OpenTimestamps proofs and the functions that walk them (crates/cpoe/src/anchors/ots.rs).

  A proof is operations one after the other, with attestation markers between them.  All walkers
  share one loop (`Walker`): a hash is one byte, an operand has its length in front.  What stands
  behind a marker each of them reads in its own way.

  A position is the bytes from there on.  `pos` is its offset, which only an error text has.  The
  offset of an operand's end does not overflow: the length is a mebibyte at most.
-/
import WritersProof.Anchors.Types
import WritersProof.Lib.Hex
import WritersProof.Lib.Text

namespace WritersProof.Anchors.Ots

open Rust

def otsMagic : Bytes :=
  [0x00, 0x4F, 0x70, 0x65, 0x6E, 0x54, 0x69, 0x6D, 0x65, 0x73, 0x74, 0x61, 0x6D, 0x70, 0x73, 0x00,
    0x00, 0x50, 0x72, 0x6F, 0x6F, 0x66, 0x00, 0xBF, 0x89, 0xE2, 0xE8, 0x84, 0xE8, 0x92, 0x94]

def otsBitcoinAttestationTag : Bytes := [0x05, 0x88, 0x96, 0x0D, 0x73, 0xD7, 0x19, 0x01]

def maxDataLen : Nat := 1024 * 1024

/-- The sha2 and ripemd crates, and what the standard library says of bytes that are no text -/
structure Crates where
  sha256 : Bytes → FixedBytes 32
  ripemd160 : Bytes → FixedBytes 20
  utf8Error : Bytes → String

/-! ## Reading -/

def readInteger (w : Nat) (rest : Bytes) : Except AnchorError (Nat × Bytes) :=
  if rest.length < w then
    .error (.invalidFormat s!"Truncated proof: expected {w}-byte varint")
  else
    .ok (Bytes.ofLE (rest.take w), rest.drop w)

def readVarint : Bytes → Except AnchorError (Nat × Bytes)
  | [] => .error (.invalidFormat "Truncated proof: expected varint")
  | first :: rest =>
    if first ≤ 0xFC then .ok (first.toNat, rest)
    else if first = 0xFD then readInteger 2 rest
    else if first = 0xFE then readInteger 4 rest
    else readInteger 8 rest

def readData (pos : Nat) (rest : Bytes) : Except AnchorError (Bytes × Bytes) := do
  let (len, payload) ← readVarint rest
  if maxDataLen < len then
    throw (.invalidFormat s!"Data field length {len} exceeds maximum {maxDataLen}")
  let start := pos + (rest.length - payload.length)
  if payload.length < len then
    throw (.invalidFormat
      s!"Truncated proof: need {len} bytes at offset {start}, have {payload.length}")
  return (payload.take len, payload.drop len)

def readString (P : Crates) (pos : Nat) (rest : Bytes) : Except AnchorError (String × Bytes) := do
  let (bytes, behind) ← readData pos rest
  match Text.fromUtf8 bytes with
  | some text => return (text, behind)
  | none => throw (.invalidFormat s!"Invalid UTF-8: {P.utf8Error bytes}")

/-! ## Walking -/

/-- How a walker goes on at an attestation marker -/
inductive Next (σ ρ : Type) where
  | stop (result : ρ)
  | go (state : σ) (behind : Bytes)

/-- What a walker makes of the parts of a proof -/
structure Walker (σ ρ : Type) where
  /-- `0x08` or `0x02` -/
  hash : UInt8 → σ → σ
  /-- `0xf0` or `0xf1`, its operand as it stands in the proof, and what it says -/
  operand : UInt8 → (raw data : Bytes) → σ → σ
  /-- What stands behind `0x00` -/
  marker : (pos : Nat) → (rest : Bytes) → σ → Except AnchorError (Next σ ρ)
  /-- An operation that is not known, and what stands behind it -/
  other : UInt8 → (rest : Bytes) → σ → Except AnchorError ρ
  done : σ → Except AnchorError ρ

/-- The bytes of `rest` in front of `behind` -/
def consumed (rest behind : Bytes) : Bytes := rest.take (rest.length - behind.length)

/-- The loop, for so many operations at most -/
def Walker.walk {σ ρ : Type} (w : Walker σ ρ) : Nat → Nat → Bytes → σ → Except AnchorError ρ
  | 0, _, _, s => w.done s
  | _ + 1, _, [], s => w.done s
  | fuel + 1, pos, op :: rest, s =>
    if op = 0x08 ∨ op = 0x02 then
      w.walk fuel (pos + 1) rest (w.hash op s)
    else if op = 0xF0 ∨ op = 0xF1 then do
      let (data, behind) ← readData (pos + 1) rest
      w.walk fuel (pos + 1 + (consumed rest behind).length) behind
        (w.operand op (consumed rest behind) data s)
    else if op = 0x00 then do
      match ← w.marker (pos + 1) rest s with
      | .stop result => return result
      | .go s behind => w.walk fuel (pos + 1 + (consumed rest behind).length) behind s
    else
      w.other op rest s

/-- The loop; every round takes a byte at least. -/
def Walker.loop {σ ρ : Type} (w : Walker σ ρ) (pos : Nat) (rest : Bytes) (s : σ) :
    Except AnchorError ρ :=
  w.walk rest.length pos rest s

def Walker.run {σ ρ : Type} (w : Walker σ ρ) (proofData : Bytes) (s : σ) : Except AnchorError ρ :=
  w.loop otsMagic.length (proofData.drop otsMagic.length) s

/-! ## The walkers -/

section Walkers

variable (P : Crates)

def pendingWalker : Walker (List String) (List String) where
  hash _ urls := urls
  operand _ _ _ urls := urls
  marker pos rest urls := do
    let (url, behind) ← readString P pos rest
    if 8 ≤ behind.length then do
      -- the tag of the attestation, and its payload
      let (_, behind') ← readData (pos + (consumed rest behind).length + 8) (behind.drop 8)
      return .go (urls ++ [url]) behind'
    else
      return .go (urls ++ [url]) behind
  other _ _ urls := .ok urls
  done urls := .ok urls

variable (proofData : Bytes)

def findPendingCalendars : Except AnchorError (List String) :=
  if proofData.length < otsMagic.length then
    .ok []
  else if proofData.take otsMagic.length ≠ otsMagic then
    .error (.invalidFormat "Invalid OTS magic")
  else
    (pendingWalker P).run proofData []

def hashOp (op : UInt8) (current : Bytes) : Bytes :=
  if op = 0x08 then (P.sha256 current).val else (P.ripemd160 current).val

def operandOp (op : UInt8) (data current : Bytes) : Bytes :=
  if op = 0xF0 then current ++ data else data ++ current

def commitmentWalker (url : String) : Walker Bytes Bytes where
  hash op current := hashOp P op current
  operand op _ data current := operandOp op data current
  marker pos rest current := do
    let (foundUrl, behind) ← readString P pos rest
    if foundUrl = url then return .stop current else return .go current behind
  other _ _ _ := .error (.unavailable s!"URL {url} not found in proof")
  done _ := .error (.unavailable s!"URL {url} not found in proof")

def extractCommitment (url : String) (anchoredHash : FixedBytes 32) :
    Except AnchorError Bytes :=
  if proofData.length < otsMagic.length then
    .error (.invalidFormat "Proof too short")
  else
    (commitmentWalker P url).run proofData anchoredHash.val

def stripMagic (upgrade : Bytes) : Bytes :=
  if upgrade.take otsMagic.length = otsMagic then upgrade.drop otsMagic.length else upgrade

def mergeWalker (upgrade : Bytes) (url : String) : Walker Bytes Bytes where
  hash op result := result ++ [op]
  operand op raw _ result := result ++ op :: raw
  marker pos rest result := do
    let (foundUrl, behind) ← readString P pos rest
    if foundUrl = url then
      return .go (result ++ stripMagic upgrade) behind
    else
      return .go (result ++ 0x00 :: consumed rest behind) behind
  other op rest result := .ok (result ++ op :: rest)
  done result := .ok result

def mergeProofs (original upgrade : Bytes) (url : String) : Except AnchorError Bytes :=
  if original.length < otsMagic.length then
    .error (.invalidFormat "Original proof too short")
  else
    (mergeWalker P upgrade url).run original (original.take otsMagic.length)

def heightWalker : Walker Unit (Option Nat) where
  hash _ s := s
  operand _ _ _ s := s
  marker pos rest s :=
    if rest.length < 8 then
      .ok (.stop none)
    else do
      let (payload, behind) ← readData (pos + 8) (rest.drop 8)
      if rest.take 8 = otsBitcoinAttestationTag then
        if 8 < payload.length then
          throw (.invalidFormat "Block height exceeds 8 bytes")
        else
          return .stop (some (Bytes.ofLE payload))
      else
        return .go s behind
  other _ _ _ := .ok none
  done _ := .ok none

def extractBitcoinBlockHeight : Except AnchorError (Option Nat) :=
  if proofData.length < otsMagic.length then
    .error (.invalidFormat "Proof too short")
  else if proofData.take otsMagic.length ≠ otsMagic then
    .error (.invalidFormat "Invalid OTS magic")
  else
    heightWalker.run proofData ()

inductive AttestationOp where
  | sha256
  | ripemd160
  | append
  | prepend
  | verify
  deriving DecidableEq

structure AttestationStep where
  operation : AttestationOp
  data : Bytes

def pathWalker : Walker (List AttestationStep) (List AttestationStep) where
  hash op steps := steps ++ [⟨if op = 0x08 then .sha256 else .ripemd160, []⟩]
  operand op _ data steps := steps ++ [⟨if op = 0xF0 then .append else .prepend, data⟩]
  marker _ _ steps := .ok (.stop (steps ++ [⟨.verify, []⟩]))
  other op _ _ :=
    if op = 0xFF then
      .error (.invalidFormat "Branching proofs (fork opcode 0xff) are not supported")
    else
      .error (.invalidFormat s!"Unknown OTS opcode: 0x{Hex.encode [op]}")
  done steps := .ok steps

def parseAttestationPath : Except AnchorError (List AttestationStep) :=
  if proofData.length < otsMagic.length then
    .error (.invalidFormat "Proof too short")
  else if proofData.take otsMagic.length ≠ otsMagic then
    .error (.invalidFormat "Invalid OTS magic")
  else
    pathWalker.run proofData []

def verifyAttestationPath (hash : FixedBytes 32) (steps : List AttestationStep) : Bytes :=
  steps.foldl (fun current step =>
    match step.operation with
    | .sha256 => (P.sha256 current).val
    | .ripemd160 => (P.ripemd160 current).val
    | .append => current ++ step.data
    | .prepend => step.data ++ current
    | .verify => current) hash.val

end Walkers

/-! ## Operands -/

/-- Bytes that `read_data` takes for an operand, whatever stands behind them -/
def Datum (raw data : Bytes) : Prop := ∀ pos tail, readData pos (raw ++ tail) = .ok (data, tail)

variable {n pos : Nat} {rest behind : Bytes} {P : Crates} {text : String}

theorem readInteger_eq_ok {w : Nat} (h : readInteger w rest = .ok (n, behind)) :
    ∃ raw, rest = raw ++ behind ∧ ∀ tail, readInteger w (raw ++ tail) = .ok (n, tail) := by
  rw [readInteger] at h
  split at h
  · cases h
  · rename_i hlen
    cases h
    have htake : (rest.take w).length = w := by
      rw [List.length_take]
      omega
    refine ⟨rest.take w, (List.take_append_drop w rest).symm, ?_⟩
    intro tail
    rw [readInteger, List.take_append_of_le_length htake.ge, List.take_of_length_le htake.le,
      List.drop_append_of_le_length htake.ge, List.drop_of_length_le htake.le, List.nil_append,
      if_neg]
    rw [List.length_append, htake]
    omega

theorem readVarint_eq_ok (h : readVarint rest = .ok (n, behind)) :
    ∃ raw, rest = raw ++ behind ∧ ∀ tail, readVarint (raw ++ tail) = .ok (n, tail) := by
  match rest, h with
  | first :: rest, h =>
    rw [readVarint] at h
    by_cases hshort : first ≤ 0xFC
    · rw [if_pos hshort] at h
      cases h
      refine ⟨[first], rfl, ?_⟩
      intro tail
      rw [List.singleton_append, readVarint, if_pos hshort]
    · have hwide : ∃ w, ∀ tail, readVarint (first :: tail) = readInteger w tail := by
        by_cases htwo : first = 0xFD
        · exact ⟨2, fun tail => by rw [readVarint, if_neg hshort, if_pos htwo]⟩
        · by_cases hfour : first = 0xFE
          · exact ⟨4, fun tail => by rw [readVarint, if_neg hshort, if_neg htwo, if_pos hfour]⟩
          · exact ⟨8, fun tail => by rw [readVarint, if_neg hshort, if_neg htwo, if_neg hfour]⟩
      obtain ⟨w, hw⟩ := hwide
      have hrest := hw rest
      rw [readVarint] at hrest
      rw [hrest] at h
      obtain ⟨raw, rfl, hraw⟩ := readInteger_eq_ok h
      refine ⟨first :: raw, rfl, ?_⟩
      intro tail
      rw [List.cons_append, hw, hraw]

theorem readData_eq_ok {data : Bytes} (h : readData pos rest = .ok (data, behind)) :
    ∃ raw, rest = raw ++ behind ∧ Datum raw data := by
  rw [readData] at h
  obtain ⟨⟨len, payload⟩, hvarint, h⟩ := res_bind_eq_ok.mp h
  obtain ⟨raw, hraw, hread⟩ := readVarint_eq_ok hvarint
  simp only at h
  split at h
  · cases h
  · rename_i hmax
    split at h
    · cases h
    · rename_i hlen
      cases h
      have htake : (payload.take len).length = len := by
        rw [List.length_take]
        omega
      refine ⟨raw ++ payload.take len, ?_, ?_⟩
      · rw [List.append_assoc, List.take_append_drop, hraw]
      · intro pos' tail
        rw [List.append_assoc, readData, hread, ok_bind]
        simp only
        rw [if_neg hmax, if_neg, List.take_append_of_le_length htake.ge,
          List.take_of_length_le htake.le, List.drop_append_of_le_length htake.ge,
          List.drop_of_length_le htake.le, List.nil_append]
        · rfl
        · rw [List.length_append, htake]
          omega

theorem consumed_append (raw behind : Bytes) : consumed (raw ++ behind) behind = raw := by
  rw [consumed, List.length_append, Nat.add_sub_cancel, List.take_left]

theorem readString_of_datum {raw : Bytes} (h : Datum raw (Bytes.utf8 text)) (pos : Nat)
    (tail : Bytes) :
    readString P pos (raw ++ tail) = .ok (text, tail) := by
  rw [readString, h, ok_bind]
  simp only [Text.fromUtf8_eq_some.mpr rfl]
  rfl

theorem readString_eq_ok (h : readString P pos rest = .ok (text, behind)) :
    ∃ raw, rest = raw ++ behind ∧ Datum raw (Bytes.utf8 text) := by
  rw [readString] at h
  obtain ⟨⟨bytes, behind'⟩, hdata, h⟩ := res_bind_eq_ok.mp h
  simp only at h
  split at h
  · rename_i text' htext
    cases h
    rw [← Text.fromUtf8_eq_some.mp htext]
    exact readData_eq_ok hdata
  · cases h

end WritersProof.Anchors.Ots
