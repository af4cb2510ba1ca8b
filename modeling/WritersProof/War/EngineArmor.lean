/-
  WritersProof.War.EngineArmor

  Armored blocks as the protocol crate reads them
  (crates/authorproof-protocol/src/war/encoding.rs, war/types.rs).

  The EAR token of a block is left out: a decoded block has none.

  Blocks as text, as the engine writes and reads it (crates/cpoe/src/war/encoding.rs).

  The time of day that `decode_ascii` takes for a missing timestamp is a parameter, and so
  is the text of a timestamp.
-/
import WritersProof.War.Headers

namespace WritersProof.War.Protocol

open Rust
open Checkpoint (Digest)
open Evidence (Crates)

/-- The cryptographic seal binding all evidence together. -/
structure Seal where
  h1 : Digest
  h2 : Digest
  h3 : Digest
  signature : FixedBytes 64
  publicKey : Digest
  deriving DecidableEq

structure Block where
  version : Version
  author : String
  documentId : Digest
  timestamp : DateTime
  statement : String
  warSeal : Seal
  signed : Bool
  verifierNonce : Option Digest
  deriving DecidableEq

/-- `array.copy_from_slice(&data[a..b])` -/
def copyFromSlice (n : Nat) (data : Bytes) (a b : Nat) : Res String (FixedBytes n) := do
  let part ← Bytes.slice data a b
  unwrap (FixedBytes.tryFrom n part)

def Seal.bytes (s : Seal) : Bytes :=
  s.h1.val ++ s.h2.val ++ s.h3.val ++ s.signature.val ++ s.publicKey.val

def Seal.encodeHex (s : Seal) : String := Hex.encode s.bytes

def Seal.ofBytes (data : Bytes) : Res String Seal := do
  let h1 ← copyFromSlice 32 data 0 32
  let h2 ← copyFromSlice 32 data 32 64
  let h3 ← copyFromSlice 32 data 64 96
  let signature ← copyFromSlice 64 data 96 160
  let publicKey ← copyFromSlice 32 data 160 192
  .ok { h1, h2, h3, signature, publicKey }

section Defs

variable (C : Crates)

def Seal.decodeHex (digits : String) : Res String Seal := do
  let data ← mapErr (C.hexDecode digits) fun e => "invalid seal hex: " ++ e
  reject (data.length ≠ 32 * 3 + 64 + 32)
    s!"invalid seal length: expected {32 * 3 + 64 + 32}, got {data.length}"
  Seal.ofBytes data

/-- The headers that the decoder knows, in the order in which it tries them -/
def names : List HeaderName := [.version, .author, .documentId, .timestamp, .verifierNonce]

structure Header where
  version : Version
  author : String
  documentId : Digest
  timestamp : DateTime
  verifierNonce : Option Digest

def required (headers : Headers) : Res String Header := do
  let version ← okOr headers.version "missing required header: Version"
  let author ← okOr headers.author "missing required header: Author"
  let documentId ← okOr headers.documentId "missing required header: Document-ID"
  let timestamp ← okOr headers.timestamp "missing required header: Timestamp"
  .ok { version, author, documentId, timestamp, verifierNonce := headers.verifierNonce }

def contains (text : String) (line : List Char) : Bool := decide (text.toList <:+: line)

/-- The markers may stand anywhere in their lines, and those of older formats are taken too. -/
def armor : Armor Headers Header Seal where
  isBegin line := contains "BEGIN CPoE WAR" line || contains "BEGIN POP WAR" line
    || contains "BEGIN WRITTEN AUTHORSHIP REPORT" line
  isEnd line := contains "END CPoE WAR" line || contains "END POP WAR" line
    || contains "END WRITTEN AUTHORSHIP REPORT" line
  isSealBegin := contains "BEGIN SEAL"
  isSealEnd := contains "END SEAL"
  isBlank line := Text.trim line = []
  unread := {}
  readHeader := readHeader C names
  required := required
  checksOrder := true
  decodeSeal digits := Seal.decodeHex C (String.ofList digits)

def Block.decodeAscii (text : String) : Res String Block := do
  let (header, statement, decoded) ← (armor C).decode text.toList
  .ok
    { version := header.version
      author := header.author
      documentId := header.documentId
      timestamp := header.timestamp
      statement := String.ofList statement
      warSeal := decoded
      signed := decide (decoded.signature ≠ FixedBytes.filled 64 0)
      verifierNonce := header.verifierNonce }

end Defs

variable {C : Crates}

/-! ## Seals -/

theorem copyFromSlice_of_eq {n a b : Nat} {data : Bytes} (before : Bytes) (part : FixedBytes n)
    (after : Bytes) (hdata : data = before ++ part.val ++ after) (ha : before.length = a)
    (hb : a + n = b) : copyFromSlice n data a b = .ok part := by
  have hlength := part.size_eq
  have htake : (part.val ++ after).take n = part.val := List.take_left' hlength
  have hsub : b - a = n := by omega
  subst hdata
  rw [copyFromSlice, Bytes.slice_eq (by omega) (by simp only [List.length_append]; omega), hsub,
    List.append_assoc, ← ha, List.drop_left, htake, res_ok_bind, FixedBytes.tryFrom_val,
      unwrap_some]

theorem ofBytes_bytes (s : Seal) : Seal.ofBytes s.bytes = .ok s := by
  have hlengths : s.h1.val.length = 32 ∧ s.h2.val.length = 32 ∧ s.h3.val.length = 32
      ∧ s.signature.val.length = 64 :=
    ⟨s.h1.size_eq, s.h2.size_eq, s.h3.size_eq, s.signature.size_eq⟩
  obtain ⟨hh1, hh2, hh3, hsignature⟩ := hlengths
  have h1 : copyFromSlice 32 s.bytes 0 32 = .ok s.h1 :=
    copyFromSlice_of_eq [] s.h1 (s.h2.val ++ s.h3.val ++ s.signature.val ++ s.publicKey.val)
      (by simp [Seal.bytes]) rfl rfl
  have h2 : copyFromSlice 32 s.bytes 32 64 = .ok s.h2 :=
    copyFromSlice_of_eq s.h1.val s.h2 (s.h3.val ++ s.signature.val ++ s.publicKey.val)
      (by simp [Seal.bytes]) hh1 rfl
  have h3 : copyFromSlice 32 s.bytes 64 96 = .ok s.h3 :=
    copyFromSlice_of_eq (s.h1.val ++ s.h2.val) s.h3 (s.signature.val ++ s.publicKey.val)
      (by simp [Seal.bytes]) (by rw [List.length_append, hh1, hh2]) rfl
  have h4 : copyFromSlice 64 s.bytes 96 160 = .ok s.signature :=
    copyFromSlice_of_eq (s.h1.val ++ s.h2.val ++ s.h3.val) s.signature s.publicKey.val
      (by simp [Seal.bytes]) (by simp only [List.length_append, hh1, hh2, hh3]) rfl
  have h5 : copyFromSlice 32 s.bytes 160 192 = .ok s.publicKey :=
    copyFromSlice_of_eq (s.h1.val ++ s.h2.val ++ s.h3.val ++ s.signature.val) s.publicKey []
      (by simp [Seal.bytes]) (by simp only [List.length_append, hh1, hh2, hh3, hsignature]) rfl
  rw [Seal.ofBytes, h1, res_ok_bind, h2, res_ok_bind, h3, res_ok_bind, h4, res_ok_bind, h5,
    res_ok_bind]

theorem exists_bytes_eq {data : Bytes} (h : data.length = 192) : ∃ s : Seal, s.bytes = data := by
  have hpart : ∀ a n, a + n ≤ 192 → ((data.drop a).take n).length = n := by
    intro a n hn
    rw [List.length_take, List.length_drop]
    omega
  refine ⟨{ h1 := ⟨_, hpart 0 32 (by omega)⟩, h2 := ⟨_, hpart 32 32 (by omega)⟩
            h3 := ⟨_, hpart 64 32 (by omega)⟩, signature := ⟨_, hpart 96 64 (by omega)⟩
            publicKey := ⟨_, hpart 160 32 (by omega)⟩ }, ?_⟩
  have hlast : (data.drop 160).take 32 = data.drop 160 :=
    List.take_of_length_le (by rw [List.length_drop]; omega)
  show (data.drop 0).take 32 ++ (data.drop 32).take 32 ++ (data.drop 64).take 32
    ++ (data.drop 96).take 64 ++ (data.drop 160).take 32 = data
  rw [hlast, List.drop_zero, ← List.take_add, ← List.take_add, ← List.take_add,
    List.take_append_drop]

theorem decodeHex_eq_ok {digits : String} {s : Seal} :
    Seal.decodeHex C digits = .ok s ↔ Hex.decode digits = some s.bytes := by
  unfold Seal.decodeHex
  rw [mapErr_bind_eq_ok]
  constructor
  · rintro ⟨data, hdata, h⟩
    obtain ⟨hlength, h⟩ := reject_bind_eq_ok.mp h
    obtain ⟨s', rfl⟩ := exists_bytes_eq (not_not.mp hlength)
    rw [ofBytes_bytes] at h
    rw [← Except.ok.inj h]
    exact Crates.hexDecode_eq_ok.mp hdata
  · intro h
    refine ⟨s.bytes, Crates.hexDecode_eq_ok.mpr h, reject_bind_eq_ok.mpr ⟨?_, ofBytes_bytes s⟩⟩
    simp [Seal.bytes, FixedBytes.length_val]

theorem decodeHex_ne_abort (digits : String) : Seal.decodeHex C digits ≠ abort := by
  unfold Seal.decodeHex
  refine res_bind_ne_abort ?_ fun data _ => ?_
  · cases C.hexDecode digits <;> exact nofun
  refine res_bind_ne_abort reject_ne_abort fun _ hlength => ?_
  obtain ⟨s, rfl⟩ := exists_bytes_eq (not_not.mp (reject_eq_ok.mp hlength))
  rw [ofBytes_bytes]
  exact nofun

/-! ## Blocks -/

theorem required_ne_abort (headers : Headers) : required headers ≠ abort := by
  unfold required
  refine okOr_bind_ne_abort fun _ => ?_
  refine okOr_bind_ne_abort fun _ => ?_
  refine okOr_bind_ne_abort fun _ => ?_
  exact okOr_bind_ne_abort fun _ => nofun

theorem exists_required_iff (headers : Headers) :
    (∃ header, required headers = .ok header) ↔ ∀ name ∈ requiredNames, headers.has name := by
  simp [required, requiredNames, Headers.has, res_bind_eq_ok, Option.isSome_iff_exists]

theorem armor_total : (armor C).Total where
  readHeader := readHeader_ne_abort
  required := required_ne_abort
  decodeSeal _ := decodeHex_ne_abort _

/-- Each header line can be read, and none of the required headers is missing. -/
def HeadersOk (C : Crates) (hs : List (List Char)) : Prop :=
  (∀ line ∈ hs, HeaderOk C names line) ∧ ∀ name ∈ requiredNames, ∃ line ∈ hs, name.text <+: line

theorem headersOk_iff {hs : List (List Char)} : (armor C).HeadersOk hs ↔ HeadersOk C hs := by
  have hhas : ∀ {read : Headers}, hs.foldlM (readHeader C names) {} = .ok read →
      ((∀ name ∈ requiredNames, read.has name) ↔
        ∀ name ∈ requiredNames, ∃ line ∈ hs, name.text <+: line) := by
    intro read hread
    have hunread : ∀ name ∈ requiredNames, ¬ Headers.has {} name := by decide
    have hnames : ∀ name ∈ requiredNames, name ∈ names := by decide
    refine forall₂_congr fun name hname => ?_
    rw [has_of_readHeaders hread hname (hnames name hname), or_iff_right (hunread name hname)]
  constructor
  · rintro ⟨read, header, hread, hrequired⟩
    exact ⟨(exists_readHeaders_iff _ hs).mp ⟨read, hread⟩,
      (hhas hread).mp ((exists_required_iff read).mp ⟨header, hrequired⟩)⟩
  · rintro ⟨hlines, hnames⟩
    obtain ⟨read, hread⟩ := (exists_readHeaders_iff {} hs).mpr hlines
    obtain ⟨header, hrequired⟩ := (exists_required_iff read).mpr ((hhas hread).mpr hnames)
    exact ⟨read, header, hread, hrequired⟩

/-- In a report whose headers can be read, and do not hold the first mark that begins a seal, this
    stands before the first mark that ends one. -/
def SealInOrder (C : Crates) (text : String) : Prop :=
  ∀ report sealStart sealEnd, (armor C).IsReport text.toList report →
    HeadersOk C ((armor C).headerLines report) →
    report.findIdx? (contains "BEGIN SEAL") = some sealStart →
    report.findIdx? (contains "END SEAL") = some sealEnd →
    (armor C).headerEnd report < sealStart → sealStart < sealEnd

/-- The decoder of blocks returns on the texts whose seal is in order, and that of seals on all. -/
theorem decodeAscii_returns_iff (text : String) :
    (Block.decodeAscii C text ≠ abort ↔ SealInOrder C text)
      ∧ ∀ digits, Seal.decodeHex C digits ≠ abort := by
  refine ⟨?_, decodeHex_ne_abort⟩
  have hblock : Block.decodeAscii C text = abort ↔ (armor C).decode text.toList = abort := by
    unfold Block.decodeAscii
    rw [res_bind_eq_abort]
    exact or_iff_left (by rintro ⟨_, -, h⟩; cases h)
  rw [Ne, hblock, Armor.decode_eq_abort_iff armor_total]
  simp only [headersOk_iff, SealInOrder]
  constructor
  · intro h report sealStart sealEnd hreport hheaders hstart hend hbehind
    by_contra hle
    exact h ⟨report, sealStart, sealEnd, hreport, hheaders, hstart, hend, fun _ => hbehind,
      .inr (Nat.not_lt.mp hle)⟩
  · rintro h ⟨report, sealStart, sealEnd, hreport, hheaders, hstart, hend, horder, hle⟩
    have hbehind := horder rfl
    have := h report sealStart sealEnd hreport hheaders hstart hend hbehind
    omega

def sealEndsFirst : List (List Char) :=
  ["-----BEGIN CPoE WAR-----".toList, "Version: WAR/1.1".toList, "Author: a".toList,
    "Document-ID: 0000000000000000000000000000000000000000000000000000000000000000".toList,
    "Timestamp: 2026-01-01T00:00:00Z".toList, [], "statement".toList, [],
    "-----END SEAL-----".toList, "-----BEGIN SEAL-----".toList, "-----END CPoE WAR-----".toList]

/-- The slice of the seal would start behind its end. -/
theorem decodeAscii_aborts_sealEndsFirst :
    Block.decodeAscii Evidence.sumCrates (String.ofList (Text.unlines sealEndsFirst)) = abort := by
  have hlines : Text.lines (Text.unlines sealEndsFirst) = sealEndsFirst :=
    Text.lines_unlines fun l hl =>
      Text.isLine_of_noControl (Text.noControl_of_all (by revert l; decide +kernel))
  rw [Block.decodeAscii, String.toList_ofList, Armor.decode, hlines]
  decide +kernel

end WritersProof.War.Protocol

namespace WritersProof.War.Engine

open Rust
open Checkpoint (Digest)
open Evidence (Crates)
open War.Protocol (contains)

/-! ## Writing -/

section Encode

-- `DateTime::to_rfc3339`
variable (toRfc3339 : DateTime → String)

def headerValues (b : Block) : List (HeaderName × List Char) :=
  [(.version, b.version.text.toList), (.author, b.author.toList),
      (.documentId, (Hex.encode b.documentId.val).toList),
      (.timestamp, (toRfc3339 b.timestamp).toList)]
    ++ (b.tool.map fun tool =>
        (.tool, tool.toList.filter fun c => !Text.isControl c)).toList
    ++ (b.tier.map fun tier => (.tier, tier.toList)).toList
    ++ (b.score.map fun score => (.score, (toString score.toNat).toList)).toList
    ++ (b.checkpoints.map fun cp => (.checkpoints, (toString cp).toList)).toList
    ++ (b.durationSecs.map fun dur => (.duration, (toString dur).toList)).toList
    ++ (b.verifierNonce.map fun nonce =>
        (.verifierNonce, (Hex.encode nonce.val).toList)).toList

def encodeHex (s : Seal) : String :=
  Hex.encode (s.h1.val ++ s.h2.val ++ s.h3.val ++ s.signature.val ++ s.publicKey.val)

def encodedLines (b : Block) : List (List Char) :=
  "-----BEGIN CPoE WAR-----".toList
    :: (headerValues toRfc3339 b).map headerLine
    ++ [[]]
    ++ wordWrap b.statement.toList 72
    ++ [[]]
    ++ ["-----BEGIN SEAL-----".toList]
    ++ Text.chunks 64 (encodeHex b.warSeal).toList
    ++ ["-----END SEAL-----".toList, "-----END CPoE WAR-----".toList]

def encodeAscii (b : Block) : String := String.ofList (Text.unlines (encodedLines toRfc3339 b))

end Encode

/-! ## Reading -/

section Decode

variable (C : Crates)

/-- The headers that the decoder knows, in the order in which it tries them -/
def names : List HeaderName :=
  [.version, .author, .documentId, .timestamp, .tool, .tier, .score, .checkpoints, .duration,
    .verifierNonce]

def decodeHex (digits : String) : Res String Seal := do
  let s ← Protocol.Seal.decodeHex C digits
  .ok { h1 := s.h1, h2 := s.h2, h3 := s.h3, signature := s.signature, publicKey := s.publicKey
        reconstructed := false }

def armor : Armor Headers Headers Seal where
  isBegin := contains "BEGIN CPoE WAR"
  isEnd := contains "END CPoE WAR"
  isSealBegin := contains "-----BEGIN SEAL-----"
  isSealEnd := contains "-----END SEAL-----"
  isBlank line := line = []
  unread := {}
  readHeader := readHeader C names
  required headers := .ok headers
  checksOrder := false
  decodeSeal digits := decodeHex C (String.ofList digits)

def decodeAscii (now : Int) (text : String) : Res String Block := do
  let (headers, statement, decoded) ← (armor C).decode text.toList
  .ok
    { version := headers.version.getD .v1_0
      author := headers.author.getD ""
      documentId := headers.documentId.getD (FixedBytes.filled 32 0)
      timestamp := headers.timestamp.getD (.ofNanos now)
      statement := String.ofList statement
      warSeal := decoded
      tool := headers.tool
      tier := headers.tier
      score := headers.score
      checkpoints := headers.checkpoints
      durationSecs := headers.duration
      evidence := none
      signed := decide (decoded.signature ≠ FixedBytes.filled 64 0)
      verifierNonce := headers.verifierNonce }

end Decode

variable {C : Crates}

/-! ## The texts on which the decoder returns -/

theorem decodeHex_ne_abort (digits : String) : decodeHex C digits ≠ abort :=
  res_bind_ne_abort (Protocol.decodeHex_ne_abort digits) fun _ _ => nofun

theorem armor_total : (armor C).Total where
  readHeader := readHeader_ne_abort
  required _ := nofun
  decodeSeal _ := decodeHex_ne_abort _

theorem headersOk_iff {hs : List (List Char)} :
    (armor C).HeadersOk hs ↔ ∀ line ∈ hs, HeaderOk C names line := by
  rw [← exists_readHeaders_iff {}]
  constructor
  · rintro ⟨read, _, hread, -⟩
    exact ⟨read, hread⟩
  · rintro ⟨read, hread⟩
    exact ⟨read, read, hread, rfl⟩

/-- In a report whose headers can be read, the first mark that begins a seal stands behind the line
    that ends the headers, and before the first mark that ends a seal. -/
def SealInOrder (C : Crates) (text : String) : Prop :=
  ∀ report sealStart sealEnd, (armor C).IsReport text.toList report →
    (∀ line ∈ (armor C).headerLines report, HeaderOk C names line) →
    report.findIdx? (contains "-----BEGIN SEAL-----") = some sealStart →
    report.findIdx? (contains "-----END SEAL-----") = some sealEnd →
    (armor C).headerEnd report < sealStart ∧ sealStart < sealEnd

/-- The texts on which the decoder returns. It does not look where the seal is, so that one among
    the headers aborts it too. -/
theorem decodeAscii_ne_abort_iff (now : Int) (text : String) :
    decodeAscii C now text ≠ abort ↔ SealInOrder C text := by
  have hblock : decodeAscii C now text = abort ↔ (armor C).decode text.toList = abort := by
    unfold decodeAscii
    rw [res_bind_eq_abort]
    exact or_iff_left (by rintro ⟨_, -, h⟩; cases h)
  rw [Ne, hblock, Armor.decode_eq_abort_iff armor_total]
  simp only [headersOk_iff, SealInOrder]
  constructor
  · intro h report sealStart sealEnd hreport hheaders hstart hend
    by_contra hnot
    refine h ⟨report, sealStart, sealEnd, hreport, hheaders, hstart, hend, nofun, ?_⟩
    omega
  · rintro h ⟨report, sealStart, sealEnd, hreport, hheaders, hstart, hend, -, hle⟩
    have := h report sealStart sealEnd hreport hheaders hstart hend
    omega

end WritersProof.War.Engine
