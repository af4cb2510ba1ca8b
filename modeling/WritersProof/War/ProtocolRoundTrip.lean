/-
  WritersProof.War.ProtocolRoundTrip

  Blocks as text, as the protocol crate writes them and reads them back
  (crates/authorproof-protocol/src/war/encoding.rs).

  It writes what the engine writes for a block without the engine's own headers, so that its
  texts may be mistaken for marks as there: control characters alone are taken out of the
  author, and nothing out of the statement.
-/
import WritersProof.War.ArmorRoundTrip

namespace WritersProof.War.Protocol

open Rust FixedBytes
open Evidence (Crates)
open War.Engine (Trimmed NoMark rfc3339Char)

/-! ## Writing -/

section Encode

-- `DateTime::to_rfc3339`
variable (toRfc3339 : DateTime → String)

def headerValues (b : Block) : List (HeaderName × List Char) :=
  [(.version, b.version.text.toList),
      (.author, b.author.toList.filter fun c => !Text.isControl c),
      (.documentId, (Hex.encode b.documentId.val).toList),
      (.timestamp, (toRfc3339 b.timestamp).toList)]
    ++ (b.verifierNonce.map fun nonce =>
        (.verifierNonce, (Hex.encode nonce.val).toList)).toList

def encodedLines (b : Block) : List (List Char) :=
  "-----BEGIN CPoE WAR-----".toList
    :: (headerValues toRfc3339 b).map headerLine
    ++ [[]]
    ++ wordWrap b.statement.toList 72
    ++ [[]]
    ++ ["-----BEGIN SEAL-----".toList]
    ++ Text.chunks 64 b.warSeal.encodeHex.toList
    ++ ["-----END SEAL-----".toList, "-----END CPoE WAR-----".toList]

def Block.encodeAscii (b : Block) : String :=
  String.ofList (Text.unlines (encodedLines toRfc3339 b))

end Encode

/-! ## Tidy blocks -/

/-- A block whose author is trimmed and free of control characters, whose statement has single
    blanks between its words, and which is signed just when its signature is not zero -/
structure Tidy (b : Block) : Prop where
  author : Trimmed b.author.toList
  statement : Text.unwords (Text.words b.statement.toList) = b.statement.toList
  signed : b.signed = decide (b.warSeal.signature ≠ filled 64 0)

structure Faithful (C : Crates) (toRfc3339 : DateTime → String) (b : Block) : Prop where
  timestamp : C.parseRfc3339 (toRfc3339 b.timestamp) = .ok b.timestamp
  author : NoMark (headerLine (.author, b.author.toList))
  statement : ∀ line ∈ wordWrap b.statement.toList 72, NoMark line

def Block.toEngine (b : Block) : War.Block :=
  { version := b.version, author := b.author, documentId := b.documentId
    timestamp := b.timestamp, statement := b.statement
    warSeal :=
      { h1 := b.warSeal.h1, h2 := b.warSeal.h2, h3 := b.warSeal.h3
        signature := b.warSeal.signature, publicKey := b.warSeal.publicKey
        reconstructed := false }
    tool := none, tier := none, score := none, checkpoints := none, durationSecs := none
    evidence := none, signed := b.signed, verifierNonce := b.verifierNonce }

variable {C : Crates} {toRfc3339 : DateTime → String} {b : Block}

theorem Tidy.toEngine (hb : Tidy b) : Engine.Tidy b.toEngine where
  author := hb.author
  tool := nofun
  tier := nofun
  statement := hb.statement
  checkpoints := nofun
  durationSecs := nofun

/-- Both crates write the same of a tidy block. -/
theorem encodeAscii_toEngine (hb : Tidy b) :
    b.encodeAscii toRfc3339 = Engine.encodeAscii toRfc3339 b.toEngine := by
  have hheaders : headerValues toRfc3339 b = Engine.headerValues toRfc3339 b.toEngine := by
    rw [headerValues, hb.author.filter_eq]
    rfl
  have hlines : encodedLines toRfc3339 b = Engine.encodedLines toRfc3339 b.toEngine := by
    rw [encodedLines, hheaders]
    rfl
  rw [Block.encodeAscii, hlines, Engine.encodeAscii]

/-- The texts of a block are its author and its statement. -/
theorem noMark_freeLines_iff :
    (∀ line ∈ Engine.freeLines b.toEngine, NoMark line) ↔
      NoMark (headerLine (.author, b.author.toList))
        ∧ ∀ line ∈ wordWrap b.statement.toList 72, NoMark line :=
  List.forall_mem_cons

/-! ## Reading back -/

theorem readBackProtocol_toEngine (hb : Tidy b) (t : DateTime) :
    Engine.readBackProtocol b.toEngine t = { b with timestamp := t } := by
  rw [Engine.readBackProtocol, Block.mk.injEq]
  exact ⟨rfl, rfl, rfl, rfl, rfl, rfl, hb.signed.symm, rfl⟩

/-- A tidy block is read back just when no line of its texts holds a mark and its timestamp can be
    read back. -/
theorem decode_encode_iff (C : Crates) (toRfc3339 : DateTime → String)
    (hchars : ∀ t, ∀ c ∈ (toRfc3339 t).toList, rfc3339Char c = true) (b : Block) (hb : Tidy b) :
    Block.decodeAscii C (b.encodeAscii toRfc3339) = .ok b ↔ Faithful C toRfc3339 b := by
  rw [encodeAscii_toEngine hb]
  constructor
  · intro h
    have hfree := Engine.noMark_of_decode hb.toEngine hchars h rfl
    obtain ⟨t, ht, hread⟩ := (Engine.protocolDecode_eq_ok hb.toEngine hchars hfree).mp h
    rw [readBackProtocol_toEngine hb] at hread
    have htime : t = b.timestamp := congrArg Block.timestamp hread
    rw [htime] at ht
    obtain ⟨hauthor, hstatement⟩ := noMark_freeLines_iff.mp hfree
    exact
      { timestamp := ht
        author := hauthor
        statement := hstatement }
  · intro h
    have hfree := noMark_freeLines_iff.mpr ⟨h.author, h.statement⟩
    exact (Engine.protocolDecode_eq_ok hb.toEngine hchars hfree).mpr
      ⟨b.timestamp, h.timestamp, readBackProtocol_toEngine hb b.timestamp⟩

/-- A signed block of the first instant -/
def epochBlock : Block :=
  { version := .v1_1, author := "Jo", documentId := filled 32 1, timestamp := .ofNanos 0
    statement := "I wrote this."
    warSeal :=
      { h1 := filled 32 2, h2 := filled 32 3, h3 := filled 32 4
        signature := filled 64 5, publicKey := filled 32 6 }
    signed := true, verifierNonce := some (filled 32 7) }

theorem tidy_epochBlock : Tidy epochBlock where
  author := ⟨by decide, Text.noControl_of_all (by decide)⟩
  statement := by decide
  signed := by decide

theorem decode_encode_epochBlock :
    Block.decodeAscii Engine.epochCrates (epochBlock.encodeAscii Engine.epochText)
      = .ok epochBlock := by
  refine (decode_encode_iff Engine.epochCrates Engine.epochText Engine.epochText_chars epochBlock
    tidy_epochBlock).mpr ⟨rfl, ?_, ?_⟩
  · unfold NoMark
    decide +kernel
  · unfold NoMark
    decide +kernel

def markedBlock : Block := { epochBlock with statement := "Here I write END SEAL twice." }

/-- A statement that names the end of the seal does not come back. -/
theorem decode_encode_ne_markedBlock :
    Tidy markedBlock
      ∧ Block.decodeAscii Engine.epochCrates (markedBlock.encodeAscii Engine.epochText)
        ≠ .ok markedBlock := by
  have htidy : Tidy markedBlock := { tidy_epochBlock with statement := by decide }
  refine ⟨htidy, fun h => ?_⟩
  rw [encodeAscii_toEngine htidy] at h
  have hfree := Engine.noMark_of_decode htidy.toEngine Engine.epochText_chars h rfl
  have hmark :=
    hfree "Here I write END SEAL twice.".toList (by decide +kernel) "END SEAL" (by decide)
  exact absurd hmark (by decide)

end WritersProof.War.Protocol
