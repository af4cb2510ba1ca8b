/-
  WritersProof.War.Block

  Written Authorship Report blocks: a packet, its seal and a header
  (crates/cpoe/src/war/mod.rs, war/types.rs, crates/authorproof-protocol/src/war/types.rs).

  The RFC 3161 token and the EAR token of a block are left out: a new block has none, and
  no check below reads them.
-/
import WritersProof.War.Seal

namespace WritersProof.War

open Rust
open Checkpoint (Digest)
open Evidence (Packet Crates TrustTier)

inductive Version where
  | v1_0
  | v1_1
  | v2_0
  deriving DecidableEq

def Version.text : Version → String
  | .v1_0 => "WAR/1.0"
  | .v1_1 => "WAR/1.1"
  | .v2_0 => "WAR/2.0"

/-- A WAR (Written Authorship Report) evidence block. -/
structure Block where
  version : Version
  author : String
  /-- SHA-256 of final content -/
  documentId : Digest
  timestamp : DateTime
  statement : String
  warSeal : Seal
  tool : Option String
  tier : Option String
  score : Option UInt8
  checkpoints : Option Nat
  durationSecs : Option Nat
  evidence : Option Packet
  signed : Bool
  verifierNonce : Option Digest
  deriving DecidableEq

/-- The extent of AI use, as the tool line of a block has it. -/
def extentText : Declaration.AiExtent → String
  | .none => "none"
  | .minimal => "minor"
  | .moderate => "moderate"
  | .substantial => "substantial"

def toolText (declaration : Declaration) : String :=
  match declaration.aiTools with
  | [] => "none"
  | t :: _ => "ai:" ++ t.tool ++ ":" ++ extentText t.extent

def tierText : TrustTier → String
  | .local_ => "T1"
  | .signed => "T2"
  | .nonceBound => "T3"
  | .attested => "T4"

/-- Whole seconds from the first checkpoint to the last; there are two at least. -/
def spanSecs (packet : Packet) : Option Nat :=
  if 2 ≤ packet.checkpoints.length then
    match packet.checkpoints.head?, packet.checkpoints.getLast? with
    | some first, some last => some (last.timestamp.secondsSince first.timestamp).toNat
    | _, _ => none
  else none

def sealSigDst : Bytes := Bytes.utf8 "cpoe-war-seal-v1"

def Seal.signedMessage (s : Seal) : Bytes := sealSigDst ++ s.h3.val

section Defs

variable (C : Crates)

def Block.fromPacket (packet : Packet) : Res String Block := do
  let declaration ← okOr packet.declaration "evidence packet missing declaration"
  let version := if declaration.hasJitterSeal then Version.v1_1 else Version.v1_0
  let documentId ← mapErr (C.hexDecode packet.document.finalHash)
    fun e => "invalid document hash: " ++ e
  let documentId ← okOr (FixedBytes.tryFrom 32 documentId) "document hash must be 32 bytes"
  let author :=
    if declaration.authorPublicKey.length = 32 then
      -- the first 16 of the digits
      "key:" ++ Hex.encode (declaration.authorPublicKey.take 8)
    else "unknown"
  let computed ← computeSeal C packet declaration
  .ok { version, author, documentId
        timestamp := packet.exportedAt
        statement := declaration.statement
        warSeal := computed
        tool := some (toolText declaration)
        tier := some (tierText (packet.trustTier.getD .local_))
        score := none
        checkpoints := some packet.checkpoints.length
        durationSecs := spanSecs packet
        evidence := some packet
        signed := false
        verifierNonce := packet.verifierNonce }

def Block.sign (b : Block) (signer : EvidenceSigner) : Res String Block := do
  let _ ← mapErr C.integrityCheck fun e => "integrity check failed: " ++ e
  let signature ← mapErr (signer.sign b.warSeal.signedMessage) fun e => "signing failed: " ++ e
  let signature ← okOr (FixedBytes.tryFrom 64 signature)
    s!"invalid signature length: expected 64, got {signature.length}"
  .ok { b with warSeal := { b.warSeal with signature }, signed := true }

def Block.fromPacketSigned (packet : Packet) (signer : EvidenceSigner) : Res String Block := do
  let b ← Block.fromPacket C packet
  b.sign C signer

end Defs

variable {C : Crates}

structure MadeFrom (C : Crates) (packet : Packet) (b : Block) : Prop where
  evidence : b.evidence = some packet
  declaration : ∃ declaration contents, packet.declaration = some declaration
    ∧ Sealed C packet declaration contents
    ∧ b.warSeal = sealOf C contents ∧ b.statement = declaration.statement
  documentId : Hex.decode packet.document.finalHash = some b.documentId.val
  verifierNonce : b.verifierNonce = packet.verifierNonce

theorem fromPacket_eq_ok {packet : Packet} {b : Block} (h : Block.fromPacket C packet = .ok b) :
    MadeFrom C packet b := by
  unfold Block.fromPacket at h
  simp only [res_bind_eq_ok, okOr_eq_ok, mapErr_eq_ok, Crates.hexDecode_eq_ok,
    FixedBytes.tryFrom_eq_some, computeSeal_eq_ok] at h
  obtain ⟨declaration, hdecl, _, hdoc, documentId, rfl, _, ⟨contents, hsealed, rfl⟩, h⟩ := h
  obtain rfl := Except.ok.inj h
  exact ⟨rfl, ⟨declaration, contents, hdecl, hsealed, rfl, rfl⟩, hdoc, rfl⟩

theorem exists_fromPacket {packet : Packet} {declaration : Declaration} {documentId : Digest}
    (hdecl : packet.declaration = some declaration)
    (hdoc : Hex.decode packet.document.finalHash = some documentId.val) :
    (∃ b, Block.fromPacket C packet = .ok b) ↔
      ∃ contents, Sealed C packet declaration contents := by
  unfold Block.fromPacket
  simp only [res_bind_eq_ok, okOr_eq_ok, mapErr_eq_ok, Crates.hexDecode_eq_ok,
    FixedBytes.tryFrom_eq_some, computeSeal_eq_ok]
  constructor
  · rintro ⟨b, declaration', hdecl', _, _, _, _, _, ⟨contents, hsealed, _⟩, _⟩
    obtain rfl := Option.some.inj (hdecl.symm.trans hdecl')
    exact ⟨contents, hsealed⟩
  · rintro ⟨contents, hsealed⟩
    exact ⟨_, declaration, hdecl, _, hdoc, documentId, rfl, _, ⟨contents, hsealed, rfl⟩, rfl⟩

theorem sign_eq_ok {b signed : Block} {seed : Digest} :
    b.sign C (Ed25519Signer C.ed25519 seed) = .ok signed ↔
      C.integrityCheck = .ok ()
        ∧ signed = { b with
            warSeal := { b.warSeal with
              signature := C.ed25519.sign seed b.warSeal.signedMessage }
            signed := true } := by
  unfold Block.sign Ed25519Signer
  simp only [res_bind_eq_ok, okOr_eq_ok, mapErr_eq_ok, Except.ok.injEq, FixedBytes.tryFrom_eq_some]
  constructor
  · rintro ⟨_, hcheck, _, rfl, signature, hsignature, rfl⟩
    rw [FixedBytes.ext_val hsignature]
    exact ⟨hcheck, rfl⟩
  · rintro ⟨hcheck, rfl⟩
    exact ⟨(), hcheck, _, rfl, _, rfl, rfl⟩

end WritersProof.War
