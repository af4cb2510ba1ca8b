/-
  WritersProof.KeyHierarchy.Verification

  The checks on what a session has signed, and its recovery
  (crates/cpoe/src/keyhierarchy/verification.rs, recovery.rs).
-/
import WritersProof.KeyHierarchy.Session

namespace WritersProof.KeyHierarchy

open Rust

/-! ## Checkpoint signatures -/

/-- The last counter seen, and whether the signature before this one had it. -/
structure CounterState where
  prevCounter : Option Nat
  prevWasAdjacent : Bool

/-- A counter does not go back, and a delta is the difference to an adjacent one. -/
def verifyCounter (st : CounterState) (sig : CheckpointSignature) :
    Res KeyHierarchyError CounterState :=
  match sig.counterValue with
  | none => .ok { st with prevWasAdjacent := false }
  | some current => do
    match st.prevCounter with
    | none => .ok { prevCounter := some current, prevWasAdjacent := true }
    | some prev =>
      reject (current < prev)
        (.crypto s!"counter rollback at ordinal {sig.ordinal}: {current} < {prev}")
      match st.prevWasAdjacent, sig.counterDelta with
      | true, some delta =>
        reject (delta ≠ current - prev)
          (.crypto (s!"counter delta mismatch at ordinal {sig.ordinal}: "
            ++ s!"delta {delta} != {current} - {prev}"))
        .ok { prevCounter := some current, prevWasAdjacent := true }
      | _, _ => .ok { prevCounter := some current, prevWasAdjacent := true }

section Defs

variable (C : Crypto)

/-- `VerifyingKey::from_bytes` and `verify`, with one error for both. -/
def verifyEd25519 (publicKey : Digest) (message : Bytes) (signature : FixedBytes 64)
    (e : KeyHierarchyError) : Res KeyHierarchyError Unit := do
  reject (C.ed25519.validKey publicKey = false) e
  reject (C.ed25519.verify publicKey message signature = false) e

def verifyLamport (sig : CheckpointSignature) : Res KeyHierarchyError Unit :=
  match sig.lamportSignature with
  | none => .ok ()
  | some lamportBytes => do
    let lamportSig ← okOr (LamportSignature.fromBytes lamportBytes)
      (.crypto s!"invalid Lamport signature length at ordinal {sig.ordinal}")
    match sig.lamportPublicKey with
    | some pubkeyBytes => do
      let lamportPubkey ← okOr (LamportPublicKey.fromBytes pubkeyBytes)
        (.crypto s!"invalid Lamport public key length at ordinal {sig.ordinal}")
      reject (∃ fp ∈ sig.lamportPubkeyFingerprint, fp ≠ lamportPubkey.fingerprint C.sha256)
        (.crypto s!"Lamport public key fingerprint mismatch at ordinal {sig.ordinal}")
      reject (lamportPubkey.verify C.sha256 sig.checkpointHash lamportSig = false)
        (.crypto s!"Lamport signature verification failed at ordinal {sig.ordinal}")
    | none =>
      reject (lamportSig.revealed.length ≠ 256 * 32)
        (.crypto s!"Lamport signature wrong size at ordinal {sig.ordinal}")

def verifyCheckpointSignature (i : Nat) (st : CounterState) (sig : CheckpointSignature) :
    Res KeyHierarchyError CounterState := do
  reject (sig.ordinal ≠ i) .ordinalMismatch
  verifyEd25519 C sig.publicKey sig.checkpointHash.val sig.signature .signatureFailed
  verifyLamport C sig
  verifyCounter st sig

/-- `for (i, sig) in signatures.iter().enumerate() { ... }` -/
def scanSignatures : Nat → CounterState → List CheckpointSignature →
    Res KeyHierarchyError CounterState
  | _, st, [] => .ok st
  | i, st, sig :: sigs => do
    let st ← verifyCheckpointSignature C i st sig
    scanSignatures (i + 1) st sigs

def verifyCheckpointSignatures (signatures : List CheckpointSignature) :
    Res KeyHierarchyError Unit := do
  let _ ← scanSignatures C 0 { prevCounter := none, prevWasAdjacent := false } signatures
  .ok ()

/-! ## Certificates and evidence -/

def verifySessionCertificate (now : Int) (cert : SessionCertificate) :
    Res KeyHierarchyError Unit := do
  reject (∃ expiresAt ∈ cert.expiresAt, expiresAt < .ofNanos now)
    (.crypto "session certificate has expired")
  let certData := buildCertDataWithExpiry cert.sessionId cert.sessionPubkey cert.createdAt
    cert.documentHash cert.expiresAt
  verifyEd25519 C cert.masterPubkey certData cert.signature .invalidCert

def verifyRatchetKeyConsistency (evidence : KeyHierarchyEvidence) : Res KeyHierarchyError Unit := do
  reject (evidence.ratchetPublicKeys.length ≠ evidence.checkpointSignatures.length)
    (.crypto (s!"ratchet key count ({evidence.ratchetPublicKeys.length}) != "
      ++ s!"checkpoint signature count ({evidence.checkpointSignatures.length})"))
  forEach (fun entry => reject (entry.1.1 ≠ entry.1.2.publicKey.val)
      (.crypto (s!"ratchet key mismatch at ordinal {entry.2}: "
        ++ "evidence claims different key than signature")))
    (evidence.ratchetPublicKeys.zip evidence.checkpointSignatures).zipIdx

def verifyKeyHierarchy (now : Int) (evidence : KeyHierarchyEvidence) :
    Res KeyHierarchyError Unit := do
  let cert ← okOr evidence.sessionCertificate .invalidCert
  verifySessionCertificate C now cert
  reject (∃ identity ∈ evidence.masterIdentity, identity.publicKey ≠ cert.masterPubkey) .invalidCert
  reject (evidence.masterPublicKey = []) .invalidCert
  reject (fingerprintForPublicKey C evidence.masterPublicKey ≠ evidence.masterFingerprint)
    .invalidCert
  reject (evidence.ratchetCount ≠ Session.countI32 evidence.checkpointSignatures.length)
    .invalidCert
  verifyRatchetKeyConsistency evidence
  verifyCheckpointSignatures C evidence.checkpointSignatures

/-! ## Recovery -/

/-- `s.ordinal.saturating_add(1)` of the last signature, 0 when there is none -/
def nextOrdinal (signatures : List CheckpointSignature) : Nat :=
  match signatures.getLast? with
  | some sig => min (sig.ordinal + 1) (2 ^ 64 - 1)
  | none => 0

def recoverRatchetV2Aead (puf : Puf) (recovery : SessionRecoveryState) :
    Res KeyHierarchyError Session := do
  let data := recovery.lastRatchetState
  reject (data.length < 13 + 16) .sessionRecoveryFailed
  let nonce ← okOr (FixedBytes.tryFrom 12 ((data.drop 1).take 12)) .sessionRecoveryFailed
  let key ← Session.recoveryKey C puf
  let plaintext ← okOr
    (C.decrypt key nonce (Bytes.toBE 8 recovery.signatures.length) (data.drop 13))
    .sessionRecoveryFailed
  reject (plaintext.length < 48) .sessionRecoveryFailed
  let ratchetState ← okOr (FixedBytes.tryFrom 32 (plaintext.take 32)) .sessionRecoveryFailed
  let ordinal := Bytes.ofBE ((plaintext.drop 32).take 8)
  let exportCount := Bytes.ofBE ((plaintext.drop 40).take 8)
  reject (ordinal ≠ nextOrdinal recovery.signatures) .sessionRecoveryFailed
  .ok { certificate := recovery.certificate
        ratchet := { current := ratchetState, ordinal, wiped := false }
        signatures := recovery.signatures
        exportCount }

def byteText (b : UInt8) : String := "0x" ++ Hex.encode [b]

def recoverSessionWithRatchet (puf : Puf) (recovery : SessionRecoveryState) :
    Res KeyHierarchyError Session :=
  match recovery.lastRatchetState with
  | [] => fail .sessionRecoveryFailed
  | v :: _ =>
    if v = 2 then recoverRatchetV2Aead C puf recovery
    else
      fail (.crypto (s!"Recovery data uses legacy format (version byte {byteText v}) which is no "
        ++ "longer supported due to its unauthenticated XOR cipher. Use an older release of "
        ++ "WritersLogic to migrate your recovery state to v2 AEAD before upgrading."))

def recoverSessionWithNewRatchet (puf : Puf) (recovery : SessionRecoveryState) :
    Res KeyHierarchyError Session := do
  let response ← puf (C.sha256 (Bytes.utf8 "cpoe-ratchet-continuation-v1")).val
  let lastHash := (recovery.signatures.getLast?.map CheckpointSignature.checkpointHash).getD
    (FixedBytes.filled 32 0)
  let continuationInput := response ++ lastHash.val ++ recovery.certificate.sessionId.val
  let current := C.hkdf continuationInput (Bytes.utf8 "cpoe-ratchet-init-v1")
    (Bytes.utf8 "continuation")
  .ok { certificate := recovery.certificate
        ratchet := { current, ordinal := nextOrdinal recovery.signatures, wiped := false }
        signatures := recovery.signatures
        exportCount := 0 }

def recoveryMaxAgeSecs : Int := 7 * 24 * 3600

def recoverSession (puf : Puf) (now : Int) (recovery : SessionRecoveryState)
    (documentHash : Digest) : Res KeyHierarchyError Session := do
  let cert := recovery.certificate
  reject (cert.sessionId = FixedBytes.filled 32 0) .noRecoveryData
  verifySessionCertificate C now cert
  reject (cert.expiresAt = none ∧
      recoveryMaxAgeSecs < (DateTime.ofNanos now).secondsSince cert.createdAt)
    (.crypto "session recovery state has exceeded maximum age")
  reject (cert.documentHash ≠ documentHash) .sessionRecoveryFailed
  let identity ← deriveMasterIdentity C puf
  reject (identity.publicKey ≠ cert.masterPubkey) .sessionRecoveryFailed
  if recovery.lastRatchetState = [] then recoverSessionWithNewRatchet C puf recovery
  else recoverSessionWithRatchet C puf recovery

end Defs

end WritersProof.KeyHierarchy
