/-
  WritersProof.KeyHierarchy.Types

  Certificates, checkpoint signatures and sessions of the key hierarchy
  (crates/cpoe/src/keyhierarchy/types.rs, crypto.rs, error.rs, identity.rs).

  The cryptography of the crates it uses is a parameter.  The TPM quotes and reboot
  counters of a certificate are left out, since no check below reads them.
-/
import WritersProof.Lib.Ed25519
import WritersProof.Lib.Hex
import WritersProof.Lib.Time
import WritersProof.Lib.Vec

namespace WritersProof.KeyHierarchy

open Rust

abbrev Digest := FixedBytes 32

/-- The errors that the functions below return. -/
inductive KeyHierarchyError where
  | ratchetWiped
  | invalidCert
  | ordinalMismatch
  | signatureFailed
  | sessionRecoveryFailed
  | noRecoveryData
  | crypto (message : String)
  deriving DecidableEq

structure Crypto where
  sha256 : Bytes → Digest
  /-- `hkdf_expand(ikm, salt, info)`; 32 bytes are never too many. -/
  hkdf : Bytes → Bytes → Bytes → Digest
  ed25519 : Ed25519
  rfc3339 : DateTime → String
  /-- ChaCha20-Poly1305 of a message under a key, a nonce and associated data -/
  encrypt : Digest → FixedBytes 12 → Bytes → Bytes → Option Bytes
  decrypt : Digest → FixedBytes 12 → Bytes → Bytes → Option Bytes

/-- What signs verifies, and what was encrypted decrypts, a tag of 16 bytes longer. -/
structure Crypto.Correct (C : Crypto) : Prop where
  ed25519 : C.ed25519.Correct
  decrypt_encrypt : ∀ key nonce aad message ciphertext,
    C.encrypt key nonce aad message = some ciphertext →
      C.decrypt key nonce aad ciphertext = some message
  length_encrypt : ∀ key nonce aad message ciphertext,
    C.encrypt key nonce aad message = some ciphertext → ciphertext.length = message.length + 16

/-- `get_response` of a `PufProvider` -/
abbrev Puf := Bytes → Res KeyHierarchyError Bytes

structure MasterIdentity where
  publicKey : Digest
  fingerprint : String

structure SessionCertificate where
  sessionId : Digest
  sessionPubkey : Digest
  createdAt : DateTime
  documentHash : Digest
  masterPubkey : Digest
  signature : FixedBytes 64
  expiresAt : Option DateTime

structure CheckpointSignature where
  ordinal : Nat
  publicKey : Digest
  signature : FixedBytes 64
  checkpointHash : Digest
  counterValue : Option Nat
  counterDelta : Option Nat
  lamportSignature : Option Bytes
  lamportPubkeyFingerprint : Option Bytes
  lamportPublicKey : Option Bytes

structure RatchetState where
  current : Digest
  ordinal : Nat
  wiped : Bool

structure Session where
  certificate : SessionCertificate
  ratchet : RatchetState
  signatures : List CheckpointSignature
  exportCount : Nat

/-- The version, the device and the hardware attestation are left out. -/
structure KeyHierarchyEvidence where
  masterIdentity : Option MasterIdentity
  sessionCertificate : Option SessionCertificate
  checkpointSignatures : List CheckpointSignature
  masterFingerprint : String
  masterPublicKey : Bytes
  sessionId : String
  sessionPublicKey : Bytes
  sessionStarted : DateTime
  sessionCertificateRaw : Bytes
  ratchetCount : Nat
  ratchetPublicKeys : List Bytes

structure SessionRecoveryState where
  certificate : SessionCertificate
  signatures : List CheckpointSignature
  lastRatchetState : Bytes
  exportCount : Nat

/-- `metadata_signing_payload` reads these. -/
structure ChainIntegrityMetadata where
  checkpointCount : Nat
  mmrRoot : Digest
  mmrLeafCount : Nat
  metadataSignature : Option Bytes
  metadataVersion : Nat

def buildCertDataWithExpiry (sessionId sessionPubKey : Digest) (createdAt : DateTime)
    (documentHash : Digest) (expiresAt : Option DateTime) : Bytes :=
  sessionId.val ++ sessionPubKey.val ++ Bytes.toBE 8 (timestampNanos createdAt) ++ documentHash.val
    ++ match expiresAt with
      | some exp => [1] ++ Bytes.toBE 8 (timestampNanos exp)
      | none => []

section Defs

variable (C : Crypto)

def fingerprintForPublicKey (publicKey : Bytes) : String :=
  Hex.encode ((C.sha256 publicKey).val.take 8)

def metadataSigningPayload (metadata : ChainIntegrityMetadata) : Digest :=
  C.sha256 (Bytes.utf8 "cpoe-chain-metadata-v1" ++ Bytes.toBE 8 metadata.checkpointCount
    ++ metadata.mmrRoot.val ++ Bytes.toBE 8 metadata.mmrLeafCount
    ++ Bytes.toBE 4 metadata.metadataVersion)

/-- `derive_signing_key`: the seed of the master key. -/
def deriveSigningKey (puf : Puf) : Res KeyHierarchyError Digest := do
  let challenge := C.sha256 (Bytes.utf8 "cpoe-identity-v1-challenge")
  let pufResponse ← puf challenge.val
  .ok (C.hkdf pufResponse (Bytes.utf8 "cpoe-identity-v1") (Bytes.utf8 "master-seed"))

def masterIdentity (signingKey : Digest) : MasterIdentity :=
  let publicKey := C.ed25519.publicKey signingKey
  { publicKey, fingerprint := Hex.encode ((C.sha256 publicKey.val).val.take 8) }

def deriveMasterIdentity (puf : Puf) : Res KeyHierarchyError MasterIdentity := do
  let signingKey ← deriveSigningKey C puf
  .ok (masterIdentity C signingKey)

end Defs

end WritersProof.KeyHierarchy
