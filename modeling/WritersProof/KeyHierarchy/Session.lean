/-
  WritersProof.KeyHierarchy.Session

  Lamport one-shot signatures of 256-bit messages (crates/cpoe/src/crypto/lamport.rs).

  A key is 512 secrets of 32 bytes, two for each bit of the message, and the public
  key is their hashes.  A signature shows one secret of each pair.

  A session signs with a ratchet: every signature is made with a key of its own, and
  what was signed is hashed into the next state
  (crates/cpoe/src/keyhierarchy/session.rs).
-/
import WritersProof.KeyHierarchy.Types

namespace WritersProof.KeyHierarchy

open Rust Bytes

def window (data : Bytes) (k : Nat) : Bytes := (data.drop (k * 32)).take 32

theorem window_flatMap {f : Nat → FixedBytes 32} {n i : Nat} (h : i < n) :
    window ((List.range n).flatMap fun j => (f j).val) i = (f i).val := by
  have henc : ∀ j, ((fun j => (f j).val) j).length = 32 := fun j => (f j).length_val
  have hi : (List.range n)[i]? = some i := List.getElem?_range h
  have hlength : (((List.range n).take i).flatMap fun j => (f j).val).length = i * 32 := by
    rw [length_flatMap_records henc, List.length_take, List.length_range,
      Nat.min_eq_left (Nat.le_of_lt h)]
  rw [window, flatMap_split _ hi, List.append_assoc, ← hlength, List.drop_left]
  exact List.take_left' (f i).length_val

theorem length_flatMap_range (f : Nat → FixedBytes 32) (n : Nat) :
    ((List.range n).flatMap fun j => (f j).val).length = n * 32 := by
  rw [length_flatMap_records fun j => (f j).length_val, List.length_range]

/-- The secrets, one after the other. -/
structure LamportPrivateKey where
  secrets : Bytes

structure LamportPublicKey where
  hashes : Bytes

structure LamportSignature where
  revealed : Bytes

def bit (msgHash : FixedBytes 32) (i : Nat) : Nat :=
  (msgHash.val.getD (i / 8) 0).toNat / 2 ^ (7 - i % 8) % 2

theorem bit_lt (msgHash : FixedBytes 32) (i : Nat) : bit msgHash i < 2 := Nat.mod_lt _ Nat.two_pos

section Defs

variable (sha256 : Bytes → FixedBytes 32)

namespace LamportPrivateKey

def secret (seed : FixedBytes 32) (i : Nat) : FixedBytes 32 :=
  sha256 (utf8 "cpoe-lamport-v1" ++ seed.val ++ toLE 4 i)

def fromSeed (seed : FixedBytes 32) : LamportPrivateKey × LamportPublicKey :=
  ({ secrets := (List.range (256 * 2)).flatMap fun i => (secret sha256 seed i).val },
    { hashes := (List.range (256 * 2)).flatMap fun i => (sha256 (secret sha256 seed i).val).val })

def sign (key : LamportPrivateKey) (msgHash : FixedBytes 32) : LamportSignature :=
  { revealed := (List.range 256).flatMap fun i => window key.secrets (i * 2 + bit msgHash i) }

end LamportPrivateKey

namespace LamportSignature

def fromBytes (bytes : Bytes) : Option LamportSignature :=
  if bytes.length = 256 * 32 then some { revealed := bytes } else none

end LamportSignature

namespace LamportPublicKey

def fromBytes (bytes : Bytes) : Option LamportPublicKey :=
  if bytes.length = 256 * 2 * 32 then some { hashes := bytes } else none

def verify (key : LamportPublicKey) (msgHash : FixedBytes 32) (sig : LamportSignature) : Bool :=
  sig.revealed.length = 256 * 32 && (List.range 256).all fun i =>
    (sha256 (window sig.revealed i)).val = window key.hashes (i * 2 + bit msgHash i)

def fingerprint (key : LamportPublicKey) : Bytes := (sha256 key.hashes).val.take 8

end LamportPublicKey

end Defs

/-! ## What the signer makes passes the verifier -/

variable {sha256 : Bytes → FixedBytes 32} {seed msgHash : FixedBytes 32}

open LamportPrivateKey

theorem secrets_fromSeed : (fromSeed sha256 seed).1.secrets
    = (List.range (256 * 2)).flatMap fun i => (secret sha256 seed i).val := by
  rw [fromSeed]

theorem hashes_fromSeed : (fromSeed sha256 seed).2.hashes
    = (List.range (256 * 2)).flatMap fun i => (sha256 (secret sha256 seed i).val).val := by
  rw [fromSeed]

theorem index_lt {i : Nat} (h : i < 256) : i * 2 + bit msgHash i < 256 * 2 := by
  have := bit_lt msgHash i
  omega

/-- A signature shows, for each bit, the secret that the bit picks. -/
theorem revealed_sign : ((fromSeed sha256 seed).1.sign msgHash).revealed
    = (List.range 256).flatMap fun i => (secret sha256 seed (i * 2 + bit msgHash i)).val := by
  rw [sign, secrets_fromSeed]
  apply List.flatMap_congr
  intro i hi
  rw [window_flatMap (index_lt (List.mem_range.mp hi))]

theorem length_revealed_sign :
    ((fromSeed sha256 seed).1.sign msgHash).revealed.length = 256 * 32 := by
  rw [revealed_sign, length_flatMap_range]

theorem length_hashes_fromSeed : (fromSeed sha256 seed).2.hashes.length = 256 * 2 * 32 := by
  rw [hashes_fromSeed, length_flatMap_range fun i => sha256 (secret sha256 seed i).val]

theorem verify_sign : (fromSeed sha256 seed).2.verify sha256 msgHash
    ((fromSeed sha256 seed).1.sign msgHash) = true := by
  rw [LamportPublicKey.verify, Bool.and_eq_true, List.all_eq_true]
  refine ⟨decide_eq_true length_revealed_sign, fun i hi => decide_eq_true ?_⟩
  have hi := List.mem_range.mp hi
  rw [revealed_sign, window_flatMap hi, hashes_fromSeed,
    @window_flatMap (fun j => sha256 (secret sha256 seed j).val) _ _ (index_lt hi)]

theorem fromBytes_revealed :
    LamportSignature.fromBytes ((fromSeed sha256 seed).1.sign msgHash).revealed
      = some ((fromSeed sha256 seed).1.sign msgHash) := by
  rw [LamportSignature.fromBytes, if_pos length_revealed_sign]

theorem fromBytes_hashes : LamportPublicKey.fromBytes (fromSeed sha256 seed).2.hashes
    = some (fromSeed sha256 seed).2 := by
  rw [LamportPublicKey.fromBytes, if_pos length_hashes_fromSeed]

section Defs

variable (C : Crypto)

/-- `chrono::Duration::hours(24)` in nanoseconds -/
def sessionLifetime : Int := 24 * 3600 * 1000000000

/-- `start_session_inner`, with the random session id and the time -/
def startSessionInner (signingKey documentHash sessionId : Digest) (now : Int) : Session :=
  let createdAt := DateTime.ofNanos now
  let masterPubKey := C.ed25519.publicKey signingKey
  let sessionInput := sessionId.val ++ utf8 (C.rfc3339 createdAt)
  let sessionSeed := C.hkdf signingKey.val (utf8 "cpoe-session-v1") sessionInput
  let sessionPub := C.ed25519.publicKey sessionSeed
  let expiresAt := some (.ofNanos (now + sessionLifetime))
  let certData := buildCertDataWithExpiry sessionId sessionPub createdAt documentHash expiresAt
  { certificate :=
      { sessionId, sessionPubkey := sessionPub, createdAt, documentHash,
        masterPubkey := masterPubKey, signature := C.ed25519.sign signingKey certData, expiresAt }
    ratchet :=
      { current := C.hkdf sessionSeed.val (utf8 "cpoe-ratchet-init-v1") []
        ordinal := 0, wiped := false }
    signatures := []
    exportCount := 0 }

def startSession (puf : Puf) (documentHash sessionId : Digest) (now : Int) :
    Res KeyHierarchyError Session := do
  let masterKey ← deriveSigningKey C puf
  .ok (startSessionInner C masterKey documentHash sessionId now)

namespace Session

def advance (s : Session) (input : Bytes) : Res KeyHierarchyError RatchetState := do
  let ordinal ← unwrap (checkedAdd s.ratchet.ordinal 1)
  .ok { s.ratchet with
    current := C.hkdf s.ratchet.current.val (utf8 "cpoe-ratchet-advance-v1") input, ordinal }

variable (s : Session) (checkpointHash : Digest)

/-- The signatures on a checkpoint under the two keys of the ratchet state. -/
def checkpointSignature (counterValue counterDelta : Option Nat) :
    CheckpointSignature :=
  let signingSeed := C.hkdf s.ratchet.current.val (utf8 "cpoe-signing-key-v1") []
  let lamportSeed := C.hkdf s.ratchet.current.val (utf8 "cpoe-lamport-key-v1") []
  let lamport := LamportPrivateKey.fromSeed C.sha256 lamportSeed
  { ordinal := s.ratchet.ordinal
    publicKey := C.ed25519.publicKey signingSeed
    signature := C.ed25519.sign signingSeed checkpointHash.val
    checkpointHash
    counterValue
    counterDelta
    lamportSignature := some (lamport.1.sign checkpointHash).revealed
    lamportPubkeyFingerprint := some (lamport.2.fingerprint C.sha256)
    lamportPublicKey := some lamport.2.hashes }

/-- Sign, advance and remember the signature. -/
def signWith (counterValue counterDelta : Option Nat) (ratchetInput : Bytes) :
    Res KeyHierarchyError (CheckpointSignature × Session) := do
  reject s.ratchet.wiped .ratchetWiped
  let sig := s.checkpointSignature C checkpointHash counterValue counterDelta
  let ratchet ← s.advance C ratchetInput
  .ok (sig, { s with ratchet, signatures := s.signatures ++ [sig] })

def signCheckpoint : Res KeyHierarchyError (CheckpointSignature × Session) :=
  s.signWith C checkpointHash none none checkpointHash.val

def counterDelta (currentCounter : Option Nat) : Option Nat :=
  match currentCounter, s.signatures.getLast?.bind CheckpointSignature.counterValue with
  | some curr, some prev => some (curr - prev)
  | some _, none => some 0
  | none, _ => none

def signCheckpointWithCounter (currentCounter : Option Nat) :
    Res KeyHierarchyError (CheckpointSignature × Session) :=
  let delta := s.counterDelta currentCounter
  s.signWith C checkpointHash currentCounter delta
    (checkpointHash.val ++ match delta with
      | some delta => toBE 8 delta
      | none => [])

def signChainMetadata (metadata : ChainIntegrityMetadata) :
    Res KeyHierarchyError (ChainIntegrityMetadata × Session) := do
  reject s.ratchet.wiped .ratchetWiped
  let payload := metadataSigningPayload C metadata
  let signingSeed :=
    C.hkdf s.ratchet.current.val (utf8 "cpoe-chain-metadata-signing-v1") []
  let signature := C.ed25519.sign signingSeed payload.val
  let ratchet ← s.advance C payload.val
  .ok ({ metadata with metadataSignature := some signature.val }, { s with ratchet })

/-- `i32::try_from(n).unwrap_or(i32::MAX)` -/
def countI32 (n : Nat) : Nat := min n (2 ^ 31 - 1)

def exportEvidence (identity : MasterIdentity) : KeyHierarchyEvidence :=
  { masterIdentity := some identity
    sessionCertificate := some s.certificate
    checkpointSignatures := s.signatures
    masterFingerprint := identity.fingerprint
    masterPublicKey := identity.publicKey.val
    sessionId := Hex.encode s.certificate.sessionId.val
    sessionPublicKey := s.certificate.sessionPubkey.val
    sessionStarted := s.certificate.createdAt
    sessionCertificateRaw := s.certificate.signature.val
    ratchetCount := countI32 s.signatures.length
    ratchetPublicKeys := s.signatures.map fun sig => sig.publicKey.val }

def recoveryKey (puf : Puf) : Res KeyHierarchyError Digest := do
  let response ← puf (C.sha256 (utf8 "cpoe-ratchet-recovery-v2")).val
  .ok (C.hkdf response (utf8 "ratchet-recovery-key-v2") [])

def exportRecoveryState (puf : Puf) (nonce : FixedBytes 12) :
    Res KeyHierarchyError (SessionRecoveryState × Session) := do
  reject s.ratchet.wiped .ratchetWiped
  let key ← recoveryKey C puf
  let exportCount ← unwrap (checkedAdd s.exportCount 1)
  let plaintext := s.ratchet.current.val ++ toBE 8 s.ratchet.ordinal
    ++ toBE 8 exportCount
  let ciphertext ← okOr (C.encrypt key nonce (toBE 8 s.signatures.length) plaintext)
    (.crypto "AEAD encrypt")
  .ok ({ certificate := s.certificate, signatures := s.signatures,
         lastRatchetState := [2] ++ nonce.val ++ ciphertext, exportCount },
    { s with exportCount })

end Session

end Defs

end WritersProof.KeyHierarchy
