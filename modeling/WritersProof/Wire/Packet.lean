/-
  WritersProof.Wire.Packet

  Wire-format evidence packets and what their validation accepts
  (crates/authorproof-protocol/src/rfc/wire_types/packet.rs, components.rs).

  Optional fields that validation does not read and the export of a chain leaves empty
  are left out.
-/
import WritersProof.Wire.Checkpoint
import Mathlib.Data.List.Infix

namespace WritersProof.Wire

open Rust

inductive CodecError where
  | validation (message : String)
  deriving DecidableEq

/-! ## Parts -/

inductive HashSaltMode where
  | unsalted
  | authorSalted

structure DocumentRef where
  contentHash : HashValue
  filename : Option String
  byteLength : UInt64
  charCount : UInt64
  saltMode : Option HashSaltMode
  saltCommitment : Option Bytes

def DocumentRef.validate (d : DocumentRef) : Res String Unit := do
  d.contentHash.validateDigestLength
  match d.saltCommitment with
  | some salt =>
    reject (salt.length ∉ [32, 48, 64])
      s!"salt_commitment length {salt.length} invalid (must be [32, 48, 64] bytes)"
  | none => .ok ()

structure PhysicalLiveness where
  /-- (timestamp, delta in millidegrees) -/
  thermalTrajectory : List (UInt64 × Int64)
  entropyAnchor : FixedBytes 32

def MAX_THERMAL_TRAJECTORY : Nat := 10_000

def PhysicalLiveness.validate (pl : PhysicalLiveness) : Res String Unit :=
  reject (pl.thermalTrajectory.length > MAX_THERMAL_TRAJECTORY)
    (s!"too many thermal_trajectory entries: {pl.thermalTrajectory.length} "
      ++ s!"(max {MAX_THERMAL_TRAJECTORY})")

structure PresenceChallenge where
  challengeNonce : Bytes
  deviceSignature : Bytes
  responseTime : UInt64

def MIN_CHALLENGE_NONCE_LEN : Nat := 16

def MAX_CHALLENGE_NONCE_LEN : Nat := 256

def PresenceChallenge.validate (pc : PresenceChallenge) : Res String Unit :=
  reject (pc.challengeNonce.length < MIN_CHALLENGE_NONCE_LEN
      ∨ pc.challengeNonce.length > MAX_CHALLENGE_NONCE_LEN)
    (s!"challenge_nonce length {pc.challengeNonce.length} out of range (must be "
      ++ s!"{MIN_CHALLENGE_NONCE_LEN}..={MAX_CHALLENGE_NONCE_LEN} bytes)")

structure ProfileDeclarationWire where
  profileId : String
  featureFlags : List UInt64

def MAX_FEATURE_FLAGS : Nat := 100

def ProfileDeclarationWire.validate (prof : ProfileDeclarationWire) : Res String Unit :=
  reject (prof.featureFlags.length > MAX_FEATURE_FLAGS)
    s!"too many feature_flags: {prof.featureFlags.length} (max {MAX_FEATURE_FLAGS})"

structure ProjectFileRef where
  filename : String
  contentHash : String
  checkpointCount : UInt64
  keystrokeCount : UInt64

inductive ContentTier where
  | core
  | enhanced
  | maximum

/-! ## Packets -/

structure EvidencePacketWire where
  version : UInt64
  profileUri : String
  packetId : FixedBytes 16
  created : UInt64
  document : DocumentRef
  checkpoints : List CheckpointWire
  attestationTier : Option Protocol.AttestationTier
  limitations : Option (List String)
  profile : Option ProfileDeclarationWire
  presenceChallenges : Option (List PresenceChallenge)
  contentTier : Option ContentTier
  /-- 1-based -/
  packetSequence : Option UInt64
  physicalLiveness : Option PhysicalLiveness
  authorDid : Option String
  documentContent : Option Bytes
  documentFilename : Option String
  projectFiles : Option (List ProjectFileRef)

/-- Minimum number of checkpoints per CDDL. -/
def MIN_CHECKPOINTS : Nat := 3

def MAX_CHECKPOINTS : Nat := 10_000

def MAX_LIMITATIONS : Nat := 100

def MAX_PRESENCE_CHALLENGES : Nat := 100

/-- Maximum length of any single string field. -/
def MAX_STRING_LEN : Nat := 4096

def MIN_NONZERO_BYTES : Nat := 4

def len (s : String) : Nat := (Bytes.utf8 s).length

/-- `s.contains(c)` of a character by its code point -/
def containsChar (s : String) (c : Nat) : Bool := s.toList.any (· = Char.ofNat c)

def containsDots (s : String) : Bool := "..".toList <:+: s.toList

/-- `.map_err(CodecError::Validation)`, of the check of a part at a place -/
def within (place : String) (check : Res String Unit) : Res CodecError Unit :=
  mapFault check fun e => .validation (place ++ e)

namespace EvidencePacketWire

def checkSome {α : Type} (check : α → Res CodecError Unit) : Option α → Res CodecError Unit
  | some x => check x
  | none => .ok ()

def validateLimitations (lims : List String) : Res CodecError Unit := do
  reject (lims.length > MAX_LIMITATIONS)
    (.validation s!"too many limitations: {lims.length} (max {MAX_LIMITATIONS})")
  forEach (fun (s, i) => reject (len s > MAX_STRING_LEN)
    (.validation s!"limitation[{i}] too long: {len s} (max {MAX_STRING_LEN})")) lims.zipIdx

def validateChallenges (pcs : List PresenceChallenge) : Res CodecError Unit := do
  reject (pcs = []) (.validation "presence_challenges must be non-empty if present")
  reject (pcs.length > MAX_PRESENCE_CHALLENGES)
    (.validation s!"too many presence_challenges: {pcs.length} (max {MAX_PRESENCE_CHALLENGES})")
  forEach (fun (pc, i) => within s!"presence_challenge[{i}]: " pc.validate) pcs.zipIdx

def validateFilename (name : String) : Res CodecError Unit := do
  reject (len name > MAX_STRING_LEN)
    (.validation s!"document filename too long: {len name} (max {MAX_STRING_LEN})")
  reject (containsChar name 0) (.validation "document filename contains null byte")

/-- Every checkpoint is valid, and numbered by its place. -/
def validateCheckpoint : CheckpointWire × Nat → Res CodecError Unit
  | (cp, i) => do
    within s!"checkpoint[{i}]: " cp.validate
    reject (cp.sequence ≠ UInt64.ofNat i)
      (.validation s!"checkpoint[{i}] has sequence {cp.sequence} (expected monotonic {i})")

def validateDid (did : String) : Res CodecError Unit := do
  reject (did = "" ∨ len did > MAX_STRING_LEN)
    (.validation s!"author_did length {len did} out of range [1, {MAX_STRING_LEN}]")
  reject ("did:".toList.isPrefixOf did.toList = false)
    (.validation "author_did must start with 'did:'")

/-- An embedded document has the hash of the document reference. -/
def validateContent (sha256 : Bytes → FixedBytes 32) (contentHash : HashValue) (content : Bytes) :
    Res CodecError Unit := do
  reject (content.length > 100_000_000)
    (.validation s!"document_content too large: {content.length} bytes (max 100MB)")
  reject (contentHash.algorithm ≠ .sha256)
    (.validation "document_content requires SHA-256 content_hash for verification")
  reject ((sha256 content).val ≠ contentHash.digest)
    (.validation "document_content hash does not match document.content_hash")

def validateDocumentFilename (name : String) : Res CodecError Unit := do
  reject (len name > MAX_STRING_LEN)
    (.validation s!"document_filename too long: {len name} (max {MAX_STRING_LEN})")
  reject (containsChar name 0) (.validation "document_filename contains null byte")
  reject (containsChar name 47 || containsChar name 92 || containsDots name)
    (.validation "document_filename contains path traversal characters")

/-- CDDL-mandated invariants and size limits -/
def validate (sha256 : Bytes → FixedBytes 32) (p : EvidencePacketWire) : Res CodecError Unit := do
  reject (p.version ≠ 1) (.validation s!"unsupported version {p.version}, expected 1")
  reject (p.profileUri = "" ∨ len p.profileUri > MAX_STRING_LEN)
    (.validation s!"profile_uri length {len p.profileUri} out of range [1, {MAX_STRING_LEN}]")
  let nonzeroCount := p.packetId.val.countP (· ≠ 0)
  reject (nonzeroCount < MIN_NONZERO_BYTES)
    (.validation (s!"packet_id has only {nonzeroCount} non-zero bytes "
      ++ s!"(minimum {MIN_NONZERO_BYTES})"))
  reject (p.created = 0) (.validation "created timestamp must not be zero")
  reject (p.checkpoints.length < MIN_CHECKPOINTS)
    (.validation s!"need at least {MIN_CHECKPOINTS} checkpoints, got {p.checkpoints.length}")
  reject (p.checkpoints.length > MAX_CHECKPOINTS)
    (.validation s!"too many checkpoints: {p.checkpoints.length} (max {MAX_CHECKPOINTS})")
  checkSome validateLimitations p.limitations
  checkSome validateChallenges p.presenceChallenges
  within "" p.document.validate
  checkSome validateFilename p.document.filename
  forEach validateCheckpoint p.checkpoints.zipIdx
  checkSome (fun pl => within "" (PhysicalLiveness.validate pl)) p.physicalLiveness
  checkSome (fun prof => within "" (ProfileDeclarationWire.validate prof)) p.profile
  checkSome (fun seq => reject (seq = 0) (.validation "packet_sequence is 1-based, got 0"))
    p.packetSequence
  checkSome validateDid p.authorDid
  checkSome (validateContent sha256 p.document.contentHash) p.documentContent
  checkSome validateDocumentFilename p.documentFilename
  checkSome (fun pf => reject (pf.length > 1000)
    (.validation s!"too many project_files: {pf.length} (max 1000)")) p.projectFiles

end EvidencePacketWire

end WritersProof.Wire
