/-
  WritersProof.Checkpoint.Types

  Checkpoints and the proofs they carry (crates/cpoe/src/checkpoint/types.rs,
  vdf/proof.rs, and the RFC wire types of crates/authorproof-protocol).

  A `Duration` is its nanoseconds.  Fields that no hash and no check reads are left out.

  The bytes that `Checkpoint::compute_hash` feeds to SHA-256
  (crates/cpoe/src/checkpoint/types.rs).

  A present optional field adds its bytes, an absent one adds none.  Nothing
  marks where one field ends and the next begins, except for the three tags
  before a PoSME proof, a challenge nonce and an MMR root.
-/
import WritersProof.Swf.Tree
import WritersProof.Lib.Time

namespace WritersProof

open Bytes

namespace Checkpoint

abbrev Digest := FixedBytes 32

/-- `f64`, by its big-endian bytes. -/
structure F64 where
  be : FixedBytes 8
  deriving DecidableEq

/-- `is_finite`: the eleven exponent bits are not all set. -/
def F64.isFinite (x : F64) : Bool :=
  match x.be.val with
  | b₀ :: b₁ :: _ => !(b₀ &&& 0x7F == 0x7F && b₁ &&& 0xF0 == 0xF0)
  | _ => false

inductive HashDomainVersion where
  | v1
  | v2
  | v3
  | v4
  | v5
  deriving DecidableEq

structure VdfProof where
  input : Digest
  output : Digest
  iterations : Nat
  duration : Nat
  deriving DecidableEq

/-- Link between behavioral timing jitter and the checkpoint chain. -/
structure JitterBinding where
  jitterHash : Digest
  sessionId : String
  keystrokeCount : Nat
  physicsSeed : Option Digest
  deriving DecidableEq

structure CalibrationAttestation where
  iterationsPerSecond : Nat
  hardwareClass : String
  deriving DecidableEq

/-- RFC-compliant VDF proof (CDDL `vdf-proof`). -/
structure VdfProofRfc where
  challenge : Digest
  output : FixedBytes 64
  iterations : Nat
  durationMs : Nat
  calibration : CalibrationAttestation
  deriving DecidableEq

/-- `rfc::JitterBinding`: the hash of its entropy commitment, three fields of its
    summary, the `mac` of its binding MAC and its raw intervals.  The hash of a checkpoint
    reads neither the entropy nor the intervals. -/
structure RfcJitterBinding where
  entropyCommitment : Digest
  sampleCount : Nat
  entropyBits : F64
  hurstExponent : Option F64
  bindingMac : Digest
  rawIntervals : Option (List UInt32)
  deriving DecidableEq

inductive TimeBindingTier where
  | maximum
  | enhanced
  | standard
  | degraded
  deriving DecidableEq

def TimeBindingTier.toByte : TimeBindingTier → UInt8
  | .maximum => 1
  | .enhanced => 2
  | .standard => 3
  | .degraded => 4

structure TimeEvidence where
  tier : TimeBindingTier
  vdfProofHash : Digest
  timestampMs : Nat
  deriving DecidableEq

/-- TPM/Secure Enclave attestation binding for a checkpoint. -/
structure TpmBinding where
  monotonicCounter : Nat
  clockInfo : Bytes
  attestation : Bytes
  signature : Bytes
  publicKey : Bytes
  deriving DecidableEq

end Checkpoint

open Checkpoint Rust in
/-- Single checkpoint in a hash chain with VDF proof and optional bindings. -/
structure Checkpoint where
  ordinal : Nat
  previousHash : Digest
  hash : Digest
  contentHash : Digest
  contentSize : Nat
  timestamp : DateTime
  vdf : Option VdfProof
  tpmBinding : Option TpmBinding
  signature : Option Bytes
  jitterBinding : Option JitterBinding
  rfcVdf : Option VdfProofRfc
  rfcJitter : Option RfcJitterBinding
  timeEvidence : Option TimeEvidence
  mmrInclusionProof : Option Bytes
  mmrRoot : Option Digest
  argon2Swf : Option Swf.Argon2SwfProof
  posmeSwf : Option Bytes
  challengeNonce : Option String
  explicitHashVersion : Option HashDomainVersion
  deriving DecidableEq

namespace Checkpoint

/-- `new_base`, with the time that `Utc::now()` gives -/
def newBase (ordinal : Nat) (previousHash contentHash : Digest) (contentSize : Nat)
    (timestamp : Rust.DateTime) : Checkpoint :=
  { ordinal, previousHash, hash := FixedBytes.filled 32 0, contentHash, contentSize, timestamp
    vdf := none, tpmBinding := none, signature := none, jitterBinding := none, rfcVdf := none
    rfcJitter := none, timeEvidence := none, mmrInclusionProof := none, mmrRoot := none
    argon2Swf := none, posmeSwf := none, challengeNonce := none, explicitHashVersion := none }

/-! ## Ranges -/

/-- The numbers of an Argon2id proof are in the range of their machine types. -/
structure ArgonFits (swf : Swf.Argon2SwfProof) : Prop where
  iterations : swf.params.iterations < 2 ^ 64
  timeCost : swf.params.timeCost < 2 ^ 32
  memoryCost : swf.params.memoryCost < 2 ^ 32
  parallelism : swf.params.parallelism < 2 ^ 32
  proofAlgorithm : swf.proofAlgorithm < 2 ^ 16

structure VdfProofRfc.Fits (proof : VdfProofRfc) : Prop where
  iterations : proof.iterations < 2 ^ 64
  durationMs : proof.durationMs < 2 ^ 64
  iterationsPerSecond : proof.calibration.iterationsPerSecond < 2 ^ 64

/-- The numbers of a checkpoint are in the range of their machine types. -/
structure Fits (c : Checkpoint) : Prop where
  ordinal : c.ordinal < 2 ^ 64
  contentSize : c.contentSize < 2 ^ 64
  vdf : ∀ proof ∈ c.vdf, proof.iterations < 2 ^ 64
  jitterBinding : ∀ jitter ∈ c.jitterBinding, jitter.keystrokeCount < 2 ^ 64
  rfcVdf : ∀ proof ∈ c.rfcVdf, proof.Fits
  rfcJitter : ∀ jitter ∈ c.rfcJitter, jitter.sampleCount < 2 ^ 64
  timeEvidence : ∀ evidence ∈ c.timeEvidence, evidence.timestampMs < 2 ^ 64
  argon2Swf : ∀ swf ∈ c.argon2Swf, ArgonFits swf

open Rust

/-! ## Domains -/

def HashDomainVersion.domainSeparator : HashDomainVersion → Bytes
  | .v1 => utf8 "cpoe-checkpoint-v1"
  | .v2 => utf8 "cpoe-checkpoint-v2"
  | .v3 => utf8 "cpoe-checkpoint-v3"
  | .v4 => utf8 "cpoe-checkpoint-v4"
  | .v5 => utf8 "cpoe-checkpoint-v5"

def posmeDst : Bytes := utf8 "cpoe-posme-v1"

def challengeDst : Bytes := utf8 "cpoe-challenge-v1"

def mmrRootDst : Bytes := utf8 "cpoe-mmr-root-v1"

def hashDomainVersion (c : Checkpoint) : HashDomainVersion :=
  match c.explicitHashVersion with
  | some v => v
  | none =>
    if c.posmeSwf.isSome then .v5
    else if c.argon2Swf.isSome then .v4
    else if c.rfcVdf.isSome || c.rfcJitter.isSome || c.timeEvidence.isSome then .v3
    else if c.jitterBinding.isSome then .v2
    else .v1

/-! ## Fields -/

def VdfProof.encode (proof : VdfProof) : Bytes :=
  proof.input.val ++ proof.output.val ++ toBE 8 proof.iterations
    ++ toBE 8 (durationNanos proof.duration)

def VdfProofRfc.hashed (proof : VdfProofRfc) : Bytes :=
  proof.challenge.val ++ proof.output.val ++ toBE 8 proof.iterations
    ++ toBE 8 proof.durationMs ++ toBE 8 proof.calibration.iterationsPerSecond
    ++ utf8 proof.calibration.hardwareClass

/-- A Hurst exponent that is not finite is replaced with a sentinel. -/
def hurstHashed (hurst : F64) : FixedBytes 8 :=
  if hurst.isFinite then hurst.be else FixedBytes.filled 8 0xFF

/-- The bytes of an optional field: none when it is absent. -/
def part {α : Type} (field : Option α) (bytes : α → Bytes) : Bytes := (field.map bytes).getD []

def RfcJitterBinding.hashed (jitter : RfcJitterBinding) : Bytes :=
  jitter.entropyCommitment.val ++ toBE 8 jitter.sampleCount
    ++ part jitter.hurstExponent (fun hurst => (hurstHashed hurst).val) ++ jitter.bindingMac.val

def TimeEvidence.hashed (evidence : TimeEvidence) : Bytes :=
  [evidence.tier.toByte] ++ toBE 8 evidence.timestampMs ++ evidence.vdfProofHash.val

def argonHashed (swf : Swf.Argon2SwfProof) : Bytes :=
  swf.input.val ++ swf.merkleRoot.val ++ toBE 8 swf.params.iterations
    ++ toBE 4 swf.params.timeCost ++ toBE 4 swf.params.memoryCost
    ++ toBE 4 swf.params.parallelism ++ swf.challenge.val
    ++ toBE 2 swf.proofAlgorithm ++ toBE 8 (durationToMs swf.claimedDuration)

/-! ## The hash -/

/-- The parts of the hash input, in order.  A jitter binding makes four of them:
    only its session id and its seed have no fixed length. -/
def hashParts (c : Checkpoint) : List Bytes :=
  [ c.hashDomainVersion.domainSeparator,
    toBE 8 c.ordinal,
    c.previousHash.val,
    c.contentHash.val,
    toBE 8 c.contentSize,
    toBE 8 (timestampNanos c.timestamp),
    part c.vdf VdfProof.encode,
    part c.jitterBinding (fun jitter => jitter.jitterHash.val),
    part c.jitterBinding (fun jitter => utf8 jitter.sessionId),
    part c.jitterBinding (fun jitter => toBE 8 jitter.keystrokeCount),
    part c.jitterBinding (fun jitter => part jitter.physicsSeed FixedBytes.val),
    part c.rfcVdf VdfProofRfc.hashed,
    part c.rfcJitter RfcJitterBinding.hashed,
    part c.timeEvidence TimeEvidence.hashed,
    part c.argon2Swf argonHashed,
    part c.posmeSwf (fun posme => posmeDst ++ posme),
    part c.challengeNonce (fun nonce => challengeDst ++ utf8 nonce),
    part c.mmrRoot (fun root => mmrRootDst ++ root.val) ]

def hashInput (c : Checkpoint) : Bytes := c.hashParts.flatten

def computeHash (sha256 : Bytes → Digest) (c : Checkpoint) : Digest :=
  sha256 c.hashInput

end WritersProof.Checkpoint
