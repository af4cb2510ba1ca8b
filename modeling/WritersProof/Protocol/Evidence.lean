/-
  WritersProof.Protocol.Evidence

  Building and verifying evidence packets
  (crates/authorproof-protocol/src/evidence.rs, crates/cpoe-jitter/src/phys.rs).

  The clock, the random identifiers and the timing samples of the jitter are
  arguments of the calls that read them.
-/
import WritersProof.Protocol.Cbor
import WritersProof.Protocol.Cose

namespace WritersProof.Protocol

open Rust

def CPOE_EVIDENCE_PROFILE : String := "urn:ietf:params:cpoe:profile:1.0"

def POP_EAR_PROFILE : String := "urn:ietf:params:rats:eat:profile:pop:1.0"

section Calls

variable (C : Crates)

def hashDocumentRef (doc : DocumentRef) : HashValue := hashSha256 C doc.toCbor.encode

/-! ## Codec -/

def encodeEvidence (packet : EvidencePacket C.Baseline) : Bytes :=
  cborTagHeader CBOR_TAG_CPOE ++ (packet.toCbor C.baselineCbor).encode

def decodeEvidence (bytes : Bytes) : Res Error (EvidencePacket C.Baseline) :=
  mapErr (decodeTagged C.packetReader bytes CBOR_TAG_CPOE) fun e => .serialization e.text

/-! ## Jitter -/

/-- What a `PhysJitter` measures for one sample: the timings, and its estimate of their
entropy. -/
structure Timing where
  samples : List Nat
  entropyBits : Nat

structure PhysHash where
  hash : FixedBytes 32
  entropyBits : Nat

/-- `PhysJitter::sample` with its own entropy threshold -/
def samplePhys (minEntropyBits : Nat) (timing : Except String Timing) (inputs : Bytes) :
    Except String PhysHash :=
  match timing with
  | .error e => .error e
  | .ok t =>
    if t.entropyBits < minEntropyBits then
      .error (s!"Insufficient entropy: required {minEntropyBits} bits, " ++
        s!"found {t.entropyBits}")
    else
      .ok { hash := C.sha256 (t.samples.flatMap (Bytes.toLE 8) ++ inputs)
            entropyBits := t.entropyBits }

/-! ## Builder -/

structure Builder where
  version : UInt32
  profileUri : String
  packetId : FixedBytes 16
  created : UInt64
  document : DocumentRef
  checkpoints : List Checkpoint
  lastCheckpointHash : HashValue
  jitterMinEntropyBits : Nat
  minCausalityEntropyBits : Nat
  attestationTier : AttestationTier
  baselineVerification : Option C.Baseline

def DEFAULT_MIN_CAUSALITY_ENTROPY_BITS : Nat := 8

variable {C}

def nowMillis (now : Except String UInt64) : Res Error UInt64 :=
  mapErr now fun e => .protocol ("system clock error: " ++ e)

namespace Builder

/-- `Builder::new`, with the random packet id and the clock -/
def new (packetId : FixedBytes 16) (now : Except String UInt64) (document : DocumentRef) :
    Res Error (Builder C) := do
  let now ← nowMillis now
  .ok {
    version := 1, profileUri := CPOE_EVIDENCE_PROFILE, packetId, created := now, document
    checkpoints := [], lastCheckpointHash := hashDocumentRef C document
    jitterMinEntropyBits := 1, minCausalityEntropyBits := DEFAULT_MIN_CAUSALITY_ENTROPY_BITS
    attestationTier := .softwareOnly, baselineVerification := none }

variable (b : Builder C)

def withAttestationTier (tier : AttestationTier) : Builder C :=
  { b with attestationTier := tier }

def withMinEntropyBits (bits : Nat) : Builder C :=
  { b with jitterMinEntropyBits := bits, minCausalityEntropyBits := bits }

def withBaselineVerification (bv : C.Baseline) : Builder C :=
  { b with baselineVerification := some bv }

/-- One call of `add_checkpoint`, with what it reads from outside. -/
structure Added where
  now : Except String UInt64
  checkpointId : FixedBytes 16
  timing : Except String Timing
  content : Bytes
  charCount : UInt64

def addCheckpoint (a : Added) : Res Error (Builder C) := do
  let now ← nowMillis a.now
  let contentHash := hashSha256 C a.content
  let entropy ← mapErr (samplePhys C b.jitterMinEntropyBits a.timing a.content)
    fun e => .crypto ("PhysJitter sampling failed: " ++ e)
  reject (entropy.entropyBits < b.minCausalityEntropyBits)
    (.crypto (s!"PhysJitter entropy too low ({entropy.entropyBits} bits); causality lock " ++
      s!"requires >= {b.minCausalityEntropyBits} bits"))
  let checkpointHash ← computeCausalityLockV2 C b.packetId.val b.lastCheckpointHash.digest
    contentHash.digest entropy.hash.val
  let checkpoint : Checkpoint :=
    { sequence := UInt64.ofNat b.checkpoints.length
      checkpointId := a.checkpointId.val, timestamp := now
      contentHash, charCount := a.charCount, prevHash := b.lastCheckpointHash, checkpointHash
      jitterHash := some (.ofSha256 entropy.hash) }
  .ok { b with lastCheckpointHash := checkpointHash, checkpoints := b.checkpoints ++ [checkpoint] }

/-- A failed call leaves the builder as it was. -/
def added (a : Added) : Builder C :=
  match b.addCheckpoint a with
  | .ok b => b
  | .error _ => b

def MIN_CHECKPOINTS : Nat := 3

def packet : EvidencePacket C.Baseline where
  version := b.version
  profileUri := b.profileUri
  packetId := b.packetId.val
  created := b.created
  document := b.document
  checkpoints := b.checkpoints
  attestationTier := some b.attestationTier
  baselineVerification := b.baselineVerification

def finalize (signer : EvidenceSigner) : Res Error Bytes := do
  reject (b.checkpoints.length < MIN_CHECKPOINTS)
    (.validation (s!"Evidence packet requires at least {MIN_CHECKPOINTS} checkpoints, " ++
      s!"got {b.checkpoints.length}"))
  signEvidenceCose (encodeEvidence C b.packet) signer

end Builder

/-! ## Verifier -/

def MAX_FILENAME_LEN : Nat := 256

def MAX_CHECKPOINTS : Nat := 100000

/-- One round of the loop over the checkpoints, with the ids of the earlier ones. -/
def validateCheckpoint (seen : List Bytes) (c : Checkpoint) : Res Error Unit := do
  reject (c.checkpointId.length ≠ 16)
    (.validation (s!"Invalid checkpoint_id length at sequence {c.sequence}: expected 16, " ++
      s!"got {c.checkpointId.length}"))
  reject (c.checkpointId ∈ seen) (.validation s!"Duplicate checkpoint_id at sequence {c.sequence}")
  reject (c.contentHash.validate = false)
    (.validation s!"Invalid content_hash at sequence {c.sequence}: digest length mismatch")
  reject (c.prevHash.validate = false)
    (.validation s!"Invalid prev_hash at sequence {c.sequence}: digest length mismatch")
  reject (c.checkpointHash.validate = false)
    (.validation s!"Invalid checkpoint_hash at sequence {c.sequence}: digest length mismatch")
  reject (∃ jitter ∈ c.jitterHash, jitter.validate = false)
    (.validation s!"Invalid jitter_hash at sequence {c.sequence}: digest length mismatch")

def validateCheckpoints : List Bytes → List Checkpoint → Res Error Unit
  | _, [] => .ok ()
  | seen, c :: cs => do
    validateCheckpoint seen c
    validateCheckpoints (c.checkpointId :: seen) cs

def validateFilename : Option String → Res Error Unit
  | none => .ok ()
  | some filename => reject (MAX_FILENAME_LEN < (Bytes.utf8 filename).length)
      (.validation (s!"Document filename too long: {(Bytes.utf8 filename).length} bytes exceeds " ++
        s!"limit of {MAX_FILENAME_LEN}"))

variable {Baseline : Type}

def validateStructure (packet : EvidencePacket Baseline) : Res Error Unit := do
  reject (packet.version ≠ 1)
    (.validation s!"Unsupported packet version: expected 1, got {packet.version}")
  reject (packet.profileUri ≠ CPOE_EVIDENCE_PROFILE ∧ packet.profileUri ≠ POP_EAR_PROFILE)
    (.validation (s!"Invalid profile_uri: expected \"{CPOE_EVIDENCE_PROFILE}\", " ++
      s!"got \"{packet.profileUri}\""))
  reject (packet.packetId.length ≠ 16)
    (.validation s!"Invalid packet_id length: expected 16, got {packet.packetId.length}")
  reject (packet.packetId.all (· = 0)) (.validation "packet_id is all zeros; insufficient entropy")
  reject (packet.document.contentHash.validate = false)
    (.validation "Document content_hash digest length does not match algorithm")
  validateFilename packet.document.filename
  reject (packet.checkpoints.length < Builder.MIN_CHECKPOINTS)
    (.validation (s!"Too few checkpoints: {packet.checkpoints.length} is below minimum " ++
      s!"of {Builder.MIN_CHECKPOINTS}"))
  reject (MAX_CHECKPOINTS < packet.checkpoints.length)
    (.validation (s!"Too many checkpoints: {packet.checkpoints.length} exceeds limit " ++
      s!"of {MAX_CHECKPOINTS}"))
  validateCheckpoints [] packet.checkpoints

def validateTimes : UInt64 → List Checkpoint → Res Error Unit
  | _, [] => .ok ()
  | lastTs, c :: cs => do
    reject (c.timestamp < lastTs)
      (.validation s!"Temporal anomaly: checkpoint {c.sequence} timestamp is before previous")
    validateTimes c.timestamp cs

def validateTemporalConsistency (packet : EvidencePacket Baseline) : Res Error Unit :=
  validateTimes packet.created packet.checkpoints

variable (C)

def expectedLock (packetId : Bytes) (lastHash : HashValue) (c : Checkpoint) :
    Res Error HashValue :=
  match c.jitterHash with
  | some jitter =>
    computeCausalityLockV2 C packetId lastHash.digest c.contentHash.digest jitter.digest
  | none => computeCausalityLock C packetId lastHash.digest c.contentHash.digest

/-- `for (i, checkpoint) in packet.checkpoints.iter().enumerate()` -/
def verifyLocks (packetId : Bytes) : Nat → HashValue → List Checkpoint → Res Error Unit
  | _, _, [] => .ok ()
  | i, lastHash, c :: cs => do
    reject (c.sequence ≠ UInt64.ofNat i)
      (.validation s!"Sequence mismatch at index {i}: expected {i}, got {c.sequence}")
    reject (c.prevHash ≠ lastHash)
      (.validation s!"Causality chain broken at sequence {c.sequence}: prev_hash mismatch")
    let expectedHash ← expectedLock C packetId lastHash c
    reject (c.checkpointHash ≠ expectedHash)
      (.validation s!"Causality chain broken at sequence {c.sequence}: checkpoint_hash mismatch")
    verifyLocks packetId (i + 1) expectedHash cs

def verifyBaseline (verifyingKey : FixedBytes 32) : Option C.Baseline → Res Error Unit
  | none => .ok ()
  | some bv => mapErr (C.validateBaseline verifyingKey bv) .validation

/-- `Verifier::verify` -/
def verify (verifyingKey : FixedBytes 32) (coseData : Bytes) :
    Res Error (EvidencePacket C.Baseline) := do
  let payload ← verifyEvidenceCose C coseData verifyingKey
  let packet ← decodeEvidence C payload
  validateStructure packet
  verifyLocks C packet.packetId 0 (hashDocumentRef C packet.document) packet.checkpoints
  validateTemporalConsistency packet
  verifyBaseline C verifyingKey packet.baselineVerification
  .ok packet

end Calls

end WritersProof.Protocol
