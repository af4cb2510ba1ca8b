/-
  WritersProof.Evidence.WireConversion

  The export of a checkpoint chain as a wire-format packet
  (crates/cpoe/src/evidence/wire_conversion.rs, and the jitter seal and the entangled MAC of
  crypto.rs).

  A checkpoint is copied field by field.  Its own hash is not copied but computed again, in
  the wire format; the hash of the one before it is copied as the chain has it.
-/
import WritersProof.Checkpoint.Chain
import WritersProof.KeyHierarchy.Types
import WritersProof.Wire.Packet

namespace WritersProof.Evidence

open Rust
open Checkpoint (Chain Digest F64 VdfProof RfcJitterBinding)
open Wire

structure WireCrates where
  sha256 : Bytes → Digest
  /-- `Hkdf::<Sha256>::new(Some(salt), ikm)`, expanded to 32 bytes under an info -/
  hkdf : (salt ikm info : Bytes) → Digest
  hmac : (key message : Bytes) → Digest
  /-- `ciborium::from_reader::<posme::PosmeProof, _>`, of the algorithm; none without the
  feature `posme` -/
  posmeAlgorithm : Option (Bytes → Except String Nat)

structure Surroundings where
  exportNonce : FixedBytes 8
  /-- `Utc::now().timestamp_millis()` -/
  nowMillis : Int
  /-- `load_active_did`; none without the feature `did-webvh` -/
  activeDid : Option String

def PACKET_ID_DST : Bytes := Bytes.utf8 "cpoe-packet-id-v1"

def CHECKPOINT_ID_DST : Bytes := Bytes.utf8 "cpoe-checkpoint-id-v1"

def CPOE_EVIDENCE_PROFILE : String := "urn:ietf:params:cpoe:profile:1.0"

def JITTER_QUANTIZATION_MS : UInt64 := 5

/-- `id.copy_from_slice(&d[..16])` -/
def first16 (d : Digest) : FixedBytes 16 := ⟨d.val.take 16, by simp [d.length_val]⟩

/-- `u64::try_from(millis.max(0)).unwrap_or(0)` -/
def clampMillis (millis : Int) : UInt64 :=
  if millis < 2 ^ 64 then UInt64.ofNat millis.toNat else 0

section Defs

variable (C : WireCrates)

/-! ## Tags -/

def popKey (merkleRoot swfInput info : Bytes) : Digest :=
  C.hkdf (Bytes.utf8 "PoP-key-derivation-v1") (merkleRoot ++ swfInput) info

def computeJitterSeal (merkleRoot swfInput intervalsCbor : Bytes) : Bytes :=
  (C.hmac (popKey C merkleRoot swfInput (Bytes.utf8 "PoP-jitter-tag-v1")).val intervalsCbor).val

def withLen (field : Bytes) : Bytes := Bytes.toBE 4 field.length ++ field

def computeEntangledMac (merkleRoot swfInput prevHash contentHash jitterCbor physCbor : Bytes) :
    Bytes :=
  (C.hmac (popKey C merkleRoot swfInput (Bytes.utf8 "PoP-entangled-binding-v1")).val
    (withLen prevHash ++ withLen contentHash ++ withLen jitterCbor ++ withLen physCbor)).val

/-! ## Process proofs -/

def plainParams (timeCost memoryCost parallelism steps : UInt64) : ProofParams :=
  { timeCost, memoryCost, parallelism, steps, waypointInterval := none, waypointMemory := none,
    readsPerStep := none, challenges := none, recursionDepth := none }

def sampleToWire (sp : Swf.MerkleSampleProof) : MerkleProof :=
  { leafIndex := UInt64.ofNat sp.leafIndex
    siblingPath := sp.siblingPath.map FixedBytes.val
    leafValue := sp.leafValue.val }

/-- An entangled algorithm where any checkpoint of the chain has jitter -/
def argonToWire (useEntangled : Bool) (swf : Swf.Argon2SwfProof) : ProcessProof :=
  { algorithm := if useEntangled then .swfArgon2idEntangled else .swfArgon2id
    params := plainParams (UInt64.ofNat swf.params.timeCost) (UInt64.ofNat swf.params.memoryCost)
      (UInt64.ofNat swf.params.parallelism) (UInt64.ofNat swf.params.iterations)
    input := swf.input.val
    merkleRoot := swf.merkleRoot.val
    sampledProofs := swf.sampledProofs.map sampleToWire
    claimedDuration := UInt64.ofNat (durationToMs swf.claimedDuration) }

def vdfToWire (vdf : VdfProof) : ProcessProof :=
  { algorithm := .swfSha256
    params := plainParams 1 0 1 (UInt64.ofNat vdf.iterations)
    input := vdf.input.val
    merkleRoot := vdf.output.val
    sampledProofs := []
    claimedDuration := UInt64.ofNat (durationToMs vdf.duration) }

def noProof : ProcessProof :=
  { algorithm := .swfSha256, params := plainParams 0 0 0 0, input := List.replicate 32 0
    merkleRoot := [], sampledProofs := [], claimedDuration := 0 }

/-- A PoSME proof that does not decode counts as one of the standard algorithm. -/
def posmeAlgorithm (posmeSwf : Option Bytes) : Option ProofAlgorithm :=
  match C.posmeAlgorithm, posmeSwf with
  | some decode, some bytes =>
    match decode bytes with
    | .ok 31 => some .swfPosmeEntangled
    | _ => some .swfPosme
  | _, _ => none

/-- The Argon2id proof before the delay proof; a PoSME proof only sets the algorithm. -/
def processProof (cp : Checkpoint) (useEntangled : Bool) : ProcessProof :=
  let proof :=
    match cp.argon2Swf, cp.vdf with
    | some swf, _ => argonToWire useEntangled swf
    | none, some vdf => vdfToWire vdf
    | none, none => noProof
  match posmeAlgorithm C cp.posmeSwf with
  | some algorithm => { proof with algorithm }
  | none => proof

/-! ## Jitter -/

/-- To the nearest multiple -/
def quantize (v : UInt32) : UInt64 :=
  (v.toUInt64 + JITTER_QUANTIZATION_MS / 2) / JITTER_QUANTIZATION_MS * JITTER_QUANTIZATION_MS

/-- `(entropy_bits * 100.0).min(u64::MAX as f64) as u64`, of a number that is not negative -/
def entropyEstimate (bits : F64) : UInt64 :=
  match Binary64.value bits.be with
  | some value =>
    if 0 ≤ value then
      let centibits := min (Binary64.mul value 100) (2 ^ 64)
      UInt64.ofNat (min centibits.floor.toNat (2 ^ 64 - 1))
    else 0
  | none => 0

def hasMerkleRoot (merkleRoot : Bytes) : Bool := 32 ≤ merkleRoot.length && merkleRoot.any (· ≠ 0)

/-- The seal is empty where there is no root to derive its key from. -/
def jitterToWire (proof : ProcessProof) (jitter : RfcJitterBinding) :
    Res Error JitterBindingWire := do
  let intervals := (jitter.rawIntervals.getD []).map quantize
  let jitterSeal ←
    if hasMerkleRoot proof.merkleRoot then do
      let intervalsCbor ← mapFault (Wire.encode (.array (intervals.map .uint))) fun e =>
        .evidence s!"CBOR encode intervals for jitter seal: {e}"
      pure (computeJitterSeal C proof.merkleRoot proof.input intervalsCbor)
    else pure []
  pure { intervals, entropyEstimate := entropyEstimate jitter.entropyBits, jitterSeal }

def physicalToWire (binding : Option Checkpoint.JitterBinding) : Option PhysicalState :=
  binding.bind fun jb => jb.physicsSeed.map fun seed =>
    { thermal := [], entropyDelta := 0, kernelCommitment := some seed, inertialSamples := none }

/-- The physical state is only exported next to jitter. -/
def bindingsToWire (cp : Checkpoint) (proof : ProcessProof) :
    Res Error (Option JitterBindingWire × Option PhysicalState) :=
  match cp.rfcJitter with
  | some jitter => do
    let jb ← jitterToWire C proof jitter
    pure (some jb, physicalToWire cp.jitterBinding)
  | none => pure (none, none)

def entangledMac (cp : Checkpoint) (proof : ProcessProof) (jitter : Option JitterBindingWire)
    (phys : Option PhysicalState) : Res Error (Option Bytes) :=
  match hasMerkleRoot proof.merkleRoot, jitter with
  | true, some jb =>
    match Wire.encode jb.toCbor with
    | .ok jbCbor => do
      let psCbor ← mapFault (encodeOpt phys PhysicalState.toCbor) fun e =>
        .evidence s!"CBOR encode physical-state for entangled MAC: {e}"
      pure (some (computeEntangledMac C proof.merkleRoot proof.input cp.previousHash.val
        cp.contentHash.val jbCbor psCbor))
    | .error (.err _) => pure none
    | .error .panic => abort
  | _, _ => pure none

/-! ## Checkpoints -/

/-- `HashValue::try_sha256(digest.to_vec()).map_err(Error::crypto)` -/
def sha256Value (digest : Digest) : Res Error HashValue :=
  mapFault (HashValue.trySha256 digest.val) .crypto

def checkpointId (exportNonce : FixedBytes 8) (cp : Checkpoint) : FixedBytes 16 :=
  first16 (C.sha256 (CHECKPOINT_ID_DST ++ cp.contentHash.val ++ Bytes.toLE 8 cp.ordinal
    ++ exportNonce.val))

def checkpointToWire (useEntangled : Bool) (exportNonce : FixedBytes 8)
    (lamport : Option KeyHierarchy.CheckpointSignature) (cp : Checkpoint) : Res Error
      CheckpointWire := do
  let proof := processProof C cp useEntangled
  let (jitterBinding, physicalState) ← bindingsToWire C cp proof
  let mac ← entangledMac C cp proof jitterBinding physicalState
  let contentHash ← sha256Value cp.contentHash
  let prevHash ← sha256Value cp.previousHash
  let wire : CheckpointWire :=
    { sequence := UInt64.ofNat cp.ordinal
      checkpointId := checkpointId C exportNonce cp
      timestamp := clampMillis cp.timestamp.timestampMillis
      contentHash
      charCount := UInt64.ofNat cp.contentSize
      delta := noDelta
      prevHash
      checkpointHash := .zeroSha256
      processProof := proof
      jitterBinding
      physicalState
      entangledMac := mac
      receipts := none
      activeProbes := none
      lamportSignature := lamport.bind (·.lamportSignature)
      lamportPubkeyFingerprint := lamport.bind (·.lamportPubkeyFingerprint)
      posmeProof := cp.posmeSwf }
  let checkpointHash ← mapFault (wire.computeHash C.sha256) .crypto
  pure { wire with checkpointHash }

/-! ## Chains -/

/-- `sig_by_ordinal.get`: of signatures with one ordinal the map keeps the last. -/
def sigByOrdinal (sigs : List KeyHierarchy.CheckpointSignature) (ordinal : Nat) :
    Option KeyHierarchy.CheckpointSignature :=
  sigs.reverse.find? (·.ordinal = ordinal)

def contentTier (hasJitter allHavePhysical : Bool) : ContentTier :=
  if hasJitter && allHavePhysical then .maximum else if hasJitter then .enhanced else .core

def chainToWireWithSignatures (env : Surroundings) (chain : Chain)
    (checkpointSigs : List KeyHierarchy.CheckpointSignature) : Res Error EvidencePacketWire := do
  let hasJitter := chain.checkpoints.any (·.rfcJitter.isSome)
  let allHavePhysical :=
    chain.checkpoints.all fun cp => cp.jitterBinding.any (·.physicsSeed.isSome)
  let checkpoints ← chain.checkpoints.mapM fun cp =>
    checkpointToWire C hasJitter env.exportNonce (sigByOrdinal checkpointSigs cp.ordinal) cp
  let last := chain.checkpoints.getLast?
  let content := (last.map (·.contentHash)).getD (FixedBytes.filled 32 0)
  let contentSize := UInt64.ofNat ((last.map (·.contentSize)).getD 0)
  let contentHash ← sha256Value content
  pure
    { version := 1
      profileUri := CPOE_EVIDENCE_PROFILE
      packetId := first16 (C.sha256 (PACKET_ID_DST ++ content.val ++ env.exportNonce.val))
      created := clampMillis env.nowMillis
      document :=
        { contentHash
          filename := Checkpoint.fileName chain.metadata.documentPath
          byteLength := contentSize
          charCount := contentSize
          saltMode := none
          saltCommitment := none }
      checkpoints
      attestationTier :=
        some (if chain.checkpoints.any (·.tpmBinding.isSome) then .hardwareBound
          else .softwareOnly)
      limitations := none
      profile := none
      presenceChallenges := none
      contentTier := some (contentTier hasJitter allHavePhysical)
      packetSequence := none
      physicalLiveness := none
      authorDid := env.activeDid
      documentContent := none
      documentFilename := none
      projectFiles := none }

def chainToWire (env : Surroundings) (chain : Chain) : Res Error EvidencePacketWire :=
  chainToWireWithSignatures C env chain []

end Defs

end WritersProof.Evidence
