/-
  WritersProof.Wire.Checkpoint

  The parts of a wire-format checkpoint (crates/authorproof-protocol/src/rfc/wire_types/hash.rs,
  components.rs): their checks and, for the parts that are hashed, their CBOR form.

  A structure is a map from its field numbers, as text, to the fields; an optional
  field that is absent is left out.  Each form tells its part (`EditDelta.toCbor_injective` and
  its siblings), but not of which type it is: a jitter binding and a physical state can be the
  same map (`toCbor_eq_toCbor_iff`).

  Wire-format checkpoints: what `compute_hash` feeds to SHA-256 and what `validate` accepts
  (crates/authorproof-protocol/src/rfc/wire_types/checkpoint.rs).

  The parts are hashed one after the other, with nothing between them.  A part that is too
  long for a `Vec` aborts the encoder; it fails on nothing else.
-/
import WritersProof.Protocol.Types
import Mathlib.Data.List.Forall2

namespace WritersProof.Wire

open Rust Cbor
open Protocol (HashAlgorithm)

/-! ## Digests -/

structure HashValue where
  algorithm : HashAlgorithm
  digest : Bytes

namespace HashValue

def digestLen : HashAlgorithm → Nat
  | .sha256 => 32
  | .sha384 => 48
  | .sha512 => 64

def trySha256 (digest : Bytes) : Res String HashValue :=
  if digest.length ≠ 32 then fail s!"SHA-256 digest must be 32 bytes, got {digest.length}"
  else .ok { algorithm := .sha256, digest }

/-- For `prev_hash` of the first checkpoint in a chain. -/
def zeroSha256 : HashValue := { algorithm := .sha256, digest := List.replicate 32 0 }

def validateDigestLength (h : HashValue) : Res String Unit :=
  let expected := digestLen h.algorithm
  reject (h.digest.length ≠ expected)
    s!"{h.algorithm.name} digest must be {expected} bytes, got {h.digest.length}"

end HashValue

/-! ## Edit deltas -/

/-- Histograms are lists of `u64`. -/
structure EditDelta where
  charsAdded : UInt64
  charsDeleted : UInt64
  opCount : UInt64
  /-- (offset, delta) pairs -/
  positions : Option (List (UInt64 × Int64))
  editGraphHash : Option Bytes
  cursorTrajectoryHistogram : Option (List UInt64)
  revisionDepthHistogram : Option (List UInt64)
  pauseDurationHistogram : Option (List UInt64)
  metricBindingHash : Option Bytes

def noDelta : EditDelta :=
  { charsAdded := 0, charsDeleted := 0, opCount := 0, positions := none, editGraphHash := none,
    cursorTrajectoryHistogram := none, revisionDepthHistogram := none,
    pauseDurationHistogram := none, metricBindingHash := none }

def MAX_EDIT_POSITIONS : Nat := 10_000

namespace EditDelta

def validatePositions (positions : List (UInt64 × Int64)) : Res String Unit := do
  reject (positions.length > MAX_EDIT_POSITIONS)
    s!"too many edit positions: {positions.length} (max {MAX_EDIT_POSITIONS})"
  forEach (fun ((_, change), i) =>
    reject (change = 0) s!"edit position[{i}] has zero change value (no-op not allowed)")
    positions.zipIdx

def validateHistogram : String × Option (List UInt64) → Res String Unit
  | (_, none) => .ok ()
  | (name, some h) =>
    reject (h.length ≠ 8) s!"{name} must have exactly 8 elements, got {h.length}"

def validate (d : EditDelta) : Res String Unit := do
  match d.positions with
  | some positions => validatePositions positions
  | none => .ok ()
  forEach validateHistogram
    [("cursor_trajectory_histogram", d.cursorTrajectoryHistogram),
      ("revision_depth_histogram", d.revisionDepthHistogram),
      ("pause_duration_histogram", d.pauseDurationHistogram)]

def positionCbor (p : UInt64 × Int64) : Cbor := .array [.uint p.1, .int p.2]

def toCbor (d : EditDelta) : Cbor :=
  .map ([(.text "1", .uint d.charsAdded), (.text "2", .uint d.charsDeleted),
      (.text "3", .uint d.opCount)]
    ++ (optional "4" d.positions (fun ps => .array (ps.map positionCbor))
    ++ (optional "5" d.editGraphHash .bytes
    ++ (optional "9" d.cursorTrajectoryHistogram (fun h => .array (h.map .uint))
    ++ (optional "10" d.revisionDepthHistogram (fun h => .array (h.map .uint))
    ++ (optional "11" d.pauseDurationHistogram (fun h => .array (h.map .uint))
    ++ optional "12" d.metricBindingHash .bytes))))))

end EditDelta

/-! ## Process proofs -/

inductive ProofAlgorithm where
  | swfSha256
  | swfArgon2id
  | swfArgon2idEntangled
  | swfPosme
  | swfPosmeEntangled

structure ProofParams where
  timeCost : UInt64
  /-- In KiB -/
  memoryCost : UInt64
  parallelism : UInt64
  steps : UInt64
  waypointInterval : Option UInt64
  waypointMemory : Option UInt64
  readsPerStep : Option UInt64
  challenges : Option UInt64
  recursionDepth : Option UInt64

structure MerkleProof where
  leafIndex : UInt64
  /-- Ordered leaf-to-root -/
  siblingPath : List Bytes
  leafValue : Bytes

structure ProcessProof where
  algorithm : ProofAlgorithm
  params : ProofParams
  input : Bytes
  merkleRoot : Bytes
  sampledProofs : List MerkleProof
  /-- In milliseconds -/
  claimedDuration : UInt64

def MAX_SAMPLED_PROOFS : Nat := 1000

def MAX_MERKLE_DEPTH : Nat := 64

def MAX_DIGEST_LEN : Nat := 64

def SHA256_DIGEST_LEN : Nat := 32

def MerkleProof.validate (p : MerkleProof) : Res String Unit := do
  reject (p.siblingPath.length > MAX_MERKLE_DEPTH)
    s!"sibling_path too deep: {p.siblingPath.length} (max {MAX_MERKLE_DEPTH})"
  reject (p.leafValue.length > MAX_DIGEST_LEN)
    s!"leaf_value too long: {p.leafValue.length} (max {MAX_DIGEST_LEN})"
  forEach (fun (sibling, i) =>
    reject (sibling.length ≠ SHA256_DIGEST_LEN)
      s!"sibling_path[{i}] length {sibling.length} != {SHA256_DIGEST_LEN} (expected SHA-256 digest)")
    p.siblingPath.zipIdx

def ProcessProof.validate (p : ProcessProof) : Res String Unit := do
  reject (p.input.length > MAX_DIGEST_LEN)
    s!"process_proof input too long: {p.input.length} (max {MAX_DIGEST_LEN})"
  reject (p.merkleRoot.length > MAX_DIGEST_LEN)
    s!"merkle_root too long: {p.merkleRoot.length} (max {MAX_DIGEST_LEN})"
  reject (p.sampledProofs.length > MAX_SAMPLED_PROOFS)
    s!"too many sampled_proofs: {p.sampledProofs.length} (max {MAX_SAMPLED_PROOFS})"
  forEach (fun (proof, i) => mapFault proof.validate fun e => s!"sampled_proofs[{i}]: {e}")
    p.sampledProofs.zipIdx

/-! ## Jitter and physical state -/

structure JitterBindingWire where
  /-- In milliseconds -/
  intervals : List UInt64
  /-- In centibits -/
  entropyEstimate : UInt64
  jitterSeal : Bytes

def MAX_JITTER_INTERVALS : Nat := 100_000

namespace JitterBindingWire

def validate (jb : JitterBindingWire) : Res String Unit := do
  reject (jb.intervals.length > MAX_JITTER_INTERVALS)
    s!"too many jitter intervals: {jb.intervals.length} (max {MAX_JITTER_INTERVALS})"
  reject (jb.jitterSeal.length > MAX_DIGEST_LEN)
    s!"jitter_seal too long: {jb.jitterSeal.length} (max {MAX_DIGEST_LEN})"

def toCbor (jb : JitterBindingWire) : Cbor :=
  .map [(.text "1", .array (jb.intervals.map .uint)), (.text "2", .uint jb.entropyEstimate),
    (.text "3", .bytes jb.jitterSeal)]

end JitterBindingWire

/-- A tri-axis accelerometer reading: milliseconds, and axes in micro-g -/
structure InertialSample where
  timestamp : UInt64
  x : Int64
  y : Int64
  z : Int64

/-- The fields of this structure keep their names. -/
def InertialSample.toCbor (s : InertialSample) : Cbor :=
  .map [(.text "timestamp", .uint s.timestamp), (.text "x", .int s.x), (.text "y", .int s.y),
    (.text "z", .int s.z)]

structure PhysicalState where
  /-- Relative millidegrees -/
  thermal : List Int64
  entropyDelta : Int64
  kernelCommitment : Option (FixedBytes 32)
  inertialSamples : Option (List InertialSample)

def MAX_THERMAL_SAMPLES : Nat := 10_000

namespace PhysicalState

def validate (ps : PhysicalState) : Res String Unit :=
  reject (ps.thermal.length > MAX_THERMAL_SAMPLES)
    s!"too many thermal samples: {ps.thermal.length} (max {MAX_THERMAL_SAMPLES})"

def toCbor (ps : PhysicalState) : Cbor :=
  .map ([(.text "1", .array (ps.thermal.map .int)), (.text "2", .int ps.entropyDelta)]
    ++ (optional "3" ps.kernelCommitment (fun seed => .bytes seed.val)
    ++ optional "4" ps.inertialSamples (fun ss => .array (ss.map InertialSample.toCbor))))

end PhysicalState

/-! ## The forms tell the parts -/

theorem map_injective {α : Type} {enc : α → Cbor} (henc : ∀ x y, enc x = enc y → x = y)
    (xs ys : List α) (h : array (xs.map enc) = .array (ys.map enc)) : xs = ys :=
  List.map_injective_iff.mpr (fun x y => henc x y) (array.inj h)

theorem uints_injective (xs ys : List UInt64)
    (h : array (xs.map .uint) = .array (ys.map .uint)) : xs = ys :=
  map_injective (fun _ _ => uint.inj) xs ys h

theorem positions_injective (ps qs : List (UInt64 × Int64))
    (h : array (ps.map EditDelta.positionCbor) = .array (qs.map EditDelta.positionCbor)) :
    ps = qs := by
  apply map_injective _ ps qs h
  rintro ⟨offset, change⟩ ⟨offset', change'⟩ h
  simp only [EditDelta.positionCbor, array.injEq, List.cons.injEq, uint.injEq,
    and_true] at h
  rw [h.1, int_injective h.2]

theorem EditDelta.toCbor_injective {d e : EditDelta} (h : d.toCbor = e.toCbor) : d = e := by
  have hentries := map.inj h
  obtain ⟨hfirst, hrest⟩ := List.append_inj hentries rfl
  simp only [List.cons.injEq, Prod.mk.injEq, uint.injEq, true_and, and_true] at hfirst
  obtain ⟨hadded, hdeleted, hcount⟩ := hfirst
  -- field by field: what follows a field has other keys
  obtain ⟨hpositions, hrest⟩ := optional_append_inj (by simp) (by simp) positions_injective hrest
  obtain ⟨hgraph, hrest⟩ :=
    optional_append_inj (by simp) (by simp) (fun _ _ => bytes.inj) hrest
  obtain ⟨hcursor, hrest⟩ := optional_append_inj (by simp) (by simp) uints_injective hrest
  obtain ⟨hdepth, hrest⟩ := optional_append_inj (by simp) (by simp) uints_injective hrest
  obtain ⟨hpause, hrest⟩ := optional_append_inj (by simp) (by simp) uints_injective hrest
  have hmetric := optional_injective (fun _ _ => bytes.inj) hrest
  obtain ⟨_, _, _, _, _, _, _, _, _⟩ := d
  obtain ⟨_, _, _, _, _, _, _, _, _⟩ := e
  congr 1

theorem JitterBindingWire.toCbor_injective {i j : JitterBindingWire} (h : i.toCbor = j.toCbor) :
    i = j := by
  simp only [toCbor, map.injEq, List.cons.injEq, Prod.mk.injEq, true_and, and_true,
    uint.injEq, bytes.injEq] at h
  obtain ⟨hintervals, hentropy, hseal⟩ := h
  obtain ⟨_, _, _⟩ := i
  obtain ⟨_, _, _⟩ := j
  congr 1
  exact uints_injective _ _ hintervals

theorem InertialSample.toCbor_injective (s t : InertialSample) (h : s.toCbor = t.toCbor) :
    s = t := by
  simp only [toCbor, map.injEq, List.cons.injEq, Prod.mk.injEq, true_and, and_true,
    uint.injEq] at h
  obtain ⟨htimestamp, hx, hy, hz⟩ := h
  obtain ⟨_, _, _, _⟩ := s
  obtain ⟨_, _, _, _⟩ := t
  congr 1
  · exact int_injective hx
  · exact int_injective hy
  · exact int_injective hz

theorem PhysicalState.toCbor_injective {p q : PhysicalState} (h : p.toCbor = q.toCbor) : p = q := by
  obtain ⟨hfirst, hrest⟩ := List.append_inj (map.inj h) rfl
  simp only [List.cons.injEq, Prod.mk.injEq, true_and, and_true] at hfirst
  obtain ⟨hthermal, hentropy⟩ := hfirst
  obtain ⟨hkernel, hrest⟩ := optional_append_inj (by simp) (by simp)
    (fun _ _ h => FixedBytes.ext_val (bytes.inj h)) hrest
  have hinertial := optional_injective (map_injective InertialSample.toCbor_injective) hrest
  obtain ⟨_, _, _, _⟩ := p
  obtain ⟨_, _, _, _⟩ := q
  congr 1
  · exact map_injective (fun _ _ => int_injective) _ _ hthermal
  · exact int_injective hentropy

/-! ## Two types, one map -/

structure SameMap (jb : JitterBindingWire) (ps : PhysicalState) : Prop where
  thermal : List.Forall₂ (fun n t => Int64.toInt t = UInt64.toNat n) jb.intervals ps.thermal
  entropyDelta : ps.entropyDelta.toInt = jb.entropyEstimate.toNat
  kernelCommitment : ps.kernelCommitment.map FixedBytes.val = some jb.jitterSeal
  inertialSamples : ps.inertialSamples = none

theorem uints_eq_ints {ns : List UInt64} {ts : List Int64} :
    ns.map uint = ts.map int
      ↔ List.Forall₂ (fun n t => Int64.toInt t = UInt64.toNat n) ns ts := by
  simp only [← uint_eq_int]
  induction ns generalizing ts with
  | nil => cases ts <;> simp
  | cons n ns ih => cases ts <;> simp [ih]

/-- The field numbers do not tell the two types apart. -/
theorem toCbor_eq_toCbor_iff {jb : JitterBindingWire} {ps : PhysicalState} :
    jb.toCbor = ps.toCbor ↔ SameMap jb ps := by
  obtain ⟨thermal, entropyDelta, kernel, inertial⟩ := ps
  have hkeys : jb.toCbor = PhysicalState.toCbor ⟨thermal, entropyDelta, kernel, inertial⟩
      ↔ (jb.intervals.map uint = thermal.map int ∧ uint jb.entropyEstimate
        = .int entropyDelta) ∧ kernel.map FixedBytes.val = some jb.jitterSeal
        ∧ inertial = none := by
    cases kernel <;> cases inertial <;>
      simp [JitterBindingWire.toCbor, PhysicalState.toCbor, and_assoc, eq_comm]
  rw [hkeys, uints_eq_ints, uint_eq_int]
  exact ⟨fun ⟨⟨h, h'⟩, h'', h'''⟩ => ⟨h, h', h'', h'''⟩, fun ⟨h, h', h'', h'''⟩ =>
    ⟨⟨h, h'⟩, h'', h'''⟩⟩

open Rust

/-! ## Checkpoints -/

structure SelfReceipt where
  toolId : String
  outputCommit : HashValue
  evidenceRef : HashValue
  transferTime : UInt64

structure ToolReceipt where
  toolId : String
  outputCommit : HashValue
  inputRef : Option HashValue
  issuedAt : UInt64
  toolSignature : Bytes
  outputCharCount : Option UInt64

inductive Receipt where
  | tool (receipt : ToolReceipt)
  | selfReceipt (receipt : SelfReceipt)

inductive ProbeType where
  | galtonBoard
  | reflexGate
  | spatialTarget

structure ActiveProbe where
  probeType : ProbeType
  stimulusTime : UInt64
  responseTime : UInt64
  stimulusData : Bytes
  responseData : Bytes
  responseLatency : Option UInt64

structure CheckpointWire where
  sequence : UInt64
  checkpointId : FixedBytes 16
  timestamp : UInt64
  contentHash : HashValue
  charCount : UInt64
  delta : EditDelta
  prevHash : HashValue
  checkpointHash : HashValue
  processProof : ProcessProof
  jitterBinding : Option JitterBindingWire
  physicalState : Option PhysicalState
  entangledMac : Option Bytes
  receipts : Option (List Receipt)
  activeProbes : Option (List ActiveProbe)
  lamportSignature : Option Bytes
  lamportPubkeyFingerprint : Option Bytes
  posmeProof : Option Bytes

def MAX_SELF_RECEIPTS : Nat := 100

def MAX_ACTIVE_PROBES : Nat := 100

/-- `isize::MAX`, the most bytes of a `Vec` -/
def isizeMax : Nat := 2 ^ 63 - 1

/-- `codec::cbor::encode` into a `Vec<u8>` -/
def encode (item : Cbor) : Res String Bytes :=
  if item.encode.length ≤ isizeMax then .ok item.encode else abort

def encodeOpt {α : Type} (part : Option α) (toCbor : α → Cbor) : Res String Bytes :=
  match part with
  | some x => encode (toCbor x)
  | none => .ok []

namespace CheckpointWire

/-- What `compute_hash` feeds to SHA-256 -/
def hashInput (cp : CheckpointWire) : Res String Bytes := do
  let deltaCbor ← encode cp.delta.toCbor
  let jitterCbor ← encodeOpt cp.jitterBinding JitterBindingWire.toCbor
  let physCbor ← encodeOpt cp.physicalState PhysicalState.toCbor
  pure (Bytes.utf8 "PoP-Checkpoint-v1" ++ cp.prevHash.digest ++ cp.contentHash.digest ++ deltaCbor
    ++ jitterCbor ++ physCbor ++ cp.processProof.merkleRoot)

def computeHash (sha256 : Bytes → FixedBytes 32) (cp : CheckpointWire) : Res String HashValue := do
  let input ← cp.hashInput
  mapFault (HashValue.trySha256 (sha256 input).val) fun e => s!"SHA-256 hash: {e}"

/-! ## Checks -/

def validateEntangledMac : Option Bytes → Res String Unit
  | none => .ok ()
  | some mac =>
    reject (mac.length ∉ [32, 48, 64])
      s!"entangled_mac length {mac.length} invalid (must be 32, 48, or 64 bytes)"

def validateCount {α : Type} (name : String) (limit : Nat) : Option (List α) → Res String Unit
  | none => .ok ()
  | some xs => reject (xs.length > limit) s!"too many {name}: {xs.length} (max {limit})"

def validateLamport : Option Bytes → Option Bytes → Res String Unit
  | some sig, some fp => do
    reject (sig.length ≠ 8192)
      s!"lamport_signature length {sig.length} invalid (must be 8192 bytes)"
    reject (fp.length ≠ 8)
      s!"lamport_pubkey_fingerprint length {fp.length} invalid (must be 8 bytes)"
  | none, none => .ok ()
  | _, _ =>
    fail "lamport_signature and lamport_pubkey_fingerprint must both be present or both absent"

/-- Digest lengths, size limits, and nested structure -/
def validate (cp : CheckpointWire) : Res String Unit := do
  reject (cp.checkpointId = FixedBytes.filled 16 0) "checkpoint_id must not be all zeros"
  reject (cp.timestamp = 0) "timestamp must be non-zero"
  cp.contentHash.validateDigestLength
  cp.prevHash.validateDigestLength
  cp.checkpointHash.validateDigestLength
  validateEntangledMac cp.entangledMac
  validateCount "receipts" MAX_SELF_RECEIPTS cp.receipts
  validateCount "active_probes" MAX_ACTIVE_PROBES cp.activeProbes
  cp.delta.validate
  cp.processProof.validate
  match cp.jitterBinding with
  | some jb => jb.validate
  | none => .ok ()
  match cp.physicalState with
  | some ps => ps.validate
  | none => .ok ()
  validateLamport cp.lamportSignature cp.lamportPubkeyFingerprint

end CheckpointWire

/-! ## What the functions return -/

theorem encode_eq_ok {item : Cbor} {bytes : Bytes} :
    encode item = .ok bytes ↔ item.encode.length ≤ isizeMax ∧ bytes = item.encode := by
  unfold encode
  split
  case isTrue h => exact ⟨fun hok => ⟨h, (Except.ok.inj hok).symm⟩, fun hok => by rw [hok.2]⟩
  case isFalse h => exact ⟨nofun, fun hok => absurd hok.1 h⟩

theorem encodeOpt_eq_ok {α : Type} {part : Option α} {toCbor : α → Cbor} {bytes : Bytes} :
    encodeOpt part toCbor = .ok bytes ↔ (∀ x ∈ part, (toCbor x).encode.length ≤ isizeMax)
      ∧ bytes = (part.map fun x => (toCbor x).encode).getD [] := by
  cases part with
  | none => simp [encodeOpt, eq_comm]
  | some x => simp [encodeOpt, encode_eq_ok]

theorem HashValue.length_of_valid {h : HashValue} (hok : h.validateDigestLength = .ok ()) :
    h.digest.length = digestLen h.algorithm :=
  Decidable.not_not.mp (reject_eq_ok.mp hok)

namespace CheckpointWire

/-- The parts that `hash_input` puts together all fit into memory. -/
structure Encodable (cp : CheckpointWire) : Prop where
  delta : cp.delta.toCbor.encode.length ≤ isizeMax
  jitterBinding : ∀ jb ∈ cp.jitterBinding, jb.toCbor.encode.length ≤ isizeMax
  physicalState : ∀ ps ∈ cp.physicalState, ps.toCbor.encode.length ≤ isizeMax

/-- Everything in the input that lies between the digests and the root -/
def encodedParts (cp : CheckpointWire) : Bytes :=
  cp.delta.toCbor.encode ++ ((cp.jitterBinding.map fun jb => jb.toCbor.encode).getD []
    ++ (cp.physicalState.map fun ps => ps.toCbor.encode).getD [])

theorem hashInput_eq_ok {cp : CheckpointWire} {input : Bytes} :
    cp.hashInput = .ok input ↔ cp.Encodable ∧ input = Bytes.utf8 "PoP-Checkpoint-v1"
      ++ (cp.prevHash.digest ++ (cp.contentHash.digest
        ++ (cp.encodedParts ++ cp.processProof.merkleRoot))) := by
  unfold hashInput encodedParts
  simp only [res_bind_eq_ok, encode_eq_ok, encodeOpt_eq_ok, res_pure, Except.ok.injEq,
    List.append_assoc]
  constructor
  · rintro ⟨_, ⟨hdelta, rfl⟩, _, ⟨hjitter, rfl⟩, _, ⟨hphys, rfl⟩, rfl⟩
    exact ⟨⟨hdelta, hjitter, hphys⟩, rfl⟩
  · rintro ⟨⟨hdelta, hjitter, hphys⟩, rfl⟩
    exact ⟨_, ⟨hdelta, rfl⟩, _, ⟨hjitter, rfl⟩, _, ⟨hphys, rfl⟩, rfl⟩

end CheckpointWire

end WritersProof.Wire
