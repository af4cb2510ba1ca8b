/-
  WritersProof.Checkpoint.Chain

  Chains of checkpoints and their verification (crates/cpoe/src/checkpoint/chain.rs,
  chain_verification.rs).

  A failed check ends the verification with the report up to there; a loop over checks is
  a recursion that carries the report.
-/
import WritersProof.Checkpoint.Vdf
import WritersProof.Mmr.Proof

namespace WritersProof

/-- `Display` -/
def Mmr.MmrError.text : Mmr.MmrError → String
  | .empty => "empty"
  | .corruptedStore => "corrupted store"
  | .indexOutOfRange => "index out of range"
  | .invalidNodeData => "invalid node data"
  | .invalidProof => "invalid proof"
  | .hashMismatch => "hash mismatch"
  | .nodeNotFound => "node not found"
  | .proofTooLarge => "proof component exceeds u16::MAX elements"
  | .io => "io error: "

namespace Checkpoint

open Rust

inductive EntanglementMode where
  | legacy
  | entangled
  deriving DecidableEq

inductive SignaturePolicy where
  | optional
  | required
  deriving DecidableEq

structure ChainMetadata where
  documentPath : String
  vdfParams : Parameters
  entanglementMode : EntanglementMode
  signaturePolicy : SignaturePolicy
  deriving DecidableEq

structure Chain where
  metadata : ChainMetadata
  checkpoints : List Checkpoint
  deriving DecidableEq

/-- Granular verification results for a checkpoint chain (beyond pass/fail). -/
structure VerificationReport where
  valid : Bool
  unsignedCheckpoints : List Nat
  signatureFailures : List Nat
  ordinalGaps : List (Nat × Nat)
  metadataValid : Bool
  warnings : List String
  errors : List String
  /-- Index and drift in seconds -/
  clockToleranceViolations : List (Nat × Int)

namespace VerificationReport

def new : VerificationReport :=
  { valid := true, unsignedCheckpoints := [], signatureFailures := [], ordinalGaps := []
    metadataValid := true, warnings := [], errors := [], clockToleranceViolations := [] }

def fail (report : VerificationReport) (message : String) : VerificationReport :=
  { report with valid := false, errors := report.errors ++ [message] }

/-- `report.warnings.push(message)` -/
def warn (report : VerificationReport) (message : String) : VerificationReport :=
  { report with warnings := report.warnings ++ [message] }

end VerificationReport

/-- `report.fail(message); return report;` ends a verification. -/
abbrev Checking := Res (VerificationReport × String)

structure ChainCrates (Argon2 : Type) where
  sha256 : Bytes → Digest
  /-- `codec::cbor::encode` -/
  documentRefCbor : DocumentRef → Except String Bytes
  argon2 : Swf.Prims Argon2
  /-- `Display` of a `DateTime<Utc>` -/
  dateText : DateTime → String

section Defs

variable {Argon2 : Type} (K : ChainCrates Argon2)

def validateTimestamp (c : Checkpoint) : Res Error Unit := do
  reject (c.timestamp.nanos < -2 ^ 63 ∨ 2 ^ 63 ≤ c.timestamp.nanos)
    (.checkpoint
      s!"checkpoint timestamp {K.dateText c.timestamp} overflows nanosecond representation")
  reject (c.timestamp.nanos < 0)
    (.checkpoint s!"checkpoint timestamp {K.dateText c.timestamp} is before the Unix epoch")

variable (i : Nat)

/-- A clock may go back by a second, and is then noted. -/
def checkDrift (prev : Option Checkpoint) (c : Checkpoint) (report : VerificationReport) :
    Checking VerificationReport :=
  match prev with
  | none => .ok report
  | some prev =>
    if c.timestamp < prev.timestamp then do
      let drift := prev.timestamp.secondsSince c.timestamp
      reject (1 < drift)
        (report, s!"checkpoint {i}: timestamp backdated by {drift}s (before previous checkpoint)")
      .ok ({ report with
        clockToleranceViolations := report.clockToleranceViolations ++ [(i, drift)] }.warn
          s!"checkpoint {i}: minor clock drift ({drift}s)")
    else .ok report

/-- The previous hash is that of the document. -/
def isSpecGenesis (path : String) (c : Checkpoint) : Bool :=
  match genesisPrevHash K.sha256 K.documentRefCbor c.contentHash c.contentSize path with
  | .ok hash => c.previousHash = hash
  | .error _ => false

def checkLink (path : String) (i : Nat) (prev : Option Checkpoint) (c : Checkpoint)
    (report : VerificationReport) : Checking VerificationReport :=
  match prev with
  | some prev => do
    reject (c.previousHash ≠ prev.hash) (report, s!"checkpoint {i}: broken chain link")
    .ok report
  | none =>
    if isSpecGenesis K path c then .ok report
    else do
      reject (c.previousHash ≠ FixedBytes.filled 32 0)
        (report, "checkpoint 0: invalid genesis prev-hash")
      .ok (report.warn "checkpoint 0: legacy all-zeros genesis prev_hash accepted")

def checkSignature (policy : SignaturePolicy) (i : Nat) (c : Checkpoint)
    (report : VerificationReport) : Checking VerificationReport :=
  match c.signature with
  | none => do
    let report := { report with unsignedCheckpoints := report.unsignedCheckpoints ++ [c.ordinal] }
    reject (policy = .required)
      (report, s!"checkpoint {i}: unsigned (signature required by policy)")
    .ok (report.warn s!"checkpoint {i}: unsigned (optional policy)")
  | some sig => do
    reject (sig.length ≠ 64)
      ({ report with signatureFailures := report.signatureFailures ++ [c.ordinal] },
        s!"checkpoint {i}: invalid Ed25519 signature length {sig.length} "
          ++ "(expected 64 bytes; cryptographic verification deferred to keyhierarchy)")
    .ok (report.warn (s!"checkpoint {i}: Ed25519 signature present but not "
      ++ "cryptographically verified (no verifying key in chain; "
      ++ "use keyhierarchy::verify_checkpoint_signatures for full check)"))

/-! ## Delay proofs -/

def computeExpectedVdfInput (c : Checkpoint) (prevVdfOutput : Option Digest) :
    EntanglementMode → Res Error Digest
  | .legacy => .ok (chainInput K.sha256 c.contentHash c.previousHash c.ordinal)
  | .entangled => do
    let previousOutput := prevVdfOutput.getD (FixedBytes.filled 32 0)
    let jitter ← okOr c.jitterBinding
      (.checkpoint s!"checkpoint {i}: missing jitter binding (required for entangled mode)")
    let baseInput := chainInputEntangled K.sha256 previousOutput jitter.jitterHash c.contentHash
      c.ordinal
    .ok (mixPhysicsSeed K.sha256 baseInput jitter.physicsSeed)

def verifySingleCheckpointVdf (c : Checkpoint) (vdf : VdfProof) (prevVdfOutput : Option Digest)
    (mode : EntanglementMode) : Res Error Unit := do
  let expectedInput ← computeExpectedVdfInput K i c prevVdfOutput mode
  reject (vdf.input ≠ expectedInput) (.checkpoint s!"checkpoint {i}: VDF input mismatch")
  reject (vdf.verify K.sha256 = false) (.checkpoint s!"checkpoint {i}: VDF verification failed")

/-- The output that an entangled proof starts from: that of the checkpoint before. -/
def prevVdfOutput (prev : Option Checkpoint) : EntanglementMode → Res Error (Option Digest)
  | .legacy => .ok none
  | .entangled =>
    match prev with
    | none => .ok none
    | some prev => do
      let vdf ← okOr prev.vdf (.checkpoint (s!"checkpoint {i}: previous checkpoint missing VDF "
        ++ "(required for entangled chain)"))
      .ok (some vdf.output)

/-- The first checkpoint of a legacy chain needs no proof. -/
def checkDelay (metadata : ChainMetadata) (i : Nat) (prev : Option Checkpoint) (c : Checkpoint)
    (report : VerificationReport) : Checking VerificationReport :=
  match c.vdf with
  | none =>
    match metadata.entanglementMode with
    | .legacy => do
      reject (0 < i)
        (report, s!"checkpoint {i}: missing VDF proof (required for time verification)")
      .ok (report.warn "checkpoint 0: no VDF proof; chain predates genesis-VDF requirement")
    | .entangled =>
      Rust.fail
        (report, s!"checkpoint {i}: missing VDF proof (required for entangled verification)")
  | some vdf => do
    let output ← mapFault (prevVdfOutput i prev metadata.entanglementMode) fun e => (report, e.text)
    mapFault (verifySingleCheckpointVdf K i c vdf output metadata.entanglementMode)
      fun e => (report, e.text)
    .ok (if vdf.iterations < metadata.vdfParams.minIterations then
        report.warn (s!"checkpoint {i}: VDF iterations {vdf.iterations} below minimum "
          ++ s!"{metadata.vdfParams.minIterations}")
      else report)

/-! ## Other proofs -/

/-- The second half of the output is the challenge. -/
def checkRfcVdf (c : Checkpoint) (report : VerificationReport) : Checking Unit :=
  match c.rfcVdf with
  | none => .ok ()
  | some rfcVdf =>
    reject ((rfcVdf.output.val.drop 32).take 32 ≠ rfcVdf.challenge.val)
      (report, s!"checkpoint {i}: rfc_vdf layout mismatch (input half of output != challenge)")

def checkArgon2 (c : Checkpoint) (report : VerificationReport) : Checking Unit :=
  match c.argon2Swf with
  | none => .ok ()
  | some swf => do
    let accepted ← mapFault (Swf.verify K.argon2 swf)
      fun e => (report, s!"checkpoint {i}: Argon2id SWF error: {e}")
    reject (accepted = false) (report, s!"checkpoint {i}: Argon2id SWF Merkle verification failed")

def checkNextRoot (root : Digest) (next : Option Checkpoint) (report : VerificationReport) :
    Checking VerificationReport :=
  match next with
  | none => .ok report
  | some next =>
    match next.mmrRoot with
    | some nextRoot => do
      reject (root ≠ nextRoot) (report, s!"checkpoint {i}: MMR proof root does not match "
        ++ s!"checkpoint {i + 1} mmr_root (rollback detected)")
      .ok report
    | none =>
      .ok (report.warn (s!"checkpoint {i}: MMR inclusion proof present but "
        ++ s!"checkpoint {i + 1} has no mmr_root for cross-anchor check"))

def checkMmr (next : Option Checkpoint) (c : Checkpoint) (report : VerificationReport) :
    Checking VerificationReport :=
  match c.mmrInclusionProof with
  | none => .ok report
  | some proofBytes => do
    let proof ← mapFault (Mmr.InclusionProof.deserialize proofBytes)
      fun _ => (report, s!"checkpoint {i}: malformed mmr_inclusion_proof")
    mapFault (proof.verify (Mmr.sha256Hasher K.sha256) c.hash.val)
      fun e => (report, s!"checkpoint {i}: MMR inclusion proof invalid: {e.text}")
    checkNextRoot i proof.root next report

/-! ## Chains -/

def checkCheckpoint (metadata : ChainMetadata) (i : Nat) (prev next : Option Checkpoint)
    (c : Checkpoint) (report : VerificationReport) : Checking VerificationReport := do
  mapFault (validateTimestamp K c) fun e => (report, s!"checkpoint {i}: {e.text}")
  let report ← checkDrift i prev c report
  reject (c.computeHash K.sha256 ≠ c.hash) (report, s!"checkpoint {i}: hash mismatch")
  reject (c.ordinal ≠ i) ({ report with ordinalGaps := report.ordinalGaps ++ [(i, c.ordinal)] },
    s!"checkpoint {i}: ordinal gap (expected {i}, got {c.ordinal})")
  let report ← checkLink K metadata.documentPath i prev c report
  let report ← checkSignature metadata.signaturePolicy i c report
  let report ← checkDelay K metadata i prev c report
  checkRfcVdf i c report
  checkArgon2 K i c report
  checkMmr K i next c report

/-- `for (i, checkpoint) in self.checkpoints.iter().enumerate() { ... }` -/
def checkCheckpoints (metadata : ChainMetadata) :
    Nat → Option Checkpoint → VerificationReport → List Checkpoint → Checking VerificationReport
  | _, _, report, [] => .ok report
  | i, prev, report, c :: cs => do
    let report ← checkCheckpoint K metadata i prev cs.head? c report
    checkCheckpoints metadata (i + 1) (some c) report cs

def Chain.verifyDetailed {ε : Type} (chain : Chain) : Res ε VerificationReport :=
  if chain.checkpoints = [] then .ok (VerificationReport.new.fail "empty chain")
  else
    match checkCheckpoints K chain.metadata 0 none .new chain.checkpoints with
    | .ok report => .ok report
    | .error (.err (report, message)) => .ok (report.fail message)
    | .error .panic => abort

/-- `total += min_elapsed_time`, over the checkpoints that have a proof -/
def totalElapsed {ε : Type} (params : Parameters) : Nat → List Checkpoint → Res ε Nat
  | total, [] => .ok total
  | total, c :: cs =>
    match c.vdf with
    | none => totalElapsed params total cs
    | some vdf => do
      let elapsed ← vdf.minElapsedTime params
      let total ← addDuration total elapsed
      totalElapsed params total cs

def Chain.totalElapsedTime {ε : Type} (chain : Chain) : Res ε Nat :=
  totalElapsed chain.metadata.vdfParams 0 chain.checkpoints

end Defs

end Checkpoint

end WritersProof
