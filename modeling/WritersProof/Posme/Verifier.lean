/-
  Stateless verification of a proof (crates/posme/src/verifier.rs).

  A writer witness is verified as the step itself is, with one level less to
  spend; `verifyStepWith` is the body, given the verifier of the witnesses, or
  `none` where the levels are used up.
-/
import WritersProof.Posme.Hash
import Mathlib.Data.List.Sort

namespace WritersProof.Posme

open Rust MerkleHeap

variable (P : Prims)

/-- 50.0 -/
def minJitterByteVariance : UInt64 := 0x4049000000000000

def validateJitterEntropy (points : List (Nat × Digest)) : Res PosmeError Unit :=
  if points.length < 2 then .ok ()
  else reject (¬ P.jitterVarianceOk (points.map (·.2)))
    (.jitterEntropyInsufficient (P.jitterVariance (points.map (·.2))) minJitterByteVariance)

variable (proof : PosmeProof)

def checkJitter : Res PosmeError Unit :=
  if proof.proofAlgorithm = proofAlgorithmPosmeEntangled then
    validateJitterEntropy P proof.entanglementPoints
  else .ok ()

structure VerifyCtx where
  n : Nat
  d : Nat
  k : Nat
  totalRoots : Nat
  t0 : Digest
  maxWriterDepth : Nat

/-! ## One step -/

/-- `if !merkle::verify_path(..) { return Err(MerkleVerifyFailed { .. }); }` -/
def requirePath (step : Nat) (root : Digest) (address : Nat) (block : Block) (path : List Digest)
    (n : Nat) : Res PosmeError Unit := do
  let ok ← verifyPath P root address block path n
  reject (¬ ok) (.merkleVerifyFailed step address)

def verifySymbioticWrite (sp : StepProof) (step n d : Nat) (cursor : Digest) :
    Res PosmeError Unit := do
  let expectedAddr := addrFrom P cursor d n
  reject (expectedAddr ≠ sp.write.address) (.writeMismatch step)
  requirePath P step sp.rootBefore sp.write.address sp.write.oldBlock sp.write.merklePath n
  let expected := writtenBlock P sp.write.oldBlock cursor step
  reject (sp.write.newBlock.data ≠ expected.data ∨ sp.write.newBlock.causal ≠ expected.causal)
    (.writeMismatch step)
  requirePath P step sp.rootAfter sp.write.address sp.write.newBlock sp.write.merklePath n

def cursorLoop (step n : Nat) : Nat → List ReadWitness → Digest → Res PosmeError Digest
  | _, [], cursor => .ok cursor
  | j, rw :: rest, cursor => do
    let expectedAddr := addrFrom P cursor j n
    reject (expectedAddr ≠ rw.address) (.addressMismatch step (j % 2 ^ 32) expectedAddr rw.address)
    cursorLoop step n (j + 1) rest (nextCursor P cursor rw.block)

def checkWitness (sp : StepProof) (verifyWitness : Option (StepProof → Res PosmeError Digest))
    (j : Nat) (read : ReadWitness) (writerStepId : Nat) (witness : StepProof) :
    Res PosmeError Unit := do
  let step := sp.stepId
  let prior := witness.stepId
  let wrote := witness.write.address
  let address := read.address
  match verifyWitness with
  | none => fail (.verificationFailed s!"writer chain exceeds max depth at step {step}")
  | some verify => do
    reject (prior = 0 ∨ step ≤ prior) (.verificationFailed
      s!"writer step {prior} for read {j} at step {step} is not a valid prior step")
    reject (prior ≠ writerStepId) (.verificationFailed
      s!"writer witness step_id {prior} != claimed writer_step_id {writerStepId}")
    let _ ← verify witness
    reject (wrote ≠ address) (.verificationFailed
      s!"writer step {prior} wrote to address {wrote} but read {j} is at address {address}")
    reject (witness.write.newBlock.data ≠ read.block.data
      ∨ witness.write.newBlock.causal ≠ read.block.causal) (.verificationFailed
      s!"writer step {prior} output doesn't match read block at address {address}")

/-- The init path of a block that was never written, where it is present. -/
def checkInitPath (step n : Nat) (w : WriterProof StepProof) (read : ReadWitness) :
    Res PosmeError Unit :=
  if w.proofType = 0 then
    match w.initMerklePath with
    | some path => requirePath P step proof.root0 read.address read.block path n
    | none => .ok ()
  else .ok ()

/-- Writer `j`: its init path and its witness are checked where they are present. -/
def checkWriter (ctx : VerifyCtx) (sp : StepProof)
    (verifyWitness : Option (StepProof → Res PosmeError Digest))
    (entry : WriterProof StepProof × Nat) : Res PosmeError Unit := do
  let (w, j) := entry
  let step := sp.stepId
  let len := sp.reads.length
  reject (len ≤ j) (.verificationFailed
    s!"writer index {j} out of bounds for reads (len {len}) at step {step}")
  let read ← index sp.reads j
  checkInitPath P proof step ctx.n w read
  match w.stepWitness with
  | some witness => checkWitness sp verifyWitness j read w.writerStepId witness
  | none => .ok ()

/-- The transcript that the proof has to end with, after the jitter hashes of the step. -/
def finalExpected (points : List (Nat × Digest)) (step : Nat) (transcript : Digest) : Digest :=
  points.foldl (fun acc point => if point.1 = step then entangled P acc point.2 else acc) transcript

def verifyStepWith (ctx : VerifyCtx) (verifyWitness : Option (StepProof → Res PosmeError Digest))
    (sp : StepProof) :
    Res PosmeError Digest := do
  let step := sp.stepId
  let writersLen := sp.writers.length
  let readsLen := sp.reads.length
  let k := ctx.k
  reject (readsLen < writersLen) (.verificationFailed
    s!"step {step}: writers count ({writersLen}) exceeds reads count ({readsLen})")
  reject (step = 0 ∨ k < step) (.verificationFailed s!"step_id {step} out of valid range [1, {k}]")
  let n := ctx.n
  reject (¬ verifyRootChainPath P proof.rootChainCommitment (step - 1) sp.rootBefore
    sp.rootChainPaths.1 ctx.totalRoots) (.rootChainFailed step)
  reject (¬ verifyRootChainPath P proof.rootChainCommitment step sp.rootAfter
    sp.rootChainPaths.2 ctx.totalRoots) (.rootChainFailed step)
  forEach (fun rw => requirePath P step sp.rootBefore rw.address rw.block rw.merklePath n) sp.reads
  let cursor ← cursorLoop P step n 0 sp.reads sp.cursorIn
  verifySymbioticWrite P sp step n ctx.d cursor
  forEach (checkWriter P proof ctx sp verifyWitness) sp.writers.zipIdx
  let expectedTranscript := stepTranscript P sp.cursorIn step cursor sp.rootAfter
  reject (step = k ∧ finalExpected P proof.entanglementPoints step expectedTranscript
    ≠ proof.finalTranscript) (.transcriptMismatch step)
  reject (step = 1 ∧ sp.cursorIn ≠ ctx.t0) (.transcriptMismatch step)
  .ok expectedTranscript

def verifyStep (proof : PosmeProof) (ctx : VerifyCtx) : Nat → StepProof → Res PosmeError Digest
  | 0 => verifyStepWith P proof ctx none
  | writerDepth + 1 => verifyStepWith P proof ctx (some (verifyStep proof ctx writerDepth))

/-! ## The proof -/

def checkInitWitness (seed : Bytes) (proof : PosmeProof) (n : Nat) (entry : InitWitness × Nat) :
    Res PosmeError Unit := do
  let (w, expectedIdx) := entry
  let got := w.index
  reject (got ≠ expectedIdx) (.verificationFailed
    s!"init witness index mismatch: got {got}, expected {expectedIdx}")
  let expectedData := if w.index = 0 then posmeHash P [dstInit, seed, i2osp 0] else w.block.data
  let expectedCausal := posmeHash P [dstCausal, seed, i2osp w.index]
  reject (w.index = 0 ∧ w.block.data ≠ expectedData)
    (.verificationFailed "init block 0 data mismatch")
  reject (w.block.causal ≠ expectedCausal)
    (.verificationFailed s!"init block {got} causal mismatch")
  requirePath P 0 proof.root0 w.index w.block w.merklePath n

/-- Two challenged steps that are next to each other in the order of their ids. -/
def checkConsecutive (pair : (Nat × Digest) × (Nat × Digest)) :
    Res PosmeError Unit := do
  let ((stepA, transcriptA), (stepB, _)) := pair
  let sp ← okOr (proof.challengedSteps.find? fun s => s.stepId = stepB)
    (.verificationFailed s!"challenged step {stepB} missing from proof")
  let transcriptA := match proof.entanglementPoints.find? fun point => point.1 = stepA with
    | some point => entangled P transcriptA point.2
    | none => transcriptA
  reject (stepB = stepA + 1 ∧ sp.cursorIn ≠ transcriptA) (.transcriptMismatch stepB)

def verifyCtx (seed : Bytes) (proof : PosmeProof) : VerifyCtx where
  n := proof.params.arenaBlocks
  d := proof.params.readsPerStep
  k := proof.params.totalSteps
  totalRoots := proof.params.totalSteps + 1
  t0 := posmeHash P [dstTranscript, seed, proof.root0.val]
  maxWriterDepth := proof.params.recursionDepth - 1

def verify (seed : Bytes) (proof : PosmeProof) : Res PosmeError Unit := do
  proof.params.validate
  let algorithm := proof.proofAlgorithm
  reject (algorithm ≠ proofAlgorithmPosme ∧ algorithm ≠ proofAlgorithmPosmeEntangled)
    (.verificationFailed s!"unknown proof algorithm: {algorithm}")
  checkJitter P proof
  -- `checked_add(1)` on the number of steps does not fail: it is below 2^24
  let ctx := verifyCtx P seed proof
  reject (¬ verifyRootChainPath P proof.rootChainCommitment 0 proof.root0 proof.root0Path
    ctx.totalRoots) (.rootChainFailed 0)
  let initLen := proof.initWitnesses.length
  reject (initLen < initWitnessCount) (.verificationFailed
    s!"insufficient init witnesses: {initLen} < {initWitnessCount}")
  let expectedIndices ← initWitnessIndices P seed proof.root0 ctx.n
  forEach (checkInitWitness P seed proof ctx.n) (proof.initWitnesses.zip expectedIndices)
  let expectedChallenges ← deriveChallenges P proof.finalTranscript proof.rootChainCommitment
    proof.params
  reject (proof.challengedSteps.map (·.stepId) ≠ expectedChallenges) .challengeMismatch
  let stepTranscripts ← proof.challengedSteps.mapM fun sp => do
    let transcript ← verifyStep P proof ctx ctx.maxWriterDepth sp
    .ok (sp.stepId, transcript)
  reject (¬ (proof.entanglementPoints.map (·.1)).Nodup)
    (.verificationFailed "duplicate step_id in entanglement_points")
  let sortedTranscripts := stepTranscripts.insertionSort fun a b => a.1 ≤ b.1
  forEach (checkConsecutive P proof) (sortedTranscripts.zip sortedTranscripts.tail)

end WritersProof.Posme
