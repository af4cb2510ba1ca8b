/-
  Proof generation: execute K steps, derive challenges, replay the steps for
  the witnesses (crates/posme/src/prover.rs).
-/
import WritersProof.Posme.Hash
import Mathlib.Data.List.Sort

namespace WritersProof.Posme

open Rust MerkleHeap

variable (P : Prims)

/-! ## The chain of roots -/

/-- 0-indexed root chain Merkle tree over K+1 arena roots. -/
structure RootChain where
  nodes : List Digest
  n : Nat

namespace RootChain

def build (roots : List Digest) : Res PosmeError RootChain := do
  let n := 2 ^ Nat.clog 2 roots.length
  let nodes := List.replicate (2 * n - 1) zeroDigest
  let nodes ← writeAll nodes (n - 1) roots
  let nodes ← combineNodes (internalHash P) 1 (n - 1) nodes
  .ok ⟨nodes, n⟩

def root (self : RootChain) : Res PosmeError Digest := index self.nodes 0

/-- The loop is that of the tree over the arena. -/
def prove (self : RootChain) (index : Nat) : Res PosmeError (List Digest) :=
  MerkleTree.proveLoop self.nodes (trailingZeros 32 self.n) (self.n - 1 + index)

end RootChain

/-! ## Last writers -/

structure WriteIndex where
  lastWriter : List Nat

namespace WriteIndex

def new (n : Nat) : WriteIndex := ⟨List.replicate n 0⟩

def record (self : WriteIndex) (addr step : Nat) : Res PosmeError WriteIndex := do
  let lastWriter ← assign self.lastWriter addr step
  .ok ⟨lastWriter⟩

def lastWriterOf (self : WriteIndex) (addr : Nat) : Res PosmeError Nat := index self.lastWriter addr

end WriteIndex

/-! ## The proof of a step -/

structure ProofBuildCtx where
  rootChain : RootChain
  writeIndex : WriteIndex
  initTree : MerkleTree

def readWitness (treeBefore : MerkleTree) (read : Nat × Block) : Res PosmeError ReadWitness := do
  let (addr, block) := read
  let path ← treeBefore.prove addr
  .ok ⟨addr, block, path⟩

/-- The writer of a read; a step witness is attached later. -/
def writerEntry (ctx : ProofBuildCtx) (addr : Nat) : Res PosmeError (WriterProof StepProof) := do
  let ws ← ctx.writeIndex.lastWriterOf addr
  if ws = 0 then do
    let path ← ctx.initTree.prove addr
    .ok ⟨0, 0, none, some path⟩
  else .ok ⟨1, ws, none, none⟩

def buildStepProof (log : StepLog) (treeBefore : MerkleTree) (cursorIn : Digest)
    (ctx : ProofBuildCtx) : Res PosmeError StepProof := do
  let before ← unwrap (checkedSub log.stepId 1)
  let rcPathBefore ← ctx.rootChain.prove before
  let rcPathAfter ← ctx.rootChain.prove log.stepId
  let reads ← (log.readAddrs.zip log.readBlocks).mapM (readWitness treeBefore)
  let writePath ← treeBefore.prove log.writeAddr
  let writers ← log.readAddrs.mapM (writerEntry ctx)
  .ok {
    stepId := log.stepId
    cursorIn := cursorIn
    cursorOut := log.cursor
    rootBefore := log.rootBefore
    rootAfter := log.rootAfter
    rootChainPaths := (rcPathBefore, rcPathAfter)
    reads := reads
    write := ⟨log.writeAddr, log.oldBlock, log.newBlock, writePath⟩
    writers := writers }

/-- The indices are those that `initWitnessIndices` draws; each is opened as it is drawn. -/
def generateInitWitnesses (seed : Bytes) (initTree : MerkleTree) (arena : List Block) (n : Nat) :
    Res PosmeError (List InitWitness) := do
  let root ← initTree.root
  let indices ← initWitnessIndices P seed root n
  indices.mapM fun idx => do
    let block ← index arena idx
    let path ← initTree.prove idx
    .ok ⟨idx, block, path⟩

/-! ## Jitter -/

structure EntangleCtx where
  samples : List Digest
  interval : Nat
  idx : Nat
  points : List (Nat × Digest)

namespace EntangleCtx

def new (samples : List Digest) (interval : Nat) : EntangleCtx := ⟨samples, interval, 0, []⟩

def due (self : EntangleCtx) (step : Nat) : Option Digest :=
  if 0 < self.interval ∧ step % self.interval = 0 then self.samples[self.idx]? else none

def maybeInject (self : EntangleCtx) (step : Nat) (transcript : Digest) : Digest × EntangleCtx :=
  match self.due step with
  | some jh => (entangled P transcript jh,
      { self with points := self.points ++ [(step, jh)], idx := self.idx + 1 })
  | none => (transcript, self)

def maybeInjectSilent (self : EntangleCtx) (step : Nat) (transcript : Digest) :
    Digest × EntangleCtx :=
  match self.due step with
  | some jh => (entangled P transcript jh, { self with idx := self.idx + 1 })
  | none => (transcript, self)

end EntangleCtx

/-- `if let Some(ref mut ent) = entangle { .. }` -/
def injected (inject : EntangleCtx → Nat → Digest → Digest × EntangleCtx)
    (entangle : Option EntangleCtx) (step : Nat) (transcript : Digest) :
    Digest × Option EntangleCtx :=
  match entangle with
  | some ent => ((inject ent step transcript).1, some (inject ent step transcript).2)
  | none => (transcript, none)

/-! ## The execution pass -/

/-- What the execution pass carries from step to step. -/
structure Execution where
  arena : List Block
  tree : MerkleTree
  transcript : Digest
  entangle : Option EntangleCtx
  roots : List Digest

/-- `for t in 1..=k { .. }`, from step `t` on -/
def executeLoop (d : Nat) : Nat → Nat → Execution → Res PosmeError Execution
  | 0, _, exec => .ok exec
  | remaining + 1, t, exec => do
    let (res, arena, tree) ← posmeStepLight P exec.arena exec.tree exec.transcript t d
    let (transcript, entangle) :=
      injected (EntangleCtx.maybeInject P) exec.entangle t res.transcript
    let roots := exec.roots ++ [res.rootAfter]
    executeLoop d remaining (t + 1) ⟨arena, tree, transcript, entangle, roots⟩

/-! ## Replays -/

structure Replay where
  arena : List Block
  tree : MerkleTree
  transcript : Digest
  entangle : Option EntangleCtx
  writeIndex : WriteIndex

namespace Replay

def start (seed : Bytes) (n : Nat) (entangle : Option EntangleCtx) : Res PosmeError Replay := do
  let (arena, tree, _, transcript) ← initializeArena P seed n
  .ok ⟨arena, tree, transcript, entangle, WriteIndex.new n⟩

def light (d : Nat) (self : Replay) (step : Nat) : Res PosmeError Replay := do
  let (res, arena, tree) ← posmeStepLight P self.arena self.tree self.transcript step d
  let (transcript, entangle) :=
    injected (EntangleCtx.maybeInjectSilent P) self.entangle step res.transcript
  let writeIndex ← self.writeIndex.record res.writeAddr step
  .ok ⟨arena, tree, transcript, entangle, writeIndex⟩

/-- A step with its proof: the step is recorded before the proof is built. -/
def full (d : Nat) (rootChain : RootChain) (initTree : MerkleTree) (self : Replay) (step : Nat) :
    Res PosmeError (StepProof × Replay) := do
  let treeBefore := self.tree
  let cursorIn := self.transcript
  let (log, arena, tree) ← posmeStep P self.arena self.tree self.transcript step d
  let (transcript, entangle) :=
    injected (EntangleCtx.maybeInjectSilent P) self.entangle step log.transcript
  let writeIndex ← self.writeIndex.record log.writeAddr step
  let sp ← buildStepProof log treeBefore cursorIn ⟨rootChain, writeIndex, initTree⟩
  .ok (sp, ⟨arena, tree, transcript, entangle, writeIndex⟩)

/-- `while current_step < target_step - 1 { .. }`, `remaining` rounds -/
def lightLoop (d : Nat) : Nat → Nat → Replay → Res PosmeError Replay
  | 0, _, replay => .ok replay
  | remaining + 1, current, replay => do
    let replay ← replay.light P d (current + 1)
    lightLoop d remaining (current + 1) replay

/-- The challenged steps in the order of their ids, each with its place among the challenges. -/
def challengeLoop (d : Nat) (rootChain : RootChain) (initTree : MerkleTree) :
    List (Nat × Nat) → Nat → Replay → Res PosmeError (List (StepProof × Nat))
  | [], _, _ => .ok []
  | (target, origIdx) :: rest, current, replay => do
    let before ← unwrap (checkedSub target 1)
    let replay ← lightLoop P d (before - current) current replay
    let current := max current before + 1
    let (sp, replay) ← replay.full P d rootChain initTree current
    let stepProofs ← challengeLoop d rootChain initTree rest current replay
    .ok ((sp, origIdx) :: stepProofs)

/-- `for step in 1..=max_target { .. }`, from `step` on; the results are a map from step ids. -/
def writerLoop (d : Nat) (rootChain : RootChain) (initTree : MerkleTree) (targets : List Nat) :
    Nat → Nat → Replay → (Nat → Option StepProof) → Res PosmeError (Nat → Option StepProof)
  | 0, _, _, results => .ok results
  | remaining + 1, step, replay, results =>
    if step ∈ targets then do
      let (sp, replay) ← replay.full P d rootChain initTree step
      writerLoop d rootChain initTree targets remaining (step + 1) replay
        (Function.update results step (some sp))
    else do
      let replay ← replay.light P d step
      writerLoop d rootChain initTree targets remaining (step + 1) replay results

end Replay

/-- The set of targets is a list; its largest element ends the replay. -/
def replayForWriterProofs (seed : Bytes) (params : PosmeParams) (rootChain : RootChain)
    (targets : List Nat) (entangle : Option EntangleCtx) :
    Res PosmeError (Nat → Option StepProof) :=
  if targets = [] then .ok fun _ => none
  else do
    let replay ← Replay.start P seed params.arenaBlocks entangle
    let initTree ← MerkleTree.build P replay.arena
    Replay.writerLoop P params.readsPerStep rootChain initTree targets (targets.foldr max 0) 1
      replay fun _ => none

/-! ## Writers of writers -/

mutual

/-- The writers that have no witness yet, at any depth. -/
def collectUnprovedWriters : StepProof → List Nat
  | ⟨_, _, _, _, _, _, _, _, writers⟩ => collectWriters writers

def collectWriters : List (WriterProof StepProof) → List Nat
  | [] => []
  | w :: rest => collectWriter w ++ collectWriters rest

def collectWriter : WriterProof StepProof → List Nat
  | ⟨proofType, writerStepId, none, _⟩ => if proofType = 1 then [writerStepId] else []
  | ⟨_, _, some witness, _⟩ => collectUnprovedWriters witness

end

mutual

def attachWriterProofs (proofs : Nat → Option StepProof) : StepProof → StepProof
  | ⟨stepId, cursorIn, cursorOut, rootBefore, rootAfter, rootChainPaths, reads, write, writers⟩ =>
    ⟨stepId, cursorIn, cursorOut, rootBefore, rootAfter, rootChainPaths, reads, write,
      attachWriters proofs writers⟩

def attachWriters (proofs : Nat → Option StepProof) :
    List (WriterProof StepProof) → List (WriterProof StepProof)
  | [] => []
  | w :: rest => attachWriter proofs w :: attachWriters proofs rest

/-- Only pre-existing witnesses are entered; the outer loop handles depth. -/
def attachWriter (proofs : Nat → Option StepProof) : WriterProof StepProof → WriterProof StepProof
  | ⟨proofType, writerStepId, none, path⟩ =>
    ⟨proofType, writerStepId, if proofType = 1 then proofs writerStepId else none, path⟩
  | ⟨proofType, writerStepId, some witness, path⟩ =>
    ⟨proofType, writerStepId, some (attachWriterProofs proofs witness), path⟩

end

/-- `for _ in 1..params.recursion_depth { .. }`, as many rounds as are left -/
def attachRecursiveWriters (seed : Bytes) (params : PosmeParams) (rootChain : RootChain)
    (entangle : Option EntangleCtx) : Nat → List StepProof → Res PosmeError (List StepProof)
  | 0, challengedSteps => .ok challengedSteps
  | rounds + 1, challengedSteps =>
    let needed := challengedSteps.flatMap collectUnprovedWriters
    if needed = [] then .ok challengedSteps
    else do
      let writerProofs ← replayForWriterProofs P seed params rootChain needed entangle
      attachRecursiveWriters seed params rootChain entangle rounds
        (challengedSteps.map (attachWriterProofs writerProofs))

/-! ## Execution -/

/-- A second context over the same samples. -/
def EntangleCtx.again (entangle : EntangleCtx) : EntangleCtx :=
  EntangleCtx.new entangle.samples entangle.interval

/-- `checked_add(1)` on the number of steps does not fail: it is an `u32`. -/
def executeInner (elapsed : Nat) (seed : Bytes) (params : PosmeParams)
    (entangle : Option EntangleCtx) : Res PosmeError PosmeProof := do
  let n := params.arenaBlocks
  let k := params.totalSteps
  let d := params.readsPerStep
  let (arena, tree, root0, t0) ← initializeArena P seed n
  let initTree ← MerkleTree.build P arena
  let initWitnesses ← generateInitWitnesses P seed initTree arena n
  let exec ← executeLoop P d k 1 ⟨arena, tree, t0, entangle, [root0]⟩
  let rootChain ← RootChain.build P exec.roots
  let rootChainCommitment ← rootChain.root
  let challenges ← deriveChallenges P exec.transcript rootChainCommitment params
  let sortedChallenges := challenges.zipIdx.insertionSort fun a b => a.1 ≤ b.1
  let replay ← Replay.start P seed n (exec.entangle.map EntangleCtx.again)
  let initTree ← MerkleTree.build P replay.arena
  let stepProofs ← replay.challengeLoop P d rootChain initTree sortedChallenges 0
  let challengedSteps := (stepProofs.insertionSort fun a b => a.2 ≤ b.2).map (·.1)
  let challengedSteps ← attachRecursiveWriters P seed params rootChain
    (exec.entangle.map EntangleCtx.again) (params.recursionDepth - 1) challengedSteps
  let root0Path ← rootChain.prove 0
  .ok {
    params := params
    finalTranscript := exec.transcript
    rootChainCommitment := rootChainCommitment
    root0 := root0
    root0Path := root0Path
    initWitnesses := initWitnesses
    challengedSteps := challengedSteps
    claimedDuration := elapsed
    proofAlgorithm :=
      match exec.entangle with
      | some _ => proofAlgorithmPosmeEntangled
      | none => proofAlgorithmPosme
    entanglementPoints :=
      match exec.entangle with
      | some ent => ent.points
      | none => [] }

/-- `elapsed` is what the clock says at the end. -/
def execute (elapsed : Nat) (seed : Bytes) (params : PosmeParams) : Res PosmeError PosmeProof := do
  params.validate
  executeInner P elapsed seed params none

def executeEntangled (elapsed : Nat) (seed : Bytes) (params : PosmeParams)
    (jitterSamples : List Digest) : Res PosmeError PosmeProof :=
  if jitterSamples = [] then execute P elapsed seed params
  else do
    params.validate
    let k := params.totalSteps
    let len := jitterSamples.length
    let interval := k / len
    reject (interval = 0) (.invalidParams
      s!"too many jitter samples ({len}) for total_steps ({k}); need at most {k} samples")
    executeInner P elapsed seed params (some (EntangleCtx.new jitterSamples interval))

end WritersProof.Posme
