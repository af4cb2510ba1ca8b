/-
  Blocks, parameters, errors and proofs of the proof of sequential memory
  execution (crates/posme/src/{block,params,error,proof}.rs).

  BLAKE3-based hash primitives with domain separation, the Merkle paths over
  the arena and the two index samplers (crates/posme/src/{hash,merkle}.rs).

  BLAKE3 is a parameter (`Prims`), and so is the floating-point check of the
  jitter hashes.

  The arena, the Merkle tree over it and a single step
  (crates/posme/src/{merkle,step,init}.rs).
-/
import WritersProof.Lib.Bytes
import WritersProof.Lib.MerkleHeap
import WritersProof.Lib.Sampling

namespace WritersProof.Posme

open Rust

abbrev Digest := FixedBytes 32

def zeroDigest : Digest := FixedBytes.filled 32 0

/-- 64-byte arena block: `data` (computational value) and `causal` (hash chain). -/
structure Block where
  data : Digest
  causal : Digest
  deriving DecidableEq

def Block.zeroed : Block := ⟨zeroDigest, zeroDigest⟩

/-! ## Errors -/

/-- The errors that are told apart; the texts are those of the source. -/
inductive PosmeError where
  | invalidParams (text : String)
  | verificationFailed (text : String)
  | merkleVerifyFailed (stepId address : Nat)
  | addressMismatch (stepId readIndex expected got : Nat)
  | writeMismatch (stepId : Nat)
  | rootChainFailed (stepId : Nat)
  | transcriptMismatch (stepId : Nat)
  | challengeMismatch
  /-- both as their bits -/
  | jitterEntropyInsufficient (variance threshold : UInt64)
  deriving DecidableEq

/-! ## Parameters -/

structure PosmeParams where
  arenaBlocks : Nat
  totalSteps : Nat
  readsPerStep : Nat
  /-- Fiat-Shamir challenged steps (Q). -/
  challenges : Nat
  recursionDepth : Nat

def minArenaBlocks : Nat := 2 ^ 10

def minReadsPerStep : Nat := 4

def maxReadsPerStep : Nat := 8

def minChallenges : Nat := 2

def minRecursionDepth : Nat := 1

def maxRecursionDepth : Nat := 8

def maxArenaBlocks : Nat := 2 ^ 22

def maxTotalSteps : Nat := 2 ^ 24

namespace PosmeParams

def validate (self : PosmeParams) : Res PosmeError Unit := do
  let n := self.arenaBlocks
  let k := self.totalSteps
  let d := self.readsPerStep
  let q := self.challenges
  let r := self.recursionDepth
  reject (n < minArenaBlocks) (.invalidParams s!"arena_blocks {n} < minimum {minArenaBlocks}")
  reject (maxArenaBlocks < n) (.invalidParams s!"arena_blocks {n} > maximum {maxArenaBlocks}")
  reject (¬ n.isPowerOfTwo) (.invalidParams s!"arena_blocks {n} must be a power of 2")
  reject (k < n) (.invalidParams s!"total_steps {k} < arena_blocks {n} (rho must be >= 1)")
  reject (maxTotalSteps < k) (.invalidParams s!"total_steps {k} > maximum {maxTotalSteps}")
  reject (d < minReadsPerStep) (.invalidParams s!"reads_per_step {d} < minimum {minReadsPerStep}")
  reject (maxReadsPerStep < d) (.invalidParams s!"reads_per_step {d} > maximum {maxReadsPerStep}")
  reject (q < minChallenges) (.invalidParams s!"challenges {q} < minimum {minChallenges}")
  reject (k < q)
    (.invalidParams s!"challenges {q} > total_steps {k} (pigeonhole: not enough unique steps)")
  reject (r < minRecursionDepth)
    (.invalidParams s!"recursion_depth {r} < minimum {minRecursionDepth}")
  reject (maxRecursionDepth < r)
    (.invalidParams s!"recursion_depth {r} > maximum {maxRecursionDepth}")

/-- What `validate` has checked. -/
structure Valid (params : PosmeParams) : Prop where
  arena_min : minArenaBlocks ≤ params.arenaBlocks
  arena_max : params.arenaBlocks ≤ maxArenaBlocks
  arena_pow : params.arenaBlocks.isPowerOfTwo
  steps_min : params.arenaBlocks ≤ params.totalSteps
  steps_max : params.totalSteps ≤ maxTotalSteps
  reads_min : minReadsPerStep ≤ params.readsPerStep
  reads_max : params.readsPerStep ≤ maxReadsPerStep
  challenges_min : minChallenges ≤ params.challenges
  challenges_max : params.challenges ≤ params.totalSteps
  depth_min : minRecursionDepth ≤ params.recursionDepth
  depth_max : params.recursionDepth ≤ maxRecursionDepth

theorem validate_eq_ok {self : PosmeParams} : self.validate = .ok () ↔ self.Valid := by
  simp only [validate, reject_bind_eq_ok, reject_eq_ok, not_lt, not_not]
  constructor
  · rintro ⟨h1, h2, h3, h4, h5, h6, h7, h8, h9, h10, h11⟩
    exact ⟨h1, h2, h3, h4, h5, h6, h7, h8, h9, h10, h11⟩
  · rintro ⟨h1, h2, h3, h4, h5, h6, h7, h8, h9, h10, h11⟩
    exact ⟨h1, h2, h3, h4, h5, h6, h7, h8, h9, h10, h11⟩

/-- Layout: N (4B) || K (4B) || d (1B) || Q (2B) || R (1B). -/
def toChallengeBytes (self : PosmeParams) : Bytes :=
  Bytes.toBE 4 self.arenaBlocks ++ Bytes.toBE 4 self.totalSteps ++ Bytes.toBE 1 self.readsPerStep
    ++ Bytes.toBE 2 self.challenges ++ Bytes.toBE 1 self.recursionDepth

end PosmeParams

/-! ## Proofs -/

def proofAlgorithmPosme : Nat := 30

def proofAlgorithmPosmeEntangled : Nat := 31

def initWitnessCount : Nat := 8

structure InitWitness where
  index : Nat
  block : Block
  merklePath : List Digest

structure ReadWitness where
  address : Nat
  block : Block
  merklePath : List Digest

structure WriteWitness where
  address : Nat
  oldBlock : Block
  newBlock : Block
  merklePath : List Digest

structure WriterProof (Step : Type) where
  /-- 0 = init (block was never written), 1 = step (recursive witness). -/
  proofType : Nat
  writerStepId : Nat
  stepWitness : Option Step
  initMerklePath : Option (List Digest)

structure StepProof where
  stepId : Nat
  cursorIn : Digest
  cursorOut : Digest
  rootBefore : Digest
  rootAfter : Digest
  rootChainPaths : List Digest × List Digest
  reads : List ReadWitness
  write : WriteWitness
  writers : List (WriterProof StepProof)

/-- The duration is in nanoseconds. -/
structure PosmeProof where
  params : PosmeParams
  finalTranscript : Digest
  rootChainCommitment : Digest
  root0 : Digest
  root0Path : List Digest
  initWitnesses : List InitWitness
  challengedSteps : List StepProof
  claimedDuration : Nat
  proofAlgorithm : Nat
  entanglementPoints : List (Nat × Digest)

open Rust MerkleHeap Sampling

/-- BLAKE3 and the variance test. -/
structure Prims where
  blake3 : Bytes → Digest
  /-- Word `j` of the extendable output, four bytes each. -/
  blake3Xof : Bytes → Nat → FixedBytes 4
  jitterVariance : List Digest → UInt64
  jitterVarianceOk : List Digest → Bool
  /-- How many words `derive_challenges` reads before it counts as not returning. -/
  patience : Nat

variable (P : Prims)

def u32Max : Nat := 2 ^ 32 - 1

/-- `a + b` on `u32` -/
def addU32 {ε : Type} (a b : Nat) : Res ε Nat := if a + b < 2 ^ 32 then .ok (a + b) else abort

/-- `x.trailing_zeros()` on a word of `w` bits -/
def trailingZeros : Nat → Nat → Nat
  | 0, _ => 0
  | w + 1, x => if x % 2 = 0 then trailingZeros w (x / 2) + 1 else 0

theorem trailingZeros_two_pow {w d : Nat} (h : d ≤ w) : trailingZeros w (2 ^ d) = d := by
  induction d generalizing w with
  | zero => cases w <;> rfl
  | succ d ih =>
    obtain ⟨w, rfl⟩ : ∃ v, w = v + 1 := ⟨w - 1, by omega⟩
    rw [trailingZeros, Nat.pow_succ, if_pos (by omega), Nat.mul_div_cancel _ (by decide),
      ih (by omega)]

/-! ## Hashes -/

def posmeHash (inputs : List Bytes) : Digest := P.blake3 inputs.flatten

/-- `b"PoSME-init-v1"` -/
def dstInit : Bytes :=
  [0x50, 0x6f, 0x53, 0x4d, 0x45, 0x2d, 0x69, 0x6e, 0x69, 0x74, 0x2d, 0x76, 0x31]

/-- `b"PoSME-causal-v1"` -/
def dstCausal : Bytes :=
  [0x50, 0x6f, 0x53, 0x4d, 0x45, 0x2d, 0x63, 0x61, 0x75, 0x73, 0x61, 0x6c, 0x2d, 0x76, 0x31]

/-- `b"PoSME-transcript-v1"` -/
def dstTranscript : Bytes :=
  [0x50, 0x6f, 0x53, 0x4d, 0x45, 0x2d, 0x74, 0x72, 0x61, 0x6e, 0x73, 0x63, 0x72, 0x69, 0x70, 0x74,
    0x2d, 0x76, 0x31]

/-- `b"PoSME-addr-v1"` -/
def dstAddr : Bytes :=
  [0x50, 0x6f, 0x53, 0x4d, 0x45, 0x2d, 0x61, 0x64, 0x64, 0x72, 0x2d, 0x76, 0x31]

/-- `b"PoSME-challenge-v1"` -/
def dstFiatShamir : Bytes :=
  [0x50, 0x6f, 0x53, 0x4d, 0x45, 0x2d, 0x63, 0x68, 0x61, 0x6c, 0x6c, 0x65, 0x6e, 0x67, 0x65, 0x2d,
    0x76, 0x31]

/-- `b"PoSME-init-witness-v1"` -/
def dstInitWitness : Bytes :=
  [0x50, 0x6f, 0x53, 0x4d, 0x45, 0x2d, 0x69, 0x6e, 0x69, 0x74, 0x2d, 0x77, 0x69, 0x74, 0x6e, 0x65,
    0x73, 0x73, 0x2d, 0x76, 0x31]

/-- `b"PoSME-entangle-v1"` -/
def entangleDst : Bytes :=
  [0x50, 0x6f, 0x53, 0x4d, 0x45, 0x2d, 0x65, 0x6e, 0x74, 0x61, 0x6e, 0x67, 0x6c, 0x65, 0x2d, 0x76,
    0x31]

/-- I2OSP: u32 -> 4 big-endian bytes. -/
def i2osp (x : Nat) : Bytes := Bytes.toBE 4 x

def maskedWord (h : Digest) (n : Nat) : Nat := Bytes.ofBE (h.val.take 4) &&& (n - 1)

/-- Address derivation, masked to n-1 (n must be a power of 2). -/
def addrFrom (cursor : Digest) (index n : Nat) : Nat :=
  maskedWord (posmeHash P [dstAddr, cursor.val, i2osp index]) n

def nextCursor (cursor : Digest) (block : Block) : Digest :=
  posmeHash P [cursor.val, block.data.val, block.causal.val]

/-- The block that step `t` writes in place of `old`. -/
def writtenBlock (old : Block) (cursor : Digest) (t : Nat) : Block :=
  ⟨posmeHash P [old.data.val, cursor.val, old.causal.val],
    posmeHash P [old.causal.val, cursor.val, i2osp t]⟩

def stepTranscript (previous : Digest) (t : Nat) (cursor rootAfter : Digest) : Digest :=
  posmeHash P [previous.val, i2osp t, cursor.val, rootAfter.val]

def entangled (transcript jitterHash : Digest) : Digest :=
  posmeHash P [entangleDst, transcript.val, jitterHash.val]

/-- Step that word `j` of the challenge stream gives, unless it is rejected. -/
def drawChallenge (sigma : Bytes) (k j : Nat) : Option Nat :=
  let rejectBelow := (u32Max - k + 1) % k
  let raw := Bytes.ofBE (P.blake3Xof sigma j).val
  if raw < rejectBelow then none else some (raw % k + 1)

/-- Derive Q unique Fiat-Shamir challenge indices. -/
def deriveChallenges {ε : Type} (finalTranscript rootChainCommitment : Digest)
    (params : PosmeParams) : Res ε (List Nat) :=
  let sigma := dstFiatShamir ++ finalTranscript.val ++ rootChainCommitment.val
    ++ params.toChallengeBytes
  unwrap (sample (drawChallenge P sigma params.totalSteps) params.challenges P.patience)

/-- The indices of the init witnesses; `counter += 1` aborts on `u32::MAX`. -/
def initWitnessIndices {ε : Type} (seed : Bytes) (root0 : Digest) (n : Nat) : Res ε (List Nat) :=
  let sigma := posmeHash P [dstInitWitness, seed, root0.val]
  unwrap (sample (fun counter => some (maskedWord (posmeHash P [sigma.val, i2osp counter]) n))
    initWitnessCount u32Max)

/-! ## Merkle paths -/

/-- BLAKE3 over the block's 64 contiguous bytes. -/
def leafHash (block : Block) : Digest := posmeHash P [block.data.val ++ block.causal.val]

def internalHash (left right : Digest) : Digest := posmeHash P [left.val, right.val]

/-- Verify a Merkle inclusion proof; positions are 1-indexed.  `n + index` is on `u32`. -/
def verifyPath {ε : Type} (root : Digest) (index : Nat) (block : Block) (path : List Digest)
    (n : Nat) : Res ε Bool := do
  if path.length ≠ trailingZeros 32 n then .ok false
  else do
    let pos ← addU32 n index
    .ok (climb (internalHash P) pos (leafHash P block) path = root)

def verifyRootChainPath (commitment : Digest) (index : Nat) (value : Digest)
    (path : List Digest) (totalRoots : Nat) : Bool :=
  let n := 2 ^ Nat.clog 2 totalRoots
  if path.length ≠ trailingZeros 32 n then false
  else climb (internalHash P) (n + index) value path = commitment

/-! ## The tree -/

/-- 0-indexed flat array: the root at 0, the leaves at `n-1 .. 2n-2`. -/
structure MerkleTree where
  nodes : List Digest
  n : Nat

namespace MerkleTree

/-- Node `p` of the heap, counted from 1, is `nodes[p - 1]`. -/
def build (blocks : List Block) : Res PosmeError MerkleTree := do
  let n := blocks.length
  let nodes := List.replicate (2 * n - 1) zeroDigest
  let nodes ← writeAll nodes (n - 1) (blocks.map (leafHash P))
  let nodes ← combineNodes (internalHash P) 1 (n - 1) nodes
  .ok ⟨nodes, n⟩

/-- `while pos > 0 { .. }`; `pos` gets smaller, so `pos` rounds are enough. -/
def updateLoop : Nat → Nat → List Digest → Res PosmeError (List Digest)
  | 0, _, nodes => .ok nodes
  | fuel + 1, pos, nodes =>
    if 0 < pos then do
      let parent := (pos - 1) / 2
      let left ← index nodes (2 * parent + 1)
      let right ← index nodes (2 * parent + 2)
      let nodes ← assign nodes parent (internalHash P left right)
      updateLoop fuel parent nodes
    else .ok nodes

def update (self : MerkleTree) (index : Nat) (block : Block) : Res PosmeError MerkleTree := do
  let pos := self.n - 1 + index
  let nodes ← assign self.nodes pos (leafHash P block)
  let nodes ← updateLoop P pos pos nodes
  .ok { self with nodes := nodes }

def root (self : MerkleTree) : Res PosmeError Digest := index self.nodes 0

/-- `if pos & 1 == 1 { pos + 1 } else { pos - 1 }` -/
def siblingPos (pos : Nat) : Res PosmeError Nat :=
  if pos % 2 = 1 then .ok (pos + 1) else unwrap (checkedSub pos 1)

/-- `for _ in 0..depth { .. }` -/
def proveLoop (nodes : List Digest) : Nat → Nat → Res PosmeError (List Digest)
  | 0, _ => .ok []
  | depth + 1, pos => do
    let sibling ← siblingPos pos
    let node ← index nodes sibling
    let above ← unwrap (checkedSub pos 1)
    let path ← proveLoop nodes depth (above / 2)
    .ok (node :: path)

/-- Sibling path, leaf-to-root order. -/
def prove (self : MerkleTree) (index : Nat) : Res PosmeError (List Digest) :=
  proveLoop self.nodes (trailingZeros 32 self.n) (self.n - 1 + index)

end MerkleTree

/-! ## A step -/

def maxReads : Nat := 8

structure StepLog where
  stepId : Nat
  readAddrs : List Nat
  readBlocks : List Block
  writeAddr : Nat
  oldBlock : Block
  newBlock : Block
  cursor : Digest
  rootBefore : Digest
  rootAfter : Digest
  transcript : Digest

/-- The reads `j .. d`: their addresses, the blocks and the cursor that they lead to. -/
def readLoop (arena : List Block) :
    Nat → Nat → Digest → Res PosmeError (List Nat × List Block × Digest)
  | 0, _, cursor => .ok ([], [], cursor)
  | remaining + 1, j, cursor => do
    let a := addrFrom P cursor j arena.length
    -- `read_addrs[j as usize] = a`
    unwrap (if j < maxReads then some () else none)
    let val ← index arena a
    let (addrs, blocks, last) ← readLoop arena remaining (j + 1) (nextCursor P cursor val)
    .ok (a :: addrs, val :: blocks, last)

def posmeStep (arena : List Block) (tree : MerkleTree) (tPrev : Digest) (t d : Nat) :
    Res PosmeError (StepLog × List Block × MerkleTree) := do
  let (readAddrs, readBlocks, cursor) ← readLoop P arena d 0 tPrev
  let rootBefore ← tree.root
  let w := addrFrom P cursor d arena.length
  let oldBlock ← index arena w
  let newBlock := writtenBlock P oldBlock cursor t
  let arena ← assign arena w newBlock
  let tree ← tree.update P w newBlock
  let rootAfter ← tree.root
  let transcript := stepTranscript P tPrev t cursor rootAfter
  .ok (⟨t, readAddrs, readBlocks, w, oldBlock, newBlock, cursor, rootBefore, rootAfter, transcript⟩,
    arena, tree)

/-! ## A light step -/

/-- Lightweight step result for the execution pass (no read tracking). -/
structure StepResult where
  writeAddr : Nat
  rootAfter : Digest
  transcript : Digest

/-- The same reads, of which only the cursor is kept. -/
def readLoopLight (arena : List Block) : Nat → Nat → Digest → Res PosmeError Digest
  | 0, _, cursor => .ok cursor
  | remaining + 1, j, cursor => do
    let a := addrFrom P cursor j arena.length
    let val ← index arena a
    readLoopLight arena remaining (j + 1) (nextCursor P cursor val)

/-- Mutates arena/tree, returns only what the execution pass needs. -/
def posmeStepLight (arena : List Block) (tree : MerkleTree) (tPrev : Digest) (t d : Nat) :
    Res PosmeError (StepResult × List Block × MerkleTree) := do
  let cursor ← readLoopLight P arena d 0 tPrev
  let w := addrFrom P cursor d arena.length
  let old ← index arena w
  let newBlock := writtenBlock P old cursor t
  let arena ← assign arena w newBlock
  let tree ← tree.update P w newBlock
  let rootAfter ← tree.root
  let transcript := stepTranscript P tPrev t cursor rootAfter
  .ok (⟨w, rootAfter, transcript⟩, arena, tree)

/-! ## The initial arena -/

/-- `for i in 1..n { .. }` -/
def initLoop (seed : Bytes) : Nat → Nat → List Block → Res PosmeError (List Block)
  | 0, _, blocks => .ok blocks
  | remaining + 1, i, blocks => do
    let prev ← index blocks (i - 1)
    let skip ← index blocks (i / 2)
    let data := posmeHash P [dstInit, seed, i2osp i, prev.data.val, skip.data.val]
    let causal := posmeHash P [dstCausal, seed, i2osp i]
    let blocks ← assign blocks i ⟨data, causal⟩
    initLoop seed remaining (i + 1) blocks

/-- Returns (arena, merkle_tree, root_0, T_0). -/
def initializeArena (seed : Bytes) (n : Nat) :
    Res PosmeError (List Block × MerkleTree × Digest × Digest) := do
  let blocks := List.replicate n Block.zeroed
  let data := posmeHash P [dstInit, seed, i2osp 0]
  let causal := posmeHash P [dstCausal, seed, i2osp 0]
  let blocks ← assign blocks 0 ⟨data, causal⟩
  let blocks ← initLoop P seed (n - 1) 1 blocks
  let tree ← MerkleTree.build P blocks
  let root0 ← tree.root
  let t0 := posmeHash P [dstTranscript, seed, root0.val]
  .ok (blocks, tree, root0, t0)

end WritersProof.Posme
