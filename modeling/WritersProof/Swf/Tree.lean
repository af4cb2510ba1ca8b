/-
  Parameters, proofs and limits of the Argon2id sequential work function
  (crates/cpoe/src/vdf/swf_argon2.rs).

  SHA-256, HKDF-Expand, Argon2id and the CBOR writer are parameters (`Prims`).

  The Merkle tree over the outputs and its inclusion proofs, and the selection
  of the sampled leaves (crates/cpoe/src/vdf/swf_argon2.rs).

  The verifier of Argon2id SWF proofs (`verify_with_samples`) and what it has
  checked when it accepts (`Accepted`).
-/
import WritersProof.Lib.Bytes
import WritersProof.Lib.MerkleHeap
import WritersProof.Lib.Sampling
import Mathlib.Data.Nat.Bitwise
import Mathlib.Data.List.Sort

namespace WritersProof.Swf

open Rust FixedBytes

abbrev Digest := FixedBytes 32

/-- The functions of other crates.  `Argon2` is a configured Argon2id instance. -/
structure Prims (Argon2 : Type) where
  sha256 : Bytes → Digest
  /-- `Hkdf::<Sha256>::from_prk(prk)` and `expand(info, &mut [0u8; 4])`; both lengths are valid. -/
  hkdfExpand : Digest → Bytes → FixedBytes 4
  /-- `Params::new(m_cost, t_cost, p_cost, Some(output_len))` and `Argon2::new` -/
  newArgon2 : Nat → Nat → Nat → Nat → Except String Argon2
  /-- `hash_password_into(pwd, salt, &mut [0u8; 32])` -/
  hashPasswordInto : Argon2 → Digest → Digest → Except String Digest
  /-- `ciborium::into_writer` of a map from integers to integers -/
  cborMap : List (Nat × Nat) → Except String Bytes

/-- Functions for what never runs Argon2id. -/
def Prims.idle (sha256 : Bytes → Digest) : Prims Unit where
  sha256
  hkdfExpand _ _ := filled 4 0
  newArgon2 _ _ _ _ := .ok ()
  hashPasswordInto _ _ _ := .ok (filled 32 0)
  cborMap _ := .ok []

structure Argon2SwfParams where
  timeCost : Nat
  memoryCost : Nat
  parallelism : Nat
  iterations : Nat
  deriving DecidableEq

structure MerkleSampleProof where
  leafIndex : Nat
  leafValue : Digest
  siblingPath : List Digest
  rawOutput : Digest
  deriving DecidableEq

structure Argon2SwfProof where
  input : Digest
  merkleRoot : Digest
  params : Argon2SwfParams
  sampledProofs : List MerkleSampleProof
  claimedDuration : Nat
  challenge : Digest
  proofAlgorithm : Nat
  deriving DecidableEq

/-! ## Limits -/

def defaultSampleCount : Nat := 20

def proofAlgorithmStandard : Nat := 20

def maxIterations : Nat := 10000000

def u32Max : Nat := 2 ^ 32 - 1

def validateIterations (iterations : Nat) : Res String Unit :=
  if iterations = 0 then fail "iterations must be >= 1"
  else if maxIterations < iterations then
    fail s!"iterations {iterations} exceeds maximum ({maxIterations})"
  else .ok ()

theorem validateIterations_eq_ok {iterations : Nat} :
    validateIterations iterations = .ok () ↔ 1 ≤ iterations ∧ iterations ≤ maxIterations := by
  unfold validateIterations
  rw [guard_fail_eq_ok, guard_fail_eq_ok]
  simp only [and_true]
  omega

/-! ## Hashes -/

section Hashes

variable {Argon2 : Type} (P : Prims Argon2)

/-- `b"PoP-salt-v1"` -/
def saltTag : Bytes := [0x50, 0x6f, 0x50, 0x2d, 0x73, 0x61, 0x6c, 0x74, 0x2d, 0x76, 0x31]

/-- `b"PoP-Fiat-Shamir-v1"` -/
def fiatShamirTag : Bytes :=
  [0x50, 0x6f, 0x50, 0x2d, 0x46, 0x69, 0x61, 0x74, 0x2d, 0x53, 0x68, 0x61, 0x6d, 0x69, 0x72, 0x2d,
    0x76, 0x31]

/-- `H(0x00 || "PoP-salt-v1" || input)` -/
def firstSalt (input : Digest) : Digest := P.sha256 ([0x00] ++ saltTag ++ input.val)

/-- `H(0x01 || "PoP-salt-v1" || I2OSP(i, 4))` -/
def nextSalt (i : Nat) : Digest := P.sha256 ([0x01] ++ saltTag ++ Bytes.toBE 4 i)

def salt (input : Digest) (i : Nat) : Digest :=
  if i = 0 then firstSalt P input else nextSalt P i

/-- RFC 6962 leaf: `H(0x00 || output)`. -/
def leafHash (output : Digest) : Digest := P.sha256 ([0x00] ++ output.val)

/-- RFC 6962 internal node: `H(0x01 || left || right)`. -/
def nodeHash (left right : Digest) : Digest := P.sha256 ([0x01] ++ left.val ++ right.val)

def buildArgon2 (params : Argon2SwfParams) : Res String Argon2 :=
  mapErr (P.newArgon2 params.memoryCost params.timeCost params.parallelism 32) fun e =>
    s!"invalid Argon2id params: {e}"

def fiatShamirChallenge (merkleRoot input : Digest) (params : Argon2SwfParams)
    (proofAlgorithm : Nat) : Res String Digest := do
  let paramsCbor ← mapErr (P.cborMap [(1, params.timeCost), (2, params.memoryCost),
    (3, params.parallelism), (4, params.iterations)]) fun e => s!"CBOR encoding proof params: {e}"
  .ok (P.sha256 (fiatShamirTag ++ Bytes.toBE 2 proofAlgorithm ++ paramsCbor ++ input.val
    ++ merkleRoot.val))

end Hashes

open Rust MerkleHeap Sampling

variable {Argon2 : Type} (P : Prims Argon2)

/-- `len.next_power_of_two()` is `2 ^ treeDepth len`. -/
def treeDepth (len : Nat) : Nat := Nat.clog 2 len

/-- Sentinel padding: `H(0x02 || I2OSP(steps + 1, 4))`. -/
def paddingValue (steps : Nat) : Digest :=
  P.sha256 ([0x02] ++ Bytes.toBE 4 (min (min (steps + 1) (2 ^ 64 - 1)) u32Max))

/-- 1-indexed Merkle tree: `tree[1]` is the root, `tree[n..2n]` are the leaves. -/
def buildMerkleTree (leaves : List Digest) (steps : Nat) : Res String (List Digest) := do
  let n := 2 ^ treeDepth leaves.length
  let tree := List.replicate (2 * n) (filled 32 0)
  let tree ← writeAll tree n leaves
  let tree ← writeAll tree (n + leaves.length)
    (List.replicate (n - leaves.length) (paddingValue P steps))
  combineNodes (nodeHash P) 0 (n - 1) tree

/-- `if tree.len() > 1 { tree[1] } else { [0u8; 32] }` -/
def treeRoot (tree : List Digest) : Res String Digest :=
  if 1 < tree.length then index tree 1 else .ok (filled 32 0)

/-- `while idx > 1 { path.push(tree[idx ^ 1]); idx /= 2; }`; `idx` halvings are enough. -/
def merkleProofLoop (tree : List Digest) : Nat → Nat → Res String (List Digest)
  | 0, _ => .ok []
  | fuel + 1, idx =>
    if 1 < idx then do
      let sibling ← index tree (idx ^^^ 1)
      let path ← merkleProofLoop tree fuel (idx / 2)
      .ok (sibling :: path)
    else .ok []

def merkleProof (tree : List Digest) (leafIdx numLeaves : Nat) : Res String (List Digest) :=
  let idx := 2 ^ treeDepth numLeaves + leafIdx
  merkleProofLoop tree idx idx

def verifyMerkleProof (root : Digest) (leafIdx : Nat) (leafValue : Digest)
    (siblingPath : List Digest) : Bool :=
  if 64 < siblingPath.length then false
  else climb (nodeHash P) leafIdx leafValue siblingPath = root

/-- The index that HKDF output `j` gives, unless it is rejected to keep the indices uniform. -/
def drawIndex (sampleSeed : Digest) (numLeaves j : Nat) : Option Nat :=
  let n := min numLeaves u32Max
  let rejectAbove := u32Max - u32Max % n
  let raw := Bytes.ofBE (P.hkdfExpand sampleSeed (Bytes.toBE 4 j)).val
  if rejectAbove ≤ raw then none else some (raw % n)

/-- Draw until there are `count` indices, or all of them.  `j += 1` aborts on `u32::MAX`. -/
def selectIndices (sampleSeed : Digest) (numLeaves count : Nat) : Res String (List Nat) :=
  if numLeaves = 0 then .ok []
  else unwrap (sample (drawIndex P sampleSeed numLeaves) (min count numLeaves) u32Max)

/-! ## The tree -/

theorem le_two_pow_treeDepth (len : Nat) : len ≤ 2 ^ treeDepth len :=
  Nat.le_pow_clog (by decide) len

abbrev treeNode (tree : List Digest) : Nat → Digest := nodeAt (filled 32 0) 0 tree

/-- A tree is built over any leaves: a heap whose leaves they are, then the padding. -/
theorem buildMerkleTree_spec (leaves : List Digest) (steps : Nat) :
    ∃ tree, buildMerkleTree P leaves steps = .ok tree
      ∧ tree.length = 2 * 2 ^ treeDepth leaves.length
      ∧ IsHeap (nodeHash P) (treeNode tree) (2 ^ treeDepth leaves.length)
      ∧ ∀ i < 2 ^ treeDepth leaves.length,
        treeNode tree (2 ^ treeDepth leaves.length + i) = leaves.getD i (paddingValue P steps) := by
  unfold buildMerkleTree
  have hle := le_two_pow_treeDepth leaves.length
  have hpos := Nat.two_pow_pos (treeDepth leaves.length)
  generalize 2 ^ treeDepth leaves.length = n at *
  let zeros (k : Nat) : List Digest := List.replicate k (filled 32 0)
  let pads := List.replicate (n - leaves.length) (paddingValue P steps)
  -- the two loops fill the second half
  have hsplit : List.replicate (2 * n) (filled 32 0)
      = zeros n ++ zeros leaves.length ++ zeros (n - leaves.length) := by
    simp only [zeros, List.replicate_append_replicate]
    congr 1
    omega
  have hleaves := writeAll_append (ε := String) (zeros n) (zeros leaves.length)
    (zeros (n - leaves.length)) leaves (k := n) (by simp [zeros]) (by simp [zeros])
  have hpads := writeAll_append (ε := String) (zeros n ++ leaves) (zeros (n - leaves.length))
    [] pads (k := n + leaves.length) (by simp [zeros]) (by simp [zeros, pads])
  rw [List.append_nil, List.append_nil] at hpads
  have hlen : (zeros n ++ leaves ++ pads).length = 2 * n := by
    simp only [zeros, pads, List.length_append, List.length_replicate]
    omega
  obtain ⟨tree, hrun, hlen', hheap, hkeep⟩ := @combineNodes_spec Digest (nodeHash P) String
    (filled 32 0) 0 (Nat.zero_le 1) n (n - 1) (zeros n ++ leaves ++ pads) hlen
    (by omega) (by omega)
  refine ⟨tree, ?_, by rw [hlen', hlen], hheap, ?_⟩
  · dsimp only
    rw [hsplit, hleaves, res_ok_bind, hpads, res_ok_bind]
    exact hrun
  · intro i hi
    have hnode : treeNode tree (n + i)
        = (zeros n ++ leaves ++ pads).getD (n + i) (filled 32 0) :=
      hkeep (n + i) (by omega)
    rw [hnode, List.append_assoc, List.getD_append_right _ _ _ _ (by simp [zeros])]
    have hskip : n + i - (zeros n).length = i := by simp [zeros]
    rw [hskip]
    by_cases hleaf : i < leaves.length
    · rw [List.getD_append _ _ _ _ hleaf, List.getD_eq_getElem _ _ hleaf,
        List.getD_eq_getElem _ _ hleaf]
    · have hpad : i - leaves.length < pads.length := by
        rw [List.length_replicate]
        omega
      rw [List.getD_append_right _ _ _ _ (by omega), List.getD_eq_getElem _ _ hpad,
        List.getElem_replicate, List.getD_eq_default _ _ (by omega)]

/-! ## Inclusion proofs -/

theorem xor_one_eq_siblingOf (idx : Nat) : idx ^^^ 1 = siblingOf idx := by
  unfold siblingOf
  split
  next heven => exact Nat.xor_one_of_even (Nat.even_iff.mpr heven)
  next hodd => exact Nat.xor_one_of_odd (Nat.odd_iff.mpr (by omega))

variable {tree : List Digest} {d numLeaves i : Nat} {seed : Digest}

/-- The loop collects the siblings of the nodes on the way up. -/
theorem merkleProofLoop_eq {fuel idx : Nat} (hfuel : d ≤ fuel) (hlo : 2 ^ d ≤ idx)
    (hhi : idx < 2 * 2 ^ d) (hlen : 2 * 2 ^ d ≤ tree.length) :
    merkleProofLoop tree fuel idx = .ok (siblings (treeNode tree) d idx) := by
  induction d generalizing fuel idx with
  | zero =>
    obtain rfl : idx = 1 := by omega
    cases fuel with
    | zero => rfl
    | succ fuel => rfl
  | succ d ih =>
    obtain ⟨fuel, rfl⟩ : ∃ k, fuel = k + 1 := ⟨fuel - 1, by omega⟩
    rw [Nat.pow_succ] at hlo hhi hlen
    have hpos := Nat.two_pow_pos d
    have hsibling : siblingOf idx < tree.length := by
      unfold siblingOf
      split <;> omega
    rw [merkleProofLoop, if_pos (by omega), xor_one_eq_siblingOf,
      index_of_lt hsibling (filled 32 0), res_ok_bind,
      ih (by omega) (by omega) (by omega) (by omega), res_ok_bind]
    rfl

theorem merkleProof_eq {leafIdx : Nat} (hlen : tree.length = 2 * 2 ^ treeDepth numLeaves)
    (h : leafIdx < numLeaves) :
    merkleProof tree leafIdx numLeaves
      = .ok (siblings (treeNode tree) (treeDepth numLeaves)
          (2 ^ treeDepth numLeaves + leafIdx)) := by
  have hle := le_two_pow_treeDepth numLeaves
  have hdepth : treeDepth numLeaves < 2 ^ treeDepth numLeaves := Nat.lt_two_pow_self
  apply merkleProofLoop_eq
  · omega
  · omega
  · omega
  · omega

theorem treeDepth_le_of_le {len : Nat} (h : len ≤ maxIterations) : treeDepth len ≤ 24 :=
  Nat.clog_le_of_le_pow (Nat.le_trans h (by decide))

theorem verifyMerkleProof_siblings {leaf : Digest}
    (hheap : IsHeap (nodeHash P) (treeNode tree) (2 ^ d)) (hi : i < 2 ^ d) (hd : d ≤ 64)
    (hleaf : treeNode tree (2 ^ d + i) = leaf) :
    verifyMerkleProof P (treeNode tree 1) i leaf (siblings (treeNode tree) d (2 ^ d + i))
      = true := by
  rw [verifyMerkleProof, length_siblings, if_neg (by omega), ← hleaf, hheap.climb_leaf hi]
  exact decide_eq_true rfl

/-! ## Selected indices -/

theorem selectIndices_eq_ok {count : Nat} {indices : List Nat} (hpos : 0 < numLeaves) :
    selectIndices P seed numLeaves count = .ok indices
      ↔ sample (drawIndex P seed numLeaves) (min count numLeaves) u32Max = some indices := by
  rw [selectIndices, if_neg (by omega)]
  cases sample (drawIndex P seed numLeaves) (min count numLeaves) u32Max with
  | none => simp
  | some xs => simp

theorem drawIndex_lt {j : Nat} (hpos : 0 < numLeaves) (h : drawIndex P seed numLeaves j = some i) :
    i < numLeaves := by
  have hn : 0 < min numLeaves u32Max := Nat.lt_min.mpr ⟨hpos, by decide⟩
  simp only [drawIndex] at h
  split at h
  · cases h
  · cases h
    exact Nat.lt_of_lt_of_le (Nat.mod_lt _ hn) (Nat.min_le_left _ _)

/-- The checks of one sample: leaf binding, inclusion and, for index 0, the first output. -/
def checkSample (argon2 : Argon2) (proof : Argon2SwfProof) (sample : MerkleSampleProof) :
    Res String Bool :=
  if leafHash P sample.rawOutput ≠ sample.leafValue then .ok false
  else if ¬ verifyMerkleProof P proof.merkleRoot sample.leafIndex sample.leafValue
      sample.siblingPath then .ok false
  else if sample.leafIndex = 0 then do
    let expectedOutput ← mapErr
      (P.hashPasswordInto argon2 proof.input (firstSalt P proof.input)) fun e =>
        s!"verify Argon2id index 0: {e}"
    .ok (expectedOutput = sample.rawOutput)
  else .ok true

/-- The check of two samples that are next to each other in the order of their indices. -/
def checkPair (argon2 : Argon2) (pair : MerkleSampleProof × MerkleSampleProof) :
    Res String Bool := do
  let (prev, next) := pair
  let successor ← unwrap (checkedAdd prev.leafIndex 1)
  if next.leafIndex = successor then do
    let expectedOutput ← mapErr
      (P.hashPasswordInto argon2 prev.rawOutput (nextSalt P next.leafIndex)) fun e =>
        s!"verify Argon2id transition {prev.leafIndex}->{next.leafIndex}: {e}"
    .ok (expectedOutput = next.rawOutput)
  else .ok true

/-- `sort_by_key(|s| s.leaf_index)`, which is stable. -/
def sortedSamples (proof : Argon2SwfProof) : List MerkleSampleProof :=
  proof.sampledProofs.insertionSort fun a b => a.leafIndex ≤ b.leafIndex

def verifyWithSamples (proof : Argon2SwfProof) (sampleCount : Nat) : Res String Bool := do
  validateIterations proof.params.iterations
  let expectedChallenge ← fiatShamirChallenge P proof.merkleRoot proof.input proof.params
    proof.proofAlgorithm
  if proof.challenge ≠ expectedChallenge then .ok false
  else if proof.sampledProofs.length < sampleCount then .ok false
  else do
    let expectedIndices ← selectIndices P proof.challenge proof.params.iterations sampleCount
    if (proof.sampledProofs.zip expectedIndices).any fun (s, i) => s.leafIndex ≠ i then .ok false
    else if ¬ proof.sampledProofs.any fun s => s.leafIndex = 0 then .ok false
    else do
      let argon2 ← buildArgon2 P proof.params
      let samplesOk ← proof.sampledProofs.allM (checkSample P argon2 proof)
      if samplesOk then
        -- `windows(2)`
        ((sortedSamples proof).zip (sortedSamples proof).tail).allM (checkPair P argon2)
      else .ok false

/-- The number of samples that is expected is the number that the proof has. -/
def verify (proof : Argon2SwfProof) : Res String Bool :=
  verifyWithSamples P proof proof.sampledProofs.length

structure Accepted (proof : Argon2SwfProof) (sampleCount : Nat) : Prop where
  iterations : validateIterations proof.params.iterations = .ok ()
  challenge : fiatShamirChallenge P proof.merkleRoot proof.input proof.params proof.proofAlgorithm
    = .ok proof.challenge
  enough : sampleCount ≤ proof.sampledProofs.length
  indices : ∃ indices,
    selectIndices P proof.challenge proof.params.iterations sampleCount = .ok indices
      ∧ ∀ p ∈ proof.sampledProofs.zip indices, p.1.leafIndex = p.2
  anchor : ∃ s ∈ proof.sampledProofs, s.leafIndex = 0
  samples : ∃ argon2, buildArgon2 P proof.params = .ok argon2
    ∧ (∀ s ∈ proof.sampledProofs, checkSample P argon2 proof s = .ok true)
    ∧ ∀ p ∈ (sortedSamples proof).zip (sortedSamples proof).tail, checkPair P argon2 p = .ok true

variable {P}

theorem verifyWithSamples_eq_true {proof : Argon2SwfProof} {sampleCount : Nat} :
    verifyWithSamples P proof sampleCount = .ok true ↔ Accepted P proof sampleCount := by
  constructor
  · intro h
    obtain ⟨_, hiter, h⟩ := res_bind_eq_ok.mp h
    obtain ⟨expected, hexpected, h⟩ := res_bind_eq_ok.mp h
    split at h
    · cases h
    next hchallenge =>
      split at h
      · cases h
      next henough =>
        obtain ⟨indices, hselect, h⟩ := res_bind_eq_ok.mp h
        split at h
        · cases h
        next hzip =>
          split at h
          · cases h
          next hanchor =>
            obtain ⟨argon2, hbuild, h⟩ := res_bind_eq_ok.mp h
            obtain ⟨samplesOk, hsamples, h⟩ := res_bind_eq_ok.mp h
            split at h
            next hok =>
              subst hok
              obtain rfl : proof.challenge = expected := by simpa using hchallenge
              exact ⟨hiter, hexpected, by omega, ⟨indices, hselect, by simpa using hzip⟩,
                by simpa using hanchor, argon2, hbuild, allM_eq_true.mp hsamples,
                allM_eq_true.mp h⟩
            next => cases h
  · rintro ⟨hiter, hchallenge, henough, ⟨indices, hselect, hzip⟩, hanchor, argon2, hbuild,
      hsamples, hpairs⟩
    rw [verifyWithSamples, hiter, res_ok_bind, hchallenge, res_ok_bind,
      if_neg (by simp), if_neg (by omega), hselect, res_ok_bind, if_neg (by simpa using hzip),
      if_neg (by simpa using hanchor), hbuild, res_ok_bind, allM_eq_true.mpr hsamples,
      res_ok_bind, if_pos rfl, allM_eq_true.mpr hpairs]

end WritersProof.Swf
