/-
  The prover: a chain of Argon2id outputs, a Merkle tree over them, and the
  inclusion proofs of the leaves that the challenge selects
  (`compute_with_algorithm`).

  The chain, the root and the challenge are functions of the input and the
  parameters alone (`outputs`, `rootOf`, `challengeOf`); the loops of the prover
  compute them (`compute_eq_ok`).
-/
import WritersProof.Swf.Tree

namespace WritersProof.Swf

open Rust MerkleHeap Sampling

variable {Argon2 : Type} (P : Prims Argon2)

/-- `for i in 0..params.iterations { .. }` -/
def computeLoop (argon2 : Argon2) (input : Digest) :
    Nat → Nat → Digest → List Digest → List Digest → Res String (List Digest × List Digest)
  | 0, _, _, leaves, rawOutputs => .ok (leaves, rawOutputs)
  | remaining + 1, i, current, leaves, rawOutputs => do
    let output ← mapErr (P.hashPasswordInto argon2 current (salt P input i)) fun e =>
      s!"Argon2id iteration {i}: {e}"
    computeLoop argon2 input remaining (i + 1) output (leaves ++ [leafHash P output])
      (rawOutputs ++ [output])

def sampleProof (tree leaves rawOutputs : List Digest) (idx : Nat) :
    Res String MerkleSampleProof := do
  let path ← merkleProof tree idx leaves.length
  let leafValue ← index leaves idx
  let rawOutput ← index rawOutputs idx
  .ok ⟨idx, leafValue, path, rawOutput⟩

/-- Compute with explicit sample count and algorithm ID; the clock measures `elapsed`. -/
def computeWithAlgorithm (elapsed : Nat) (input : Digest) (params : Argon2SwfParams)
    (sampleCount proofAlgorithm : Nat) : Res String Argon2SwfProof := do
  validateIterations params.iterations
  let argon2 ← buildArgon2 P params
  let (leaves, rawOutputs) ← computeLoop P argon2 input params.iterations 0 input [] []
  let tree ← buildMerkleTree P leaves params.iterations
  let merkleRoot ← treeRoot tree
  let challenge ← fiatShamirChallenge P merkleRoot input params proofAlgorithm
  let indices ← selectIndices P challenge params.iterations sampleCount
  let sampledProofs ← indices.mapM (sampleProof tree leaves rawOutputs)
  .ok ⟨input, merkleRoot, params, sampledProofs, elapsed, challenge, proofAlgorithm⟩

def compute (elapsed : Nat) (input : Digest) (params : Argon2SwfParams) :
    Res String Argon2SwfProof :=
  computeWithAlgorithm P elapsed input params defaultSampleCount proofAlgorithmStandard

/-! ## The chain -/

/-- The first `n` outputs of the chain that starts from `input`. -/
def outputs (argon2 : Argon2) (input : Digest) : Nat → Res String (List Digest)
  | 0 => .ok []
  | n + 1 => do
    let outs ← outputs argon2 input n
    let output ← mapErr (P.hashPasswordInto argon2 (outs.getLastD input) (salt P input n)) fun e =>
      s!"Argon2id iteration {n}: {e}"
    .ok (outs ++ [output])

/-- The root of the tree over the leaf hashes of `outs`, padded to a power of two. -/
def rootOf (outs : List Digest) : Digest :=
  subtree (nodeHash P) (fun i => (outs.map (leafHash P)).getD i (paddingValue P outs.length))
    (treeDepth outs.length) 0

def challengeOf (argon2 : Argon2) (input : Digest) (params : Argon2SwfParams)
    (proofAlgorithm : Nat) : Res String Digest := do
  let outs ← outputs P argon2 input params.iterations
  fiatShamirChallenge P (rootOf P outs) input params proofAlgorithm

variable {P}

variable {argon2 : Argon2} {input : Digest} {outs : List Digest} {n : Nat}

theorem outputs_succ_eq_ok :
    outputs P argon2 input (n + 1) = .ok outs ↔ ∃ pre output, outputs P argon2 input n = .ok pre
      ∧ P.hashPasswordInto argon2 (pre.getLastD input) (salt P input n) = .ok output
      ∧ outs = pre ++ [output] := by
  rw [outputs, res_bind_eq_ok]
  constructor
  · rintro ⟨pre, hpre, h⟩
    obtain ⟨output, hout, h⟩ := res_bind_eq_ok.mp h
    exact ⟨pre, output, hpre, mapErr_eq_ok.mp hout, (Except.ok.inj h).symm⟩
  · rintro ⟨pre, output, hpre, hout, rfl⟩
    exact ⟨pre, hpre, res_bind_eq_ok.mpr ⟨output, mapErr_eq_ok.mpr hout, rfl⟩⟩

section

variable (h : outputs P argon2 input n = .ok outs)

include h

theorem length_outputs : outs.length = n := by
  induction n generalizing outs with
  | zero =>
    cases h
    rfl
  | succ n ih =>
    obtain ⟨pre, output, hpre, -, rfl⟩ := outputs_succ_eq_ok.mp h
    rw [List.length_append, ih hpre, List.length_singleton]

theorem outputs_first {output : Digest} (ho : outs[0]? = some output) :
    P.hashPasswordInto argon2 input (firstSalt P input) = .ok output := by
  induction n generalizing outs with
  | zero =>
    cases h
    cases ho
  | succ n ih =>
    obtain ⟨pre, last, hpre, hlast, rfl⟩ := outputs_succ_eq_ok.mp h
    cases pre with
    | nil =>
      obtain rfl : n = 0 := (length_outputs hpre).symm
      cases ho
      exact hlast
    | cons o pre => exact ih hpre ho

theorem outputs_next {i : Nat} {prev next : Digest} (hprev : outs[i]? = some prev)
    (hnext : outs[i + 1]? = some next) :
    P.hashPasswordInto argon2 prev (nextSalt P (i + 1)) = .ok next := by
  induction n generalizing outs with
  | zero =>
    cases h
    cases hprev
  | succ n ih =>
    obtain ⟨pre, last, hpre, hlast, rfl⟩ := outputs_succ_eq_ok.mp h
    have hlen := length_outputs hpre
    obtain ⟨hi, -⟩ := List.getElem?_eq_some_iff.mp hnext
    rw [List.length_append, List.length_singleton] at hi
    rw [List.getElem?_append_left (by omega)] at hprev
    by_cases hin : i + 1 < pre.length
    · rw [List.getElem?_append_left hin] at hnext
      exact ih hpre hprev hnext
    · -- `next` is the last output
      have hlast' : pre.getLastD input = prev := by
        rw [List.getLastD_eq_getLast?, List.getLast?_eq_getElem?,
          show pre.length - 1 = i by omega, hprev, Option.getD_some]
      rw [List.getElem?_append_right (by omega), show i + 1 - pre.length = 0 by omega] at hnext
      cases hnext
      rw [hlast', ← hlen, show pre.length = i + 1 by omega] at hlast
      exact hlast

end

/-! ## The prover computes them -/

theorem computeLoop_spec {argon2 : Argon2} {input : Digest} {remaining i : Nat}
    {rawOutputs leaves' rawOutputs' : List Digest}
    (hrun : computeLoop P argon2 input remaining i (rawOutputs.getLastD input)
      (rawOutputs.map (leafHash P)) rawOutputs = .ok (leaves', rawOutputs'))
    (hraw : outputs P argon2 input i = .ok rawOutputs) :
    outputs P argon2 input (i + remaining) = .ok rawOutputs'
      ∧ leaves' = rawOutputs'.map (leafHash P) := by
  induction remaining generalizing i rawOutputs with
  | zero =>
    cases hrun
    exact ⟨hraw, rfl⟩
  | succ remaining ih =>
    obtain ⟨output, hout, hrun⟩ := res_bind_eq_ok.mp hrun
    have hnext : outputs P argon2 input (i + 1) = .ok (rawOutputs ++ [output]) :=
      outputs_succ_eq_ok.mpr ⟨_, _, hraw, mapErr_eq_ok.mp hout, rfl⟩
    have hgoal := @ih (i + 1) (rawOutputs ++ [output])
      (by simpa [List.getLastD_concat] using hrun) hnext
    rwa [show i + 1 + remaining = i + (remaining + 1) by omega] at hgoal

/-- A run of the prover that returns `proof`. -/
structure Run (P : Prims Argon2) (elapsed : Nat) (input : Digest) (params : Argon2SwfParams)
    (sampleCount proofAlgorithm : Nat) (proof : Argon2SwfProof) where
  argon2 : Argon2
  outs : List Digest
  tree : List Digest
  challenge : Digest
  indices : List Nat
  samples : List MerkleSampleProof
  valid : validateIterations params.iterations = .ok ()
  build : buildArgon2 P params = .ok argon2
  chain : outputs P argon2 input params.iterations = .ok outs
  size : tree.length = 2 * 2 ^ treeDepth params.iterations
  heap : IsHeap (nodeHash P) (treeNode tree) (2 ^ treeDepth params.iterations)
  root : treeNode tree 1 = rootOf P outs
  leaf : ∀ i output, outs[i]? = some output →
    treeNode tree (2 ^ treeDepth params.iterations + i) = leafHash P output
  challenge_eq : fiatShamirChallenge P (treeNode tree 1) input params proofAlgorithm = .ok challenge
  select : selectIndices P challenge params.iterations sampleCount = .ok indices
  sampled : indices.mapM (sampleProof tree (outs.map (leafHash P)) outs) = .ok samples
  result : proof = ⟨input, treeNode tree 1, params, samples, elapsed, challenge, proofAlgorithm⟩

theorem exists_run {elapsed : Nat} {params : Argon2SwfParams} {sampleCount proofAlgorithm : Nat}
    {proof : Argon2SwfProof}
    (h : computeWithAlgorithm P elapsed input params sampleCount proofAlgorithm = .ok proof) :
    Nonempty (Run P elapsed input params sampleCount proofAlgorithm proof) := by
  obtain ⟨_, hvalid, h⟩ := res_bind_eq_ok.mp h
  obtain ⟨argon2, hbuild, h⟩ := res_bind_eq_ok.mp h
  obtain ⟨⟨leaves, outs⟩, hloop, h⟩ := res_bind_eq_ok.mp h
  obtain ⟨tree, htree, h⟩ := res_bind_eq_ok.mp h
  obtain ⟨merkleRoot, htreeRoot, h⟩ := res_bind_eq_ok.mp h
  obtain ⟨challenge, hchallenge, h⟩ := res_bind_eq_ok.mp h
  obtain ⟨indices, hselect, h⟩ := res_bind_eq_ok.mp h
  obtain ⟨samples, hsamples, h⟩ := res_bind_eq_ok.mp h
  have hresult := (Except.ok.inj h).symm
  obtain ⟨hchain, hleaves⟩ := @computeLoop_spec _ P argon2 input params.iterations 0 [] leaves outs
    hloop rfl
  rw [Nat.zero_add] at hchain
  have hlen := length_outputs hchain
  obtain ⟨tree', htree', hsize, hheap, hleaf⟩ :=
    buildMerkleTree_spec P leaves params.iterations
  rw [htree] at htree'
  cases htree'
  subst hleaves
  rw [List.length_map, hlen] at hsize hheap hleaf
  have hpos := Nat.two_pow_pos (treeDepth params.iterations)
  have hle := le_two_pow_treeDepth params.iterations
  have hone : 1 < tree.length := by omega
  rw [treeRoot, if_pos hone, index_of_lt hone (FixedBytes.filled 32 0)] at htreeRoot
  obtain rfl : treeNode tree 1 = merkleRoot := Except.ok.inj htreeRoot
  have hroot : treeNode tree 1 = rootOf P outs := by
    rw [rootOf, hlen, hheap.root_eq]
    apply subtree_congr
    intro i _ hi
    rw [Nat.zero_add, Nat.one_mul] at hi
    exact hleaf i hi
  refine ⟨⟨argon2, outs, tree, challenge, indices, samples, hvalid, hbuild, hchain, hsize, hheap,
    hroot, ?_, hchallenge, hselect, hsamples, hresult⟩⟩
  intro i output hoi
  obtain ⟨hi, -⟩ := List.getElem?_eq_some_iff.mp hoi
  rw [hleaf i (by omega), List.getD_eq_getElem?_getD, List.getElem?_map, hoi, Option.map_some,
    Option.getD_some]

namespace Run

variable {elapsed sampleCount proofAlgorithm : Nat} {params : Argon2SwfParams}
  {proof : Argon2SwfProof} (run : Run P elapsed input params sampleCount proofAlgorithm proof)

include run in
theorem iterations_pos : 0 < params.iterations :=
  (validateIterations_eq_ok.mp run.valid).1

include run in
theorem iterations_le : params.iterations ≤ maxIterations :=
  (validateIterations_eq_ok.mp run.valid).2

theorem length_outs : run.outs.length = params.iterations := length_outputs run.chain

theorem challengeOf_eq :
    challengeOf P run.argon2 input params proofAlgorithm = .ok run.challenge := by
  rw [challengeOf, run.chain, res_ok_bind, ← run.root]
  exact run.challenge_eq

theorem index_lt {idx : Nat} (h : idx ∈ run.indices) : idx < params.iterations := by
  obtain ⟨j, hj⟩ :=
    drawn_of_mem_sample ((selectIndices_eq_ok P run.iterations_pos).mp run.select) h
  exact drawIndex_lt P run.iterations_pos hj

/-- The sample at an index: the output, its leaf and the siblings of the leaf. -/
def sampleAt (idx : Nat) : MerkleSampleProof :=
  ⟨idx, leafHash P (run.outs.getD idx input), siblings (treeNode run.tree)
    (treeDepth params.iterations) (2 ^ treeDepth params.iterations + idx), run.outs.getD idx input⟩

theorem outs_getElem? {idx : Nat} (h : idx < params.iterations) :
    run.outs[idx]? = some (run.outs.getD idx input) := by
  rw [← run.length_outs] at h
  rw [List.getElem?_eq_getElem h, List.getD_eq_getElem _ _ h]

theorem sampleProof_eq {idx : Nat} (h : idx < params.iterations) :
    sampleProof run.tree (run.outs.map (leafHash P)) run.outs idx = .ok (run.sampleAt idx) := by
  have hout := run.outs_getElem? h
  have hleaf : index (ε := String) (run.outs.map (leafHash P)) idx
      = .ok (leafHash P (run.outs.getD idx input)) := by
    rw [index_eq_ok, List.getElem?_map, hout, Option.map_some]
  rw [sampleProof, List.length_map, run.length_outs, merkleProof_eq run.size h, res_ok_bind,
    hleaf, res_ok_bind, index_eq_ok.mpr hout, res_ok_bind, sampleAt]

theorem samples_eq : run.samples = run.indices.map run.sampleAt := by
  have hmap := mapM_eq_map fun idx h => run.sampleProof_eq (run.index_lt h)
  rw [run.sampled] at hmap
  exact Except.ok.inj hmap

end Run

end WritersProof.Swf
