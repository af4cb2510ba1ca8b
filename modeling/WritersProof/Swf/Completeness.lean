/-
  When the verifier accepts what the prover returns.

  The prover samples the indices that the challenge selects; the verifier also
  wants index 0 among them.  Everything else that the verifier checks holds of
  an honest proof, so it is accepted exactly when index 0 is drawn in time
  (`verify_compute_iff`).

  How many samples an accepted proof has.

  The verifier reads the number of samples from the proof and compares as many
  of them as it draws indices.  A proof with fewer samples than the tier asks for
  is accepted all the same, and samples behind the last index are compared with
  none: a short inclusion path then verifies at any index with the same low bits.
-/
import WritersProof.Swf.Compute

namespace WritersProof.Swf

open Rust MerkleHeap Sampling Prims FixedBytes

variable {Argon2 : Type} {P : Prims Argon2}

/-- Index 0 is drawn from the challenge of the chain over `input` before as many other indices
    as are sampled. -/
def AnchorDrawn (P : Prims Argon2) (input : Digest) (params : Argon2SwfParams) : Prop :=
  ∃ argon2 challenge j, buildArgon2 P params = .ok argon2
    ∧ challengeOf P argon2 input params proofAlgorithmStandard = .ok challenge
    ∧ drawIndex P challenge params.iterations j = some 0
    ∧ (drawn (drawIndex P challenge params.iterations) j).length
        < min defaultSampleCount params.iterations

namespace Run

variable {elapsed sampleCount proofAlgorithm : Nat} {input : Digest} {params : Argon2SwfParams}
  {proof : Argon2SwfProof} (run : Run P elapsed input params sampleCount proofAlgorithm proof)

theorem select_again : selectIndices P run.challenge params.iterations run.samples.length
    = .ok run.indices := by
  have hsample := (selectIndices_eq_ok P run.iterations_pos).mp run.select
  have hlen := length_of_sample hsample
  rw [selectIndices_eq_ok P run.iterations_pos, run.samples_eq, List.length_map, hlen,
    show min (min sampleCount params.iterations) params.iterations
      = min sampleCount params.iterations by omega]
  exact hsample

theorem checkSample_sampleAt {q : Argon2SwfProof} (hinput : q.input = input)
    (hroot : q.merkleRoot = treeNode run.tree 1) {idx : Nat} (h : idx < params.iterations) :
    checkSample P run.argon2 q (run.sampleAt idx) = .ok true := by
  have hout := run.outs_getElem? h
  have hdepth := treeDepth_le_of_le run.iterations_le
  have hle := le_two_pow_treeDepth params.iterations
  have hpath : verifyMerkleProof P q.merkleRoot idx (leafHash P (run.outs.getD idx input))
      (siblings (treeNode run.tree) (treeDepth params.iterations)
        (2 ^ treeDepth params.iterations + idx)) = true := by
    rw [hroot]
    exact verifyMerkleProof_siblings P run.heap (by omega) (by omega) (run.leaf idx _ hout)
  rw [checkSample, sampleAt, if_neg (by simp), if_neg (not_not.mpr hpath)]
  split
  next hzero =>
    -- the first output is recomputed from the input
    obtain rfl : idx = 0 := hzero
    rw [hinput, mapErr_eq_ok.mpr (outputs_first run.chain hout), res_ok_bind]
    simp
  next => rfl

theorem checkPair_sampleAt {i j : Nat} (hi : i < params.iterations) (hj : j < params.iterations) :
    checkPair P run.argon2 (run.sampleAt i, run.sampleAt j) = .ok true := by
  have hmax := run.iterations_le
  have hadd : checkedAdd (run.sampleAt i).leafIndex 1 = some (i + 1) := by
    apply checkedAdd_eq_some
    unfold maxIterations at hmax
    exact Nat.lt_of_le_of_lt hi (by omega)
  rw [checkPair]
  rw [hadd, unwrap_some, res_ok_bind]
  by_cases hnext : (run.sampleAt j).leafIndex = i + 1
  · have hj' : j = i + 1 := hnext
    subst hj'
    have hhash : P.hashPasswordInto run.argon2 (run.sampleAt i).rawOutput
        (nextSalt P (run.sampleAt (i + 1)).leafIndex) = .ok (run.sampleAt (i + 1)).rawOutput :=
      outputs_next run.chain (run.outs_getElem? hi) (run.outs_getElem? hj)
    rw [if_pos hnext, mapErr_eq_ok.mpr hhash, res_ok_bind, decide_eq_true rfl]
  · rw [if_neg hnext]

theorem mem_samples {s : MerkleSampleProof} (h : s ∈ run.samples) :
    ∃ idx ∈ run.indices, run.sampleAt idx = s := by
  rw [run.samples_eq] at h
  exact List.mem_map.mp h

/-- An honest proof is accepted exactly when index 0 is sampled. -/
theorem verify_iff : verify P proof = .ok true ↔ 0 ∈ run.indices := by
  rw [verify, verifyWithSamples_eq_true]
  have hresult := run.result
  constructor
  · intro h
    obtain ⟨s, hs, hzero⟩ := h.anchor
    rw [hresult] at hs
    obtain ⟨idx, hidx, rfl⟩ := run.mem_samples hs
    rw [← hzero]
    exact hidx
  · intro hzero
    rw [hresult]
    refine ⟨run.valid, run.challenge_eq, Nat.le_refl _, ⟨run.indices, run.select_again, ?_⟩, ?_,
      run.argon2, run.build, ?_, ?_⟩
    · -- the samples are in the order of the indices
      intro p hp
      have hzip : run.samples.zip run.indices = run.indices.map fun i => (run.sampleAt i, i) := by
        rw [run.samples_eq, List.zip_map_left, List.zip_eq_zipWith, List.zipWith_self]
        simp
      rw [hzip] at hp
      obtain ⟨i, -, rfl⟩ := List.mem_map.mp hp
      rfl
    · refine ⟨run.sampleAt 0, ?_, rfl⟩
      rw [run.samples_eq]
      exact List.mem_map_of_mem hzero
    · intro s hs
      obtain ⟨idx, hidx, rfl⟩ := run.mem_samples hs
      exact run.checkSample_sampleAt rfl rfl (run.index_lt hidx)
    · intro p hp
      obtain ⟨hfst, hsnd⟩ := List.of_mem_zip hp
      have hsnd := List.mem_of_mem_tail hsnd
      rw [sortedSamples, List.mem_insertionSort] at hfst hsnd
      obtain ⟨i, hi, hfst⟩ := run.mem_samples hfst
      obtain ⟨j, hj, hsnd⟩ := run.mem_samples hsnd
      have hp : p = (run.sampleAt i, run.sampleAt j) := Prod.ext hfst.symm hsnd.symm
      rw [hp]
      exact run.checkPair_sampleAt (run.index_lt hi) (run.index_lt hj)

/-- Index 0 is sampled exactly when it is drawn in time. -/
theorem mem_indices_iff :
    0 ∈ run.indices ↔ ∃ j, drawIndex P run.challenge params.iterations j = some 0
      ∧ (drawn (drawIndex P run.challenge params.iterations) j).length
          < min sampleCount params.iterations :=
  mem_sample_iff ((selectIndices_eq_ok P run.iterations_pos).mp run.select)

end Run

/-- Hash functions that are quick to evaluate; HKDF output `j` is `first + j`. -/
def Prims.counting (first : Nat) : Prims Unit where
  sha256 data := filled 32 (data.foldl (· + ·) 0)
  hkdfExpand _ info := ⟨Bytes.toBE 4 (first + Bytes.ofBE info), Bytes.length_toBE _ _⟩
  newArgon2 _ _ _ _ := .ok ()
  hashPasswordInto _ pwd salt := .ok (filled 32 (pwd.val.headI + 3 * salt.val.headI))
  cborMap _ := .ok []

def oneMore : Argon2SwfParams := ⟨1, 1024, 1, 21⟩

/-- What the prover returns is accepted exactly when the challenge of its chain draws index 0 in
    time. -/
theorem verify_compute_iff (P : Prims Argon2) (elapsed : Nat) (input : Digest)
    (params : Argon2SwfParams) (proof : Argon2SwfProof)
    (h : compute P elapsed input params = .ok proof) :
    verify P proof = .ok true ↔ AnchorDrawn P input params := by
  obtain ⟨run⟩ := exists_run h
  rw [run.verify_iff, run.mem_indices_iff]
  constructor
  · rintro ⟨j, hdraw, hlt⟩
    exact ⟨run.argon2, run.challenge, j, run.build, run.challengeOf_eq, hdraw, hlt⟩
  · rintro ⟨argon2, challenge, j, hbuild, hchallenge, hdraw, hlt⟩
    obtain rfl : run.argon2 = argon2 := Except.ok.inj (run.build.symm.trans hbuild)
    obtain rfl : run.challenge = challenge :=
      Except.ok.inj (run.challengeOf_eq.symm.trans hchallenge)
    exact ⟨j, hdraw, hlt⟩

theorem verify_compute_iff_counting : ∃ proof,
    compute (counting 0) 0 (filled 32 7) oneMore = .ok proof
      ∧ (verify (counting 0) proof = .ok true
        ↔ AnchorDrawn (counting 0) (filled 32 7) oneMore) := by
  obtain ⟨proof, hproof, -⟩ := exists_ok_of_toOption
    (show (compute (counting 0) 0 (filled 32 7) oneMore).toOption.map
      (fun proof => proof.params.iterations) = some 21 by decide +kernel)
  exact ⟨proof, hproof, verify_compute_iff _ _ _ _ _ hproof⟩

/-- The indices 1 to 20 are sampled of 21, and the proof is rejected. -/
theorem honest_proof_rejected : ¬ ∀ (P : Prims Unit) (elapsed : Nat) (input : Digest)
    (params : Argon2SwfParams) (proof : Argon2SwfProof), 1 ≤ params.iterations →
    params.iterations ≤ maxIterations → compute P elapsed input params = .ok proof →
    verify P proof = .ok true := by
  intro hclaim
  obtain ⟨proof, hproof, hverify⟩ := exists_ok_of_toOption
    (show (compute (counting 1) 0 (filled 32 7) oneMore).toOption.map
      (fun proof => (verify (counting 1) proof).toOption) = some (some false) by
        decide +kernel)
  rw [hclaim _ _ _ _ _ (by decide) (by decide) hproof] at hverify
  cases hverify

/-- The samples include the indices that the challenge gives for the default sample count, and
    are all at leaves of the chain. -/
def Covers (P : Prims Argon2) (proof : Argon2SwfProof) : Prop :=
  (∃ indices,
    selectIndices P proof.challenge proof.params.iterations defaultSampleCount = .ok indices
      ∧ indices.length = min defaultSampleCount proof.params.iterations
      ∧ ∀ i ∈ indices, ∃ s ∈ proof.sampledProofs, s.leafIndex = i)
    ∧ ∀ s ∈ proof.sampledProofs, s.leafIndex < proof.params.iterations

/-- There are as many samples as the default asks for, and those behind the first `iterations`
    ones are at leaves of the chain. -/
def EnoughSamples (proof : Argon2SwfProof) : Prop :=
  min defaultSampleCount proof.params.iterations ≤ proof.sampledProofs.length
    ∧ ∀ s ∈ proof.sampledProofs.drop proof.params.iterations, s.leafIndex < proof.params.iterations

structure Compared (P : Prims Argon2) (proof : Argon2SwfProof) (indices : List Nat) : Prop where
  sample : sample (drawIndex P proof.challenge proof.params.iterations)
    (min proof.sampledProofs.length proof.params.iterations) u32Max = some indices
  equal : ∀ p ∈ proof.sampledProofs.zip indices, p.1.leafIndex = p.2

theorem Accepted.iterations_pos {proof : Argon2SwfProof} {sampleCount : Nat}
    (h : Accepted P proof sampleCount) : 0 < proof.params.iterations :=
  (validateIterations_eq_ok.mp h.iterations).1

theorem Accepted.compared {proof : Argon2SwfProof}
    (h : Accepted P proof proof.sampledProofs.length) :
    ∃ indices, Compared P proof indices := by
  obtain ⟨indices, hselect, hequal⟩ := h.indices
  exact ⟨indices, (selectIndices_eq_ok P h.iterations_pos).mp hselect, hequal⟩

namespace Compared

variable {proof : Argon2SwfProof} {indices : List Nat} (h : Compared P proof indices)

include h

theorem length_eq : indices.length = min proof.sampledProofs.length proof.params.iterations :=
  length_of_sample h.sample

theorem equal_at {k i : Nat} {s : MerkleSampleProof} (hs : proof.sampledProofs[k]? = some s)
    (hi : indices[k]? = some i) : s.leafIndex = i :=
  h.equal (s, i) (List.mem_of_getElem? (List.getElem?_zip_eq_some.mpr ⟨hs, hi⟩))

theorem exists_sample {i : Nat} (hi : i ∈ indices) :
    ∃ s ∈ proof.sampledProofs, s.leafIndex = i := by
  obtain ⟨k, hk⟩ := List.mem_iff_getElem?.mp hi
  have hlen := h.length_eq
  have hlt : k < proof.sampledProofs.length := by
    obtain ⟨hlt, -⟩ := List.getElem?_eq_some_iff.mp hk
    omega
  have hs := List.getElem?_eq_getElem hlt
  exact ⟨_, List.mem_of_getElem? hs, h.equal_at hs hk⟩

theorem leafIndex_lt (hpos : 0 < proof.params.iterations) {s : MerkleSampleProof}
    (hs : s ∈ proof.sampledProofs.take proof.params.iterations) :
    s.leafIndex < proof.params.iterations := by
  obtain ⟨k, hk⟩ := List.mem_iff_getElem?.mp hs
  obtain ⟨hklt, -⟩ := List.getElem?_eq_some_iff.mp hk
  rw [List.length_take] at hklt
  rw [List.getElem?_take_of_lt (by omega)] at hk
  have hlen := h.length_eq
  have hlt : k < indices.length := by omega
  obtain ⟨j, hj⟩ := drawn_of_mem_sample h.sample (List.getElem_mem hlt)
  rw [h.equal_at hk (List.getElem?_eq_getElem hlt)]
  exact drawIndex_lt P hpos hj

end Compared

/-- Different indices have different samples. -/
theorem Covers.count_le {proof : Argon2SwfProof} (h : Covers P proof)
    (hpos : 0 < proof.params.iterations) :
    min defaultSampleCount proof.params.iterations ≤ proof.sampledProofs.length := by
  obtain ⟨⟨expected, hselect, hcount, hcover⟩, -⟩ := h
  have hnodup := nodup_of_sample ((selectIndices_eq_ok P hpos).mp hselect)
  have hsub : expected ⊆ proof.sampledProofs.map (·.leafIndex) := by
    intro i hi
    exact List.mem_map.mpr (hcover i hi)
  have hle := (List.subperm_of_subset hnodup hsub).length_le
  rwa [hcount, List.length_map] at hle

/-- An accepted proof covers the default sample exactly when it has enough samples. -/
theorem covers_iff_enoughSamples (P : Prims Argon2) (proof : Argon2SwfProof)
    (h : verify P proof = .ok true) : Covers P proof ↔ EnoughSamples proof := by
  have haccepted := verifyWithSamples_eq_true.mp h
  have hpos := haccepted.iterations_pos
  obtain ⟨indices, hcompared⟩ := haccepted.compared
  constructor
  · intro hcovers
    exact ⟨hcovers.count_le hpos, fun s hs => hcovers.2 s (List.mem_of_mem_drop hs)⟩
  · rintro ⟨henough, hbound⟩
    have hcount : min defaultSampleCount proof.params.iterations
        ≤ min proof.sampledProofs.length proof.params.iterations := by omega
    have hfront := sample_take hcompared.sample hcount
    refine ⟨⟨_, (selectIndices_eq_ok P hpos).mpr hfront, length_of_sample hfront, ?_⟩, ?_⟩
    · intro i hi
      exact hcompared.exists_sample (List.mem_of_mem_take hi)
    · intro s hs
      rw [← List.take_append_drop proof.params.iterations proof.sampledProofs] at hs
      rcases List.mem_append.mp hs with hs | hs
      · exact hcompared.leafIndex_lt hpos hs
      · exact hbound s hs

def firstSample (proof : Argon2SwfProof) : Argon2SwfProof :=
  { proof with sampledProofs := proof.sampledProofs.take 1 }

/-- One sample of 21 leaves, at index 0, is accepted. -/
theorem exists_oneSample : ∃ proof : Argon2SwfProof, verify (counting 0) proof = .ok true
    ∧ proof.params.iterations = 21 ∧ proof.sampledProofs.length = 1 := by
  obtain ⟨proof, -, hrun⟩ := exists_ok_of_toOption
    (show (compute (counting 0) 0 (filled 32 7) oneMore).toOption.map
      (fun proof => (verify (counting 0) (firstSample proof), proof.params.iterations,
        (firstSample proof).sampledProofs.length)) = some (.ok true, 21, 1) by decide +kernel)
  simp only [Prod.mk.injEq] at hrun
  obtain ⟨hverify, hiter, hone⟩ := hrun
  exact ⟨firstSample proof, hverify, hiter, hone⟩

theorem covers_iff_enoughSamples_counting : ∃ proof, verify (counting 0) proof = .ok true
    ∧ (Covers (counting 0) proof ↔ EnoughSamples proof) := by
  obtain ⟨proof, hverify, -⟩ := exists_oneSample
  exact ⟨proof, hverify, covers_iff_enoughSamples _ _ hverify⟩

/-- A proof with a single sample is verified. -/
theorem one_sample_accepted : ¬ ∀ (P : Prims Unit) (proof : Argon2SwfProof),
    verify P proof = .ok true → Covers P proof := by
  intro hclaim
  obtain ⟨proof, hverify, hiter, hone⟩ := exists_oneSample
  have hcount := (hclaim _ _ hverify).count_le (by omega)
  rw [hiter, hone] at hcount
  exact absurd hcount (by decide)

end WritersProof.Swf
