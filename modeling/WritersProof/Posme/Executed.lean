/-
  What the execution returns (`Executed`): the fields of the run, the initial
  blocks that were drawn, and the challenged steps with their witnesses.
-/
import WritersProof.Posme.Recursion

namespace WritersProof.Posme

open Rust MerkleHeap LastWriter Sampling Setup

variable {P : Prims} {c : Setup}

/-! ## Samples -/

theorem Setup.challenges_range {steps : List Nat} (hvalid : c.params.Valid)
    (h : c.challenges P = .ok steps) :
    steps.Nodup ∧ ∀ t ∈ steps, 0 < t ∧ t ≤ c.params.totalSteps := by
  have hsample := unwrap_eq_ok h
  refine ⟨nodup_of_sample hsample, ?_⟩
  intro t ht
  obtain ⟨j, hj⟩ := drawn_of_mem_sample hsample ht
  have hpos : 0 < c.params.totalSteps := by
    have hmin := hvalid.challenges_min
    have hmax := hvalid.challenges_max
    unfold minChallenges at hmin
    omega
  unfold drawChallenge at hj
  dsimp only at hj
  split at hj
  next => cases hj
  next =>
    obtain rfl := Option.some.inj hj
    have := Nat.mod_lt (Bytes.ofBE (P.blake3Xof (dstFiatShamir
      ++ (c.moment P c.params.totalSteps).transcript.val ++ (c.commitment P).val
      ++ c.params.toChallengeBytes) j).val) hpos
    omega

variable {indices challenges : List Nat} {initTree : MerkleTree}

theorem Setup.initIndices_range (hvalid : c.params.Valid) (h : c.initIndices P = .ok indices) :
    indices.length = initWitnessCount ∧ ∀ i ∈ indices, i < c.params.arenaBlocks := by
  apply initWitnessIndices_range _ h
  have hmin := hvalid.arena_min
  unfold minArenaBlocks at hmin
  omega

/-! ## Initial blocks -/

/-- `w` shows block `i` of the initial arena. -/
structure ShowsInit (P : Prims) (c : Setup) (i : Nat) (w : InitWitness) : Prop where
  index : w.index = i
  block : (c.arena P 0)[i]? = some w.block
  path : verifyPath (ε := PosmeError) P (c.root P 0) i w.block w.merklePath c.params.arenaBlocks
    = .ok true

theorem Setup.Ready.generateInitWitnesses_eq (h : c.Ready)
    (hinit : Over P c.height initTree (c.arena P 0)) (hindices : c.initIndices P = .ok indices) :
    ∃ witnesses, generateInitWitnesses P c.seed initTree (c.arena P 0) c.params.arenaBlocks
        = .ok witnesses
      ∧ List.Forall₂ (ShowsInit P c) indices witnesses := by
  have hheight := h.height_le
  obtain ⟨-, hrange⟩ := initIndices_range h.valid hindices
  let witness (i : Nat) : InitWitness := ⟨i, (c.arena P 0).getD i Block.zeroed,
    siblings (heapNode initTree.nodes) c.height (2 ^ c.height + i)⟩
  have hroot : initTree.root = .ok (c.root P 0) :=
    hinit.root_eq.trans (congrArg _ hinit.arenaRoot_eq)
  have hblock : ∀ i ∈ indices, (c.arena P 0)[i]? = some (witness i).block := by
    intro i hi
    exact getElem?_eq_getD (by rw [c.length_arena]; exact hrange i hi)
  refine ⟨indices.map witness, ?_, ?_⟩
  · rw [generateInitWitnesses, hroot, res_ok_bind]
    rw [show initWitnessIndices P c.seed (c.root P 0) c.params.arenaBlocks = .ok indices from
      hindices, res_ok_bind]
    apply mapM_eq_map
    intro i hi
    have hlt := hrange i hi
    rw [h.arenaBlocks_eq] at hlt
    rw [index_eq_ok.mpr (hblock i hi), res_ok_bind, hinit.prove_eq (by omega) hlt, res_ok_bind]
  · rw [List.forall₂_map_right_iff, List.forall₂_same]
    intro i hi
    refine ⟨rfl, hblock i hi, ?_⟩
    rw [h.arenaBlocks_eq]
    exact hinit.verifyPath_eq (by omega) (hblock i hi)

/-! ## The returned proof -/

/-- The fields of a proof that the steps are verified against are those of the run. -/
structure Frame (P : Prims) (c : Setup) (proof : PosmeProof) : Prop where
  params : proof.params = c.params
  final : proof.finalTranscript = (c.moment P c.params.totalSteps).transcript
  commitment : proof.rootChainCommitment = c.commitment P
  root0 : proof.root0 = c.root P 0
  points : proof.entanglementPoints = c.pointsAt c.params.totalSteps

/-- What the execution returns, for the indices and the challenges that were drawn. -/
structure Executed (P : Prims) (c : Setup) (indices challenges : List Nat) (proof : PosmeProof) :
    Prop where
  frame : Frame P c proof
  root0Path : verifyRootChainPath P (c.commitment P) 0 (c.root P 0) proof.root0Path
    (c.params.totalSteps + 1) = true
  initWitnesses : List.Forall₂ (ShowsInit P c) indices proof.initWitnesses
  steps : List.Forall₂ (Attached P c (c.params.recursionDepth - 1)) challenges proof.challengedSteps
  algorithm : proof.proofAlgorithm
    = if c.samples = [] then proofAlgorithmPosme else proofAlgorithmPosmeEntangled

theorem ReplayAt.challengedSteps (h : c.Ready) {rootChain : RootChain}
    (hchain : ChainOf P c rootChain) (hinit : Over P c.height initTree (c.arena P 0))
    {replay : Replay} (hat : ReplayAt P c 0 replay) (hnodup : challenges.Nodup)
    (hrange : ∀ t ∈ challenges, 0 < t ∧ t ≤ c.params.totalSteps) :
    ∃ stepProofs, Replay.challengeLoop P c.params.readsPerStep rootChain initTree
        (challenges.zipIdx.insertionSort fun a b => a.1 ≤ b.1) 0 replay = .ok stepProofs
      ∧ List.Forall₂ (Attached P c 0) challenges
        ((stepProofs.insertionSort fun a b => a.2 ≤ b.2).map (·.1)) := by
  have hsort := List.perm_insertionSort (fun a b : Nat × Nat => a.1 ≤ b.1) challenges.zipIdx
  have hids : (challenges.zipIdx.map Prod.fst).Nodup := by
    rwa [List.zipIdx_map_fst]
  obtain ⟨stepProofs, hrun, hall⟩ := hat.challengeLoop h hchain hinit
    (SortByKey.pairwise_lt hids) (by
      intro p hp
      have hmem := List.fst_mem_of_mem_zipIdx (hsort.mem_iff.mp hp)
      exact hrange p.1 hmem)
  refine ⟨stepProofs, hrun, ?_⟩
  have hpairs : (challenges.zipIdx.insertionSort fun a b => a.1 ≤ b.1)
      = stepProofs.map fun q => (q.1.stepId, q.2) := by
    have hrel : List.Forall₂ (· = ·) (challenges.zipIdx.insertionSort fun a b => a.1 ≤ b.1)
        (stepProofs.map fun q => (q.1.stepId, q.2)) := by
      apply List.forall₂_map_right_iff.mpr
      apply hall.imp
      rintro ⟨t, i⟩ ⟨sp, j⟩ ⟨hplace, hattached⟩
      rw [Prod.mk.injEq]
      exact ⟨hattached.shows.stepId.symm, hplace.symm⟩
    rwa [List.forall₂_eq_eq_eq] at hrel
  have hback := SortByKey.sort_back (hpairs ▸ hsort)
  have hshown : ∀ sp ∈ (stepProofs.insertionSort fun a b => a.2 ≤ b.2).map (·.1),
      Attached P c 0 sp.stepId sp := by
    intro sp hsp
    obtain ⟨q, hq, rfl⟩ := List.mem_map.mp hsp
    rw [(List.perm_insertionSort _ stepProofs).mem_iff] at hq
    obtain ⟨p, -, -, hattached⟩ := exists_of_mem_right hall hq
    rw [hattached.shows.stepId]
    exact hattached
  rw [← hback, List.forall₂_map_left_iff, List.forall₂_same]
  exact hshown

theorem Setup.entangleAt_again (t : Nat) (points : List (Nat × Digest)) :
    (c.entangleAt t points).map EntangleCtx.again = c.entangleAt 0 [] := by
  unfold entangleAt
  by_cases hnil : c.samples = []
  · rw [if_pos hnil, if_pos hnil]
    rfl
  · have hzero : c.used 0 = 0 := by rw [used, Nat.zero_div, Nat.zero_min]
    rw [if_neg hnil, if_neg hnil, hzero]
    rfl

theorem Setup.pointsAt_of_nil (hnil : c.samples = []) (t : Nat) : c.pointsAt t = [] := by
  rw [← List.map_eq_nil_iff, map_snd_pointsAt, hnil, List.take_nil]

/-- Where the samplings end, the execution returns a proof of the run. -/
theorem Setup.Ready.executeInner_eq (h : c.Ready) (hindices : c.initIndices P = .ok indices)
    (hchallenges : c.challenges P = .ok challenges) (elapsed : Nat) :
    ∃ proof, executeInner P elapsed c.seed c.params (c.entangleAt 0 []) = .ok proof
      ∧ Executed P c indices challenges proof := by
  obtain ⟨tree, hover, hinitialize⟩ := h.initializeArena_eq (P := P)
  obtain ⟨initTree, hbuild, hinit⟩ := MerkleTree.build_spec (P := P) (h.length_arena 0)
  obtain ⟨witnesses, hwitnesses, hshown⟩ := h.generateInitWitnesses_eq hinit hindices
  let exec₀ : Execution := ⟨c.arena P 0, tree, (c.moment P 0).transcript, c.entangleAt 0 [],
    [c.root P 0]⟩
  obtain ⟨exec, hexec, hat⟩ := @Setup.Ready.executeLoop_eq P c h c.params.totalSteps 0 exec₀
    ⟨rfl, hover, rfl, rfl, rfl⟩
  rw [Nat.zero_add] at hat
  obtain ⟨rootChain, hchainBuild, hchain⟩ := @rootChain_eq P c
  obtain ⟨replay, hstart, hreplay⟩ := h.replayStart_eq (P := P)
  obtain ⟨hnodup, hrange⟩ := challenges_range h.valid hchallenges
  obtain ⟨stepProofs, hloop, hsteps⟩ := hreplay.challengedSteps h hchain hinit hnodup hrange
  obtain ⟨steps, hattach, hattached⟩ := @Setup.Ready.attachRecursiveWriters_eq P c h rootChain
    hchain (c.params.recursionDepth - 1) 0 challenges _ (fun t ht => (hrange t ht).2) hsteps
  rw [Nat.zero_add] at hattached
  obtain ⟨root0Path, hprove, hverify⟩ := hchain.prove_eq h.valid (Nat.zero_le _)
  have hroots : exec.roots = c.roots P := hat.roots
  have hdraw : deriveChallenges P exec.transcript (c.commitment P) c.params
      = (.ok challenges : Res PosmeError _) := by
    rw [hat.transcript]
    exact hchallenges
  -- all parts are there: this is the proof
  let proof : PosmeProof := {
    params := c.params
    finalTranscript := exec.transcript
    rootChainCommitment := c.commitment P
    root0 := c.root P 0
    root0Path := root0Path
    initWitnesses := witnesses
    challengedSteps := steps
    claimedDuration := elapsed
    proofAlgorithm :=
      if c.samples = [] then proofAlgorithmPosme else proofAlgorithmPosmeEntangled
    entanglementPoints := c.pointsAt c.params.totalSteps }
  refine ⟨proof, ?_, ⟨rfl, hat.transcript, rfl, rfl, rfl⟩, hverify, hshown, hattached, rfl⟩
  rw [executeInner, hinitialize, res_ok_bind]
  dsimp only
  rw [hbuild, res_ok_bind, hwitnesses, res_ok_bind, hexec, res_ok_bind, hroots, hchainBuild,
    res_ok_bind, hchain.root, res_ok_bind, hdraw, res_ok_bind, hat.entangle,
    entangleAt_again, hstart, res_ok_bind, hreplay.arena, hbuild, res_ok_bind, hloop,
    res_ok_bind, hattach, res_ok_bind]
  refine res_bind_eq_ok.mpr ⟨root0Path, hprove, ?_⟩
  unfold entangleAt
  by_cases hnil : c.samples = []
  · simp only [proof, if_pos hnil, pointsAt_of_nil hnil]
  · simp only [proof, if_neg hnil]

end WritersProof.Posme
