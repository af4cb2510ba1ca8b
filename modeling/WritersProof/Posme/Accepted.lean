/-
  What the verifier has checked when it accepts: a step (`StepVerified`), a
  writer entry (`WriterVerified`) and a proof (`Accepted`).

  The steps of a proof are the challenged ones and the witnesses nested in them
  (`Nested`, with the depth); in an accepted proof each is verified with the
  levels that are left at its depth (`Accepted.nested`).
-/
import WritersProof.Posme.Verifier

namespace WritersProof.Posme

open Rust MerkleHeap

variable {P : Prims} {step n j : Nat} {cursor : Digest} {read : ReadWitness}
  {w : WriterProof StepProof} {seed : Bytes}

/-! ## Reads -/

def cursorAfter (P : Prims) (cursor : Digest) (reads : List ReadWitness) : Digest :=
  reads.foldl (fun cursor rw => nextCursor P cursor rw.block) cursor

/-- The addresses are those derived from the running cursor; the first read is number `j`. -/
def Addressed (P : Prims) (n : Nat) : Nat → Digest → List ReadWitness → Prop
  | _, _, [] => True
  | j, cursor, rw :: rest =>
    rw.address = addrFrom P cursor j n ∧ Addressed P n (j + 1) (nextCursor P cursor rw.block) rest

theorem cursorLoop_eq_ok {reads : List ReadWitness} {last : Digest} :
    cursorLoop P step n j reads cursor = .ok last
      ↔ Addressed P n j cursor reads ∧ last = cursorAfter P cursor reads := by
  induction reads generalizing j cursor with
  | nil => simp [cursorLoop, Addressed, cursorAfter, eq_comm]
  | cons rw rest ih =>
    rw [cursorLoop, reject_bind_eq_ok, ih, not_not, Addressed, and_assoc]
    constructor
    · rintro ⟨haddr, hrest⟩
      exact ⟨haddr.symm, hrest⟩
    · rintro ⟨haddr, hrest⟩
      exact ⟨haddr.symm, hrest⟩

theorem requirePath_eq_ok {address : Nat} {root : Digest} {block : Block} {path : List Digest} :
    requirePath P step root address block path n = .ok ()
      ↔ verifyPath (ε := PosmeError) P root address block path n = .ok true := by
  rw [requirePath, res_bind_eq_ok]
  constructor
  · rintro ⟨b, hb, h⟩
    rw [reject_eq_ok, not_not] at h
    rw [hb, h]
  · intro h
    exact ⟨true, h, reject_eq_ok.mpr (by simp)⟩

/-! ## Steps -/

structure WriteVerified (P : Prims) (sp : StepProof) (n d : Nat) (cursor : Digest) : Prop where
  address : sp.write.address = addrFrom P cursor d n
  before : verifyPath (ε := PosmeError) P sp.rootBefore sp.write.address sp.write.oldBlock
    sp.write.merklePath n = .ok true
  block : sp.write.newBlock = writtenBlock P sp.write.oldBlock cursor sp.stepId
  after : verifyPath (ε := PosmeError) P sp.rootAfter sp.write.address sp.write.newBlock
    sp.write.merklePath n = .ok true

theorem block_ne_iff {a b : Block} : (a.data ≠ b.data ∨ a.causal ≠ b.causal) ↔ a ≠ b := by
  rw [← not_and_or, not_iff_not]
  constructor
  · rintro ⟨hdata, hcausal⟩
    cases a
    cases b
    cases hdata
    cases hcausal
    rfl
  · rintro rfl
    exact ⟨rfl, rfl⟩

variable {sp : StepProof} {verifyWitness : Option (StepProof → Res PosmeError Digest)}
  {proof : PosmeProof} {ctx : VerifyCtx}

theorem verifySymbioticWrite_eq_ok {d : Nat} :
    verifySymbioticWrite P sp sp.stepId n d cursor = .ok () ↔ WriteVerified P sp n d cursor := by
  simp only [verifySymbioticWrite, unit_bind_eq_ok, reject_eq_ok, requirePath_eq_ok, not_not,
    block_ne_iff]
  constructor
  · rintro ⟨haddr, hbefore, hblock, hafter⟩
    exact ⟨haddr.symm, hbefore, hblock, hafter⟩
  · rintro ⟨haddr, hbefore, hblock, hafter⟩
    exact ⟨haddr.symm, hbefore, hblock, hafter⟩

structure WitnessVerified (sp : StepProof)
    (verifyWitness : Option (StepProof → Res PosmeError Digest)) (read : ReadWitness)
    (writerStepId : Nat) (witness : StepProof) : Prop where
  verified : ∃ verify transcript, verifyWitness = some verify ∧ verify witness = .ok transcript
  pos : 0 < witness.stepId
  prior : witness.stepId < sp.stepId
  claimed : witness.stepId = writerStepId
  address : witness.write.address = read.address
  block : witness.write.newBlock = read.block

theorem checkWitness_eq_ok {writerStepId : Nat} {witness : StepProof} :
    checkWitness sp verifyWitness j read writerStepId witness = .ok ()
      ↔ WitnessVerified sp verifyWitness read writerStepId witness := by
  cases verifyWitness with
  | none =>
    constructor
    · rintro ⟨⟩
    · rintro ⟨⟨verify, transcript, ⟨⟩, -⟩, -⟩
  | some verify =>
    simp only [checkWitness, unit_bind_eq_ok, reject_eq_ok]
    rw [res_bind_eq_ok]
    simp only [unit_bind_eq_ok, reject_eq_ok, not_not, block_ne_iff, not_or, not_le]
    constructor
    · rintro ⟨⟨hpos, hprior⟩, hclaimed, transcript, hverify, haddr, hblock⟩
      exact ⟨⟨verify, transcript, rfl, hverify⟩, by omega, hprior, hclaimed, haddr, hblock⟩
    · rintro ⟨⟨verify', transcript, hsome, hverify⟩, hpos, hprior, hclaimed, haddr, hblock⟩
      cases hsome
      exact ⟨⟨by omega, hprior⟩, hclaimed, transcript, hverify, haddr, hblock⟩

/-- What is checked of a writer entry, where it is present. -/
structure WriterVerified (P : Prims) (proof : PosmeProof) (ctx : VerifyCtx) (sp : StepProof)
    (verifyWitness : Option (StepProof → Res PosmeError Digest)) (w : WriterProof StepProof)
    (read : ReadWitness) : Prop where
  initial : w.proofType = 0 → ∀ path, w.initMerklePath = some path →
    verifyPath (ε := PosmeError) P proof.root0 read.address read.block path ctx.n = .ok true
  witness : ∀ witness, w.stepWitness = some witness →
    WitnessVerified sp verifyWitness read w.writerStepId witness

theorem checkInitPath_eq_ok :
    checkInitPath P proof step n w read = .ok () ↔ (w.proofType = 0 → ∀ path,
      w.initMerklePath = some path →
        verifyPath (ε := PosmeError) P proof.root0 read.address read.block path n = .ok true) := by
  unfold checkInitPath
  by_cases htype : w.proofType = 0
  · rw [if_pos htype]
    cases w.initMerklePath with
    | none => simp
    | some path =>
      dsimp only
      rw [requirePath_eq_ok]
      constructor
      · rintro h - path' ⟨⟩
        exact h
      · intro h
        exact h htype path rfl
  · rw [if_neg htype]
    simp [htype]

theorem checkWriter_eq_ok :
    checkWriter P proof ctx sp verifyWitness (w, j) = .ok ()
      ↔ ∃ read, sp.reads[j]? = some read ∧ WriterVerified P proof ctx sp verifyWitness w read := by
  simp only [checkWriter, unit_bind_eq_ok, reject_eq_ok, not_le]
  rw [res_bind_eq_ok]
  simp only [unit_bind_eq_ok, index_eq_ok, checkInitPath_eq_ok]
  constructor
  · rintro ⟨-, read, hread, hinit, hwitness⟩
    refine ⟨read, hread, hinit, ?_⟩
    intro witness hsome
    rw [hsome] at hwitness
    exact checkWitness_eq_ok.mp hwitness
  · rintro ⟨read, hread, hinit, hwitness⟩
    obtain ⟨hlt, -⟩ := List.getElem?_eq_some_iff.mp hread
    refine ⟨hlt, read, hread, hinit, ?_⟩
    cases hsome : w.stepWitness with
    | none => rfl
    | some witness => exact checkWitness_eq_ok.mpr (hwitness witness hsome)

/-- What `verify_step` has checked when it returns `transcript`. -/
structure StepVerified (P : Prims) (proof : PosmeProof) (ctx : VerifyCtx)
    (verifyWitness : Option (StepProof → Res PosmeError Digest)) (sp : StepProof)
    (transcript : Digest) : Prop where
  writers_le : sp.writers.length ≤ sp.reads.length
  pos : 0 < sp.stepId
  le : sp.stepId ≤ ctx.k
  root_before : verifyRootChainPath P proof.rootChainCommitment (sp.stepId - 1) sp.rootBefore
    sp.rootChainPaths.1 ctx.totalRoots = true
  root_after : verifyRootChainPath P proof.rootChainCommitment sp.stepId sp.rootAfter
    sp.rootChainPaths.2 ctx.totalRoots = true
  paths : ∀ rw ∈ sp.reads,
    verifyPath (ε := PosmeError) P sp.rootBefore rw.address rw.block rw.merklePath ctx.n = .ok true
  addressed : Addressed P ctx.n 0 sp.cursorIn sp.reads
  write : WriteVerified P sp ctx.n ctx.d (cursorAfter P sp.cursorIn sp.reads)
  writers : ∀ (j : Nat) w, sp.writers[j]? = some w → ∃ read, sp.reads[j]? = some read
    ∧ WriterVerified P proof ctx sp verifyWitness w read
  transcript_eq : transcript
    = stepTranscript P sp.cursorIn sp.stepId (cursorAfter P sp.cursorIn sp.reads) sp.rootAfter
  last : sp.stepId = ctx.k →
    finalExpected P proof.entanglementPoints sp.stepId transcript = proof.finalTranscript
  first : sp.stepId = 1 → sp.cursorIn = ctx.t0

theorem verifyStepWith_eq_ok {transcript : Digest} :
    verifyStepWith P proof ctx verifyWitness sp = .ok transcript
      ↔ StepVerified P proof ctx verifyWitness sp transcript := by
  simp only [verifyStepWith, unit_bind_eq_ok, reject_eq_ok]
  rw [res_bind_eq_ok]
  simp only [unit_bind_eq_ok, reject_eq_ok, forEach_eq_ok, requirePath_eq_ok, cursorLoop_eq_ok,
    verifySymbioticWrite_eq_ok, not_lt, not_or, not_and, not_not, Except.ok.injEq]
  constructor
  · rintro ⟨hlen, ⟨hpos, hle⟩, hbefore, hafter, hpaths, cursor, ⟨haddr, rfl⟩, hwrite, hwriters,
      hlast, hfirst, rfl⟩
    refine ⟨hlen, by omega, hle, hbefore, hafter, hpaths, haddr, hwrite, ?_, rfl, hlast, hfirst⟩
    intro j w hw
    exact checkWriter_eq_ok.mp (hwriters (w, j) (List.mk_mem_zipIdx_iff_getElem?.mpr hw))
  · rintro ⟨hlen, hpos, hle, hbefore, hafter, hpaths, haddr, hwrite, hwriters, rfl, hlast, hfirst⟩
    refine ⟨hlen, ⟨by omega, hle⟩, hbefore, hafter, hpaths, _, ⟨haddr, rfl⟩, hwrite, ?_, hlast,
      hfirst, rfl⟩
    rintro ⟨w, j⟩ hmem
    exact checkWriter_eq_ok.mpr (hwriters j w (List.mk_mem_zipIdx_iff_getElem?.mp hmem))

def StepProof.transcript (P : Prims) (sp : StepProof) : Digest :=
  stepTranscript P sp.cursorIn sp.stepId (cursorAfter P sp.cursorIn sp.reads) sp.rootAfter

/-- The verifier of the witnesses of a step that is verified with `depth` levels left. -/
def witnessVerifier (P : Prims) (proof : PosmeProof) (ctx : VerifyCtx) :
    Nat → Option (StepProof → Res PosmeError Digest)
  | 0 => none
  | depth + 1 => some (verifyStep P proof ctx depth)

theorem verifyStep_eq_ok {depth : Nat} {transcript : Digest} :
    verifyStep P proof ctx depth sp = .ok transcript
      ↔ StepVerified P proof ctx (witnessVerifier P proof ctx depth) sp transcript := by
  cases depth with
  | zero => exact verifyStepWith_eq_ok
  | succ depth => exact verifyStepWith_eq_ok

/-! ## Proofs -/

structure InitWitnessVerified (P : Prims) (seed : Bytes) (proof : PosmeProof) (n : Nat)
    (w : InitWitness) (expectedIdx : Nat) : Prop where
  index : w.index = expectedIdx
  data : w.index = 0 → w.block.data = posmeHash P [dstInit, seed, i2osp 0]
  causal : w.block.causal = posmeHash P [dstCausal, seed, i2osp w.index]
  path : verifyPath (ε := PosmeError) P proof.root0 w.index w.block w.merklePath n = .ok true

theorem checkInitWitness_eq_ok {expectedIdx : Nat} {w : InitWitness} :
    checkInitWitness P seed proof n (w, expectedIdx) = .ok ()
      ↔ InitWitnessVerified P seed proof n w expectedIdx := by
  simp only [checkInitWitness, unit_bind_eq_ok, reject_eq_ok, requirePath_eq_ok, not_not, not_and]
  constructor
  · rintro ⟨hindex, hdata, hcausal, hpath⟩
    refine ⟨hindex, fun hzero => ?_, hcausal, hpath⟩
    have := hdata hzero
    rwa [if_pos hzero] at this
  · rintro ⟨hindex, hdata, hcausal, hpath⟩
    refine ⟨hindex, fun hzero => ?_, hcausal, hpath⟩
    rw [if_pos hzero]
    exact hdata hzero

structure Accepted (P : Prims) (seed : Bytes) (proof : PosmeProof) : Prop where
  valid : proof.params.Valid
  algorithm : proof.proofAlgorithm = proofAlgorithmPosme
    ∨ proof.proofAlgorithm = proofAlgorithmPosmeEntangled
  jitter : checkJitter P proof = .ok ()
  root0 : verifyRootChainPath P proof.rootChainCommitment 0 proof.root0 proof.root0Path
    (proof.params.totalSteps + 1) = true
  initEnough : initWitnessCount ≤ proof.initWitnesses.length
  initWitnesses : ∃ indices,
    initWitnessIndices (ε := PosmeError) P seed proof.root0 proof.params.arenaBlocks = .ok indices
      ∧ ∀ p ∈ proof.initWitnesses.zip indices,
        InitWitnessVerified P seed proof proof.params.arenaBlocks p.1 p.2
  challenges : deriveChallenges (ε := PosmeError) P proof.finalTranscript
    proof.rootChainCommitment proof.params = .ok (proof.challengedSteps.map (·.stepId))
  steps : ∀ sp ∈ proof.challengedSteps, verifyStep P proof (verifyCtx P seed proof)
    (verifyCtx P seed proof).maxWriterDepth sp = .ok (sp.transcript P)
  points : (proof.entanglementPoints.map (·.1)).Nodup
  consecutive : let transcripts := (proof.challengedSteps.map fun sp =>
      (sp.stepId, sp.transcript P)).insertionSort fun a b => a.1 ≤ b.1
    ∀ p ∈ transcripts.zip transcripts.tail, checkConsecutive P proof p = .ok ()

theorem verifySteps_eq_ok {depth : Nat} {sps : List StepProof} {transcripts : List (Nat × Digest)} :
    (sps.mapM fun sp => do
      let transcript ← verifyStep P proof ctx depth sp
      .ok (sp.stepId, transcript)) = .ok transcripts
    ↔ (∀ sp ∈ sps, verifyStep P proof ctx depth sp = .ok (sp.transcript P))
      ∧ transcripts = sps.map fun sp => (sp.stepId, sp.transcript P) := by
  have hstep : ∀ (sp : StepProof) (y : Nat × Digest), (do
      let transcript ← verifyStep P proof ctx depth sp
      .ok (sp.stepId, transcript)) = .ok y
      ↔ verifyStep P proof ctx depth sp = .ok (sp.transcript P)
        ∧ y = (sp.stepId, sp.transcript P) := by
    intro sp y
    rw [res_bind_eq_ok]
    constructor
    · rintro ⟨transcript, hrun, ⟨⟩⟩
      have heq : transcript = sp.transcript P := (verifyStep_eq_ok.mp hrun).transcript_eq
      subst heq
      exact ⟨hrun, rfl⟩
    · rintro ⟨hrun, rfl⟩
      exact ⟨_, hrun, rfl⟩
  rw [mapM_eq_ok_iff fun sp y h => ((hstep sp y).mp h).2]
  apply and_congr_left
  intro _
  apply forall_congr'
  intro sp
  apply imp_congr_right
  intro _
  rw [hstep]
  exact and_iff_left rfl

theorem verify_eq_ok : verify P seed proof = .ok () ↔ Accepted P seed proof := by
  simp only [verify, unit_bind_eq_ok, reject_eq_ok]
  rw [res_bind_eq_ok]
  simp only [unit_bind_eq_ok, forEach_eq_ok, PosmeParams.validate_eq_ok, not_not, not_lt]
  constructor
  · rintro ⟨hvalid, halgorithm, hjitter, hroot, hlen, indices, hindices, hinit, h⟩
    obtain ⟨challenges, hchallenges, h⟩ := res_bind_eq_ok.mp h
    obtain ⟨hids, h⟩ := reject_bind_eq_ok.mp h
    obtain ⟨transcripts, hsteps, h⟩ := res_bind_eq_ok.mp h
    obtain ⟨hpoints, hconsecutive⟩ := reject_bind_eq_ok.mp h
    rw [not_not] at hids hpoints
    obtain ⟨hall, htranscripts⟩ := verifySteps_eq_ok.mp hsteps
    rw [htranscripts] at hconsecutive
    rw [← hids] at hchallenges
    refine ⟨hvalid, by omega, hjitter, hroot, hlen, ⟨indices, hindices, ?_⟩, hchallenges, hall,
      hpoints, forEach_eq_ok.mp hconsecutive⟩
    intro p hp
    exact checkInitWitness_eq_ok.mp (hinit p hp)
  · rintro ⟨hvalid, halgorithm, hjitter, hroot, hlen, ⟨indices, hindices, hinit⟩, hchallenges,
      hsteps, hpoints, hconsecutive⟩
    refine ⟨hvalid, by omega, hjitter, hroot, hlen, indices, hindices, ?_, ?_⟩
    · intro p hp
      exact checkInitWitness_eq_ok.mpr (hinit p hp)
    · rw [hchallenges, res_ok_bind, reject_bind_eq_ok, not_not]
      refine ⟨rfl, ?_⟩
      rw [verifySteps_eq_ok.mpr ⟨hsteps, rfl⟩, res_ok_bind, reject_bind_eq_ok, not_not]
      exact ⟨hpoints, forEach_eq_ok.mpr hconsecutive⟩

/-! ## The steps of a proof -/

/-- The steps of a proof, with the depth at which they are: the challenged ones at depth 0, and
    the witness of a writer of a step one deeper than the step. -/
inductive Nested (proof : PosmeProof) : Nat → StepProof → Prop where
  | challenged {sp : StepProof} (h : sp ∈ proof.challengedSteps) : Nested proof 0 sp
  | witness {t : Nat} {sp witness : StepProof} {w : WriterProof StepProof} (h : Nested proof t sp)
      (hw : w ∈ sp.writers) (hsome : w.stepWitness = some witness) :
      Nested proof (t + 1) witness

theorem Accepted.nested (h : Accepted P seed proof) {t : Nat} (hsp : Nested proof t sp) :
    t < proof.params.recursionDepth ∧ StepVerified P proof (verifyCtx P seed proof)
      (witnessVerifier P proof (verifyCtx P seed proof) (proof.params.recursionDepth - 1 - t)) sp
      (sp.transcript P) := by
  have hdepth : 1 ≤ proof.params.recursionDepth := h.valid.depth_min
  induction hsp with
  | challenged hsp => exact ⟨by omega, verifyStep_eq_ok.mp (h.steps _ hsp)⟩
  | @witness t sp witness w _ hw hsome ih =>
    obtain ⟨ht, hverified⟩ := ih
    obtain ⟨j, hj⟩ := List.mem_iff_getElem?.mp hw
    obtain ⟨read, -, hwriter⟩ := hverified.writers j w hj
    obtain ⟨verify, transcript, hverify, hrun⟩ := (hwriter.witness witness hsome).verified
    -- a witness is verified only where a level is left
    obtain ⟨depth, hlevel⟩ | hnone : (∃ depth, proof.params.recursionDepth - 1 - t = depth + 1)
        ∨ proof.params.recursionDepth - 1 - t = 0 := by
      cases proof.params.recursionDepth - 1 - t with
      | zero => exact .inr rfl
      | succ depth => exact .inl ⟨depth, rfl⟩
    · rw [hlevel] at hverify
      cases hverify
      have hwitness := verifyStep_eq_ok.mp hrun
      have htranscript : transcript = witness.transcript P := hwitness.transcript_eq
      rw [show proof.params.recursionDepth - 1 - (t + 1) = depth by omega, ← htranscript]
      exact ⟨by omega, hwitness⟩
    · rw [hnone] at hverify
      cases hverify

end WritersProof.Posme
