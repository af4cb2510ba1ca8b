/-
  What the steps of an accepted proof are: those that `posme_step` computes from
  the cursor and the opened blocks (`Computes`), but for two things that the
  verifier does not look at.  It goes over the reads that the proof has, however
  many they are, and it does not read `cursor_out`.

  Whether each read of an accepted proof is shown where its block comes from.

  A writer entry is checked in the parts that it has: an init path against the
  initial root, a witness as a verified earlier step.  An entry without them
  passes, and so does a list of entries that ends early; that they are all there
  (`Present`) is for the prover to decide.
-/
import WritersProof.Posme.Accepted
import WritersProof.Posme.Tree

namespace WritersProof.Posme

open Rust MerkleHeap

variable {P : Prims}

/-! ## Reading an arena -/

theorem readLoop_eq {arena : List Block} {reads : List ReadWitness} {j : Nat} {cursor : Digest}
    (haddr : Addressed P arena.length j cursor reads)
    (hopen : ∀ rw ∈ reads, arena[rw.address]? = some rw.block)
    (hmax : j + reads.length ≤ maxReads) :
    readLoop P arena reads.length j cursor
      = .ok (reads.map (·.address), reads.map (·.block), cursorAfter P cursor reads) := by
  induction reads generalizing j cursor with
  | nil => rfl
  | cons rw rest ih =>
    obtain ⟨ha, hrest⟩ := haddr
    rw [List.forall_mem_cons] at hopen
    rw [List.length_cons] at hmax
    rw [List.length_cons, readLoop, if_pos (by omega), unwrap_some, res_ok_bind, ← ha,
      index_eq_ok.mpr hopen.1, res_ok_bind, ih hrest hopen.2 (by omega), res_ok_bind]
    rfl

structure Opens (P : Prims) (n : Nat) (sp : StepProof) (arena : List Block) (tree : MerkleTree) :
    Prop where
  len : arena.length = n
  build : MerkleTree.build P arena = .ok tree
  root : tree.root = .ok sp.rootBefore
  reads : ∀ rw ∈ sp.reads, arena[rw.address]? = some rw.block
  old : arena[sp.write.address]? = some sp.write.oldBlock
  path : tree.prove sp.write.address = .ok sp.write.merklePath

def StepProof.log (P : Prims) (sp : StepProof) : StepLog where
  stepId := sp.stepId
  readAddrs := sp.reads.map (·.address)
  readBlocks := sp.reads.map (·.block)
  writeAddr := sp.write.address
  oldBlock := sp.write.oldBlock
  newBlock := sp.write.newBlock
  cursor := sp.cursorOut
  rootBefore := sp.rootBefore
  rootAfter := sp.rootAfter
  transcript := stepTranscript P sp.cursorIn sp.stepId sp.cursorOut sp.rootAfter

structure Computes (P : Prims) (seed : Bytes) (proof : PosmeProof) (t : Nat) (sp : StepProof) :
    Prop where
  count : sp.reads.length = proof.params.readsPerStep
  addressed : Addressed P proof.params.arenaBlocks 0 sp.cursorIn sp.reads
  cursor : sp.cursorOut = cursorAfter P sp.cursorIn sp.reads
  address : sp.write.address
    = addrFrom P sp.cursorOut proof.params.readsPerStep proof.params.arenaBlocks
  block : sp.write.newBlock = writtenBlock P sp.write.oldBlock sp.cursorOut sp.stepId
  rootAfter : sp.rootAfter = climb (internalHash P) (proof.params.arenaBlocks + sp.write.address)
    (leafHash P sp.write.newBlock) sp.write.merklePath
  returned : verifyStep P proof (verifyCtx P seed proof) (proof.params.recursionDepth - 1 - t) sp
    = .ok (stepTranscript P sp.cursorIn sp.stepId sp.cursorOut sp.rootAfter)
  step : ∀ arena tree, Opens P proof.params.arenaBlocks sp arena tree → ∃ arena' tree',
    posmeStep P arena tree sp.cursorIn sp.stepId proof.params.readsPerStep
      = .ok (sp.log P, arena', tree')

/-- The fields that the verifier does not look at. -/
structure Filled (P : Prims) (params : PosmeParams) (sp : StepProof) : Prop where
  count : sp.reads.length = params.readsPerStep
  cursor : sp.cursorOut = cursorAfter P sp.cursorIn sp.reads

theorem PosmeParams.Valid.exists_log {params : PosmeParams} (h : params.Valid) :
    ∃ d ≤ 22, params.arenaBlocks = 2 ^ d := by
  obtain ⟨d, hd⟩ := h.arena_pow
  refine ⟨d, ?_, hd⟩
  have hmax := h.arena_max
  rw [hd, maxArenaBlocks] at hmax
  exact (Nat.pow_le_pow_iff_right (by decide)).mp hmax

theorem StepVerified.posmeStep_eq {proof : PosmeProof} {ctx : VerifyCtx}
    {verifyWitness : Option (StepProof → Res PosmeError Digest)} {sp : StepProof}
    {transcript : Digest} (h : StepVerified P proof ctx verifyWitness sp transcript)
    (hvalid : proof.params.Valid) (hn : ctx.n = proof.params.arenaBlocks)
    (hd : ctx.d = proof.params.readsPerStep) (hfilled : Filled P proof.params sp)
    {arena : List Block} {tree : MerkleTree}
    (hopens : Opens P proof.params.arenaBlocks sp arena tree) :
    ∃ arena' tree', posmeStep P arena tree sp.cursorIn sp.stepId proof.params.readsPerStep
      = .ok (sp.log P, arena', tree') := by
  obtain ⟨e, he, hpow⟩ := hvalid.exists_log
  have hwrite := h.write
  rw [hn, hd, ← hfilled.cursor] at hwrite
  have haddr := h.addressed
  rw [hn, ← hopens.len] at haddr
  obtain ⟨tree₀, hbuild, hover⟩ := MerkleTree.build_spec (P := P) (hopens.len.trans hpow)
  rw [hopens.build] at hbuild
  cases hbuild
  have hreads := readLoop_eq haddr hopens.reads (by
    rw [hfilled.count]
    exact Nat.le_trans (Nat.le_of_eq (Nat.zero_add _)) hvalid.reads_max)
  rw [hfilled.count, ← hfilled.cursor] at hreads
  have hlt : sp.write.address < 2 ^ e := by
    rw [hwrite.address, hpow]
    exact addrFrom_lt _ _ (Nat.two_pow_pos e)
  have hold := hopens.old
  rw [hwrite.address, hpow] at hold
  obtain ⟨tree', hover', hsiblings, hstep⟩ := posmeStep_spec (t := sp.stepId) hover hreads hold
  rw [← hpow, ← hwrite.address, ← hwrite.block] at hover' hstep
  have hpath := hopens.path
  rw [hover.prove_eq (by omega) hlt] at hpath
  have hsame : siblings (heapNode tree.nodes) e (2 ^ e + sp.write.address) = sp.write.merklePath :=
    Except.ok.inj hpath
  rw [← hpow, ← hwrite.address, hpow, hsame] at hsiblings
  -- the path of the old block leads from the new one to the new root
  have hafter := hwrite.after
  rw [hpow, verifyPath_eq_true (by omega) hlt, ← hsiblings] at hafter
  have hnew : (arena.set sp.write.address sp.write.newBlock)[sp.write.address]?
      = some sp.write.newBlock := by
    rw [List.getElem?_set_self (by rw [hover.len]; exact hlt)]
  have hrootAfter : heapNode tree'.nodes 1 = sp.rootAfter :=
    (hover'.climb_eq hnew).symm.trans hafter.2
  have hrootBefore : heapNode tree.nodes 1 = sp.rootBefore :=
    Except.ok.inj (hover.root_eq.symm.trans hopens.root)
  rw [hrootAfter, hrootBefore] at hstep
  exact ⟨_, tree', hstep⟩

/-! ## A still arena

With a hash that is zero but for the sampled indices, every read and write is at
address 0 and changes nothing. -/

/-- The hash of 36 bytes is their last four; word `j` of the stream is `j`. -/
def Prims.still : Prims where
  blake3 data :=
    if data.length = 36 then ⟨(data.drop 32 ++ List.replicate 32 0).take 32, by simp⟩
    else zeroDigest
  blake3Xof _ j := Bytes.ofNat 4 j
  jitterVariance _ := 0
  jitterVarianceOk _ := true
  patience := 4

def stillStep (reads stepId : Nat) : StepProof where
  stepId := stepId
  cursorIn := zeroDigest
  cursorOut := zeroDigest
  rootBefore := zeroDigest
  rootAfter := zeroDigest
  rootChainPaths := (List.replicate 11 zeroDigest, List.replicate 11 zeroDigest)
  reads := List.replicate reads ⟨0, Block.zeroed, List.replicate 10 zeroDigest⟩
  write := ⟨0, Block.zeroed, Block.zeroed, List.replicate 10 zeroDigest⟩
  writers := []

def stillProof (recursionDepth : Nat) (challengedSteps : List StepProof) : PosmeProof where
  params := ⟨1024, 1024, 4, 2, recursionDepth⟩
  finalTranscript := zeroDigest
  rootChainCommitment := zeroDigest
  root0 := zeroDigest
  root0Path := List.replicate 11 zeroDigest
  initWitnesses := (List.range 8).map fun i => ⟨i, Block.zeroed, List.replicate 10 zeroDigest⟩
  challengedSteps := challengedSteps
  claimedDuration := 0
  proofAlgorithm := proofAlgorithmPosme
  entanglementPoints := []

/-- In an accepted proof, the steps at every depth are those that `posme_step` computes exactly
    when all of them have as many reads as the parameters say and the cursor that they lead to. -/
theorem computes_iff_filled (P : Prims) (seed : Bytes) (proof : PosmeProof)
    (h : verify P seed proof = .ok ()) :
    (∀ t sp, Nested proof t sp → Computes P seed proof t sp)
      ↔ ∀ t sp, Nested proof t sp → Filled P proof.params sp := by
  have haccepted := verify_eq_ok.mp h
  have hvalid := haccepted.valid
  obtain ⟨e, he, hpow⟩ := hvalid.exists_log
  constructor
  · intro hall t sp hsp
    exact ⟨(hall t sp hsp).count, (hall t sp hsp).cursor⟩
  · intro hall t sp hsp
    have hfilled := hall t sp hsp
    obtain ⟨-, hverified⟩ := haccepted.nested hsp
    have hwrite : WriteVerified P sp proof.params.arenaBlocks proof.params.readsPerStep
        sp.cursorOut := by
      rw [hfilled.cursor]
      exact hverified.write
    have hlt : sp.write.address < 2 ^ e := by
      rw [hwrite.address, hpow]
      exact addrFrom_lt _ _ (Nat.two_pow_pos e)
    have hafter := hwrite.after
    rw [hpow, verifyPath_eq_true (by omega) hlt, ← hpow] at hafter
    have hreturned := verifyStep_eq_ok.mpr hverified
    rw [StepProof.transcript, ← hfilled.cursor] at hreturned
    exact {
      count := hfilled.count
      addressed := hverified.addressed
      cursor := hfilled.cursor
      address := hwrite.address
      block := hwrite.block
      rootAfter := hafter.2.symm
      returned := hreturned
      step := fun arena tree hopens => hverified.posmeStep_eq hvalid rfl rfl hfilled hopens }

theorem computes_iff_filled_still :
    verify Prims.still [] (stillProof 1 [stillStep 4 1, stillStep 4 2]) = .ok ()
    ∧ ((∀ t sp, Nested (stillProof 1 [stillStep 4 1, stillStep 4 2]) t sp →
        Computes Prims.still [] (stillProof 1 [stillStep 4 1, stillStep 4 2]) t sp)
      ↔ ∀ t sp, Nested (stillProof 1 [stillStep 4 1, stillStep 4 2]) t sp →
        Filled Prims.still (stillProof 1 [stillStep 4 1, stillStep 4 2]).params sp) := by
  have hverify : verify Prims.still [] (stillProof 1 [stillStep 4 1, stillStep 4 2]) = .ok () := by
    decide +kernel
  exact ⟨hverify, computes_iff_filled _ _ _ hverify⟩

/-- Steps without reads are accepted. -/
theorem steps_without_reads : ¬ ∀ (P : Prims) (seed : Bytes) (proof : PosmeProof),
    verify P seed proof = .ok () → ∀ t sp, Nested proof t sp → Computes P seed proof t sp := by
  intro hclaim
  have hverify : verify Prims.still [] (stillProof 1 [stillStep 0 1, stillStep 0 2]) = .ok () := by
    decide +kernel
  have hfirst : Nested (stillProof 1 [stillStep 0 1, stillStep 0 2]) 0 (stillStep 0 1) :=
    .challenged List.mem_cons_self
  have hcount := (hclaim _ _ _ hverify _ _ hfirst).count
  exact absurd hcount (by decide)

/-- The block that was read is in the initial arena. -/
def FromInit (P : Prims) (proof : PosmeProof) (read : ReadWitness) (w : WriterProof StepProof) :
    Prop :=
  w.proofType = 0 ∧ ∃ path, w.initMerklePath = some path
    ∧ verifyPath (ε := PosmeError) P proof.root0 read.address read.block path
      proof.params.arenaBlocks = .ok true

/-- The block that was read is the one that a verified earlier step wrote there. -/
def FromStep (P : Prims) (seed : Bytes) (proof : PosmeProof) (t : Nat) (sp : StepProof)
    (read : ReadWitness) (w : WriterProof StepProof) : Prop :=
  w.proofType = 1 ∧ ∃ witness, w.stepWitness = some witness
    ∧ StepVerified P proof (verifyCtx P seed proof)
      (witnessVerifier P proof (verifyCtx P seed proof)
        (proof.params.recursionDepth - 1 - (t + 1))) witness (witness.transcript P)
    ∧ 0 < witness.stepId ∧ witness.stepId < sp.stepId ∧ witness.stepId = w.writerStepId
    ∧ witness.write.address = read.address ∧ witness.write.newBlock = read.block

/-- Every read of the steps at depths below `bound` has its writer. -/
def Provenance (P : Prims) (seed : Bytes) (proof : PosmeProof) (bound : Nat) : Prop :=
  ∀ t sp, t < bound → Nested proof t sp → ∀ (j : Nat) read, sp.reads[j]? = some read →
    ∃ w, sp.writers[j]? = some w ∧ (FromInit P proof read w ∨ FromStep P seed proof t sp read w)

/-- The steps at depths below `bound` have a writer entry for each read, and the entry has the
    part that its type stands for. -/
def Present (proof : PosmeProof) (bound : Nat) : Prop :=
  ∀ t sp, t < bound → Nested proof t sp → sp.reads.length ≤ sp.writers.length
    ∧ ∀ w ∈ sp.writers, w.proofType = 0 ∧ w.initMerklePath.isSome
      ∨ w.proofType = 1 ∧ w.stepWitness.isSome

/-- In an accepted proof the reads of the steps above any depth have their writers exactly when
    the entries are there. -/
theorem provenance_iff_present (P : Prims) (seed : Bytes) (proof : PosmeProof)
    (h : verify P seed proof = .ok ()) (bound : Nat) :
    Provenance P seed proof bound ↔ Present proof bound := by
  have haccepted := verify_eq_ok.mp h
  constructor
  · intro hall t sp ht hsp
    obtain ⟨-, hverified⟩ := haccepted.nested hsp
    refine ⟨?_, ?_⟩
    · by_contra hshort
      obtain ⟨w, hw, -⟩ := hall t sp ht hsp sp.writers.length _
        (List.getElem?_eq_getElem (by omega))
      obtain ⟨hlt, -⟩ := List.getElem?_eq_some_iff.mp hw
      omega
    · intro w hw
      obtain ⟨j, hj⟩ := List.mem_iff_getElem?.mp hw
      obtain ⟨read, hread, -⟩ := hverified.writers j w hj
      obtain ⟨w', hw', hfrom⟩ := hall t sp ht hsp j read hread
      rw [hj] at hw'
      cases hw'
      rcases hfrom with ⟨htype, path, hpath, -⟩ | ⟨htype, witness, hwitness, -⟩
      · exact .inl ⟨htype, by rw [hpath]; rfl⟩
      · exact .inr ⟨htype, by rw [hwitness]; rfl⟩
  · intro hall t sp ht hsp j read hread
    obtain ⟨-, hverified⟩ := haccepted.nested hsp
    obtain ⟨hlen, hentries⟩ := hall t sp ht hsp
    obtain ⟨hj, -⟩ := List.getElem?_eq_some_iff.mp hread
    have hjw : j < sp.writers.length := by omega
    obtain ⟨w, hw⟩ : ∃ w, sp.writers[j]? = some w := ⟨_, List.getElem?_eq_getElem hjw⟩
    obtain ⟨read', hread', hwriter⟩ := hverified.writers j w hw
    rw [hread] at hread'
    cases hread'
    refine ⟨w, hw, ?_⟩
    have hmem := List.mem_of_getElem? hw
    rcases hentries _ hmem with ⟨htype, hsome⟩ | ⟨htype, hsome⟩
    · obtain ⟨path, hpath⟩ := Option.isSome_iff_exists.mp hsome
      exact .inl ⟨htype, path, hpath, hwriter.initial htype path hpath⟩
    · obtain ⟨witness, hwitness⟩ := Option.isSome_iff_exists.mp hsome
      have hchecked := hwriter.witness witness hwitness
      -- the witness is a step of the proof, one deeper
      obtain ⟨-, hnested⟩ := haccepted.nested (hsp.witness hmem hwitness)
      exact .inr ⟨htype, witness, hwitness, hnested, hchecked.pos, hchecked.prior,
        hchecked.claimed, hchecked.address, hchecked.block⟩

theorem provenance_iff_present_still :
    verify Prims.still [] (stillProof 2 [stillStep 4 1, stillStep 4 2]) = .ok ()
    ∧ (Provenance Prims.still [] (stillProof 2 [stillStep 4 1, stillStep 4 2]) 1
      ↔ Present (stillProof 2 [stillStep 4 1, stillStep 4 2]) 1) := by
  have hverify : verify Prims.still [] (stillProof 2 [stillStep 4 1, stillStep 4 2]) = .ok () := by
    decide +kernel
  exact ⟨hverify, provenance_iff_present _ _ _ hverify 1⟩

/-- At recursion depth 2, challenged steps without writer entries are accepted. -/
theorem writers_omitted : ¬ ∀ (P : Prims) (seed : Bytes) (proof : PosmeProof),
    verify P seed proof = .ok () → Provenance P seed proof (proof.params.recursionDepth - 1) := by
  intro hclaim
  have hverify : verify Prims.still [] (stillProof 2 [stillStep 4 1, stillStep 4 2]) = .ok () := by
    decide +kernel
  have hfirst : Nested (stillProof 2 [stillStep 4 1, stillStep 4 2]) 0 (stillStep 4 1) :=
    .challenged List.mem_cons_self
  obtain ⟨w, hw, -⟩ := hclaim _ _ _ hverify 0 _ (by decide) hfirst 0 _ rfl
  cases hw

end WritersProof.Posme
