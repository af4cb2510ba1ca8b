/-
  The proof that is built for a step shows the step of the run (`Shows`): its
  reads, its write, its roots and, for every read, the last writer up to the
  step itself (`WriterOf`).  No witness is attached yet.
-/
import WritersProof.Posme.Replay
import WritersProof.Posme.Binding

namespace WritersProof.Posme

open Rust MerkleHeap LastWriter

variable {P : Prims} {c : Setup}

/-! ## Paths -/

variable {arena : List Block} {i t a : Nat} {tree initTree : MerkleTree} {rootChain : RootChain}

theorem Over.verifyPath_eq {d : Nat} {block : Block} (h : Over P d tree arena) (hd : d ≤ 31)
    (hblock : arena[i]? = some block) :
    verifyPath (ε := PosmeError) P (arenaRoot P arena) i block
      (siblings (heapNode tree.nodes) d (2 ^ d + i)) (2 ^ d) = .ok true := by
  obtain ⟨hi, -⟩ := List.getElem?_eq_some_iff.mp hblock
  rw [h.len] at hi
  rw [verifyPath_eq_true hd hi, ← h.arenaRoot_eq]
  exact ⟨length_siblings _ _, h.climb_eq hblock⟩

structure ChainOf (P : Prims) (c : Setup) (rootChain : RootChain) : Prop where
  n_eq : rootChain.n = 2 ^ Nat.clog 2 (c.params.totalSteps + 1)
  size : rootChain.nodes.length = 2 * 2 ^ Nat.clog 2 (c.params.totalSteps + 1) - 1
  heap : IsHeap (internalHash P) (heapNode rootChain.nodes)
    (2 ^ Nat.clog 2 (c.params.totalSteps + 1))
  leaf : ∀ i ≤ c.params.totalSteps,
    heapNode rootChain.nodes (2 ^ Nat.clog 2 (c.params.totalSteps + 1) + i) = c.root P i
  root : rootChain.root = .ok (c.commitment P)
  top : heapNode rootChain.nodes 1 = c.commitment P

theorem Setup.length_roots : (c.roots P).length = c.params.totalSteps + 1 := by
  rw [Setup.roots, List.length_map, List.length_range]

theorem Setup.rootChain_eq :
    ∃ rootChain, RootChain.build P (c.roots P) = .ok rootChain ∧ ChainOf P c rootChain := by
  have hlen : (c.roots P).length = c.params.totalSteps + 1 := c.length_roots
  have hfit : (c.roots P).length ≤ 2 ^ Nat.clog 2 (c.roots P).length :=
    Nat.le_pow_clog (by decide) _
  obtain ⟨rootChain, hbuild, hover⟩ := @RootChain.build_spec P (c.roots P)
  have htop : heapNode rootChain.nodes 1 = c.commitment P := by
    rw [Setup.commitment, chainRoot, hover.heap.root_eq]
    apply subtree_congr
    intro i _ hi
    rw [Nat.zero_add, Nat.one_mul] at hi
    exact hover.leaf i hi
  have hroot : rootChain.root = .ok (c.commitment P) := hover.root_eq.trans (congrArg _ htop)
  refine ⟨rootChain, hbuild, ?_⟩
  obtain ⟨hn, hsize, hheap, hleaf⟩ := hover
  rw [hlen] at hn hsize hheap hleaf hfit
  refine ⟨hn, hsize, hheap, ?_, hroot, htop⟩
  intro i hi
  rw [hleaf i (by omega), Setup.roots, List.getD_eq_getElem?_getD, List.getElem?_map,
    List.getElem?_range (by omega)]
  rfl

theorem ChainOf.prove_eq (hchain : ChainOf P c rootChain) (hvalid : c.params.Valid)
    (hi : i ≤ c.params.totalSteps) :
    ∃ path, rootChain.prove i = .ok path ∧ verifyRootChainPath P (c.commitment P) i (c.root P i)
      path (c.params.totalSteps + 1) = true := by
  have hD : Nat.clog 2 (c.params.totalSteps + 1) ≤ 32 := by
    apply Nat.clog_le_of_le_pow
    have := hvalid.steps_max
    unfold maxTotalSteps at this
    omega
  have hfit : c.params.totalSteps + 1 ≤ 2 ^ Nat.clog 2 (c.params.totalSteps + 1) :=
    Nat.le_pow_clog (by decide) _
  refine ⟨siblings (heapNode rootChain.nodes) (Nat.clog 2 (c.params.totalSteps + 1))
    (2 ^ Nat.clog 2 (c.params.totalSteps + 1) + i), ?_, ?_⟩
  · rw [RootChain.prove, hchain.n_eq, trailingZeros_two_pow hD,
      show 2 ^ Nat.clog 2 (c.params.totalSteps + 1) - 1 + i
        = 2 ^ Nat.clog 2 (c.params.totalSteps + 1) + i - 1 by omega]
    exact MerkleTree.proveLoop_eq (by omega) (by omega) (by rw [hchain.size])
  · have hroot : (2 ^ Nat.clog 2 (c.params.totalSteps + 1) + i)
        / 2 ^ Nat.clog 2 (c.params.totalSteps + 1) = 1 := by
      rw [Nat.div_eq_of_lt_le] <;> omega
    rw [verifyRootChainPath_eq_true hD, ← hchain.leaf i hi,
      hchain.heap.climb_siblings (by omega) (by omega), hroot]
    exact ⟨length_siblings _ _, hchain.top⟩

/-! ## Steps shown -/

inductive WriterOf (P : Prims) (c : Setup) (t : Nat) (read : ReadWitness)
    (w : WriterProof StepProof) : Prop where
  | initial (path : List Digest) (hwriter : c.writer P t read.address = 0) (htype : w.proofType = 0)
      (hpath : w.initMerklePath = some path)
      (hverify : verifyPath (ε := PosmeError) P (c.root P 0) read.address read.block path
        c.params.arenaBlocks = .ok true)
  | step (hwriter : 0 < c.writer P t read.address) (htype : w.proofType = 1)
      (hid : w.writerStepId = c.writer P t read.address)

/-- `sp` shows step `t` of the run; its witnesses are left open. -/
structure Shows (P : Prims) (c : Setup) (t : Nat) (sp : StepProof) : Prop where
  stepId : sp.stepId = t
  cursorIn : sp.cursorIn = (c.before P t).transcript
  rootAfter : sp.rootAfter = c.root P t
  chainBefore : verifyRootChainPath P (c.commitment P) (t - 1) sp.rootBefore sp.rootChainPaths.1
    (c.params.totalSteps + 1) = true
  chainAfter : verifyRootChainPath P (c.commitment P) t sp.rootAfter sp.rootChainPaths.2
    (c.params.totalSteps + 1) = true
  addresses : sp.reads.map (·.address) = c.readAddrs P t
  blocks : ∀ rw ∈ sp.reads, (c.arena P (t - 1))[rw.address]? = some rw.block
  paths : ∀ rw ∈ sp.reads, verifyPath (ε := PosmeError) P sp.rootBefore rw.address rw.block
    rw.merklePath c.params.arenaBlocks = .ok true
  addressed : Addressed P c.params.arenaBlocks 0 sp.cursorIn sp.reads
  cursor : cursorAfter P sp.cursorIn sp.reads = (c.before P t).cursor P c.params.readsPerStep
  writeAddr : sp.write.address = c.writeAddr P t
  newBlock : sp.write.newBlock = c.newBlock P t
  write : WriteVerified P sp c.params.arenaBlocks c.params.readsPerStep
    (cursorAfter P sp.cursorIn sp.reads)
  writers : List.Forall₂ (WriterOf P c t) sp.reads sp.writers

/-- The transcript that the verifier computes is that of the run, without jitter. -/
theorem Shows.transcript_eq {sp : StepProof} (h : Shows P c t sp) (ht : 0 < t) :
    sp.transcript P = (c.before P t).stepped P c.params.readsPerStep t := by
  obtain ⟨t, rfl⟩ : ∃ s, t = s + 1 := ⟨t - 1, by omega⟩
  rw [StepProof.transcript, h.cursor, h.stepId, h.cursorIn, h.rootAfter]
  rfl

/-! ## Building the proof of a step -/

theorem lt_of_mem_chase (hpos : 0 < arena.length) {remaining j : Nat} {cursor : Digest}
    (h : a ∈ (chase P arena remaining j cursor).1) : a < arena.length := by
  induction remaining generalizing j cursor with
  | zero => cases h
  | succ remaining ih =>
    rcases List.mem_cons.mp h with rfl | h
    · exact addrFrom_lt _ _ hpos
    · exact ih h

theorem Setup.Ready.readAddrs_lt (h : c.Ready) (ha : a ∈ c.readAddrs P t) : a < 2 ^ c.height := by
  have hlen : (c.arena P (t - 1)).length = 2 ^ c.height := h.length_arena (t - 1)
  rw [← hlen]
  exact lt_of_mem_chase (by rw [hlen]; exact Nat.two_pow_pos _) ha

theorem getElem?_eq_getD (h : a < arena.length) : arena[a]? = some (arena.getD a Block.zeroed) := by
  rw [List.getElem?_eq_getElem h]
  exact congrArg some (List.getElem_eq_getD Block.zeroed)

def Setup.witnessAt (P : Prims) (c : Setup) (t : Nat) (treeBefore : MerkleTree) (a : Nat) :
    ReadWitness :=
  ⟨a, (c.arena P (t - 1)).getD a Block.zeroed,
    siblings (heapNode treeBefore.nodes) c.height (2 ^ c.height + a)⟩

def Setup.entryAt (P : Prims) (c : Setup) (t : Nat) (initTree : MerkleTree) (a : Nat) :
    WriterProof StepProof :=
  if c.writer P t a = 0 then
    ⟨0, 0, none, some (siblings (heapNode initTree.nodes) c.height (2 ^ c.height + a))⟩
  else ⟨1, c.writer P t a, none, none⟩

theorem Setup.Ready.reads_eq (h : c.Ready) (hover : Over P c.height tree (c.arena P (t - 1))) :
    ((c.log P t).readAddrs.zip (c.log P t).readBlocks).mapM (readWitness tree)
      = .ok ((c.readAddrs P t).map (c.witnessAt P t tree)) := by
  have hzip : (c.log P t).readAddrs.zip (c.log P t).readBlocks = (c.readAddrs P t).map fun a =>
      (a, (c.arena P (t - 1)).getD a Block.zeroed) :=
    List.map_prod_left_eq_zip.symm
  have hread : ∀ read ∈ (c.log P t).readAddrs.zip (c.log P t).readBlocks,
      readWitness tree read = .ok ⟨read.1, read.2,
        siblings (heapNode tree.nodes) c.height (2 ^ c.height + read.1)⟩ := by
    rintro ⟨a, block⟩ hmem
    rw [readWitness, hover.prove_eq (by have := h.height_le; omega)
      (h.readAddrs_lt (List.of_mem_zip hmem).1), res_ok_bind]
  rw [mapM_eq_map hread, hzip, List.map_map]
  rfl

theorem Setup.Ready.writers_eq (h : c.Ready) {ctx : ProofBuildCtx}
    (hinit : Over P c.height ctx.initTree (c.arena P 0))
    (hindex : ctx.writeIndex.lastWriter = (List.range c.params.arenaBlocks).map (c.writer P t)) :
    (c.log P t).readAddrs.mapM (writerEntry ctx)
      = .ok ((c.readAddrs P t).map (c.entryAt P t ctx.initTree)) := by
  apply mapM_eq_map
  intro a ha
  have hlt := h.readAddrs_lt ha
  have hlast : ctx.writeIndex.lastWriterOf a = .ok (c.writer P t a) := by
    rw [WriteIndex.lastWriterOf, hindex, index_eq_ok, List.getElem?_map,
      List.getElem?_range (by rw [h.arenaBlocks_eq]; exact hlt)]
    rfl
  rw [writerEntry, hlast, res_ok_bind, Setup.entryAt]
  by_cases hzero : c.writer P t a = 0
  · rw [if_pos hzero, if_pos hzero, hinit.prove_eq (by have := h.height_le; omega) hlt, res_ok_bind]
  · rw [if_neg hzero, if_neg hzero]

theorem Setup.Ready.writerOf_entry (h : c.Ready) (ht : 0 < t) {treeBefore : MerkleTree}
    (ha : a ∈ c.readAddrs P t) (hinit : Over P c.height initTree (c.arena P 0)) :
    WriterOf P c t (c.witnessAt P t treeBefore a) (c.entryAt P t initTree a) := by
  have hlt := h.readAddrs_lt ha
  unfold Setup.entryAt
  by_cases hzero : c.writer P t a = 0
  · rw [if_pos hzero]
    -- the block was not written by the step either
    have hwrite : c.writeAddr P t ≠ a := by
      intro hwrote
      rw [(Setup.writer_eq_self ht).mpr hwrote] at hzero
      omega
    have hblock : (c.arena P 0)[a]? = some ((c.arena P (t - 1)).getD a Block.zeroed) := by
      rw [← Setup.arena_of_unwritten ((Setup.writer_pred ht hwrite).trans hzero)]
      exact getElem?_eq_getD (by rw [h.length_arena]; exact hlt)
    have hverify := hinit.verifyPath_eq (by have := h.height_le; omega) hblock
    refine .initial _ hzero rfl rfl ?_
    rw [h.arenaBlocks_eq]
    exact hverify
  · rw [if_neg hzero]
    exact .step (Nat.pos_of_ne_zero hzero) rfl rfl

theorem Setup.Ready.buildStepProof_eq (h : c.Ready) {t : Nat} (ht : t < c.params.totalSteps)
    {treeBefore treeAfter : MerkleTree} (hover : Over P c.height treeBefore (c.arena P t))
    (hafter : Over P c.height treeAfter (c.arena P (t + 1)))
    (hsiblings : siblings (heapNode treeAfter.nodes) c.height
        (2 ^ c.height + c.writeAddr P (t + 1))
      = siblings (heapNode treeBefore.nodes) c.height (2 ^ c.height + c.writeAddr P (t + 1)))
    {ctx : ProofBuildCtx} (hchain : ChainOf P c ctx.rootChain)
    (hinit : Over P c.height ctx.initTree (c.arena P 0))
    (hindex : ctx.writeIndex.lastWriter
      = (List.range c.params.arenaBlocks).map (c.writer P (t + 1))) :
    ∃ sp, buildStepProof (c.log P (t + 1)) treeBefore (c.moment P t).transcript ctx = .ok sp
      ∧ Shows P c (t + 1) sp ∧ ∀ w ∈ sp.writers, w.stepWitness = none := by
  have hheight := h.height_le
  have hwrite := h.writeAddr_lt (P := P) (t + 1)
  obtain ⟨pathBefore, hbefore, hverifyBefore⟩ := hchain.prove_eq h.valid (i := t) (by omega)
  obtain ⟨pathAfter, hafterPath, hverifyAfter⟩ := hchain.prove_eq h.valid (i := t + 1) (by omega)
  let writePath := siblings (heapNode treeBefore.nodes) c.height
    (2 ^ c.height + c.writeAddr P (t + 1))
  -- what the prover puts together
  let sp : StepProof := {
    stepId := t + 1
    cursorIn := (c.moment P t).transcript
    cursorOut := (c.log P (t + 1)).cursor
    rootBefore := c.root P t
    rootAfter := c.root P (t + 1)
    rootChainPaths := (pathBefore, pathAfter)
    reads := (c.readAddrs P (t + 1)).map (c.witnessAt P (t + 1) treeBefore)
    write := ⟨c.writeAddr P (t + 1), (c.log P (t + 1)).oldBlock, c.newBlock P (t + 1), writePath⟩
    writers := (c.readAddrs P (t + 1)).map (c.entryAt P (t + 1) ctx.initTree) }
  have haddresses : sp.reads.map (·.address) = c.readAddrs P (t + 1) := by
    rw [List.map_map]
    exact List.map_id _
  have hblocks : ∀ rw ∈ sp.reads, (c.arena P t)[rw.address]? = some rw.block := by
    intro rw hrw
    obtain ⟨a, ha, rfl⟩ := List.mem_map.mp hrw
    exact getElem?_eq_getD (by rw [h.length_arena]; exact h.readAddrs_lt ha)
  obtain ⟨haddressed, hcursor⟩ := @addressed_of_chase P (c.arena P t) sp.reads
    c.params.readsPerStep 0 (c.moment P t).transcript haddresses (by
      intro rw hrw
      rw [List.getD_eq_getElem?_getD, hblocks rw hrw, Option.getD_some])
  rw [Setup.length_arena] at haddressed
  refine ⟨sp, ?_, ⟨rfl, rfl, rfl, hverifyBefore, hverifyAfter, haddresses, hblocks, ?_,
    haddressed, hcursor, rfl, rfl, ?_, ?_⟩, ?_⟩
  · -- no lookup of the prover fails
    have hsub : checkedSub (c.log P (t + 1)).stepId 1 = some t := rfl
    rw [buildStepProof, hsub, unwrap_some, res_ok_bind, hbefore, res_ok_bind]
    rw [show (c.log P (t + 1)).stepId = t + 1 from rfl, hafterPath, res_ok_bind,
      h.reads_eq (t := t + 1) hover, res_ok_bind,
      show (c.log P (t + 1)).writeAddr = c.writeAddr P (t + 1) from rfl,
      hover.prove_eq (by omega) hwrite, res_ok_bind, h.writers_eq hinit hindex, res_ok_bind]
    rfl
  · intro rw hrw
    obtain ⟨a, ha, rfl⟩ := List.mem_map.mp hrw
    rw [h.arenaBlocks_eq]
    exact hover.verifyPath_eq (by omega) (hblocks _ hrw)
  · -- the path of the write opens both roots
    rw [hcursor]
    refine ⟨?_, ?_, rfl, ?_⟩
    · rw [← c.length_arena (P := P) t]
      rfl
    · rw [h.arenaBlocks_eq]
      apply hover.verifyPath_eq (by omega)
      exact getElem?_eq_getD (by rw [h.length_arena]; exact hwrite)
    · rw [h.arenaBlocks_eq]
      dsimp only [sp, writePath]
      rw [← hsiblings]
      apply hafter.verifyPath_eq (by omega)
      rw [Setup.arena_succ, List.getElem?_set_self (by rw [h.length_arena]; exact hwrite)]
  · rw [List.forall₂_map_left_iff, List.forall₂_map_right_iff, List.forall₂_same]
    intro a ha
    exact h.writerOf_entry (Nat.succ_pos t) ha hinit
  · intro w hw
    obtain ⟨a, -, rfl⟩ := List.mem_map.mp hw
    unfold Setup.entryAt
    split <;> rfl

theorem ReplayAt.full (h : c.Ready) (ht : t < c.params.totalSteps) {replay : Replay}
    (hat : ReplayAt P c t replay) (hchain : ChainOf P c rootChain)
    (hinit : Over P c.height initTree (c.arena P 0)) :
    ∃ sp replay', replay.full P c.params.readsPerStep rootChain initTree (t + 1) = .ok (sp, replay')
      ∧ ReplayAt P c (t + 1) replay' ∧ Shows P c (t + 1) sp
      ∧ ∀ w ∈ sp.writers, w.stepWitness = none := by
  obtain ⟨tree', hover, hsiblings, hstep⟩ := h.posmeStep_eq hat.tree
  have hrecord := h.record_eq hat.writers
  let index : WriteIndex := ⟨(List.range c.params.arenaBlocks).map (c.writer P (t + 1))⟩
  let ctx : ProofBuildCtx := ⟨rootChain, index, initTree⟩
  obtain ⟨sp, hbuild, hshows, hnone⟩ := @Setup.Ready.buildStepProof_eq P c h t ht replay.tree tree'
    hat.tree hover hsiblings ctx hchain hinit rfl
  let next : Replay := ⟨c.arena P (t + 1), tree', (c.moment P (t + 1)).transcript,
    c.entangleAt (t + 1) [], index⟩
  refine ⟨sp, next, ?_, ⟨rfl, hover, rfl, rfl, rfl⟩, hshows, hnone⟩
  rw [Replay.full, hat.arena, hat.transcript, hstep, res_ok_bind]
  dsimp only
  rw [hat.entangle, h.maybeInjectSilent_eq]
  dsimp only
  rw [show (c.log P (t + 1)).writeAddr = c.writeAddr P (t + 1) from rfl, hrecord, res_ok_bind,
    hbuild, res_ok_bind]
  rfl

end WritersProof.Posme
