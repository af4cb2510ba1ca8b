/-
  The loops of the prover follow the run: what they carry after step `t` is what
  the run has there (`ExecutionAt`, `ReplayAt`), and the proof that is built for
  a step shows that step of the run (`Shows`).
-/
import WritersProof.Posme.Run
import WritersProof.Posme.Prover
import WritersProof.Posme.Soundness

namespace WritersProof.Posme

open Rust MerkleHeap LastWriter Block EntangleCtx

variable {P : Prims} {c : Setup}

/-! ## Setups -/

structure Setup.Ready (c : Setup) : Prop where
  valid : c.params.Valid
  few : c.samples.length ≤ c.params.totalSteps

def Setup.height (c : Setup) : Nat := c.params.arenaBlocks.log2

namespace Setup.Ready

variable (h : c.Ready)

include h

theorem arenaBlocks_eq : c.params.arenaBlocks = 2 ^ c.height := by
  obtain ⟨e, -, he⟩ := h.valid.exists_log
  rw [Setup.height, he, Nat.log2_two_pow]

theorem height_le : c.height ≤ 22 := by
  obtain ⟨e, hle, he⟩ := h.valid.exists_log
  rwa [Setup.height, he, Nat.log2_two_pow]

theorem length_arena (t : Nat) : (c.arena P t).length = 2 ^ c.height := by
  rw [Setup.length_arena, h.arenaBlocks_eq]

theorem interval_pos (hsome : c.samples ≠ []) : 0 < c.interval :=
  Nat.div_pos h.few (List.length_pos_iff.mpr hsome)

end Setup.Ready

/-! ## Reads -/

theorem readLoop_chase {arena : List Block} (hpos : 0 < arena.length) {remaining j : Nat}
    {cursor : Digest} (hmax : j + remaining ≤ maxReads) :
    readLoop P arena remaining j cursor
      = .ok ((chase P arena remaining j cursor).1,
        (chase P arena remaining j cursor).1.map fun a => arena.getD a zeroed,
        (chase P arena remaining j cursor).2) := by
  induction remaining generalizing j cursor with
  | zero => rfl
  | succ remaining ih =>
    rw [readLoop, if_pos (by omega), unwrap_some, res_ok_bind,
      index_of_lt (addrFrom_lt cursor j hpos) zeroed, res_ok_bind, ih (by omega),
      res_ok_bind]
    rfl

variable {arena : List Block} {remaining t : Nat} {tree : MerkleTree}

theorem readLoopLight_eq {j : Nat} {cursor : Digest} {read : List Nat × List Block × Digest}
    (h : readLoop P arena remaining j cursor = .ok read) :
    readLoopLight P arena remaining j cursor = .ok read.2.2 := by
  induction remaining generalizing j cursor read with
  | zero =>
    cases h
    rfl
  | succ remaining ih =>
    obtain ⟨-, -, h⟩ := res_bind_eq_ok.mp h
    obtain ⟨val, hval, h⟩ := res_bind_eq_ok.mp h
    obtain ⟨rest, hrest, h⟩ := res_bind_eq_ok.mp h
    cases h
    rw [readLoopLight, hval, res_ok_bind, ih hrest]

theorem posmeStepLight_eq {arena' : List Block} {tree' : MerkleTree} {tPrev : Digest} {d : Nat}
    {log : StepLog} (h : posmeStep P arena tree tPrev t d = .ok (log, arena', tree')) :
    posmeStepLight P arena tree tPrev t d
      = .ok (⟨log.writeAddr, log.rootAfter, log.transcript⟩, arena', tree') := by
  obtain ⟨read, hread, h⟩ := res_bind_eq_ok.mp h
  obtain ⟨rootBefore, -, h⟩ := res_bind_eq_ok.mp h
  obtain ⟨old, hold, h⟩ := res_bind_eq_ok.mp h
  obtain ⟨arena₁, harena, h⟩ := res_bind_eq_ok.mp h
  obtain ⟨tree₁, htree, h⟩ := res_bind_eq_ok.mp h
  obtain ⟨rootAfter, hroot, h⟩ := res_bind_eq_ok.mp h
  cases h
  rw [posmeStepLight, readLoopLight_eq hread, res_ok_bind]
  dsimp only
  rw [hold, res_ok_bind, harena, res_ok_bind, htree, res_ok_bind, hroot, res_ok_bind]

theorem addressed_of_chase {arena : List Block} {reads : List ReadWitness} {remaining j : Nat}
    {cursor : Digest} (haddrs : reads.map (·.address) = (chase P arena remaining j cursor).1)
    (hblocks : ∀ rw ∈ reads, arena.getD rw.address zeroed = rw.block) :
    Addressed P arena.length j cursor reads
      ∧ cursorAfter P cursor reads = (chase P arena remaining j cursor).2 := by
  induction remaining generalizing j cursor reads with
  | zero =>
    cases List.map_eq_nil_iff.mp haddrs
    exact ⟨trivial, rfl⟩
  | succ remaining ih =>
    cases reads with
    | nil => cases haddrs
    | cons rw rest =>
      obtain ⟨haddr, hrest⟩ := List.cons.inj haddrs
      rw [List.forall_mem_cons] at hblocks
      obtain ⟨hblock, hblocks⟩ := hblocks
      obtain ⟨haddressed, hcursor⟩ := ih hrest hblocks
      have hnext : arena.getD (addrFrom P cursor j arena.length) zeroed = rw.block := by
        rw [← hblock]
        exact congrArg (fun a => arena.getD a zeroed) haddr.symm
      rw [hnext] at haddressed hcursor
      refine ⟨⟨haddr, haddressed⟩, ?_⟩
      rw [chase, hnext]
      exact hcursor

/-! ## Steps -/

def Setup.log (P : Prims) (c : Setup) (t : Nat) : StepLog where
  stepId := t
  readAddrs := c.readAddrs P t
  readBlocks := (c.readAddrs P t).map fun a => (c.arena P (t - 1)).getD a zeroed
  writeAddr := c.writeAddr P t
  oldBlock := (c.before P t).oldBlock P c.params.readsPerStep
  newBlock := c.newBlock P t
  cursor := (c.before P t).cursor P c.params.readsPerStep
  rootBefore := c.root P (t - 1)
  rootAfter := c.root P t
  transcript := (c.before P t).stepped P c.params.readsPerStep t

theorem Setup.Ready.writeAddr_lt (h : c.Ready) (t : Nat) : c.writeAddr P t < 2 ^ c.height := by
  rw [← h.length_arena (P := P) (t - 1)]
  apply addrFrom_lt
  exact Nat.lt_of_lt_of_eq (Nat.two_pow_pos c.height) (h.length_arena (t - 1)).symm

/-- A step on the arena of the run takes the run on. -/
theorem Setup.Ready.posmeStep_eq (h : c.Ready) (hover : Over P c.height tree (c.arena P t)) :
    ∃ tree', Over P c.height tree' (c.arena P (t + 1))
      ∧ siblings (heapNode tree'.nodes) c.height (2 ^ c.height + c.writeAddr P (t + 1))
        = siblings (heapNode tree.nodes) c.height (2 ^ c.height + c.writeAddr P (t + 1))
      ∧ posmeStep P (c.arena P t) tree (c.moment P t).transcript (t + 1) c.params.readsPerStep
        = .ok (c.log P (t + 1), c.arena P (t + 1), tree') := by
  have hlen : (c.arena P t).length = 2 ^ c.height := h.length_arena t
  have hpos := Nat.two_pow_pos c.height
  have hread := @readLoop_chase P (c.arena P t) (by omega) c.params.readsPerStep 0
    (c.moment P t).transcript (Nat.le_trans (Nat.le_of_eq (Nat.zero_add _)) h.valid.reads_max)
  have haddr : addrFrom P
      (chase P (c.arena P t) c.params.readsPerStep 0 (c.moment P t).transcript).2
      c.params.readsPerStep (2 ^ c.height) = c.writeAddr P (t + 1) := by
    rw [← hlen]
    rfl
  have hlt := h.writeAddr_lt (P := P) (t + 1)
  have hold : (c.arena P t)[c.writeAddr P (t + 1)]?
      = some ((c.before P (t + 1)).oldBlock P c.params.readsPerStep) := by
    rw [List.getElem?_eq_getElem (by omega)]
    exact congrArg some (List.getElem_eq_getD zeroed)
  obtain ⟨tree', hover', hsiblings, hstep⟩ := posmeStep_spec (t := t + 1) hover hread
    (by rw [haddr]; exact hold)
  rw [haddr] at hover' hsiblings hstep
  refine ⟨tree', hover', hsiblings, ?_⟩
  have hafter : heapNode tree'.nodes 1 = c.root P (t + 1) := hover'.arenaRoot_eq
  rw [hstep, hafter, hover.arenaRoot_eq]
  rfl

/-! ## Jitter -/

/-- The jitter context after step `t`. -/
def Setup.entangleAt (c : Setup) (t : Nat) (points : List (Nat × Digest)) : Option EntangleCtx :=
  if c.samples = [] then none else some ⟨c.samples, c.interval, c.used t, points⟩

theorem Setup.Ready.due_eq (h : c.Ready) (hsome : c.samples ≠ []) (t : Nat)
    (points : List (Nat × Digest)) :
    due ⟨c.samples, c.interval, c.used t, points⟩ (t + 1) = c.jitterAt (t + 1) := by
  have hpos := h.interval_pos hsome
  rw [due, Setup.jitterAt_succ]
  simp only [hpos, true_and]

theorem Setup.Ready.maybeInject_eq (h : c.Ready) (t : Nat) (transcript : Digest) :
    injected (maybeInject P) (c.entangleAt t (c.pointsAt t)) (t + 1) transcript
      = (c.mixed P (t + 1) transcript, c.entangleAt (t + 1) (c.pointsAt (t + 1))) := by
  unfold Setup.entangleAt Setup.mixed
  by_cases hnil : c.samples = []
  · rw [if_pos hnil, if_pos hnil, Setup.jitterAt_of_nil hnil]
    rfl
  · rw [if_neg hnil, if_neg hnil]
    dsimp only [injected, maybeInject]
    rw [h.due_eq hnil]
    cases hj : c.jitterAt (t + 1) with
    | none => rw [Setup.used_succ_of_none hj, Setup.pointsAt_succ_of_none hj]
    | some jh => rw [Setup.used_succ_of_some hj, Setup.pointsAt_succ_of_some hj]

theorem Setup.Ready.maybeInjectSilent_eq (h : c.Ready) (t : Nat) (transcript : Digest) :
    injected (maybeInjectSilent P) (c.entangleAt t []) (t + 1) transcript
      = (c.mixed P (t + 1) transcript, c.entangleAt (t + 1) []) := by
  unfold Setup.entangleAt Setup.mixed
  by_cases hnil : c.samples = []
  · rw [if_pos hnil, if_pos hnil, Setup.jitterAt_of_nil hnil]
    rfl
  · rw [if_neg hnil, if_neg hnil]
    dsimp only [injected, maybeInjectSilent]
    rw [h.due_eq hnil]
    cases hj : c.jitterAt (t + 1) with
    | none => rw [Setup.used_succ_of_none hj]
    | some jh => rw [Setup.used_succ_of_some hj]

/-! ## The beginning -/

theorem initLoop_eq {seed : Bytes} {i : Nat} (hi : 0 < i) :
    initLoop P seed remaining i (initialArena P seed i ++ List.replicate remaining zeroed)
      = .ok (initialArena P seed (i + remaining)) := by
  induction remaining generalizing i with
  | zero =>
    rw [initLoop, List.replicate_zero, List.append_nil]
    rfl
  | succ remaining ih =>
    have hlen : (initialArena P seed i).length = i := length_initialArena seed i
    have hget : ∀ k < i, index (ε := PosmeError)
        (initialArena P seed i ++ List.replicate (remaining + 1) zeroed) k
        = .ok ((initialArena P seed i).getD k zeroed) := by
      intro k hk
      rw [index_of_lt (by rw [List.length_append]; omega) zeroed,
        List.getD_append _ _ _ _ (by omega)]
    have hblock : initialBlock P seed (initialArena P seed i) i
        = ⟨posmeHash P [dstInit, seed, i2osp i,
            ((initialArena P seed i).getD (i - 1) zeroed).data.val,
            ((initialArena P seed i).getD (i / 2) zeroed).data.val],
          posmeHash P [dstCausal, seed, i2osp i]⟩ := by
      rw [initialBlock, if_neg (by omega)]
    have hset : (initialArena P seed i ++ List.replicate (remaining + 1) zeroed).set i
        (initialBlock P seed (initialArena P seed i) i)
        = initialArena P seed (i + 1) ++ List.replicate remaining zeroed := by
      rw [List.set_append_right i _ (by omega), hlen, Nat.sub_self, List.replicate_succ,
        List.set_cons_zero, initialArena, List.append_assoc, List.singleton_append]
    rw [initLoop, hget _ (by omega), res_ok_bind, hget _ (by omega), res_ok_bind]
    dsimp only
    rw [← hblock, assign_of_lt (by rw [List.length_append, List.length_replicate]; omega),
      res_ok_bind, hset, ih (by omega)]
    congr 2
    omega

theorem Setup.Ready.initializeArena_eq (h : c.Ready) :
    ∃ tree, Over P c.height tree (c.arena P 0)
      ∧ initializeArena P c.seed c.params.arenaBlocks
        = .ok (c.arena P 0, tree, c.root P 0, (c.moment P 0).transcript) := by
  obtain ⟨tree, hbuild, hover⟩ := MerkleTree.build_spec (P := P) (h.length_arena 0)
  refine ⟨tree, hover, ?_⟩
  have hroot : tree.root = .ok (c.root P 0) := hover.root_eq.trans (congrArg _ hover.arenaRoot_eq)
  obtain ⟨n, hn⟩ : ∃ n, c.params.arenaBlocks = n + 1 :=
    ⟨c.params.arenaBlocks - 1, by have := h.valid.arena_min; unfold minArenaBlocks at this; omega⟩
  have hloop : initLoop P c.seed n 1
      (⟨posmeHash P [dstInit, c.seed, i2osp 0], posmeHash P [dstCausal, c.seed, i2osp 0]⟩
        :: List.replicate n zeroed) = .ok (c.arena P 0) := by
    rw [Setup.arena_zero, hn, Nat.add_comm n 1]
    exact initLoop_eq (by decide)
  rw [initializeArena, hn]
  dsimp only
  rw [List.replicate_succ, assign_of_lt (by simp), res_ok_bind, List.set_cons_zero,
    Nat.add_sub_cancel, hloop, res_ok_bind, hbuild, res_ok_bind, hroot, res_ok_bind]
  rfl

/-! ## The execution pass -/

/-- What the execution pass carries after step `t`. -/
structure ExecutionAt (P : Prims) (c : Setup) (t : Nat) (exec : Execution) : Prop where
  arena : exec.arena = c.arena P t
  tree : Over P c.height exec.tree (c.arena P t)
  transcript : exec.transcript = (c.moment P t).transcript
  entangle : exec.entangle = c.entangleAt t (c.pointsAt t)
  roots : exec.roots = (List.range (t + 1)).map (c.root P)

theorem Setup.Ready.executeLoop_eq (h : c.Ready) {remaining t : Nat} {exec : Execution}
    (hat : ExecutionAt P c t exec) :
    ∃ exec', executeLoop P c.params.readsPerStep remaining (t + 1) exec = .ok exec'
      ∧ ExecutionAt P c (t + remaining) exec' := by
  induction remaining generalizing t exec with
  | zero => exact ⟨exec, rfl, hat⟩
  | succ remaining ih =>
    obtain ⟨tree', hover, -, hstep⟩ := h.posmeStep_eq hat.tree
    have hlight := posmeStepLight_eq hstep
    let next : Execution :=
      ⟨c.arena P (t + 1), tree', c.mixed P (t + 1) (c.log P (t + 1)).transcript,
      c.entangleAt (t + 1) (c.pointsAt (t + 1)), exec.roots ++ [c.root P (t + 1)]⟩
    have hnext : ExecutionAt P c (t + 1) next := by
      refine ⟨rfl, hover, rfl, rfl, ?_⟩
      rw [List.range_succ, List.map_append, ← hat.roots]
      rfl
    obtain ⟨exec', hrun, hat'⟩ := ih hnext
    refine ⟨exec', ?_, by rwa [← Nat.add_assoc, Nat.add_right_comm]⟩
    rw [executeLoop, hat.arena, hat.transcript, hlight, res_ok_bind]
    dsimp only
    rw [hat.entangle, h.maybeInject_eq]
    exact hrun

/-! ## Replays -/

structure ReplayAt (P : Prims) (c : Setup) (t : Nat) (replay : Replay) : Prop where
  arena : replay.arena = c.arena P t
  tree : Over P c.height replay.tree (c.arena P t)
  transcript : replay.transcript = (c.moment P t).transcript
  entangle : replay.entangle = c.entangleAt t []
  writers : replay.writeIndex.lastWriter = (List.range c.params.arenaBlocks).map (c.writer P t)

theorem Setup.Ready.replayStart_eq (h : c.Ready) :
    ∃ replay, Replay.start P c.seed c.params.arenaBlocks (c.entangleAt 0 []) = .ok replay
      ∧ ReplayAt P c 0 replay := by
  obtain ⟨tree, hover, hinit⟩ := h.initializeArena_eq (P := P)
  refine ⟨⟨c.arena P 0, tree, (c.moment P 0).transcript, c.entangleAt 0 [],
    WriteIndex.new c.params.arenaBlocks⟩, ?_,
    rfl, hover, rfl, rfl, ?_⟩
  · rw [Replay.start, hinit, res_ok_bind]
  · have hzero : (List.range c.params.arenaBlocks).map (c.writer P 0)
        = List.replicate (List.range c.params.arenaBlocks).length 0 := List.map_const' ..
    rw [hzero, List.length_range]
    rfl

theorem Setup.Ready.record_eq (h : c.Ready) {index : WriteIndex}
    (hindex : index.lastWriter = (List.range c.params.arenaBlocks).map (c.writer P t)) :
    index.record (c.writeAddr P (t + 1)) (t + 1)
      = .ok ⟨(List.range c.params.arenaBlocks).map (c.writer P (t + 1))⟩ := by
  have hlt := h.writeAddr_lt (P := P) (t + 1)
  rw [← h.arenaBlocks_eq] at hlt
  have hset : ((List.range c.params.arenaBlocks).map (c.writer P t)).set
      (c.writeAddr P (t + 1)) (t + 1)
      = (List.range c.params.arenaBlocks).map (c.writer P (t + 1)) := by
    apply List.ext_getElem
    · simp
    · intro a ha _
      rw [List.getElem_set, List.getElem_map, List.getElem_map, List.getElem_range]
      rfl
  rw [WriteIndex.record, hindex, assign_of_lt (by simpa using hlt), res_ok_bind, hset]

theorem ReplayAt.light (h : c.Ready) {replay : Replay} (hat : ReplayAt P c t replay) :
    ∃ replay', replay.light P c.params.readsPerStep (t + 1) = .ok replay'
      ∧ ReplayAt P c (t + 1) replay' := by
  obtain ⟨tree', hover, -, hstep⟩ := h.posmeStep_eq hat.tree
  have hrecord := h.record_eq hat.writers
  let next : Replay := ⟨c.arena P (t + 1), tree', (c.moment P (t + 1)).transcript,
    c.entangleAt (t + 1) [], ⟨(List.range c.params.arenaBlocks).map (c.writer P (t + 1))⟩⟩
  refine ⟨next, ?_, rfl, hover, rfl, rfl, rfl⟩
  rw [Replay.light, hat.arena, hat.transcript, posmeStepLight_eq hstep, res_ok_bind]
  dsimp only
  rw [hat.entangle, h.maybeInjectSilent_eq]
  dsimp only
  rw [show (c.log P (t + 1)).writeAddr = c.writeAddr P (t + 1) from rfl, hrecord, res_ok_bind]
  rfl

theorem ReplayAt.lightLoop (h : c.Ready) {remaining t : Nat} {replay : Replay}
    (hat : ReplayAt P c t replay) :
    ∃ replay', Replay.lightLoop P c.params.readsPerStep remaining t replay = .ok replay'
      ∧ ReplayAt P c (t + remaining) replay' := by
  induction remaining generalizing t replay with
  | zero => exact ⟨replay, rfl, hat⟩
  | succ remaining ih =>
    obtain ⟨replay₁, hlight, hat₁⟩ := hat.light h
    obtain ⟨replay', hrun, hat'⟩ := ih hat₁
    refine ⟨replay', ?_, by rwa [← Nat.add_assoc, Nat.add_right_comm]⟩
    rw [Replay.lightLoop, hlight, res_ok_bind, hrun]

end WritersProof.Posme
