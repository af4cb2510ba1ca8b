/-
  The verifier on any proof.  `verify_path` adds the address of a read to the
  number of blocks before the address is compared with the derived one, so a
  read far out of the arena aborts (`ReadWitness.Overflows`); nothing else does,
  as long as the two samplers end.

  `Reached` are the calls of `verify_step`, each with the number of calls that it
  is nested in.
-/
import WritersProof.Posme.Soundness

namespace WritersProof.Posme

open Rust MerkleHeap

variable {P : Prims}

/-! ## Paths -/

/-- The path has the right length and the position of the read is not an `u32`. -/
def ReadWitness.Overflows (n : Nat) (rw : ReadWitness) : Prop :=
  rw.merklePath.length = trailingZeros 32 n ∧ 2 ^ 32 ≤ n + rw.address

variable {path : List Digest} {sp : StepProof}
  {verifyWitness : Option (StepProof → Res PosmeError Digest)} {proof : PosmeProof} {seed : Bytes}
  {root cursor : Digest} {n step address j depth t : Nat} {block : Block} {reads : List ReadWitness}
  {read : ReadWitness} {w : WriterProof StepProof} {ctx : VerifyCtx} {params : PosmeParams}

theorem verifyPath_eq_abort {index : Nat} :
    verifyPath (ε := PosmeError) P root index block path n = abort
      ↔ path.length = trailingZeros 32 n ∧ 2 ^ 32 ≤ n + index := by
  unfold verifyPath
  by_cases hlen : path.length = trailingZeros 32 n
  · rw [if_neg (not_not.mpr hlen), addU32]
    by_cases hfits : n + index < 2 ^ 32
    · rw [if_pos hfits, res_ok_bind]
      exact iff_of_false (by rintro ⟨⟩) fun h => Nat.not_le.mpr hfits h.2
    · rw [if_neg hfits]
      exact iff_of_true rfl ⟨hlen, Nat.not_lt.mp hfits⟩
  · rw [if_pos hlen]
    exact iff_of_false (by rintro ⟨⟩) fun h => hlen h.1

theorem requirePath_eq_abort :
    requirePath P step root address block path n = abort
      ↔ path.length = trailingZeros 32 n ∧ 2 ^ 32 ≤ n + address := by
  rw [requirePath, res_bind_eq_abort, verifyPath_eq_abort]
  exact or_iff_left (by rintro ⟨ok, -, h⟩; exact reject_ne_abort h)

theorem requirePath_ne_abort (hn : n ≤ maxArenaBlocks) (haddr : address < n) :
    requirePath P step root address block path n ≠ abort := by
  rw [Ne, requirePath_eq_abort]
  unfold maxArenaBlocks at hn
  omega

/-! ## One step -/

theorem cursorLoop_ne_abort : cursorLoop P step n j reads cursor ≠ abort := by
  induction reads generalizing j cursor with
  | nil => rintro ⟨⟩
  | cons rw reads ih =>
    rw [cursorLoop, Ne, reject_bind_eq_abort]
    exact fun h => ih h.2

theorem verifySymbioticWrite_ne_abort {d : Nat} (hn : n ≤ maxArenaBlocks) (hpos : 0 < n) :
    verifySymbioticWrite P sp step n d cursor ≠ abort := by
  rw [verifySymbioticWrite, Ne, reject_bind_eq_abort]
  rintro ⟨haddr, h⟩
  rw [not_not] at haddr
  -- past the first check the address is the derived one
  have hlt : sp.write.address < n := by
    rw [← haddr]
    exact addrFrom_lt _ _ hpos
  obtain h | ⟨-, h⟩ := unit_bind_eq_abort.mp h
  · exact requirePath_ne_abort hn hlt h
  · exact requirePath_ne_abort hn hlt (reject_bind_eq_abort.mp h).2

/-- The checks of a step that come before its reads. -/
structure StepBegun (P : Prims) (proof : PosmeProof) (ctx : VerifyCtx) (sp : StepProof) : Prop where
  writers_le : sp.writers.length ≤ sp.reads.length
  pos : 0 < sp.stepId
  le : sp.stepId ≤ ctx.k
  root_before : verifyRootChainPath P proof.rootChainCommitment (sp.stepId - 1) sp.rootBefore
    sp.rootChainPaths.1 ctx.totalRoots = true
  root_after : verifyRootChainPath P proof.rootChainCommitment sp.stepId sp.rootAfter
    sp.rootChainPaths.2 ctx.totalRoots = true

def StepProof.Overflows (P : Prims) (proof : PosmeProof) (ctx : VerifyCtx) (sp : StepProof) :
    Prop :=
  StepBegun P proof ctx sp ∧ ∃ before rw after, sp.reads = before ++ rw :: after
    ∧ (∀ read ∈ before, verifyPath (ε := PosmeError) P sp.rootBefore read.address read.block
        read.merklePath ctx.n = .ok true)
    ∧ rw.Overflows ctx.n

/-- The step passes all checks up to writer `j`, whose witness is `witness` and is verified next. -/
structure CallsAt (P : Prims) (proof : PosmeProof) (ctx : VerifyCtx)
    (verifyWitness : Option (StepProof → Res PosmeError Digest)) (sp : StepProof) (j : Nat)
    (w : WriterProof StepProof) (witness : StepProof) : Prop where
  begun : StepBegun P proof ctx sp
  paths : ∀ rw ∈ sp.reads,
    verifyPath (ε := PosmeError) P sp.rootBefore rw.address rw.block rw.merklePath ctx.n = .ok true
  addressed : Addressed P ctx.n 0 sp.cursorIn sp.reads
  write : WriteVerified P sp ctx.n ctx.d (cursorAfter P sp.cursorIn sp.reads)
  earlier : ∀ i < j, ∀ w', sp.writers[i]? = some w' → ∃ read, sp.reads[i]? = some read
    ∧ WriterVerified P proof ctx sp verifyWitness w' read
  writer : sp.writers[j]? = some w
  initial : ∃ read, sp.reads[j]? = some read ∧ (w.proofType = 0 → ∀ path,
    w.initMerklePath = some path →
      verifyPath (ε := PosmeError) P proof.root0 read.address read.block path ctx.n = .ok true)
  witness_eq : w.stepWitness = some witness
  pos : 0 < witness.stepId
  prior : witness.stepId < sp.stepId
  claimed : witness.stepId = w.writerStepId

theorem Addressed.lt (hpos : 0 < n) (h : Addressed P n j cursor reads) :
    ∀ rw ∈ reads, rw.address < n := by
  induction reads generalizing j cursor with
  | nil => exact nofun
  | cons rw reads ih =>
    rw [List.forall_mem_cons]
    refine ⟨?_, ih h.2⟩
    rw [h.1]
    exact addrFrom_lt _ _ hpos

theorem checkWitness_eq_abort {writerStepId : Nat} {witness : StepProof} :
    checkWitness sp verifyWitness j read writerStepId witness = abort
      ↔ 0 < witness.stepId ∧ witness.stepId < sp.stepId ∧ witness.stepId = writerStepId
        ∧ ∃ verify, verifyWitness = some verify ∧ verify witness = abort := by
  cases verifyWitness with
  | none => exact iff_of_false (fail_ne_abort _) (by rintro ⟨-, -, -, verify, ⟨⟩, -⟩)
  | some verify =>
    have hrest : ∀ (p q : Prop) [Decidable p] [Decidable q] (e e' : PosmeError),
        (do reject p e; reject q e') ≠ (abort : Res PosmeError Unit) := by
      intro p q _ _ e e' h
      exact reject_ne_abort (reject_bind_eq_abort.mp h).2
    simp only [checkWitness, reject_bind_eq_abort, not_or, not_le, not_not]
    rw [res_bind_eq_abort, or_iff_left (by rintro ⟨transcript, -, h⟩; exact hrest _ _ _ _ h)]
    constructor
    · rintro ⟨⟨hpos, hprior⟩, hclaimed, h⟩
      exact ⟨by omega, hprior, hclaimed, verify, rfl, h⟩
    · rintro ⟨hpos, hprior, hclaimed, verify', ⟨⟩, h⟩
      exact ⟨⟨by omega, hprior⟩, hclaimed, h⟩

theorem checkInitPath_ne_abort (hn : n ≤ maxArenaBlocks) (haddr : read.address < n) :
    checkInitPath P proof step n w read ≠ abort := by
  unfold checkInitPath
  split
  · split
    · exact requirePath_ne_abort hn haddr
    · rintro ⟨⟩
  · rintro ⟨⟩

theorem checkWriter_eq_abort (hn : ctx.n ≤ maxArenaBlocks)
    (hreads : ∀ rw ∈ sp.reads, rw.address < ctx.n) :
    checkWriter P proof ctx sp verifyWitness (w, j) = abort
      ↔ ∃ read witness verify, sp.reads[j]? = some read
        ∧ checkInitPath P proof sp.stepId ctx.n w read = .ok ()
        ∧ w.stepWitness = some witness ∧ 0 < witness.stepId ∧ witness.stepId < sp.stepId
        ∧ witness.stepId = w.writerStepId ∧ verifyWitness = some verify
        ∧ verify witness = abort := by
  simp only [checkWriter, reject_bind_eq_abort, not_le]
  constructor
  · rintro ⟨hlt, h⟩
    have hread : sp.reads[j]? = some sp.reads[j] := List.getElem?_eq_getElem hlt
    rw [index_eq_ok.mpr hread, res_ok_bind] at h
    obtain h | ⟨hinit, h⟩ := unit_bind_eq_abort.mp h
    · exact absurd h (checkInitPath_ne_abort hn (hreads _ (List.getElem_mem hlt)))
    · cases hsome : w.stepWitness with
      | none =>
        rw [hsome] at h
        cases h
      | some witness =>
        rw [hsome] at h
        obtain ⟨hpos, hprior, hclaimed, verify, hverify, habort⟩ := checkWitness_eq_abort.mp h
        exact ⟨_, witness, verify, hread, hinit, rfl, hpos, hprior, hclaimed, hverify, habort⟩
  · rintro ⟨read, witness, verify, hread, hinit, hsome, hpos, hprior, hclaimed, hverify, habort⟩
    obtain ⟨hlt, -⟩ := List.getElem?_eq_some_iff.mp hread
    refine ⟨hlt, ?_⟩
    rw [index_eq_ok.mpr hread, res_ok_bind, hinit, res_ok_bind, hsome]
    exact checkWitness_eq_abort.mpr ⟨hpos, hprior, hclaimed, verify, hverify, habort⟩

/-- In front of an entry of an enumeration are those of the smaller indices. -/
theorem getElem?_of_zipIdx_eq {α : Type} {xs : List α} {before after : List (α × Nat)} {x : α}
    (h : xs.zipIdx = before ++ (x, j) :: after) :
    xs[j]? = some x ∧ ∀ i < j, ∀ y, xs[i]? = some y → (y, i) ∈ before := by
  have hat : ∀ i : Nat, (before ++ (x, j) :: after)[i]? = xs[i]?.map fun y => (y, i) := by
    intro i
    rw [← h, List.getElem?_zipIdx]
    simp only [Nat.zero_add]
  have hj := hat before.length
  rw [List.getElem?_append_right (Nat.le_refl _), Nat.sub_self, List.getElem?_cons_zero] at hj
  obtain ⟨y, hy, heq⟩ := Option.map_eq_some_iff.mp hj.symm
  cases heq
  refine ⟨hy, fun i hi y hi' => ?_⟩
  have hentry := hat i
  rw [List.getElem?_append_left hi, hi', Option.map_some] at hentry
  exact List.mem_of_getElem? hentry

theorem exists_zipIdx_eq {α : Type} {xs : List α} {x : α} (h : xs[j]? = some x) :
    ∃ before after, xs.zipIdx = before ++ (x, j) :: after
      ∧ ∀ y i, (y, i) ∈ before → i < j ∧ xs[i]? = some y := by
  obtain ⟨hj, -⟩ := List.getElem?_eq_some_iff.mp h
  have hat : xs.zipIdx[j]? = some (x, j) := by
    rw [List.getElem?_zipIdx, h, Option.map_some, Nat.zero_add]
  obtain ⟨hlt, hget⟩ := List.getElem?_eq_some_iff.mp hat
  refine ⟨xs.zipIdx.take j, xs.zipIdx.drop (j + 1), ?_, ?_⟩
  · rw [← hget, ← List.drop_eq_getElem_cons, List.take_append_drop]
  · intro y i hmem
    obtain ⟨k, hk⟩ := List.mem_iff_getElem?.mp hmem
    rw [List.getElem?_take] at hk
    split at hk
    next hkj =>
      rw [List.getElem?_zipIdx] at hk
      obtain ⟨z, hz, heq⟩ := Option.map_eq_some_iff.mp hk
      rw [Nat.zero_add] at heq
      cases heq
      exact ⟨hkj, hz⟩
    next => cases hk

theorem verifyStepWith_eq_abort (hn : ctx.n ≤ maxArenaBlocks) (hpos : 0 < ctx.n) :
    verifyStepWith P proof ctx verifyWitness sp = abort
      ↔ sp.Overflows P proof ctx ∨ ∃ j w witness verify,
        CallsAt P proof ctx verifyWitness sp j w witness ∧ verifyWitness = some verify
          ∧ verify witness = abort := by
  simp only [verifyStepWith, reject_bind_eq_abort, not_lt, not_or, not_not]
  constructor
  · rintro ⟨hlen, ⟨hzero, hle⟩, hbefore, hafter, h⟩
    have hbegun : StepBegun P proof ctx sp := ⟨hlen, by omega, hle, hbefore, hafter⟩
    obtain h | ⟨hpaths, h⟩ := unit_bind_eq_abort.mp h
    · obtain ⟨before, rw, after, hsplit, hpass, habort⟩ := forEach_eq_abort.mp h
      refine .inl ⟨hbegun, before, rw, after, hsplit, ?_, requirePath_eq_abort.mp habort⟩
      intro read hread
      exact requirePath_eq_ok.mp (hpass read hread)
    · obtain h | ⟨cursor, hcursor, h⟩ := res_bind_eq_abort.mp h
      · exact absurd h cursorLoop_ne_abort
      obtain ⟨haddressed, rfl⟩ := cursorLoop_eq_ok.mp hcursor
      obtain h | ⟨hwrite, h⟩ := unit_bind_eq_abort.mp h
      · exact absurd h (verifySymbioticWrite_ne_abort hn hpos)
      obtain h | ⟨-, h⟩ := unit_bind_eq_abort.mp h
      · -- every writer before this one was accepted
        obtain ⟨before, ⟨w, j⟩, after, hsplit, hpass, habort⟩ := forEach_eq_abort.mp h
        obtain ⟨hw, hearlier⟩ := getElem?_of_zipIdx_eq hsplit
        obtain ⟨read, witness, verify, hread, hinit, hsome, hfirst, hprior, hclaimed, hverify,
          habort⟩ := (checkWriter_eq_abort hn (haddressed.lt hpos)).mp habort
        refine .inr ⟨j, w, witness, verify, ?_, hverify, habort⟩
        refine ⟨hbegun, ?_, haddressed, verifySymbioticWrite_eq_ok.mp hwrite, ?_, hw,
          ⟨read, hread, checkInitPath_eq_ok.mp hinit⟩, hsome, hfirst, hprior, hclaimed⟩
        · intro rw hrw
          exact requirePath_eq_ok.mp (forEach_eq_ok.mp hpaths rw hrw)
        · intro i hi w' hw'
          exact checkWriter_eq_ok.mp (hpass _ (hearlier i hi w' hw'))
      · simp only [reject_bind_eq_abort] at h
        cases h.2.2
  · rintro (⟨hbegun, before, rw, after, hsplit, hpass, hover⟩
      | ⟨j, w, witness, verify, hcalls, hverify, habort⟩)
    · have hzero := hbegun.pos
      refine ⟨hbegun.writers_le, ⟨by omega, hbegun.le⟩, hbegun.root_before, hbegun.root_after, ?_⟩
      refine unit_bind_eq_abort.mpr (.inl (forEach_eq_abort.mpr ?_))
      exact ⟨before, rw, after, hsplit, fun read hread => requirePath_eq_ok.mpr (hpass read hread),
        requirePath_eq_abort.mpr hover⟩
    · obtain ⟨⟨hlen, hzero, hle, hbefore, hafter⟩, hpaths, haddressed, hwrite, hearlier, hw,
        ⟨read, hread, hinit⟩, hsome, hfirst, hprior, hclaimed⟩ := hcalls
      refine ⟨hlen, ⟨by omega, hle⟩, hbefore, hafter, ?_⟩
      have hreads : forEach (fun rw => requirePath P sp.stepId sp.rootBefore rw.address rw.block
          rw.merklePath ctx.n) sp.reads = .ok () :=
        forEach_eq_ok.mpr fun rw hrw => requirePath_eq_ok.mpr (hpaths rw hrw)
      rw [hreads, res_ok_bind, cursorLoop_eq_ok.mpr ⟨haddressed, rfl⟩, res_ok_bind,
        verifySymbioticWrite_eq_ok.mpr hwrite, res_ok_bind]
      obtain ⟨before, after, hsplit, hbelow⟩ := exists_zipIdx_eq hw
      refine unit_bind_eq_abort.mpr (.inl (forEach_eq_abort.mpr ?_))
      refine ⟨before, (w, j), after, hsplit, ?_, ?_⟩
      · rintro ⟨w', i⟩ hmem
        obtain ⟨hi, hw'⟩ := hbelow w' i hmem
        exact checkWriter_eq_ok.mpr (hearlier i hi w' hw')
      · exact (checkWriter_eq_abort hn (haddressed.lt hpos)).mpr ⟨read, witness, verify, hread,
          checkInitPath_eq_ok.mpr hinit, hsome, hfirst, hprior, hclaimed, hverify, habort⟩

theorem verifyStep_eq (proof : PosmeProof) (ctx : VerifyCtx) (depth : Nat) :
    verifyStep P proof ctx depth
      = verifyStepWith P proof ctx (witnessVerifier P proof ctx depth) := by
  cases depth with
  | zero => rfl
  | succ depth => rfl

/-! ## The proof -/

/-- The checks that come before the init witnesses are drawn. -/
structure Opened (P : Prims) (proof : PosmeProof) : Prop where
  valid : proof.params.Valid
  algorithm : proof.proofAlgorithm = proofAlgorithmPosme
    ∨ proof.proofAlgorithm = proofAlgorithmPosmeEntangled
  jitter : checkJitter P proof = .ok ()
  root0 : verifyRootChainPath P proof.rootChainCommitment 0 proof.root0 proof.root0Path
    (proof.params.totalSteps + 1) = true
  initEnough : initWitnessCount ≤ proof.initWitnesses.length

/-- The checks that come before the challenges are drawn. -/
structure Initialized (P : Prims) (seed : Bytes) (proof : PosmeProof) : Prop
    extends Opened P proof where
  initWitnesses : ∃ indices,
    initWitnessIndices (ε := PosmeError) P seed proof.root0 proof.params.arenaBlocks = .ok indices
      ∧ ∀ p ∈ proof.initWitnesses.zip indices,
        InitWitnessVerified P seed proof proof.params.arenaBlocks p.1 p.2

/-- The checks that come before the challenged steps. -/
structure Challenged (P : Prims) (seed : Bytes) (proof : PosmeProof) : Prop
    extends Initialized P seed proof where
  challenges : deriveChallenges (ε := PosmeError) P proof.finalTranscript
    proof.rootChainCommitment proof.params = .ok (proof.challengedSteps.map (·.stepId))

/-- `verify_step` is called on a step, inside of `t` other calls. -/
inductive Reached (P : Prims) (seed : Bytes) (proof : PosmeProof) : Nat → StepProof → Prop where
  | challenged {before after : List StepProof} {sp : StepProof} (h : Challenged P seed proof)
      (hsplit : proof.challengedSteps = before ++ sp :: after)
      (hbefore : ∀ q ∈ before, verifyStep P proof (verifyCtx P seed proof)
        (verifyCtx P seed proof).maxWriterDepth q = .ok (q.transcript P)) :
      Reached P seed proof 0 sp
  | witness {t j : Nat} {sp witness : StepProof} {w : WriterProof StepProof}
      (h : Reached P seed proof t sp) (hlevel : t + 1 < proof.params.recursionDepth)
      (hcalls : CallsAt P proof (verifyCtx P seed proof)
        (witnessVerifier P proof (verifyCtx P seed proof) (proof.params.recursionDepth - 1 - t))
        sp j w witness) :
      Reached P seed proof (t + 1) witness

theorem checkInitWitness_ne_abort {entry : InitWitness × Nat} (hn : n ≤ maxArenaBlocks)
    (hidx : entry.2 < n) :
    checkInitWitness P seed proof n entry ≠ abort := by
  simp only [checkInitWitness, Ne, reject_bind_eq_abort, not_not]
  rintro ⟨hindex, -, -, h⟩
  exact requirePath_ne_abort hn (hindex ▸ hidx) h

theorem checkConsecutive_ne_abort {pair : (Nat × Digest) × (Nat × Digest)} :
    checkConsecutive P proof pair ≠ abort := by
  unfold checkConsecutive
  exact okOr_bind_ne_abort fun sp => reject_ne_abort

theorem validate_ne_abort : params.validate ≠ abort := by
  simp [PosmeParams.validate, reject_bind_eq_abort]

theorem checkJitter_ne_abort : checkJitter P proof ≠ abort := by
  unfold checkJitter validateJitterEntropy
  split
  · split
    · rintro ⟨⟩
    · exact reject_ne_abort
  · rintro ⟨⟩

theorem PosmeParams.Valid.arena_pos (h : params.Valid) :
    0 < params.arenaBlocks := Nat.lt_of_lt_of_le (by decide) h.arena_min

/-- The verifier aborts where a sampler does, or the verification of a challenged step. -/
theorem verify_eq_abort :
    verify P seed proof = abort ↔
      (Opened P proof
        ∧ initWitnessIndices (ε := PosmeError) P seed proof.root0 proof.params.arenaBlocks = abort)
      ∨ (Initialized P seed proof ∧ deriveChallenges (ε := PosmeError) P proof.finalTranscript
          proof.rootChainCommitment proof.params = abort)
      ∨ ∃ sp, Reached P seed proof 0 sp ∧ verifyStep P proof (verifyCtx P seed proof)
          (verifyCtx P seed proof).maxWriterDepth sp = abort := by
  constructor
  · intro h
    rw [verify] at h
    -- check by check: what does not abort has passed
    obtain h | ⟨hvalid, h⟩ := unit_bind_eq_abort.mp h
    · exact absurd h validate_ne_abort
    obtain ⟨halgorithm, h⟩ := reject_bind_eq_abort.mp h
    obtain h | ⟨hjitter, h⟩ := unit_bind_eq_abort.mp h
    · exact absurd h checkJitter_ne_abort
    obtain ⟨hroot, h⟩ := reject_bind_eq_abort.mp h
    obtain ⟨hlen, h⟩ := reject_bind_eq_abort.mp h
    rw [PosmeParams.validate_eq_ok] at hvalid
    rw [not_not] at hroot
    have hopened : Opened P proof := ⟨hvalid, by omega, hjitter, hroot, by omega⟩
    obtain h | ⟨indices, hindices, h⟩ := res_bind_eq_abort.mp h
    · exact .inl ⟨hopened, h⟩
    obtain h | ⟨hinit, h⟩ := unit_bind_eq_abort.mp h
    · obtain ⟨before, entry, after, hsplit, -, habort⟩ := forEach_eq_abort.mp h
      have hmem : entry ∈ proof.initWitnesses.zip indices := by simp [hsplit]
      have hidx := (initWitnessIndices_range hvalid.arena_pos hindices).2 entry.2
        (List.of_mem_zip hmem).2
      exact absurd habort (checkInitWitness_ne_abort hvalid.arena_max hidx)
    have hinitialized : Initialized P seed proof := by
      refine ⟨hopened, indices, hindices, ?_⟩
      intro entry hentry
      exact checkInitWitness_eq_ok.mp (forEach_eq_ok.mp hinit entry hentry)
    obtain h | ⟨challenges, hchallenges, h⟩ := res_bind_eq_abort.mp h
    · exact .inr (.inl ⟨hinitialized, h⟩)
    obtain ⟨hids, h⟩ := reject_bind_eq_abort.mp h
    rw [not_not] at hids
    have hchallenged : Challenged P seed proof := ⟨hinitialized, hids ▸ hchallenges⟩
    obtain h | ⟨transcripts, -, h⟩ := res_bind_eq_abort.mp h
    · obtain ⟨before, sp, after, hsplit, hpass, habort⟩ := mapM_eq_abort.mp h
      refine .inr (.inr ⟨sp, .challenged hchallenged hsplit ?_, ?_⟩)
      · intro q hq
        obtain ⟨b, hb⟩ := hpass q hq
        obtain ⟨transcript, hrun, -⟩ := res_bind_eq_ok.mp hb
        have heq := (verifyStep_eq_ok.mp hrun).transcript_eq
        exact hrun.trans (congrArg _ heq)
      · obtain habort | ⟨transcript, -, ⟨⟩⟩ := res_bind_eq_abort.mp habort
        exact habort
    · obtain ⟨-, h⟩ := reject_bind_eq_abort.mp h
      obtain ⟨before, pair, after, -, -, habort⟩ := forEach_eq_abort.mp h
      exact absurd habort checkConsecutive_ne_abort
  · intro h
    -- whichever part aborts, all before it has passed
    have hopened : Opened P proof := by
      obtain ⟨h, -⟩ | ⟨h, -⟩ | ⟨sp, h, -⟩ := h
      · exact h
      · exact h.toOpened
      · cases h with
        | challenged h => exact h.toOpened
    obtain ⟨hvalid, halgorithm, hjitter, hroot, hlen⟩ := hopened
    rw [verify]
    refine unit_bind_eq_abort.mpr (.inr ⟨PosmeParams.validate_eq_ok.mpr hvalid, ?_⟩)
    refine reject_bind_eq_abort.mpr ⟨by omega, ?_⟩
    refine unit_bind_eq_abort.mpr (.inr ⟨hjitter, ?_⟩)
    refine reject_bind_eq_abort.mpr ⟨not_not.mpr hroot, ?_⟩
    refine reject_bind_eq_abort.mpr ⟨by omega, ?_⟩
    obtain ⟨-, h⟩ | h := h
    · exact res_bind_eq_abort.mpr (.inl h)
    have hinitialized : Initialized P seed proof := by
      obtain ⟨h, -⟩ | ⟨sp, h, -⟩ := h
      · exact h
      · cases h with
        | challenged h => exact h.toInitialized
    obtain ⟨indices, hindices, hinit⟩ := hinitialized.initWitnesses
    refine res_bind_eq_abort.mpr (.inr ⟨indices, hindices, ?_⟩)
    refine unit_bind_eq_abort.mpr (.inr ⟨forEach_eq_ok.mpr fun entry hentry =>
      checkInitWitness_eq_ok.mpr (hinit entry hentry), ?_⟩)
    obtain ⟨-, h⟩ | ⟨sp, h, habort⟩ := h
    · exact res_bind_eq_abort.mpr (.inl h)
    cases h with
    | @challenged before after _ hchallenged hsplit hbefore =>
      refine res_bind_eq_abort.mpr (.inr ⟨_, hchallenged.challenges, ?_⟩)
      refine reject_bind_eq_abort.mpr ⟨not_not.mpr rfl, ?_⟩
      refine res_bind_eq_abort.mpr (.inl (mapM_eq_abort.mpr ⟨before, sp, after, hsplit, ?_, ?_⟩))
      · intro q hq
        exact ⟨_, res_bind_eq_ok.mpr ⟨_, hbefore q hq, rfl⟩⟩
      · exact res_bind_eq_abort.mpr (.inl habort)

/-- A call of `verify_step` that aborts does so at a read that overflows. -/
theorem Reached.exists_overflows (hvalid : proof.params.Valid) (h : Reached P seed proof t sp)
    (hdepth : proof.params.recursionDepth - 1 - t = depth)
    (habort : verifyStep P proof (verifyCtx P seed proof) depth sp = abort) :
    ∃ t sp, Reached P seed proof t sp ∧ sp.Overflows P proof (verifyCtx P seed proof) := by
  induction depth generalizing t sp with
  | zero =>
    rw [verifyStep_eq, verifyStepWith_eq_abort hvalid.arena_max hvalid.arena_pos] at habort
    obtain hover | ⟨j, w, witness, verify, -, hverify, -⟩ := habort
    · exact ⟨t, sp, h, hover⟩
    · cases hverify
  | succ depth ih =>
    rw [verifyStep_eq, verifyStepWith_eq_abort hvalid.arena_max hvalid.arena_pos] at habort
    obtain hover | ⟨j, w, witness, verify, hcalls, hverify, habort⟩ := habort
    · exact ⟨t, sp, h, hover⟩
    · cases hverify
      rw [← hdepth] at hcalls
      exact ih (.witness h (by omega) hcalls) (by omega) habort

theorem Reached.valid (h : Reached P seed proof t sp) : proof.params.Valid := by
  induction h with
  | challenged h => exact h.valid
  | witness _ _ _ ih => exact ih

theorem Reached.verify_eq_abort (hvalid : proof.params.Valid) (h : Reached P seed proof t sp)
    (habort : verifyStep P proof (verifyCtx P seed proof) (proof.params.recursionDepth - 1 - t) sp
      = abort) :
    verify P seed proof = abort := by
  induction h with
  | challenged h hsplit hbefore =>
    exact Posme.verify_eq_abort.mpr (.inr (.inr ⟨_, .challenged h hsplit hbefore, habort⟩))
  | @witness t j sp witness w h hlevel hcalls ih =>
    apply ih
    have hdepth : proof.params.recursionDepth - 1 - t
        = proof.params.recursionDepth - 1 - (t + 1) + 1 := by omega
    rw [verifyStep_eq, verifyStepWith_eq_abort hvalid.arena_max hvalid.arena_pos]
    refine .inr ⟨j, w, witness, _, hcalls, ?_, habort⟩
    rw [hdepth]
    rfl

/-! ## Nested calls -/

/-- `verify_step` on a stack that has room for as many calls of it as there are frames. -/
def verifyStepOn (P : Prims) (proof : PosmeProof) (ctx : VerifyCtx) :
    Nat → Nat → StepProof → Res PosmeError Digest
  | 0, _, _ => abort
  | _ + 1, 0, sp => verifyStepWith P proof ctx none sp
  | frames + 1, writerDepth + 1, sp =>
    verifyStepWith P proof ctx (some (verifyStepOn P proof ctx frames writerDepth)) sp

theorem verifyStepOn_eq {frames : Nat} (h : depth < frames) :
    verifyStepOn P proof ctx frames depth = verifyStep P proof ctx depth := by
  induction depth generalizing frames with
  | zero =>
    obtain ⟨frames, rfl⟩ := Nat.exists_eq_add_of_lt h
    rw [Nat.zero_add]
    rfl
  | succ depth ih =>
    obtain ⟨frames, rfl⟩ : ∃ k, frames = k + 1 := ⟨frames - 1, by omega⟩
    funext sp
    rw [verifyStepOn, ih (by omega)]
    rfl

/-- The verifier returns on any proof exactly when the samplers end and no call of `verify_step`
meets a read that overflows; it never needs more than `recursion_depth` frames of `verify_step`. -/
theorem returns_iff (P : Prims) (seed : Bytes) (proof : PosmeProof) :
    (verify P seed proof ≠ abort ↔
      (Opened P proof → initWitnessIndices (ε := PosmeError) P seed proof.root0
        proof.params.arenaBlocks ≠ abort)
      ∧ (Initialized P seed proof → deriveChallenges (ε := PosmeError) P proof.finalTranscript
        proof.rootChainCommitment proof.params ≠ abort)
      ∧ ∀ t sp, Reached P seed proof t sp → ¬ sp.Overflows P proof (verifyCtx P seed proof))
    ∧ (∀ t sp, Reached P seed proof t sp → t < proof.params.recursionDepth)
    ∧ (proof.params.validate = .ok () → ∀ sp,
        verifyStepOn P proof (verifyCtx P seed proof) proof.params.recursionDepth
            (verifyCtx P seed proof).maxWriterDepth sp
          = verifyStep P proof (verifyCtx P seed proof) (verifyCtx P seed proof).maxWriterDepth
            sp) := by
  refine ⟨⟨?_, ?_⟩, ?_, ?_⟩
  · intro hreturns
    refine ⟨?_, ?_, ?_⟩
    · intro hopened h
      exact hreturns (verify_eq_abort.mpr (.inl ⟨hopened, h⟩))
    · intro hinitialized h
      exact hreturns (verify_eq_abort.mpr (.inr (.inl ⟨hinitialized, h⟩)))
    · intro t sp hreached hover
      have hvalid := hreached.valid
      refine hreturns (hreached.verify_eq_abort hvalid ?_)
      rw [verifyStep_eq, verifyStepWith_eq_abort hvalid.arena_max hvalid.arena_pos]
      exact .inl hover
  · rintro ⟨hindices, hchallenges, hreads⟩ habort
    obtain ⟨hopened, h⟩ | ⟨hinitialized, h⟩ | ⟨sp, hreached, h⟩ := verify_eq_abort.mp habort
    · exact hindices hopened h
    · exact hchallenges hinitialized h
    · obtain ⟨t, sp, hreached, hover⟩ := hreached.exists_overflows hreached.valid rfl h
      exact hreads t sp hreached hover
  · intro t sp hreached
    cases hreached with
    | challenged h => exact h.valid.depth_min
    | witness _ hlevel => exact hlevel
  · intro hvalid sp
    have hdepth : 1 ≤ proof.params.recursionDepth :=
      (PosmeParams.validate_eq_ok.mp hvalid).depth_min
    exact congrFun (verifyStepOn_eq (Nat.sub_lt hdepth Nat.one_pos)) sp

/-- The honest steps but for the address of the first read. -/
def farStep : StepProof where
  __ := stillStep 4 1
  reads := ⟨u32Max, Block.zeroed, List.replicate 10 zeroDigest⟩
    :: List.replicate 3 ⟨0, Block.zeroed, List.replicate 10 zeroDigest⟩

/-- One address past the arena stops the verifier. -/
theorem not_returns : ¬ ∀ (P : Prims) (seed : Bytes) (proof : PosmeProof),
    initWitnessIndices (ε := PosmeError) P seed proof.root0 proof.params.arenaBlocks ≠ abort →
    deriveChallenges (ε := PosmeError) P proof.finalTranscript proof.rootChainCommitment
      proof.params ≠ abort →
    verify P seed proof ≠ abort := by
  intro h
  have habort : verify Prims.still [] (stillProof 1 [farStep, stillStep 4 2]) = abort := by
    decide +kernel
  exact h Prims.still [] (stillProof 1 [farStep, stillStep 4 2]) (by decide +kernel)
    (by decide +kernel) habort

end WritersProof.Posme
