/-
  When the proof that is returned is accepted.

  A replay records a step before it builds the proof of the step, so a step
  that reads the block that it then writes is its own last writer.  The
  verifier takes only earlier steps as witnesses, and rejects such a step where
  its writers are shown: it has to be one of the challenged steps or at most
  `recursion_depth - 2` writers away from one (`Setup.Straight`).
-/
import WritersProof.Posme.Executed

namespace WritersProof.Posme

open Rust MerkleHeap LastWriter Sampling Setup Prims

variable {P : Prims} {c : Setup} {s t i : Nat} {proof : PosmeProof} {sp : StepProof}

/-! ## The steps of a proof -/

theorem finalExpected_of_ne {points : List (Nat × Digest)} {transcript : Digest}
    (h : ∀ point ∈ points, point.1 ≠ s) : finalExpected P points s transcript = transcript := by
  induction points generalizing transcript with
  | nil => rfl
  | cons point rest ih =>
    rw [List.forall_mem_cons] at h
    rw [finalExpected, List.foldl_cons, if_neg h.1]
    exact ih h.2

theorem finalExpected_append (points points' : List (Nat × Digest)) (s : Nat)
    (transcript : Digest) : finalExpected P (points ++ points') s transcript
      = finalExpected P points' s (finalExpected P points s transcript) :=
  List.foldl_append

/-- The verifier mixes in the sample of a step. -/
theorem finalExpected_pointsAt (hs : 0 < s) (hst : s ≤ t) (transcript : Digest) :
    finalExpected P (c.pointsAt t) s transcript = c.mixed P s transcript := by
  have hbefore : ∀ t < s, finalExpected P (c.pointsAt t) s transcript = transcript := by
    intro t ht
    apply finalExpected_of_ne
    intro point hpoint
    have := (pos_of_mem_pointsAt hpoint).2
    omega
  induction t with
  | zero => omega
  | succ t ih =>
    unfold mixed
    by_cases heq : s = t + 1
    · subst heq
      cases h : c.jitterAt (t + 1) with
      | none => rw [pointsAt_succ_of_none h, hbefore t (by omega)]
      | some jh =>
        rw [pointsAt_succ_of_some h, finalExpected_append, hbefore t (by omega),
          finalExpected, List.foldl_cons, if_pos rfl, List.foldl_nil]
    · have hlast : finalExpected P (c.pointsAt (t + 1)) s transcript
          = finalExpected P (c.pointsAt t) s transcript := by
        cases h : c.jitterAt (t + 1) with
        | none => rw [pointsAt_succ_of_none h]
        | some jh =>
          rw [pointsAt_succ_of_some h, finalExpected_append]
          apply finalExpected_of_ne
          intro point hpoint
          rw [List.mem_singleton.mp hpoint]
          exact Ne.symm heq
      rw [hlast, ih (by omega)]
      rfl

theorem Setup.moment_transcript (ht : 0 < t) : (c.moment P t).transcript
    = c.mixed P t ((c.before P t).stepped P c.params.readsPerStep t) := by
  obtain ⟨t, rfl⟩ : ∃ s, t = s + 1 := ⟨t - 1, by omega⟩
  rfl

theorem Shows.stepVerified (hframe : Frame P c proof) (ht : 0 < t) (hle : t ≤ c.params.totalSteps)
    (h : Shows P c t sp) {verifyWitness : Option (StepProof → Res PosmeError Digest)}
    (hwitness : ∀ read ∈ sp.reads, ∀ w ∈ sp.writers, WriterOf P c t read w → ∀ witness,
      w.stepWitness = some witness → WitnessVerified sp verifyWitness read w.writerStepId witness) :
    StepVerified P proof (verifyCtx P c.seed proof) verifyWitness sp (sp.transcript P) := by
  have hn : (verifyCtx P c.seed proof).n = c.params.arenaBlocks := by
    rw [← hframe.params]
    rfl
  have hd : (verifyCtx P c.seed proof).d = c.params.readsPerStep := by
    rw [← hframe.params]
    rfl
  have hk : (verifyCtx P c.seed proof).k = c.params.totalSteps := by
    rw [← hframe.params]
    rfl
  have htotal : (verifyCtx P c.seed proof).totalRoots = c.params.totalSteps + 1 := by
    rw [← hframe.params]
    rfl
  -- the context is that of the setup
  have hlen := h.writers.length_eq
  refine {
    writers_le := Nat.le_of_eq hlen.symm
    pos := by rw [h.stepId]; exact ht
    le := by rw [h.stepId, hk]; exact hle
    root_before := by rw [hframe.commitment, h.stepId, htotal]; exact h.chainBefore
    root_after := by rw [hframe.commitment, h.stepId, htotal]; exact h.chainAfter
    paths := by rw [hn]; exact h.paths
    addressed := by rw [hn]; exact h.addressed
    write := by rw [hn, hd]; exact h.write
    writers := ?_
    transcript_eq := rfl
    last := ?_
    first := ?_ }
  · intro j w hw
    obtain ⟨hlt, rfl⟩ := List.getElem?_eq_some_iff.mp hw
    have hwriter := h.writers.get (i := j) (by omega) hlt
    refine ⟨sp.reads[j], List.getElem?_eq_getElem (by omega), ?_, ?_⟩
    · intro htype path hpath
      rw [hframe.root0, hn]
      cases hwriter with
      | initial path' _ _ hpath' hverify =>
        have heq : path' = path := Option.some.inj (hpath'.symm.trans hpath)
        rw [← heq]
        exact hverify
      | step _ htype' =>
        have : 0 = 1 := htype.symm.trans htype'
        omega
    · exact hwitness _ (List.getElem_mem _) _ (List.getElem_mem _) hwriter
  · intro hlast
    rw [h.stepId, hk] at hlast
    rw [hframe.points, hframe.final, h.stepId, h.transcript_eq ht,
      finalExpected_pointsAt ht hle, ← moment_transcript ht, hlast]
  · intro hfirst
    rw [h.stepId] at hfirst
    rw [h.cursorIn, hfirst]
    dsimp only [verifyCtx]
    rw [hframe.root0]
    rfl

/-- With witnesses as many levels deep as it looks, the verifier takes a step exactly when no step
    on the way reads the block that it writes. -/
theorem Attached.stepVerified_iff (h : c.Ready) (hframe : Frame P c proof)
    (hat : Attached P c i t sp) (ht : 0 < t) (hle : t ≤ c.params.totalSteps) :
    StepVerified P proof (verifyCtx P c.seed proof)
        (witnessVerifier P proof (verifyCtx P c.seed proof) i) sp (sp.transcript P)
      ↔ c.Straight P i t := by
  induction i generalizing t sp with
  | zero =>
    obtain ⟨hshows, hnone⟩ := hat
    refine ⟨fun _ => trivial, fun _ => hshows.stepVerified hframe ht hle ?_⟩
    intro read _ w hw _ witness hsome
    rw [hnone w hw] at hsome
    cases hsome
  | succ i ih =>
    obtain ⟨hshows, hall⟩ := hat
    have hlen := hshows.writers.length_eq
    constructor
    · intro hverified
      -- the entry of a read, and its witness where the block was written
      have hentry : ∀ a ∈ c.readAddrs P t, 0 < c.writer P t a → ∃ witness,
          Attached P c i (c.writer P t a) witness ∧ witness.stepId < t
          ∧ StepVerified P proof (verifyCtx P c.seed proof)
            (witnessVerifier P proof (verifyCtx P c.seed proof) i) witness
            (witness.transcript P) := by
        intro a ha hpos
        rw [← hshows.addresses] at ha
        obtain ⟨read, hread, rfl⟩ := List.mem_map.mp ha
        obtain ⟨j, hj⟩ := List.mem_iff_getElem?.mp hread
        obtain ⟨hlt, rfl⟩ := List.getElem?_eq_some_iff.mp hj
        have hltw : j < sp.writers.length := by omega
        have hwriter := hshows.writers.get hlt hltw
        rw [List.get_eq_getElem, List.get_eq_getElem] at hwriter
        have hw := hall sp.writers[j] (List.getElem_mem _)
        cases hwriter with
        | initial _ hzero => exact absurd hzero (Nat.ne_of_gt hpos)
        | step _ htype hid =>
          rw [if_pos htype, hid] at hw
          obtain ⟨witness, hsome, hattached⟩ := hw
          obtain ⟨read', hread', hchecked⟩ :=
            hverified.writers j _ (List.getElem?_eq_getElem hltw)
          have hwitness := hchecked.witness witness hsome
          have hprior := hwitness.prior
          rw [hshows.stepId] at hprior
          obtain ⟨verify, transcript, hverify, hrun⟩ := hwitness.verified
          cases hverify
          have hstep := verifyStep_eq_ok.mp hrun
          have htranscript : transcript = witness.transcript P := hstep.transcript_eq
          rw [htranscript] at hstep
          exact ⟨witness, hattached, hprior, hstep⟩
      refine ⟨?_, ?_⟩
      · intro hself
        have heq : c.writer P t (c.writeAddr P t) = t := (writer_eq_self ht).mpr rfl
        obtain ⟨witness, hattached, hprior, -⟩ := hentry _ hself (by omega)
        rw [heq] at hattached
        have hid := hattached.shows.stepId
        omega
      · intro a ha hpos
        have hwriter : c.writer P t a ≤ t := writer_le t a
        obtain ⟨witness, hattached, -, hstep⟩ := hentry a ha hpos
        exact (ih hattached hpos (by omega)).mp hstep
    · rintro ⟨hself, hback⟩
      apply hshows.stepVerified hframe ht hle
      intro read hread w hw hwriter witness hsome
      have hentry := hall w hw
      cases hwriter with
      | initial _ _ htype =>
        rw [if_neg (by omega), hsome] at hentry
        cases hentry
      | step hpos htype hid =>
        rw [if_pos htype] at hentry
        obtain ⟨witness', hsome', hattached⟩ := hentry
        obtain rfl : witness = witness' := Option.some.inj (hsome.symm.trans hsome')
        rw [hid] at hattached
        have ha : read.address ∈ c.readAddrs P t := by
          rw [← hshows.addresses]
          exact List.mem_map_of_mem hread
        have hne : c.writeAddr P t ≠ read.address := fun heq => hself (heq ▸ ha)
        have hlast : c.writer P t read.address ≤ t := writer_le t _
        have hother : c.writer P t read.address ≠ t := fun heq =>
          hne ((writer_eq_self ht).mp heq)
        have hverified := (ih hattached hpos (by omega)).mpr (hback _ ha hpos)
        have hstepId := hattached.shows.stepId
        -- the last writer is the same before the step
        have hpred := writer_pred ht hne
        obtain ⟨haddr, hblock⟩ := @arena_of_written P c (t - 1) read.address
          (by rw [h.arenaBlocks_eq]; exact h.readAddrs_lt ha) (by rw [hpred]; exact hpos)
        rw [hpred] at haddr hblock
        have hread' := hshows.blocks read hread
        rw [hblock] at hread'
        exact {
          verified := ⟨_, _, rfl, verifyStep_eq_ok.mpr hverified⟩
          pos := by omega
          prior := by rw [hstepId, hshows.stepId]; omega
          claimed := by rw [hstepId, hid]
          address := by rw [hattached.shows.writeAddr, haddr]
          block := by rw [hattached.shows.newBlock]; exact Option.some.inj hread' }

/-! ## The proof -/

/-- Where all samples fit, the last of them is mixed in before the end. -/
theorem Setup.Ready.used_totalSteps (h : c.Ready) : c.used c.params.totalSteps
    = c.samples.length := by
  rw [used]
  by_cases hnil : c.samples = []
  · rw [hnil, List.length_nil, Nat.min_zero]
  · apply Nat.min_eq_right
    rw [Nat.le_div_iff_mul_le (h.interval_pos hnil)]
    exact Nat.mul_div_le _ _

theorem Setup.Ready.map_snd_points (h : c.Ready) :
    (c.pointsAt c.params.totalSteps).map (·.2) = c.samples := by
  rw [map_snd_pointsAt, h.used_totalSteps, List.take_length]

variable {indices challenges : List Nat}

/-- Jitter that passes the check of the verifier. -/
def Setup.Jittery (P : Prims) (c : Setup) : Prop :=
  c.samples.length < 2 ∨ P.jitterVarianceOk c.samples

theorem Executed.checkJitter_eq (h : c.Ready) (hexec : Executed P c indices challenges proof)
    (hjitter : c.Jittery P) : checkJitter P proof = .ok () := by
  have hlen : (c.pointsAt c.params.totalSteps).length = c.samples.length := by
    rw [← List.length_map (f := (·.2)), h.map_snd_points]
  unfold checkJitter validateJitterEntropy
  rw [hexec.frame.points, h.map_snd_points, hlen]
  split
  next =>
    split
    next => rfl
    next hfew =>
      rw [reject_eq_ok, not_not]
      exact hjitter.resolve_left hfew
  next => rfl

theorem ShowsInit.verified (hframe : Frame P c proof) (hi : i < c.params.arenaBlocks)
    {w : InitWitness} (h : ShowsInit P c i w) :
    InitWitnessVerified P c.seed proof proof.params.arenaBlocks w i := by
  have hblock := h.block
  rw [arena_zero, getElem?_initialArena hi] at hblock
  have heq := (Option.some.inj hblock).symm
  refine ⟨h.index, ?_, ?_, ?_⟩
  · intro hzero
    rw [h.index] at hzero
    rw [heq, initialBlock, hzero, if_pos rfl]
  · rw [heq, h.index]
    rfl
  · rw [hframe.root0, hframe.params, h.index]
    exact h.path

/-- Challenged steps next to each other agree on the transcript between them. -/
theorem Executed.consecutive (hexec : Executed P c indices challenges proof)
    (hrange : ∀ t ∈ challenges, 0 < t ∧ t ≤ c.params.totalSteps) {p q : Nat × Digest}
    (hp : p ∈ proof.challengedSteps.map fun sp => (sp.stepId, sp.transcript P))
    (hq : q ∈ proof.challengedSteps.map fun sp => (sp.stepId, sp.transcript P)) :
    checkConsecutive P proof (p, q) = .ok () := by
  obtain ⟨spA, hspA, rfl⟩ := List.mem_map.mp hp
  obtain ⟨spB, hspB, rfl⟩ := List.mem_map.mp hq
  obtain ⟨a, ha, hattachedA⟩ := exists_of_mem_right hexec.steps hspA
  have hshowsA := hattachedA.shows
  obtain ⟨hpos, hle⟩ := hrange a ha
  obtain ⟨sp, hfind⟩ : ∃ sp, proof.challengedSteps.find? (fun s => s.stepId = spB.stepId)
      = some sp := by
    apply Option.isSome_iff_exists.mp
    rw [List.find?_isSome]
    exact ⟨spB, hspB, by simp⟩
  obtain ⟨b, -, hattached⟩ := exists_of_mem_right hexec.steps (List.mem_of_find?_eq_some hfind)
  have hsame : sp.stepId = spB.stepId := by
    have hsome := List.find?_some hfind
    rwa [decide_eq_true_eq] at hsome
  have hb : sp.stepId = b := hattached.shows.stepId
  rw [checkConsecutive]
  dsimp only
  rw [hfind, okOr_some, res_ok_bind, reject_eq_ok, not_and, not_not]
  intro hnext
  have hprev : b - 1 = a := by
    rw [← hb, hsame, hnext, hshowsA.stepId, Nat.add_sub_cancel]
  rw [hattached.shows.cursorIn, before, hprev, hexec.frame.points, hshowsA.stepId,
    find?_pointsAt hpos hle, hshowsA.transcript_eq hpos, moment_transcript hpos,
    mixed]
  cases c.jitterAt a with
  | none => rfl
  | some jh => rfl

/-- A returned proof is accepted exactly when its challenged steps are straight. -/
theorem Executed.verify_iff (h : c.Ready) (hindices : c.initIndices P = .ok indices)
    (hchallenges : c.challenges P = .ok challenges)
    (hexec : Executed P c indices challenges proof) (hjitter : c.Jittery P) :
    verify P c.seed proof = .ok ()
      ↔ ∀ t ∈ challenges, c.Straight P (c.params.recursionDepth - 1) t := by
  have hframe := hexec.frame
  obtain ⟨-, hrange⟩ := challenges_range h.valid hchallenges
  obtain ⟨hcount, hindicesRange⟩ := initIndices_range h.valid hindices
  have hids : proof.challengedSteps.map (·.stepId) = challenges := by
    have hrel : List.Forall₂ (· = ·) challenges (proof.challengedSteps.map (·.stepId)) := by
      apply List.forall₂_map_right_iff.mpr
      exact hexec.steps.imp fun t sp hattached => hattached.shows.stepId.symm
    rw [List.forall₂_eq_eq_eq] at hrel
    exact hrel.symm
  have hdepth : (verifyCtx P c.seed proof).maxWriterDepth = c.params.recursionDepth - 1 := by
    rw [← hframe.params]
    rfl
  have hstep : ∀ t sp, Attached P c (c.params.recursionDepth - 1) t sp → t ∈ challenges →
      (verifyStep P proof (verifyCtx P c.seed proof) (verifyCtx P c.seed proof).maxWriterDepth sp
          = .ok (sp.transcript P)
        ↔ c.Straight P (c.params.recursionDepth - 1) t) := by
    intro t sp hattached ht
    rw [verifyStep_eq_ok, hdepth]
    exact hattached.stepVerified_iff h hframe (hrange t ht).1 (hrange t ht).2
  rw [verify_eq_ok]
  constructor
  · intro haccepted t ht
    have ht' := ht
    rw [← hids] at ht
    obtain ⟨sp, hsp, rfl⟩ := List.mem_map.mp ht
    obtain ⟨t, -, hattached⟩ := exists_of_mem_right hexec.steps hsp
    have hid : sp.stepId = t := hattached.shows.stepId
    rw [← hid] at hattached
    exact (hstep _ _ hattached ht').mp (haccepted.steps sp hsp)
  · intro hstraight
    -- the other checks pass for every execution
    exact {
      valid := by rw [hframe.params]; exact h.valid
      algorithm := by
        rw [hexec.algorithm]
        split
        · exact .inl rfl
        · exact .inr rfl
      jitter := hexec.checkJitter_eq h hjitter
      root0 := by rw [hframe.commitment, hframe.root0, hframe.params]; exact hexec.root0Path
      initEnough := by rw [← hexec.initWitnesses.length_eq, hcount]
      initWitnesses := by
        refine ⟨indices, ?_, ?_⟩
        · rw [hframe.root0, hframe.params]
          exact hindices
        · rintro ⟨w, i⟩ hmem
          have hshown : ShowsInit P c i w :=
            (List.forall₂_iff_zip.mp hexec.initWitnesses.flip).2 hmem
          exact hshown.verified hframe (hindicesRange i (List.of_mem_zip hmem).2)
      challenges := by
        rw [hframe.final, hframe.commitment, hframe.params, hids]
        exact hchallenges
      steps := by
        intro sp hsp
        obtain ⟨t, ht, hattached⟩ := exists_of_mem_right hexec.steps hsp
        exact (hstep t sp hattached ht).mpr (hstraight t ht)
      points := by rw [hframe.points]; exact nodup_pointsAt _
      consecutive := by
        dsimp only
        rintro ⟨p, q⟩ hmem
        obtain ⟨hp, hq⟩ := List.of_mem_zip hmem
        have hq' := List.mem_of_mem_tail hq
        rw [List.mem_insertionSort] at hp hq'
        exact hexec.consecutive hrange hp hq' }

/-! ## Executions -/

/-- Both samplings come to an end; `challenges` are the steps that are drawn. -/
structure Setup.Sampled (P : Prims) (c : Setup) (challenges : List Nat) : Prop where
  init : ∃ indices, c.initIndices P = .ok indices
  steps : c.challenges P = .ok challenges

theorem Setup.Ready.executeInner_verify_iff (h : c.Ready) (hsampled : c.Sampled P challenges)
    (hjitter : c.Jittery P) (elapsed : Nat) :
    ∃ proof, executeInner P elapsed c.seed c.params (c.entangleAt 0 []) = .ok proof
      ∧ (verify P c.seed proof = .ok ()
        ↔ ∀ t ∈ challenges, c.Straight P (c.params.recursionDepth - 1) t) := by
  obtain ⟨⟨indices, hindices⟩, hsteps⟩ := hsampled
  obtain ⟨proof, hrun, hexec⟩ := h.executeInner_eq hindices hsteps elapsed
  exact ⟨proof, hrun, hexec.verify_iff h hindices hsteps hjitter⟩

/-- Without jitter samples. -/
theorem execute_verify_iff {seed : Bytes} {params : PosmeParams}
    (hvalid : params.validate = .ok ()) (hsampled : Setup.Sampled P ⟨seed, params, []⟩ challenges)
    (elapsed : Nat) :
    ∃ proof, execute P elapsed seed params = .ok proof ∧ (verify P seed proof = .ok ()
      ↔ ∀ t ∈ challenges, Setup.Straight P ⟨seed, params, []⟩ (params.recursionDepth - 1) t) := by
  have hready : Setup.Ready ⟨seed, params, []⟩ :=
    ⟨PosmeParams.validate_eq_ok.mp hvalid, Nat.zero_le _⟩
  obtain ⟨proof, hrun, hiff⟩ :=
    hready.executeInner_verify_iff hsampled (.inl Nat.zero_lt_two) elapsed
  refine ⟨proof, ?_, hiff⟩
  rw [execute, hvalid, res_ok_bind]
  exact hrun

/-- The proof that an execution returns is accepted exactly when no challenged step, and no step
    up to `recursion_depth - 2` writers behind one, reads the block that it writes. -/
theorem executions_verify_iff (P : Prims) (elapsed : Nat) (seed : Bytes) (params : PosmeParams)
    (hvalid : params.validate = .ok ()) :
    (∀ challenges, Setup.Sampled P ⟨seed, params, []⟩ challenges →
      ∃ proof, execute P elapsed seed params = .ok proof ∧ (verify P seed proof = .ok ()
        ↔ ∀ t ∈ challenges, Setup.Straight P ⟨seed, params, []⟩ (params.recursionDepth - 1) t))
    ∧ ∀ samples challenges, samples.length ≤ params.totalSteps →
      Setup.Jittery P ⟨seed, params, samples⟩ →
      Setup.Sampled P ⟨seed, params, samples⟩ challenges →
      ∃ proof, executeEntangled P elapsed seed params samples = .ok proof
        ∧ (verify P seed proof = .ok () ↔ ∀ t ∈ challenges,
          Setup.Straight P ⟨seed, params, samples⟩ (params.recursionDepth - 1) t) := by
  refine ⟨fun challenges hsampled => execute_verify_iff hvalid hsampled elapsed, ?_⟩
  intro samples challenges hfew hjitter hsampled
  unfold executeEntangled
  by_cases hnil : samples = []
  · subst hnil
    rw [if_pos rfl]
    exact execute_verify_iff hvalid hsampled elapsed
  · have hready : Setup.Ready ⟨seed, params, samples⟩ :=
      ⟨PosmeParams.validate_eq_ok.mp hvalid, hfew⟩
    obtain ⟨proof, hrun, hiff⟩ := hready.executeInner_verify_iff hsampled hjitter elapsed
    have hpos : 0 < params.totalSteps / samples.length := hready.interval_pos hnil
    have hentangle : entangleAt ⟨seed, params, samples⟩ 0 []
        = some (EntangleCtx.new samples (params.totalSteps / samples.length)) := by
      rw [entangleAt, if_neg hnil, used, Nat.zero_div, Nat.zero_min]
      rfl
    refine ⟨proof, ?_, hiff⟩
    rw [hentangle] at hrun
    rw [if_neg hnil, hvalid, res_ok_bind]
    dsimp only
    rw [reject_bind_eq_ok]
    exact ⟨by omega, hrun⟩

/-! ## A still arena, executed -/

theorem posmeHash_still {inputs : List Bytes} (h : inputs.flatten.length ≠ 36) :
    posmeHash still inputs = zeroDigest :=
  if_neg h

theorem addrFrom_still (cursor : Digest) (j n : Nat) : addrFrom still cursor j n = 0 := by
  have hlen : [dstAddr, cursor.val, i2osp j].flatten.length ≠ 36 := by
    simp [dstAddr, i2osp, Bytes.length_toBE, cursor.size_eq]
  rw [addrFrom, posmeHash_still hlen, maskedWord, show Bytes.ofBE (zeroDigest.val.take 4) = 0 by
    decide, Nat.zero_and]

/-- With seed `[]`, the first indices and steps are drawn in their order. -/
theorem sampled_still (recursionDepth : Nat) (samples : List Digest) :
    Setup.Sampled still ⟨[], ⟨1024, 1024, 4, 2, recursionDepth⟩, samples⟩ [1, 2] := by
  refine ⟨⟨[0, 1, 2, 3, 4, 5, 6, 7], ?_⟩, ?_⟩
  rotate_left
  · -- the stream of challenges does not depend on the transcript
    have hdraw : unwrap (sample (drawChallenge still [] 1024) 2 4)
        = (.ok [1, 2] : Res PosmeError _) := by
      decide +kernel
    exact hdraw
  have hsigma (root : Digest) : posmeHash still [dstInitWitness, [], root.val]
      = zeroDigest := by
    apply posmeHash_still
    simp [dstInitWitness, root.size_eq]
  rw [initIndices, initWitnessIndices]
  dsimp only
  rw [hsigma]
  decide +kernel

/-- Every step reads the block that it writes. -/
theorem straight_still_iff {depth : Nat} (hdepth : depth ∈ [1, 2]) (samples : List Digest) :
    (∀ t ∈ [1, 2],
        Setup.Straight still ⟨[], ⟨1024, 1024, 4, 2, depth⟩, samples⟩ (depth - 1) t)
      ↔ depth = 1 := by
  rcases List.mem_pair.mp hdepth with rfl | rfl
  · exact iff_of_true (fun _ _ => trivial) rfl
  · refine iff_of_false (fun hstraight => (hstraight 1 (by decide)).1 ?_) (by decide)
    rw [writeAddr, Moment.writeAddr, addrFrom_still, readAddrs, Moment.readAddrs]
    dsimp only [chase]
    rw [addrFrom_still]
    exact List.mem_cons_self

theorem executions_verify_iff_still : [1, 2].Forall fun depth =>
    (∃ proof, execute still 0 [] ⟨1024, 1024, 4, 2, depth⟩ = .ok proof
      ∧ (verify still [] proof = .ok () ↔ depth = 1))
    ∧ ∃ proof, executeEntangled still 0 [] ⟨1024, 1024, 4, 2, depth⟩ [zeroDigest] = .ok proof
      ∧ (verify still [] proof = .ok () ↔ depth = 1) := by
  refine List.forall_iff_forall_mem.mpr fun depth hdepth => ?_
  have hvalid : PosmeParams.validate ⟨1024, 1024, 4, 2, depth⟩ = .ok () := by
    rcases List.mem_pair.mp hdepth with rfl | rfl <;> decide +kernel
  have hboth := executions_verify_iff still 0 [] ⟨1024, 1024, 4, 2, depth⟩ hvalid
  rw [← straight_still_iff hdepth [zeroDigest]]
  refine ⟨?_, hboth.2 [zeroDigest] [1, 2] (show 1 ≤ 1024 by decide) (.inl (show 1 < 2 by decide))
    (sampled_still depth [zeroDigest])⟩
  rw [straight_still_iff hdepth, ← straight_still_iff hdepth []]
  exact hboth.1 [1, 2] (sampled_still depth [])

/-- At recursion depth 2, a challenged step that reads the block that it writes is rejected. -/
theorem own_write_rejected : ¬ ∀ (P : Prims) (elapsed : Nat) (seed : Bytes) (params : PosmeParams),
    params.validate = .ok () → ∀ challenges, Setup.Sampled P ⟨seed, params, []⟩ challenges →
      ∃ proof, execute P elapsed seed params = .ok proof ∧ verify P seed proof = .ok () := by
  intro hclaim
  have hvalid : PosmeParams.validate ⟨1024, 1024, 4, 2, 2⟩ = .ok () := by decide +kernel
  obtain ⟨proof, hrun, haccepted⟩ :=
    hclaim still 0 [] ⟨1024, 1024, 4, 2, 2⟩ hvalid [1, 2] (sampled_still 2 [])
  obtain ⟨proof', hrun', hiff⟩ := execute_verify_iff hvalid (sampled_still 2 []) 0
  rw [hrun] at hrun'
  cases hrun'
  exact absurd ((straight_still_iff (by decide) []).mp (hiff.mp haccepted)) (by decide)

end WritersProof.Posme
