/-
  The challenged steps and, round after round, the proofs of their writers:
  after `i` rounds every step has witnesses `i` levels deep (`Attached`).
-/
import WritersProof.Posme.Shown
import WritersProof.Lib.SortByKey
import Mathlib.Data.List.MinMax

namespace WritersProof.Posme

open Rust MerkleHeap LastWriter

variable {P : Prims} {c : Setup}

/-- `sp` shows step `t`, and so do the witnesses of its writers, `i` levels deep. -/
def Attached (P : Prims) (c : Setup) : Nat → Nat → StepProof → Prop
  | 0, t, sp => Shows P c t sp ∧ ∀ w ∈ sp.writers, w.stepWitness = none
  | i + 1, t, sp => Shows P c t sp ∧ ∀ w ∈ sp.writers,
    if w.proofType = 1 then
      ∃ witness, w.stepWitness = some witness ∧ Attached P c i w.writerStepId witness
    else w.stepWitness = none

variable {sp : StepProof} {w : WriterProof StepProof} {i t : Nat} {rootChain : RootChain}
  {witness : StepProof}

theorem Attached.shows (h : Attached P c i t sp) : Shows P c t sp := by
  cases i with
  | zero => exact h.1
  | succ i => exact h.1

/-! ## Replays that build proofs -/

theorem ReplayAt.challengeLoop (h : c.Ready) {initTree : MerkleTree}
    (hchain : ChainOf P c rootChain) (hinit : Over P c.height initTree (c.arena P 0))
    {targets : List (Nat × Nat)} {current : Nat} {replay : Replay}
    (hat : ReplayAt P c current replay) (hsorted : targets.Pairwise fun p q => p.1 < q.1)
    (hrange : ∀ p ∈ targets, current < p.1 ∧ p.1 ≤ c.params.totalSteps) :
    ∃ stepProofs, Replay.challengeLoop P c.params.readsPerStep rootChain initTree targets current
        replay = .ok stepProofs
      ∧ List.Forall₂ (fun p q => q.2 = p.2 ∧ Attached P c 0 p.1 q.1) targets stepProofs := by
  induction targets generalizing current replay with
  | nil => exact ⟨[], rfl, .nil⟩
  | cons p rest ih =>
    obtain ⟨target, origIdx⟩ := p
    rw [List.forall_mem_cons] at hrange
    obtain ⟨⟨hlo, hhi⟩, hrange⟩ := hrange
    obtain ⟨hless, hsorted⟩ := List.pairwise_cons.mp hsorted
    have hsub : checkedSub target 1 = some (target - 1) := if_pos (by dsimp only at hlo; omega)
    obtain ⟨replay₁, hlight, hat₁⟩ :=
      @ReplayAt.lightLoop P c h (target - 1 - current) current replay hat
    have hbefore : current + (target - 1 - current) = target - 1 := by
      dsimp only at hlo
      omega
    have hmax : max current (target - 1) = target - 1 := by
      dsimp only at hlo
      omega
    have hnext : target - 1 + 1 = target := by
      dsimp only at hlo
      omega
    rw [hbefore] at hat₁
    obtain ⟨sp, replay₂, hfull, hat₂, hshows, hnone⟩ :=
      hat₁.full h (by dsimp only at hlo hhi; omega) hchain hinit
    rw [hnext] at hfull hat₂ hshows
    obtain ⟨stepProofs, hrun, hall⟩ := ih hat₂ hsorted fun q hq =>
      ⟨hless q hq, (hrange q hq).2⟩
    refine ⟨(sp, origIdx) :: stepProofs, ?_, .cons ⟨rfl, hshows, hnone⟩ hall⟩
    rw [Replay.challengeLoop, hsub, unwrap_some, res_ok_bind, hlight, res_ok_bind]
    dsimp only
    rw [hmax, hnext, hfull, res_ok_bind]
    dsimp only
    rw [hrun, res_ok_bind]

/-- Every target that the replay comes to is shown. -/
theorem ReplayAt.writerLoop (h : c.Ready) {rootChain : RootChain} {initTree : MerkleTree}
    (hchain : ChainOf P c rootChain) (hinit : Over P c.height initTree (c.arena P 0))
    {targets : List Nat} {remaining t : Nat} {replay : Replay} {results : Nat → Option StepProof}
    (hat : ReplayAt P c t replay) (hle : t + remaining ≤ c.params.totalSteps)
    (hdone : ∀ s ∈ targets, 0 < s → s ≤ t → ∃ sp, results s = some sp ∧ Attached P c 0 s sp) :
    ∃ results', Replay.writerLoop P c.params.readsPerStep rootChain initTree targets remaining
        (t + 1) replay results = .ok results'
      ∧ ∀ s ∈ targets, 0 < s → s ≤ t + remaining →
        ∃ sp, results' s = some sp ∧ Attached P c 0 s sp := by
  induction remaining generalizing t replay results with
  | zero => exact ⟨results, rfl, hdone⟩
  | succ remaining ih =>
    rw [← Nat.add_assoc, Nat.add_right_comm] at hle ⊢
    by_cases htarget : t + 1 ∈ targets
    · obtain ⟨sp, replay', hfull, hat', hshows, hnone⟩ := hat.full h (by omega) hchain hinit
      obtain ⟨results', hrun, hall⟩ := @ih (t + 1) replay'
        (Function.update results (t + 1) (some sp)) hat' hle (by
          intro s hs hpos hst
          by_cases heq : s = t + 1
          · subst heq
            exact ⟨sp, Function.update_self .., hshows, hnone⟩
          · rw [Function.update_of_ne heq]
            exact hdone s hs hpos (by omega))
      refine ⟨results', ?_, hall⟩
      rw [Replay.writerLoop, if_pos htarget, hfull, res_ok_bind]
      exact hrun
    · obtain ⟨replay', hlight, hat'⟩ := hat.light h
      obtain ⟨results', hrun, hall⟩ := @ih (t + 1) replay' results hat' hle (by
        intro s hs hpos hst
        apply hdone s hs hpos
        have hne : s ≠ t + 1 := fun heq => htarget (heq ▸ hs)
        omega)
      refine ⟨results', ?_, hall⟩
      rw [Replay.writerLoop, if_neg htarget, hlight, res_ok_bind]
      exact hrun

theorem Setup.Ready.replayForWriterProofs_eq (h : c.Ready) (hchain : ChainOf P c rootChain)
    {targets : List Nat} (hnil : targets ≠ [])
    (hrange : ∀ s ∈ targets, 0 < s ∧ s ≤ c.params.totalSteps) :
    ∃ proofs, replayForWriterProofs P c.seed c.params rootChain targets (c.entangleAt 0 [])
        = .ok proofs
      ∧ ∀ s ∈ targets, ∃ sp, proofs s = some sp ∧ Attached P c 0 s sp := by
  obtain ⟨replay, hstart, hat⟩ := h.replayStart_eq (P := P)
  obtain ⟨initTree, hbuild, hinit⟩ := MerkleTree.build_spec (P := P) (h.length_arena 0)
  have hmax : targets.foldr max 0 ≤ c.params.totalSteps :=
    List.max_le_of_forall_le targets _ fun s hs => (hrange s hs).2
  obtain ⟨proofs, hrun, hall⟩ := @ReplayAt.writerLoop P c h rootChain initTree hchain hinit targets
    (targets.foldr max 0) 0 replay (fun _ => none) hat (by omega) (by
      intro s _ hpos hle
      omega)
  refine ⟨proofs, ?_, ?_⟩
  · rw [replayForWriterProofs, if_neg hnil, hstart, res_ok_bind, hat.arena, hbuild, res_ok_bind]
    exact hrun
  · intro s hs
    have hle : s ≤ targets.foldr max 0 := List.le_max_of_le hs (Nat.le_refl s)
    exact hall s hs (hrange s hs).1 (by omega)

/-! ## Collecting and attaching -/

theorem collectWriters_eq (ws : List (WriterProof StepProof)) :
    collectWriters ws = ws.flatMap collectWriter := by
  induction ws with
  | nil => rfl
  | cons w rest ih => rw [collectWriters, ih, List.flatMap_cons]

theorem collectUnprovedWriters_eq (sp : StepProof) :
    collectUnprovedWriters sp = sp.writers.flatMap collectWriter := by
  cases sp
  exact collectWriters_eq _

theorem collectWriter_of_none (h : w.stepWitness = none) :
    collectWriter w = if w.proofType = 1 then [w.writerStepId] else [] := by
  cases w
  cases h
  rfl

theorem collectWriter_of_some (h : w.stepWitness = some witness) :
    collectWriter w = collectUnprovedWriters witness := by
  cases w
  cases h
  rfl

variable {proofs : Nat → Option StepProof}

theorem attachWriters_eq (ws : List (WriterProof StepProof)) :
    attachWriters proofs ws = ws.map (attachWriter proofs) := by
  induction ws with
  | nil => rfl
  | cons w rest ih => rw [attachWriters, ih, List.map_cons]

theorem attachWriterProofs_eq (sp : StepProof) : attachWriterProofs proofs sp
    = { sp with writers := sp.writers.map (attachWriter proofs) } := by
  cases sp
  rw [attachWriterProofs, attachWriters_eq]

theorem attachWriter_of_none (h : w.stepWitness = none) :
    attachWriter proofs w
      = { w with stepWitness := if w.proofType = 1 then proofs w.writerStepId else none } := by
  cases w
  cases h
  rfl

theorem attachWriter_of_some (h : w.stepWitness = some witness) :
    attachWriter proofs w = { w with stepWitness := some (attachWriterProofs proofs witness) } := by
  cases w
  cases h
  rfl

/-- Attaching a witness leaves the rest of an entry as it is. -/
theorem attachWriter_keeps (w : WriterProof StepProof) :
    (attachWriter proofs w).proofType = w.proofType
      ∧ (attachWriter proofs w).writerStepId = w.writerStepId
      ∧ (attachWriter proofs w).initMerklePath = w.initMerklePath := by
  cases hsome : w.stepWitness with
  | none =>
    rw [attachWriter_of_none hsome]
    exact ⟨rfl, rfl, rfl⟩
  | some witness =>
    rw [attachWriter_of_some hsome]
    exact ⟨rfl, rfl, rfl⟩

theorem WriterOf.attach {read : ReadWitness} (h : WriterOf P c t read w) :
    WriterOf P c t read (attachWriter proofs w) := by
  obtain ⟨htype, hid, hpath⟩ := @attachWriter_keeps proofs w
  cases h with
  | initial path hwriter htype' hpath' hverify =>
    exact .initial path hwriter (htype.trans htype') (hpath.trans hpath') hverify
  | step hwriter htype' hid' => exact .step hwriter (htype.trans htype') (hid.trans hid')

theorem Shows.attach (h : Shows P c t sp) : Shows P c t (attachWriterProofs proofs sp) := by
  rw [attachWriterProofs_eq]
  have hwriters : List.Forall₂ (fun read w => WriterOf P c t read (attachWriter proofs w))
      sp.reads sp.writers :=
    h.writers.imp fun _ _ hw => hw.attach
  refine { h with write := ?_, writers := List.forall₂_map_right_iff.mpr hwriters }
  exact ⟨h.write.address, h.write.before, h.write.block, h.write.after⟩

theorem Shows.writerOf (h : Shows P c t sp) (hw : w ∈ sp.writers) :
    ∃ read ∈ sp.reads, WriterOf P c t read w :=
  exists_of_mem_right h.writers hw

/-- The writers that are still to be proved are steps of the run. -/
theorem Attached.collected {s : Nat} (h : Attached P c i t sp)
    (hs : s ∈ collectUnprovedWriters sp) :
    0 < s ∧ s ≤ t := by
  induction i generalizing t sp with
  | zero =>
    obtain ⟨hshows, hnone⟩ := h
    rw [collectUnprovedWriters_eq, List.mem_flatMap] at hs
    obtain ⟨w, hw, hs⟩ := hs
    rw [collectWriter_of_none (hnone w hw)] at hs
    obtain ⟨read, -, hwriter⟩ := hshows.writerOf hw
    cases hwriter with
    | initial path _ htype =>
      rw [htype] at hs
      cases hs
    | step hpos htype hid =>
      rw [if_pos htype, hid, List.mem_singleton] at hs
      subst hs
      exact ⟨hpos, Setup.writer_le _ _⟩
  | succ i ih =>
    obtain ⟨hshows, hall⟩ := h
    rw [collectUnprovedWriters_eq, List.mem_flatMap] at hs
    obtain ⟨w, hw, hs⟩ := hs
    obtain ⟨read, -, hwriter⟩ := hshows.writerOf hw
    have hentry := hall w hw
    cases hwriter with
    | initial path _ htype =>
      rw [if_neg (by omega)] at hentry
      rw [collectWriter_of_none hentry, if_neg (by omega)] at hs
      cases hs
    | step hpos htype hid =>
      rw [if_pos htype] at hentry
      obtain ⟨witness, hsome, hattached⟩ := hentry
      rw [collectWriter_of_some hsome] at hs
      obtain ⟨hspos, hsle⟩ := ih hattached hs
      have hle : c.writer P t read.address ≤ t := Setup.writer_le _ _
      exact ⟨hspos, by omega⟩

/-- A round that has a proof for every open writer goes one level deeper. -/
theorem Attached.attach (h : Attached P c i t sp)
    (hproofs : ∀ s ∈ collectUnprovedWriters sp, ∃ wp, proofs s = some wp ∧ Attached P c 0 s wp) :
    Attached P c (i + 1) t (attachWriterProofs proofs sp) := by
  induction i generalizing t sp with
  | zero =>
    obtain ⟨hshows, hnone⟩ := h
    refine ⟨hshows.attach, ?_⟩
    rw [attachWriterProofs_eq]
    intro w' hw'
    obtain ⟨w, hw, rfl⟩ := List.mem_map.mp hw'
    rw [attachWriter_of_none (hnone w hw)]
    by_cases htype : w.proofType = 1
    · obtain ⟨wp, hwp, hattached⟩ := hproofs w.writerStepId (by
        rw [collectUnprovedWriters_eq, List.mem_flatMap]
        exact ⟨w, hw, by rw [collectWriter_of_none (hnone w hw), if_pos htype]; simp⟩)
      dsimp only
      rw [if_pos htype, if_pos htype]
      exact ⟨wp, hwp, hattached⟩
    · dsimp only
      rw [if_neg htype, if_neg htype]
  | succ i ih =>
    obtain ⟨hshows, hall⟩ := h
    refine ⟨hshows.attach, ?_⟩
    rw [attachWriterProofs_eq]
    intro w' hw'
    obtain ⟨w, hw, rfl⟩ := List.mem_map.mp hw'
    have hentry := hall w hw
    by_cases htype : w.proofType = 1
    · rw [if_pos htype] at hentry
      obtain ⟨witness, hsome, hattached⟩ := hentry
      rw [attachWriter_of_some hsome, if_pos htype]
      refine ⟨_, rfl, ih hattached ?_⟩
      intro s hs
      apply hproofs
      rw [collectUnprovedWriters_eq, List.mem_flatMap]
      exact ⟨w, hw, by rwa [collectWriter_of_some hsome]⟩
    · rw [if_neg htype] at hentry
      rw [attachWriter_of_none hentry]
      dsimp only
      rw [if_neg htype, if_neg htype]

theorem Attached.succ (h : Attached P c i t sp) (hnone : collectUnprovedWriters sp = []) :
    Attached P c (i + 1) t sp := by
  have hwriters : ∀ w ∈ sp.writers, collectWriter w = [] := by
    rw [collectUnprovedWriters_eq] at hnone
    exact List.flatMap_eq_nil_iff.mp hnone
  induction i generalizing t sp with
  | zero =>
    obtain ⟨hshows, hopen⟩ := h
    refine ⟨hshows, ?_⟩
    intro w hw
    have hcollected := hwriters w hw
    rw [collectWriter_of_none (hopen w hw)] at hcollected
    have htype : w.proofType ≠ 1 := by
      intro htype
      rw [if_pos htype] at hcollected
      cases hcollected
    rw [if_neg htype]
    exact hopen w hw
  | succ i ih =>
    obtain ⟨hshows, hall⟩ := h
    refine ⟨hshows, ?_⟩
    intro w hw
    have hentry := hall w hw
    by_cases htype : w.proofType = 1
    · rw [if_pos htype] at hentry ⊢
      obtain ⟨witness, hsome, hattached⟩ := hentry
      have hcollected : collectUnprovedWriters witness = [] := by
        rw [← collectWriter_of_some hsome]
        exact hwriters w hw
      refine ⟨witness, hsome, ih hattached hcollected ?_⟩
      rw [collectUnprovedWriters_eq] at hcollected
      exact List.flatMap_eq_nil_iff.mp hcollected
    · rw [if_neg htype] at hentry ⊢
      exact hentry

/-- After as many rounds the witnesses are as many levels deep. -/
theorem Setup.Ready.attachRecursiveWriters_eq (h : c.Ready) {rootChain : RootChain}
    (hchain : ChainOf P c rootChain) {rounds i : Nat} {ts : List Nat} {sps : List StepProof}
    (hts : ∀ t ∈ ts, t ≤ c.params.totalSteps) (hall : List.Forall₂ (Attached P c i) ts sps) :
    ∃ sps', attachRecursiveWriters P c.seed c.params rootChain (c.entangleAt 0 []) rounds sps
        = .ok sps'
      ∧ List.Forall₂ (Attached P c (i + rounds)) ts sps' := by
  induction rounds generalizing i sps with
  | zero => exact ⟨sps, rfl, hall⟩
  | succ rounds ih =>
    rw [← Nat.add_assoc, Nat.add_right_comm]
    by_cases hneeded : sps.flatMap collectUnprovedWriters = []
    · -- later rounds find nothing either
      refine ⟨sps, by rw [attachRecursiveWriters, if_pos hneeded], ?_⟩
      have hnext : ∀ k, List.Forall₂ (Attached P c (i + k)) ts sps := by
        intro k
        induction k with
        | zero => exact hall
        | succ k ihk =>
          apply List.forall₂_iff_zip.mpr
          refine ⟨ihk.length_eq, ?_⟩
          intro t sp hmem
          apply Attached.succ ((List.forall₂_iff_zip.mp ihk).2 hmem)
          exact List.flatMap_eq_nil_iff.mp hneeded sp (List.of_mem_zip hmem).2
      rw [Nat.add_right_comm]
      exact hnext (rounds + 1)
    · have hrange : ∀ s ∈ sps.flatMap collectUnprovedWriters,
          0 < s ∧ s ≤ c.params.totalSteps := by
        intro s hs
        obtain ⟨sp, hsp, hs⟩ := List.mem_flatMap.mp hs
        obtain ⟨t, ht, hattached⟩ := exists_of_mem_right hall hsp
        obtain ⟨hpos, hle⟩ := hattached.collected hs
        exact ⟨hpos, Nat.le_trans hle (hts t ht)⟩
      obtain ⟨proofs, hreplay, hproofs⟩ := h.replayForWriterProofs_eq hchain hneeded hrange
      obtain ⟨sps', hrun, hall'⟩ := @ih (i + 1) (sps.map (attachWriterProofs proofs)) (by
        apply List.forall₂_map_right_iff.mpr
        apply List.forall₂_iff_zip.mpr
        refine ⟨hall.length_eq, ?_⟩
        intro t sp hmem
        apply Attached.attach ((List.forall₂_iff_zip.mp hall).2 hmem)
        intro s hs
        exact hproofs s (List.mem_flatMap.mpr ⟨sp, (List.of_mem_zip hmem).2, hs⟩))
      refine ⟨sps', ?_, hall'⟩
      rw [attachRecursiveWriters, if_neg hneeded, hreplay, res_ok_bind]
      exact hrun

end WritersProof.Posme
