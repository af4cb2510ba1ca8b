/-
  WritersProof.Checkpoint.Commit

  The end of a commit (crates/cpoe/src/checkpoint/chain.rs, mmr.rs): the checkpoint is
  bound to the mountain range of its chain, appended to it as a leaf, and pushed.

  The leaf is stored before the calls that may still fail, and the checkpoint is pushed
  after them.
-/
import WritersProof.Checkpoint.Verified
import WritersProof.Mmr.Unreliable

namespace WritersProof.Checkpoint

open Rust Call FixedBytes MountainRange
open Mmr (Mmr Store MemoryStore NodeHasher InclusionProof MmrError Hash32 Represents Outages
  UnreliableStore sha256Hasher)

/-- The variants of `crate::error::Error` that a commit ends with. -/
inductive CommitError where
  | other (e : Error)
  | mmr (e : MmrError)
  deriving DecidableEq

/-- Result of appending a checkpoint to the MMR, distinguishing fresh appends from idempotent
duplicates. -/
inductive AppendResult where
  | new (proof : InclusionProof Hash32)
  | existing (proof : InclusionProof Hash32)

def AppendResult.proof : AppendResult → InclusionProof Hash32
  | .new proof => proof
  | .existing proof => proof

structure AnchoredChain (S : Type) where
  chain : Chain
  mmr : Option (Mmr S Hash32)
  deriving DecidableEq

section Defs

variable {S : Type} [Store S Hash32]

/-- The proof of the last leaf, when that is the checkpoint; one that is not found is none. -/
def existingProof (hs : NodeHasher Hash32) (hash : Digest) :
    Call (Mmr S Hash32) MmrError (Option (InclusionProof Hash32)) := do
  let m ← asks id
  let count ← lift m.leafCount
  if count = 0 then pure none
  else do
    let lastLeafIndex ← lift (m.getLeafIndex (count - 1))
    match ← attempt (Mmr.generateProof hs lastLeafIndex) with
    | .error _ => pure none
    | .ok proof => do
      let found ← lift (isOk (proof.verify hs hash.val))
      pure (if found then some proof else none)

def appendCheckpoint (hs : NodeHasher Hash32) (hash : Digest) :
    Call (Mmr S Hash32) MmrError AppendResult := do
  match ← existingProof hs hash with
  | some proof => pure (.existing proof)
  | none => do
    let leafIndex ← Mmr.append hs hash.val
    Mmr.onStore Store.sync
    let proof ← Mmr.generateProof hs leafIndex
    pure (.new proof)

variable {Argon2 : Type} (K : ChainCrates Argon2)

def recomputeHash (cp : Checkpoint) : Checkpoint :=
  match validateTimestamp K cp with
  | .ok () => { cp with hash := cp.computeHash K.sha256 }
  | .error _ => cp

/-- `finalize_checkpoint`, which has the root of the range before the append signed -/
def finalizeCheckpoint (cp : Checkpoint) :
    Call (Mmr S Hash32) MmrError (Checkpoint × AppendResult) := do
  let m ← asks id
  let count ← lift m.leafCount
  let preRoot ← lift
    (if 0 < count then m.getRoot (sha256Hasher K.sha256) else .ok (filled 32 0))
  let cp := recomputeHash K { cp with mmrRoot := some preRoot }
  let result ← appendCheckpoint (sha256Hasher K.sha256) cp.hash
  pure (cp, result)

/-- The hash of a checkpoint, and its proof when a range is attached. -/
def anchor (cp : Checkpoint) : Call (AnchoredChain S) CommitError Checkpoint := fun s =>
  match s.mmr with
  | none => (.ok { cp with hash := cp.computeHash K.sha256 }, s)
  | some mmr =>
    let (r, mmr) := finalizeCheckpoint K cp mmr
    (do
      let (cp, append) ← mapFault r .mmr
      let proof ← mapFault append.proof.serialize
        fun e => .other (.checkpoint ("MMR proof serialization failed: " ++ e.text))
      .ok { cp with mmrInclusionProof := some proof }, { s with mmr := some mmr })

/-- `self.checkpoints.push(checkpoint)` -/
def AnchoredChain.push (s : AnchoredChain S) (cp : Checkpoint) : AnchoredChain S :=
  { s with chain := { s.chain with checkpoints := s.chain.checkpoints ++ [cp] } }

/-- `commit_finish`, with what `runtime_integrity_check` says -/
def commitFinish (integrity : Except Error Unit) (cp : Checkpoint) :
    Call (AnchoredChain S) CommitError Checkpoint := do
  lift (mapErr integrity .other)
  lift (mapFault (validateTimestamp K cp) .other)
  let cp ← anchor K
    { cp with explicitHashVersion := some (cp.explicitHashVersion.getD cp.hashDomainVersion) }
  modify fun s => s.push cp
  pure cp

end Defs

section Over

variable {S : Type}

/-- The same chain over a store whose calls may fail -/
def AnchoredChain.withOutages (s : AnchoredChain S) (outages : Outages) :
    AnchoredChain (UnreliableStore S) :=
  { chain := s.chain, mmr := s.mmr.map fun m => m.withOutages outages }

def AnchoredChain.behind (s : AnchoredChain (UnreliableStore S)) : AnchoredChain S :=
  { chain := s.chain, mmr := s.mmr.map Mmr.behind }

theorem AnchoredChain.behind_over (s : AnchoredChain S) (outages : Outages) :
    (s.withOutages outages).behind = s := by
  obtain ⟨chain, mmr⟩ := s
  cases mmr with
  | none => rfl
  | some m => rfl

end Over

section Specs

variable {Argon2 : Type} (K : ChainCrates Argon2)

/-- A commit during which calls of the store fail. -/
def commitWith (outages : Outages) (integrity : Except Error Unit) (cp : Checkpoint) :
    Call (AnchoredChain (MemoryStore Hash32)) CommitError Checkpoint := fun s =>
  let (r, s') := commitFinish K integrity cp (s.withOutages outages)
  (r, s'.behind)

/-- The leaves of the attached range are the hashes of the checkpoints, in order. -/
def InStep (s : AnchoredChain (MemoryStore Hash32)) : Prop :=
  ∃ m, s.mmr = some m ∧ Represents (sha256Hasher K.sha256)
    (s.chain.checkpoints.map fun cp => cp.hash.val) m

/-- The inclusion proofs of the checkpoints pass, each against the root that the next checkpoint
has, and the last one has the root of the range. -/
structure Rooted (s : AnchoredChain (MemoryStore Hash32)) : Prop where
  passes : ∀ i cp, s.chain.checkpoints[i]? = some cp → MmrPasses K s.chain.checkpoints[i + 1]? cp
  last : ∀ cp ∈ s.chain.checkpoints.getLast?, ∀ bytes ∈ cp.mmrInclusionProof, ∀ m ∈ s.mmr,
    ∃ proof, InclusionProof.deserialize bytes = .ok proof
      ∧ m.getRoot (sha256Hasher K.sha256) = .ok proof.root

/-- After a failed commit from `s` to `s'` the chain and its range are in step, and a later commit
that succeeds leaves a chain whose proofs pass, if they did before. -/
structure Recovers (s s' : AnchoredChain (MemoryStore Hash32)) : Prop where
  inStep : InStep K s'
  rooted : Rooted K s → ∀ outages integrity cp cp' s'',
    commitWith K outages integrity cp s' = (.ok cp', s'') → Rooted K s''

/-- The commit fails before it stores its leaf. -/
def Unwritten (outages : Outages) (integrity : Except Error Unit) (cp : Checkpoint) : Prop :=
  integrity ≠ .ok () ∨ cp.timestamp.nanos < 0 ∨ 2 ^ 63 ≤ cp.timestamp.nanos
    ∨ outages.appends.head? = some .refused

end Specs

/-! ## Appends -/

/-- The proof is under the root of the range, fits its encoding and verifies. -/
structure Proves (hs : NodeHasher Hash32) (m : Mmr (MemoryStore Hash32) Hash32) (hash : Digest)
    (proof : InclusionProof Hash32) : Prop where
  root : m.getRoot hs = .ok proof.root
  fits : proof.Fits
  verified : proof.verify hs hash.val = .ok ()

section Append

variable {hs : NodeHasher Hash32} {data : List Bytes} {hash : Digest}
  {m m' : Mmr (UnreliableStore (MemoryStore Hash32)) Hash32}

theorem isOk_cases {δ ε : Type} (x : Res δ Unit) :
    (isOk (ε := ε) x = .ok true ∧ x = .ok ()) ∨ isOk (ε := ε) x = .ok false
      ∨ isOk (ε := ε) x = abort := by
  rcases x with (e | _) | u
  · exact .inr (.inl rfl)
  · exact .inr (.inr rfl)
  · exact .inl ⟨rfl, rfl⟩

theorem of_generateProof (hm : Represents hs data m.behind) {k : Nat} {d : Bytes}
    {proof : InclusionProof Hash32} (hd : data[k]? = some d)
    (h : Mmr.generateProof hs (size k) m = (.ok proof, m')) :
    m.behind.getRoot hs = .ok proof.root ∧ proof.Fits ∧ proof.verify hs d = .ok () := by
  have hbehind := (Mmr.reads_generateProof hs _).follows.eq_of_ok h
  obtain ⟨proof', hproof, hroot, hfits, hverify⟩ := hm.exists_proof hd
  rw [hbehind] at hproof
  obtain rfl := Except.ok.inj (Prod.mk.inj hproof).1
  exact ⟨hroot, hfits, hverify⟩

/-- Looking for the checkpoint writes nothing, and finds a proof of it or none. -/
theorem existingProof_cases (hm : Represents hs data m.behind)
    {r : Res MmrError (Option (InclusionProof Hash32))} (h : existingProof hs hash m = (r, m')) :
    m'.written = m.written
      ∧ (r = abort ∨ ∃ found, r = .ok found ∧ ∀ proof ∈ found, Proves hs m.behind hash proof) := by
  have hcount : m.leafCount = .ok data.length := hm.leafCount_eq
  rw [existingProof, asks_id_bind, hcount, lift_ok_bind] at h
  by_cases hzero : data.length = 0
  · rw [if_pos hzero] at h
    obtain ⟨rfl, rfl⟩ := Prod.mk.inj h
    exact ⟨rfl, .inr ⟨none, rfl, nofun⟩⟩
  · have hindex : m.getLeafIndex (data.length - 1) = .ok (size (data.length - 1)) :=
      hm.getLeafIndex_eq (by omega)
    rw [if_neg hzero, hindex, lift_ok_bind] at h
    have hkeeps := (Mmr.reads_generateProof hs (size (data.length - 1))).keeps m
    rcases attempt_cases (Mmr.generateProof hs (size (data.length - 1))) m with
      ⟨proof, hrun, hattempt⟩ | ⟨e, hrun, hattempt⟩ | ⟨hrun, hattempt⟩
    · rw [bind_of_ok hattempt] at h
      dsimp only at h
      have hlast : data[data.length - 1]? = some data[data.length - 1] :=
        List.getElem?_eq_getElem (by omega)
      obtain ⟨hroot, hfits, -⟩ := of_generateProof hm hlast hrun
      rcases isOk_cases (ε := MmrError) (proof.verify hs hash.val) with
        ⟨hisOk, hverify⟩ | hisOk | hisOk
      · rw [hisOk, lift_ok_bind] at h
        obtain ⟨rfl, rfl⟩ := Prod.mk.inj h
        refine ⟨hkeeps, .inr ⟨some proof, rfl, fun proof' hproof' => ?_⟩⟩
        obtain rfl := Option.some.inj hproof'
        exact ⟨hroot, hfits, hverify⟩
      · rw [hisOk, lift_ok_bind] at h
        obtain ⟨rfl, rfl⟩ := Prod.mk.inj h
        exact ⟨hkeeps, .inr ⟨none, rfl, nofun⟩⟩
      · rw [hisOk, abort, lift_error_bind] at h
        obtain ⟨rfl, rfl⟩ := Prod.mk.inj h
        exact ⟨hkeeps, .inl rfl⟩
    · rw [bind_of_ok hattempt] at h
      obtain ⟨rfl, rfl⟩ := Prod.mk.inj h
      exact ⟨hkeeps, .inr ⟨none, rfl, nofun⟩⟩
    · rw [bind_of_error hattempt] at h
      obtain ⟨rfl, rfl⟩ := Prod.mk.inj h
      exact ⟨hkeeps, .inl rfl⟩

/-- What an append of a checkpoint can do to a range, by what it returns. -/
inductive Appended (hs : NodeHasher Hash32) (data : List Bytes) (hash : Digest) (refused : Prop)
    (m m' : Mmr (MemoryStore Hash32) Hash32) : Res MmrError AppendResult → Prop where
  | aborted : Appended hs data hash refused m m' abort
  | refused {e : MmrError} : refused → m' = m → Appended hs data hash refused m m' (fail e)
  | torn {e : MmrError} : ¬ refused → Mmr.Grew m m' → Appended hs data hash refused m m' (fail e)
  | existing {proof : InclusionProof Hash32} : m' = m → Proves hs m' hash proof →
    Appended hs data hash refused m m' (.ok (.existing proof))
  | new {proof : InclusionProof Hash32} : Represents hs (data ++ [hash.val]) m' →
    Proves hs m' hash proof → Appended hs data hash refused m m' (.ok (.new proof))

/-- The calls after the append leave the range behind as it is, and prove the new leaf. -/
theorem proof_cases {d : Bytes} (hm : Represents hs (data ++ [d]) m.behind)
    {r : Res MmrError AppendResult}
    (h : (do
      Mmr.onStore Store.sync
      let proof ← Mmr.generateProof hs (size data.length)
      pure (AppendResult.new proof)) m = (r, m')) :
    m'.behind = m.behind ∧ ∀ append, r = .ok append → ∃ proof, append = .new proof
      ∧ m.behind.getRoot hs = .ok proof.root ∧ proof.Fits ∧ proof.verify hs d = .ok () := by
  rw [bind_apply] at h
  rcases hsync : Mmr.onStore (H := Hash32) Store.sync m with ⟨r₁, m₁⟩
  have hkept : m₁.behind = m.behind := by
    have hkeeps := Mmr.keeps_sync m
    rwa [hsync] at hkeeps
  rw [hsync] at h
  rcases r₁ with e | u
  · obtain ⟨rfl, rfl⟩ := Prod.mk.inj h
    exact ⟨hkept, nofun⟩
  · dsimp only at h
    rw [bind_apply] at h
    rcases hproof : Mmr.generateProof hs (size data.length) m₁ with ⟨r₂, m₂⟩
    have hsame : m₂.behind = m₁.behind := by
      have hkeeps := (Mmr.reads_generateProof hs (size data.length)).keeps m₁
      rw [hproof] at hkeeps
      exact congrArg Prod.fst hkeeps
    rw [hproof] at h
    rcases r₂ with e | proof
    · obtain ⟨rfl, rfl⟩ := Prod.mk.inj h
      exact ⟨hsame.trans hkept, nofun⟩
    · obtain ⟨rfl, rfl⟩ := Prod.mk.inj h
      refine ⟨hsame.trans hkept, fun append happend => ?_⟩
      rw [← hkept] at hm ⊢
      exact ⟨proof, (Except.ok.inj happend).symm,
        of_generateProof hm List.getElem?_concat_length hproof⟩

theorem appendCheckpoint_cases (hm : Represents hs data m.behind) {r : Res MmrError AppendResult}
    (h : appendCheckpoint hs hash m = (r, m')) :
    Appended hs data hash (m.store.outages.appends.head? = some .refused) m.behind m'.behind r := by
  rw [appendCheckpoint, bind_apply] at h
  rcases hfound : existingProof hs hash m with ⟨r₁, m₁⟩
  obtain ⟨hwritten, hcases⟩ := existingProof_cases hm hfound
  have hbehind : m₁.behind = m.behind := congrArg Prod.fst hwritten
  have houtages : m₁.store.outages.appends = m.store.outages.appends := congrArg Prod.snd hwritten
  rw [hfound] at h
  rcases hcases with rfl | ⟨found, rfl, hproves⟩
  · obtain ⟨rfl, rfl⟩ := Prod.mk.inj h
    exact .aborted
  · cases found with
    | some proof =>
      obtain ⟨rfl, rfl⟩ := Prod.mk.inj h
      rw [hbehind]
      exact .existing rfl (hproves proof rfl)
    | none =>
      dsimp only at h
      rw [bind_apply] at h
      rw [← hbehind] at hm ⊢
      rw [← houtages]
      rcases happ : Mmr.append hs hash.val m₁ with ⟨r₂, m₂⟩
      rw [happ] at h
      by_cases hrefused : m₁.store.outages.appends.head? = some .refused
      · obtain ⟨m₂', happ', hsame⟩ := Mmr.append_of_refused hs hrefused hash.val
        rw [happ] at happ'
        obtain ⟨rfl, rfl⟩ := Prod.mk.inj happ'
        obtain ⟨rfl, rfl⟩ := Prod.mk.inj h
        exact .refused hrefused hsame
      · have hgrew := Mmr.grew_of_append hm hrefused happ
        rcases r₂ with (e | _) | index
        · obtain ⟨rfl, rfl⟩ := Prod.mk.inj h
          exact .torn hrefused (hgrew.resolve_left nofun)
        · obtain ⟨rfl, rfl⟩ := Prod.mk.inj h
          exact .aborted
        · obtain ⟨rfl, hrep⟩ := Mmr.represents_of_append hm happ
          obtain ⟨hkept, hproof⟩ := proof_cases hrep h
          rcases r with (e | _) | append
          · rw [hkept]
            exact .torn hrefused (hgrew.resolve_left nofun)
          · exact .aborted
          · obtain ⟨proof, rfl, hroot, hfits, hverified⟩ := hproof append rfl
            rw [hkept]
            exact .new hrep ⟨hroot, hfits, hverified⟩

end Append

/-! ## Commits -/

section Commit

variable {Argon2 : Type} {K : ChainCrates Argon2} {data : List Bytes}

def bound (K : ChainCrates Argon2) (cp : Checkpoint) (preRoot : Digest) : Checkpoint :=
  recomputeHash K { cp with mmrRoot := some preRoot }

theorem mmrRoot_bound (cp : Checkpoint) (preRoot : Digest) :
    (bound K cp preRoot).mmrRoot = some preRoot := by
  unfold bound recomputeHash
  split
  · rfl
  · rfl

theorem finalizeCheckpoint_eq {m : Mmr (UnreliableStore (MemoryStore Hash32)) Hash32}
    (hm : Represents (sha256Hasher K.sha256) data m.behind) (cp : Checkpoint) :
    ∃ preRoot, (data ≠ [] → m.behind.getRoot (sha256Hasher K.sha256) = .ok preRoot)
      ∧ finalizeCheckpoint K cp m
        = (appendCheckpoint (sha256Hasher K.sha256) (bound K cp preRoot).hash >>= fun append =>
          pure (bound K cp preRoot, append)) m := by
  have hcount : m.leafCount = .ok data.length := hm.leafCount_eq
  rw [finalizeCheckpoint, asks_id_bind, hcount, lift_ok_bind]
  by_cases hpos : 0 < data.length
  · obtain ⟨preRoot, hroot⟩ := hm.exists_root hpos
    have hroot' : m.getRoot (sha256Hasher K.sha256) = .ok preRoot := hroot
    rw [if_pos hpos, hroot', lift_ok_bind]
    exact ⟨preRoot, fun _ => hroot, rfl⟩
  · rw [if_neg hpos]
    refine ⟨filled 32 0, fun hne => ?_, rfl⟩
    exact absurd (List.length_pos_of_ne_nil hne) hpos

theorem anchor_eq {t : AnchoredChain (UnreliableStore (MemoryStore Hash32))}
    {m : Mmr (UnreliableStore (MemoryStore Hash32)) Hash32} (hmmr : t.mmr = some m)
    (hm : Represents (sha256Hasher K.sha256) data m.behind) (cp : Checkpoint) :
    ∃ preRoot, (data ≠ [] → m.behind.getRoot (sha256Hasher K.sha256) = .ok preRoot)
      ∧ ∀ r m', appendCheckpoint (sha256Hasher K.sha256) (bound K cp preRoot).hash m = (r, m') →
        anchor K cp t = (do
          let append ← mapFault r .mmr
          let proof ← mapFault append.proof.serialize
            fun e => .other (.checkpoint ("MMR proof serialization failed: " ++ e.text))
          .ok { bound K cp preRoot with mmrInclusionProof := some proof },
            { t with mmr := some m' }) := by
  obtain ⟨preRoot, hroot, hfinalize⟩ := finalizeCheckpoint_eq (K := K) hm cp
  refine ⟨preRoot, hroot, fun r m' happend => ?_⟩
  rw [anchor, hmmr]
  dsimp only
  rw [hfinalize, bind_apply, happend]
  rcases r with (e | _) | append
  · rfl
  · rfl
  · rfl

/-- What a commit on a range that represents `data` can do, by what it returns. -/
inductive Committed (K : ChainCrates Argon2) (data : List Bytes) (outages : Outages)
    (integrity : Except Error Unit) (cp : Checkpoint) (s : AnchoredChain (MemoryStore Hash32))
    (m : Mmr (MemoryStore Hash32) Hash32) :
    Res CommitError Checkpoint → AnchoredChain (MemoryStore Hash32) → Prop where
  | rejected {e : Fault CommitError} : Unwritten outages integrity cp →
    Committed K data outages integrity cp s m (.error e) s
  | aborted {s' : AnchoredChain (MemoryStore Hash32)} :
    Committed K data outages integrity cp s m abort s'
  | torn {e : CommitError} {m' : Mmr (MemoryStore Hash32) Hash32} :
    ¬ Unwritten outages integrity cp → Mmr.Grew m m' →
    Committed K data outages integrity cp s m (fail e) { s with mmr := some m' }
  | done {cp' : Checkpoint} {preRoot : Digest} {proof : InclusionProof Hash32}
    {m' : Mmr (MemoryStore Hash32) Hash32} :
    (data ≠ [] → m.getRoot (sha256Hasher K.sha256) = .ok preRoot) → cp'.mmrRoot = some preRoot →
    cp'.mmrInclusionProof = some proof.encoding →
    Proves (sha256Hasher K.sha256) m' cp'.hash proof →
    Committed K data outages integrity cp s m (.ok cp') ({ s with mmr := some m' }.push cp')

variable {integrity : Except Error Unit} {cp : Checkpoint}

/-- A commit whose checks pass goes by the append of its checkpoint. -/
theorem commitFinish_eq {S : Type} [Store S Hash32] (hintegrity : integrity = .ok ())
    (hvalid : 0 ≤ cp.timestamp.nanos ∧ cp.timestamp.nanos < 2 ^ 63) (t : AnchoredChain S) :
    ∃ cp₁, commitFinish K integrity cp t
      = (do
        let cp' ← anchor K cp₁
        modify fun s => s.push cp'
        pure cp') t := by
  rw [commitFinish, hintegrity, validateTimestamp_eq_ok.mpr hvalid]
  exact ⟨_, rfl⟩

/-- A commit that fails a check has not touched anything. -/
theorem commitFinish_of_rejected {S : Type} [Store S Hash32]
    (h : ¬ (integrity = .ok () ∧ 0 ≤ cp.timestamp.nanos ∧ cp.timestamp.nanos < 2 ^ 63))
    (t : AnchoredChain S) :
    ∃ e, commitFinish K integrity cp t = (.error e, t) := by
  rw [commitFinish]
  rcases hintegrity : integrity with e | u
  · exact ⟨_, rfl⟩
  · rcases hchecked : mapFault (validateTimestamp K cp) CommitError.other with e | v
    · exact ⟨e, rfl⟩
    · have hvalid := validateTimestamp_eq_ok.mp (mapFault_eq_ok.mp hchecked)
      exact absurd ⟨hintegrity, hvalid⟩ h

variable {outages : Outages} {s s' : AnchoredChain (MemoryStore Hash32)}

theorem commitWith_cases {m : Mmr (MemoryStore Hash32) Hash32} (hmmr : s.mmr = some m)
    (hm : Represents (sha256Hasher K.sha256) data m) {r : Res CommitError Checkpoint}
    (h : commitWith K outages integrity cp s = (r, s')) :
    Committed K data outages integrity cp s m r s' := by
  by_cases hchecks : integrity = .ok () ∧ 0 ≤ cp.timestamp.nanos ∧ cp.timestamp.nanos < 2 ^ 63
  · obtain ⟨hintegrity, hvalid⟩ := hchecks
    obtain ⟨cp₁, hrun⟩ := commitFinish_eq (K := K) hintegrity hvalid (s.withOutages outages)
    have hover : (s.withOutages outages).mmr = some (m.withOutages outages) := by
      rw [AnchoredChain.withOutages, hmmr]
      rfl
    obtain ⟨preRoot, hroot, hanchor⟩ := anchor_eq (K := K) hover hm cp₁
    rcases happend : appendCheckpoint (sha256Hasher K.sha256) (bound K cp₁ preRoot).hash
      (m.withOutages outages) with ⟨r₁, m₁⟩
    -- an append that succeeds has a proof that serializes
    have hdone : ∀ append, r₁ = .ok append →
        Proves (sha256Hasher K.sha256) m₁.behind (bound K cp₁ preRoot).hash append.proof →
        Committed K data outages integrity cp s m r s' := by
      rintro append rfl hproves
      have hserialized : mapFault append.proof.serialize (fun e => CommitError.other
          (.checkpoint ("MMR proof serialization failed: " ++ e.text)))
          = .ok append.proof.encoding := by
        rw [InclusionProof.serialize_eq hproves.fits]
        rfl
      have hanchored := hanchor _ m₁ happend
      rw [show mapFault (.ok append) CommitError.mmr = .ok append from rfl, res_ok_bind,
        hserialized, res_ok_bind] at hanchored
      rw [commitWith, hrun, bind_of_ok hanchored] at h
      obtain ⟨rfl, rfl⟩ := Prod.mk.inj h
      exact .done hroot (mmrRoot_bound cp₁ preRoot) rfl hproves
    rw [commitWith, hrun, bind_apply, hanchor r₁ m₁ happend] at h
    cases appendCheckpoint_cases hm happend with
    | aborted =>
      obtain ⟨rfl, -⟩ := Prod.mk.inj h
      exact .aborted
    | refused hrefused hsame =>
      obtain ⟨rfl, rfl⟩ := Prod.mk.inj h
      have hs : (⟨s.chain, some m₁.behind⟩ : AnchoredChain (MemoryStore Hash32)) = s := by
        rw [hsame]
        exact congrArg (AnchoredChain.mk s.chain) hmmr.symm
      show Committed K data outages integrity cp s m _ ⟨s.chain, some m₁.behind⟩
      rw [hs]
      exact .rejected (.inr (.inr (.inr hrefused)))
    | torn hwritten hgrew =>
      obtain ⟨rfl, rfl⟩ := Prod.mk.inj h
      refine .torn ?_ hgrew
      rintro (hfailed | hneg | hlate | hrefused)
      · exact hfailed hintegrity
      · omega
      · omega
      · exact hwritten hrefused
    | existing hsame hproves => exact hdone _ rfl hproves
    | new hrep hproves => exact hdone _ rfl hproves
  · obtain ⟨e, hrun⟩ := commitFinish_of_rejected (K := K) hchecks (s.withOutages outages)
    rw [commitWith, hrun] at h
    obtain ⟨rfl, rfl⟩ := Prod.mk.inj h
    rw [s.behind_over]
    refine .rejected ?_
    by_cases hintegrity : integrity = .ok ()
    · have hinvalid : ¬ (0 ≤ cp.timestamp.nanos ∧ cp.timestamp.nanos < 2 ^ 63) :=
        fun hvalid => hchecks ⟨hintegrity, hvalid⟩
      rcases lt_or_ge cp.timestamp.nanos 0 with hneg | hpos
      · exact .inr (.inl hneg)
      · exact .inr (.inr (.inl (by omega)))
    · exact .inl hintegrity

theorem mmrPasses_of_proves {m : Mmr (MemoryStore Hash32) Hash32} {proof : InclusionProof Hash32}
    (hproof : cp.mmrInclusionProof = some proof.encoding)
    (hproves : Proves (sha256Hasher K.sha256) m cp.hash proof) : MmrPasses K none cp := by
  intro bytes hbytes
  have hbytes' : proof.encoding = bytes := Option.some.inj (hproof.symm.trans hbytes)
  rw [← hbytes']
  refine ⟨proof, InclusionProof.deserialize_encoding hproves.fits, hproves.verified, ?_⟩
  intro n hn
  exact absurd hn (Option.not_mem_none n)

/-- A commit that succeeds keeps the proofs passing: the last one is under the root that the new
checkpoint has. -/
theorem rooted_of_commit {cp cp' : Checkpoint} (hstep : InStep K s) (hrooted : Rooted K s)
    (h : commitWith K outages integrity cp s = (.ok cp', s')) : Rooted K s' := by
  obtain ⟨m, hmmr, hm⟩ := hstep
  cases commitWith_cases hmmr hm h with
  | @done _ preRoot proof m' hroot hmmrRoot hproof hproves =>
    constructor
    · intro i c hc
      show MmrPasses K (s.chain.checkpoints ++ [cp'])[i + 1]? c
      have hc' : (s.chain.checkpoints ++ [cp'])[i]? = some c := hc
      rcases Nat.lt_trichotomy (i + 1) s.chain.checkpoints.length with hlt | heq | hgt
      · rw [List.getElem?_append_left (by omega)] at hc'
        rw [List.getElem?_append_left hlt]
        exact hrooted.passes i c hc'
      · -- the last checkpoint before the new one
        rw [List.getElem?_append_left (by omega)] at hc'
        rw [heq, List.getElem?_concat_length]
        intro bytes hbytes
        obtain ⟨proof', hdeserialize, hverify, -⟩ := hrooted.passes i c hc' bytes hbytes
        refine ⟨proof', hdeserialize, hverify, ?_⟩
        intro n hn root hmem
        obtain rfl : cp' = n := Option.some.inj hn
        have hpre : preRoot = root := Option.some.inj (hmmrRoot.symm.trans hmem)
        have hlast : s.chain.checkpoints.getLast? = some c := by
          rw [List.getLast?_eq_getElem?, ← heq, Nat.add_sub_cancel, hc']
        obtain ⟨proof'', hdeserialize', hroot'⟩ := hrooted.last c hlast bytes hbytes m hmmr
        obtain rfl : proof' = proof'' := Except.ok.inj (hdeserialize.symm.trans hdeserialize')
        have hne : (s.chain.checkpoints.map fun cp => cp.hash.val) ≠ [] := by
          intro hnil
          rw [List.map_eq_nil_iff.mp hnil] at heq
          exact absurd heq (Nat.succ_ne_zero i)
        rw [← hpre]
        exact Except.ok.inj (hroot'.symm.trans (hroot hne))
      · -- the new checkpoint
        obtain ⟨hi, -⟩ := List.getElem?_eq_some_iff.mp hc'
        rw [List.length_append, List.length_singleton] at hi
        obtain rfl : i = s.chain.checkpoints.length := by omega
        rw [List.getElem?_concat_length] at hc'
        obtain rfl : cp' = c := Option.some.inj hc'
        rw [List.getElem?_eq_none (by rw [List.length_append, List.length_singleton])]
        exact mmrPasses_of_proves hproof hproves
    · intro c hc bytes hbytes m₁ hm₁
      have hlast : (s.chain.checkpoints ++ [cp']).getLast? = some c := hc
      rw [List.getLast?_concat] at hlast
      obtain rfl : cp' = c := Option.some.inj hlast
      obtain rfl : m' = m₁ := Option.some.inj hm₁
      have hbytes' : proof.encoding = bytes := Option.some.inj (hproof.symm.trans hbytes)
      rw [← hbytes']
      exact ⟨proof, InclusionProof.deserialize_encoding hproves.fits, hproves.root⟩

/-- A commit that fails leaves the chain and its range in step exactly when it fails before the
leaf is stored; and then a later commit that succeeds leaves a chain whose proofs pass. -/
theorem recovers_iff (K : ChainCrates Argon2) {s s' : AnchoredChain (MemoryStore Hash32)}
    (hstep : InStep K s) {outages : Outages} {integrity : Except Error Unit} {cp : Checkpoint}
    {e : CommitError} (h : commitWith K outages integrity cp s = (fail e, s')) :
    Recovers K s s' ↔ Unwritten outages integrity cp := by
  obtain ⟨m, hmmr, hm⟩ := id hstep
  have hcases := commitWith_cases hmmr hm h
  generalize hr : (fail e : Res CommitError Checkpoint) = r at hcases
  cases hcases with
  | rejected hunwritten =>
    exact iff_of_true ⟨hstep, fun hrooted _ _ _ _ _ hlater => rooted_of_commit hstep hrooted hlater⟩
      hunwritten
  | aborted => cases hr
  | torn hwritten hgrew =>
    refine iff_of_false (fun hrecovers => ?_) hwritten
    obtain ⟨m', hm', hrep⟩ := hrecovers.inStep
    obtain rfl := Option.some.inj hm'
    exact hgrew.not_represents hm hrep
  | done => cases hr

end Commit

/-! ### Two commits -/

/-- Crates that hash by summing up. -/
def sumCommitCrates : ChainCrates Unit :=
  { sha256 := fun bytes => filled 32 bytes.sum
    documentRefCbor := fun docRef => .ok docRef.contentHash.val
    argon2 := .idle fun bytes => filled 32 bytes.sum
    dateText := fun _ => "" }

/-- A chain without checkpoints, and an empty range. -/
def freshChain : AnchoredChain (MemoryStore Hash32) :=
  { chain :=
      { metadata :=
          { documentPath := "essay.txt", vdfParams := defaultParameters, entanglementMode := .legacy
            signaturePolicy := .optional }
        checkpoints := [] }
    mmr := some Mmr.empty }

theorem inStep_freshChain : InStep sumCommitCrates freshChain :=
  ⟨Mmr.empty, rfl, Mmr.represents_nil⟩

def firstCheckpoint : Checkpoint :=
  .newBase 0 (filled 32 0) (filled 32 1) 10 (.ofNanos 1000)

/-- The chain with the first checkpoint committed. -/
def committedChain : AnchoredChain (MemoryStore Hash32) :=
  (commitWith sumCommitCrates ⟨[], [], []⟩ (.ok ()) firstCheckpoint freshChain).2

/-- The hash of that checkpoint. -/
def firstLeaf : Bytes := (filled 32 202).val

theorem inStep_committedChain : InStep sumCommitCrates committedChain := by
  have hrun : committedChain.chain.checkpoints.map (fun cp => cp.hash.val) = [firstLeaf]
      ∧ committedChain.mmr = some
        (Mmr.append (sha256Hasher sumCommitCrates.sha256) firstLeaf Mmr.empty).2 := by
    decide +kernel
  have happend := Mmr.append_represents
    (@Mmr.represents_nil _ (sha256Hasher sumCommitCrates.sha256)) firstLeaf
  rw [if_pos (by decide)] at happend
  obtain ⟨m, happend, hm⟩ := happend
  refine ⟨m, ?_, ?_⟩
  · rw [hrun.2, happend]
  · rw [hrun.1]
    exact hm

def secondCheckpoint : Checkpoint :=
  .newBase 1 (filled 32 202) (filled 32 2) 20 (.ofNanos 2000)

/-- The second commit is refused its leaf. -/
theorem recovers_committedChain :
    commitWith sumCommitCrates ⟨[.refused], [], []⟩ (.ok ()) secondCheckpoint committedChain
      = (fail (.mmr .io), committedChain)
    ∧ (Recovers sumCommitCrates committedChain committedChain
      ↔ Unwritten ⟨[.refused], [], []⟩ (.ok ()) secondCheckpoint) :=
  have hcommit :
      commitWith sumCommitCrates ⟨[.refused], [], []⟩ (.ok ()) secondCheckpoint committedChain
        = (fail (.mmr .io), committedChain) := by decide +kernel
  ⟨hcommit, recovers_iff sumCommitCrates inStep_committedChain hcommit⟩

/-- The sync after the append fails. -/
def unsyncedChain : AnchoredChain (MemoryStore Hash32) :=
  (commitWith sumCommitCrates ⟨[], [], [true]⟩ (.ok ()) firstCheckpoint freshChain).2

/-- There is a leaf then, and no checkpoint. -/
theorem not_recovers : ¬ ∀ (K : ChainCrates Unit) (s s' : AnchoredChain (MemoryStore Hash32))
    (outages : Outages) (integrity : Except Error Unit) (cp : Checkpoint) (e : CommitError),
    InStep K s → commitWith K outages integrity cp s = (fail e, s') → Recovers K s s' := by
  intro h
  have hfail : (commitWith sumCommitCrates ⟨[], [], [true]⟩ (.ok ()) firstCheckpoint
      freshChain).1 = fail (.mmr .io) := by decide +kernel
  have hrecovers := h sumCommitCrates freshChain unsyncedChain ⟨[], [], [true]⟩ (.ok ())
    firstCheckpoint (.mmr .io) inStep_freshChain (Prod.ext hfail rfl)
  obtain ⟨m, hmmr, hrep⟩ := hrecovers.inStep
  have hstate : unsyncedChain.chain.checkpoints = []
      ∧ unsyncedChain.mmr.map (fun m => m.state.size) = some 1 := by decide +kernel
  rw [hmmr] at hstate
  have hsize : m.state.size = 1 := Option.some.inj hstate.2
  rw [hrep.size_eq, hstate.1] at hsize
  exact absurd hsize (by decide)

end WritersProof.Checkpoint
