/-
  WritersProof.KeyHierarchy.Runs

  A session over any order of its operations.

  A signature on chain metadata moves the ratchet, and its ordinal, but is not among
  the signatures of the session.  From then on the two numbers differ: the next
  checkpoint signature gets an ordinal that its verifier does not accept, and a
  recovery finds an ordinal that it does not expect.

  Evidence repeats at its top level what is in the session certificate and in the
  master identity.  The verifier compares the identity's key with the certificate's,
  and the fingerprint with the evidence's own master key.  Nothing compares the other
  copies (`Labelled`), and so an accepted evidence is bound to its certificate exactly
  when these are right.
-/
import WritersProof.KeyHierarchy.Recovery
import Mathlib.Data.List.Induction

namespace WritersProof.KeyHierarchy

open Rust FixedBytes

/-- An operation, with what it takes from the TPM, the clock and the random source. -/
inductive Op where
  | signCheckpoint (checkpointHash : Digest)
  | signCheckpointWithCounter (checkpointHash : Digest) (counter : Option Nat)
  | signChainMetadata (metadata : ChainIntegrityMetadata)
  | exportEvidence (identity : MasterIdentity)
  | exportRecovery (nonce : FixedBytes 12)
  | recover (nonce : FixedBytes 12) (now : Int) (documentHash : Digest)

namespace Op

def counter : Op → Option Nat
  | .signCheckpointWithCounter _ counter => counter
  | _ => none

def isMetadata : Op → Bool
  | .signChainMetadata _ => true
  | _ => false

end Op

section Defs

variable (C : Crypto) (puf : Puf)

/-- The session after an operation that returns; after a recovery the recovered one. -/
def Session.step (s : Session) : Op → Res KeyHierarchyError Session
  | .signCheckpoint checkpointHash => do
    let (_, s) ← s.signCheckpoint C checkpointHash
    .ok s
  | .signCheckpointWithCounter checkpointHash counter => do
    let (_, s) ← s.signCheckpointWithCounter C checkpointHash counter
    .ok s
  | .signChainMetadata metadata => do
    let (_, s) ← s.signChainMetadata C metadata
    .ok s
  | .exportEvidence _ => .ok s
  | .exportRecovery nonce => do
    let (_, s) ← s.exportRecoveryState C puf nonce
    .ok s
  | .recover nonce now documentHash => do
    let (state, _) ← s.exportRecoveryState C puf nonce
    recoverSession C puf now state documentHash

inductive Run (start : Session) : List Op → Session → Prop
  | start : Run start [] start
  | step {ops : List Op} {s s' : Session} (op : Op) :
      Run start ops s → s.step C puf op = .ok s' → Run start (ops ++ [op]) s'

/-- All that is signed verifies, and what is exported is recovered as it was. -/
structure Sound (now : Int) (s : Session) : Prop where
  signatures : verifyCheckpointSignatures C s.signatures = .ok ()
  evidence : ∀ identity, deriveMasterIdentity C puf = .ok identity →
    verifyKeyHierarchy C now (s.exportEvidence identity) = .ok ()
  recovery : ∀ nonce state s', s.exportRecoveryState C puf nonce = .ok (state, s') →
    recoverSession C puf now state s.certificate.documentHash = .ok s'

end Defs

variable {C : Crypto} {puf : Puf}

/-- The counters that were read do not go back. -/
def Nondecreasing (ops : List Op) : Prop := (ops.filterMap Op.counter).Pairwise (· ≤ ·)

def NoMetadata (ops : List Op) : Prop := ∀ op ∈ ops, op.isMetadata = false

variable {ops : List Op} {op : Op} {s s' start : Session} {hash : Digest} {delta : Option Nat}
  {input : Bytes} {sig : CheckpointSignature} {now : Int} {cert : SessionCertificate}
  {evidence : KeyHierarchyEvidence}

theorem noMetadata_concat : NoMetadata (ops ++ [op]) ↔ NoMetadata ops ∧ op.isMetadata = false := by
  unfold NoMetadata
  rw [List.forall_mem_append, List.forall_mem_singleton]

/-! ## The invariant -/

/-- The scan of the signatures so far, of which the counters were read by the operations. -/
structure Scanned (C : Crypto) (ops : List Op) (sigs : List CheckpointSignature)
    (st : CounterState) :
    Prop where
  scan : scanSignatures C 0 { prevCounter := none, prevWasAdjacent := false } sigs = .ok st
  remembers : Remembers st sigs
  prev_mem : ∀ prev ∈ st.prevCounter, prev ∈ ops.filterMap Op.counter

/-- The ratchet counts the signatures, and the metadata signatures on top of them. -/
structure Inv (C : Crypto) (start : Session) (ops : List Op) (s : Session) : Prop where
  certificate : s.certificate = start.certificate
  wiped : s.ratchet.wiped = false
  ordinal_lt : s.ratchet.ordinal < 2 ^ 64
  length_le : s.signatures.length ≤ s.ratchet.ordinal
  ordinal_eq : NoMetadata ops ↔ s.ratchet.ordinal = s.signatures.length
  scanned : NoMetadata ops → ∃ st, Scanned C ops s.signatures st

theorem inv_start (masterKey documentHash sessionId : Digest) (createdAt : Int) :
    Inv C (startSessionInner C masterKey documentHash sessionId createdAt) []
      (startSessionInner C masterKey documentHash sessionId createdAt) := by
  refine ⟨rfl, rfl, Nat.two_pow_pos 64, Nat.le_refl 0, ?_, fun _ => ⟨_, rfl, rfl, ?_⟩⟩
  · exact ⟨fun _ => rfl, fun _ _ h => absurd h List.not_mem_nil⟩
  · intro prev hprev
    cases hprev

theorem signWith_eq_ok {value : Option Nat}
    (h : s.signWith C hash value delta input = .ok (sig, s')) :
    s.ratchet.ordinal + 1 < 2 ^ 64 ∧ s'.certificate = s.certificate
      ∧ s'.ratchet.wiped = s.ratchet.wiped ∧ s'.ratchet.ordinal = s.ratchet.ordinal + 1
      ∧ s'.signatures = s.signatures ++ [s.checkpointSignature C hash value delta] := by
  obtain ⟨-, h⟩ := reject_bind_eq_ok.mp h
  obtain ⟨ratchet, hratchet, h⟩ := res_bind_eq_ok.mp h
  obtain ⟨ordinal, hordinal, hratchet⟩ := res_bind_eq_ok.mp hratchet
  obtain ⟨hlt, rfl⟩ := unwrap_checkedAdd_eq_ok.mp hordinal
  obtain ⟨-, rfl⟩ := Prod.mk.inj (Except.ok.inj h)
  obtain rfl := Except.ok.inj hratchet
  exact ⟨hlt, rfl, rfl, rfl, rfl⟩

/-- A checkpoint signature, with or without a counter. -/
theorem inv_sign (hC : C.Correct) (h : Inv C start ops s) (hmeta : op.isMetadata = false)
    (hdelta : delta = s.counterDelta op.counter) (hcounters : Nondecreasing (ops ++ [op]))
    (hsign : s.signWith C hash op.counter delta input = .ok (sig, s')) :
    Inv C start (ops ++ [op]) s' := by
  obtain ⟨hlt, hcert, hwiped, hordinal, hsigs⟩ := signWith_eq_ok hsign
  have hiff : NoMetadata (ops ++ [op]) ↔ NoMetadata ops := by
    rw [noMetadata_concat, hmeta]
    exact and_iff_left rfl
  refine ⟨hcert.trans h.certificate, hwiped.trans h.wiped, ?_, ?_, ?_, fun hno => ?_⟩
  · rwa [hordinal]
  · rw [hordinal, hsigs, List.length_append, List.length_singleton]
    exact Nat.succ_le_succ h.length_le
  · rw [hiff, h.ordinal_eq, hordinal, hsigs, List.length_append, List.length_singleton,
      Nat.add_right_cancel_iff]
  · obtain ⟨st, hscanned⟩ := h.scanned (hiff.mp hno)
    unfold Nondecreasing at hcounters
    rw [List.filterMap_append, List.pairwise_append] at hcounters
    have hle : ∀ prev ∈ st.prevCounter, ∀ current ∈ op.counter, prev ≤ current := by
      intro prev hprev current hcurrent
      refine hcounters.2.2 prev (hscanned.prev_mem prev hprev) current ?_
      exact List.mem_filterMap.mpr ⟨op, List.mem_cons_self, hcurrent⟩
    obtain ⟨st', hscan, hremembers, hprev⟩ := @scan_sign C hC s st hash _ _ hscanned.scan
      (h.ordinal_eq.mp (hiff.mp hno)) hscanned.remembers hdelta hle
    rw [hsigs]
    refine ⟨st', hscan, hremembers, fun prev hmem => ?_⟩
    rw [hprev] at hmem
    rw [List.filterMap_append]
    rcases Option.or_eq_some_iff.mp hmem with hvalue | ⟨-, hbefore⟩
    · refine List.mem_append_right _ (List.mem_filterMap.mpr ⟨op, List.mem_cons_self, hvalue⟩)
    · exact List.mem_append_left _ (hscanned.prev_mem prev hbefore)

/-- A metadata signature: from here on the ratchet is ahead of the signatures. -/
theorem inv_signChainMetadata {metadata metadata' : ChainIntegrityMetadata} (h : Inv C start ops s)
    (hsign : s.signChainMetadata C metadata = .ok (metadata', s')) :
    Inv C start (ops ++ [.signChainMetadata metadata]) s' := by
  obtain ⟨-, hsign⟩ := reject_bind_eq_ok.mp hsign
  obtain ⟨ratchet, hratchet, hsign⟩ := res_bind_eq_ok.mp hsign
  obtain ⟨ordinal, hordinal, hratchet⟩ := res_bind_eq_ok.mp hratchet
  obtain ⟨hlt, rfl⟩ := unwrap_checkedAdd_eq_ok.mp hordinal
  obtain ⟨-, rfl⟩ := Prod.mk.inj (Except.ok.inj hsign)
  obtain rfl := Except.ok.inj hratchet
  have hle := h.length_le
  have hno : ¬NoMetadata (ops ++ [.signChainMetadata metadata]) := fun hno =>
    absurd (noMetadata_concat.mp hno).2 (by simp [Op.isMetadata])
  refine ⟨h.certificate, h.wiped, hlt, Nat.le_succ_of_le hle, ?_, fun h => absurd h hno⟩
  refine ⟨fun h => absurd h hno, fun heq => ?_⟩
  dsimp only at heq
  omega

theorem Inv.of_same (h : Inv C start ops s) (hmeta : op.isMetadata = false)
    (hcert : s'.certificate = s.certificate) (hratchet : s'.ratchet = s.ratchet)
    (hsigs : s'.signatures = s.signatures) :
    Inv C start (ops ++ [op]) s' := by
  have hiff : NoMetadata (ops ++ [op]) ↔ NoMetadata ops := by
    rw [noMetadata_concat, hmeta]
    exact and_iff_left rfl
  refine ⟨hcert.trans h.certificate, ?_, ?_, ?_, ?_, fun hno => ?_⟩
  · rw [hratchet]
    exact h.wiped
  · rw [hratchet]
    exact h.ordinal_lt
  · rw [hratchet, hsigs]
    exact h.length_le
  · rw [hiff, hratchet, hsigs]
    exact h.ordinal_eq
  · obtain ⟨st, hscan, hremembers, hprev⟩ := h.scanned (hiff.mp hno)
    rw [hsigs]
    refine ⟨st, hscan, hremembers, fun prev hmem => ?_⟩
    rw [List.filterMap_append]
    exact List.mem_append_left _ (hprev prev hmem)

/-- A step keeps the invariant while the counters do not fall. -/
theorem inv_step (hC : C.Correct) (h : Inv C start ops s) (hcounters : Nondecreasing (ops ++ [op]))
    (hstep : s.step C puf op = .ok s') :
    Inv C start (ops ++ [op]) s' := by
  cases op with
  | signCheckpoint hash =>
    obtain ⟨⟨sig, s₁⟩, hsign, hstep⟩ := res_bind_eq_ok.mp hstep
    obtain rfl := Except.ok.inj hstep
    exact inv_sign hC h rfl rfl hcounters hsign
  | signCheckpointWithCounter hash counter =>
    obtain ⟨⟨sig, s₁⟩, hsign, hstep⟩ := res_bind_eq_ok.mp hstep
    obtain rfl := Except.ok.inj hstep
    exact inv_sign hC h rfl rfl hcounters hsign
  | signChainMetadata metadata =>
    obtain ⟨⟨metadata', s₁⟩, hsign, hstep⟩ := res_bind_eq_ok.mp hstep
    obtain rfl := Except.ok.inj hstep
    exact inv_signChainMetadata h hsign
  | exportEvidence identity =>
    obtain rfl := Except.ok.inj hstep
    exact h.of_same rfl rfl rfl rfl
  | exportRecovery nonce =>
    obtain ⟨⟨state, s₁⟩, hexport, hstep⟩ := res_bind_eq_ok.mp hstep
    obtain rfl := Except.ok.inj hstep
    obtain ⟨-, -, -, -, -, -, rfl, -⟩ := exportRecoveryState_eq_ok hexport
    exact h.of_same rfl rfl rfl rfl
  | recover nonce now documentHash =>
    obtain ⟨⟨state, s₁⟩, hexport, hstep⟩ := res_bind_eq_ok.mp hstep
    obtain ⟨-, -, rfl⟩ := (recoverSession_export hC hexport h.ordinal_lt).mp hstep
    obtain ⟨-, -, -, -, -, -, rfl, -⟩ := exportRecoveryState_eq_ok hexport
    exact h.of_same rfl rfl rfl rfl

/-- The invariant holds after every run. -/
theorem Run.inv (hC : C.Correct) {masterKey documentHash sessionId : Digest} {createdAt : Int}
    (h : Run C puf (startSessionInner C masterKey documentHash sessionId createdAt) ops s)
    (hcounters : Nondecreasing ops) :
    Inv C (startSessionInner C masterKey documentHash sessionId createdAt) ops s := by
  induction h with
  | start => exact inv_start _ _ _ _
  | @step ops s s' op _ hstep ih =>
    refine inv_step hC (ih ?_) hcounters hstep
    unfold Nondecreasing at hcounters ⊢
    rw [List.filterMap_append, List.pairwise_append] at hcounters
    exact hcounters.1

/-! ## What follows for a session -/

theorem nextOrdinal_of_accepted {sigs : List CheckpointSignature}
    (h : verifyCheckpointSignatures C sigs = .ok ()) (hlt : sigs.length < 2 ^ 64) :
    nextOrdinal sigs = sigs.length := by
  obtain ⟨st, hscan⟩ := verifyCheckpointSignatures_eq_ok.mp h
  unfold nextOrdinal
  cases hlast : sigs.getLast? with
  | none =>
    rw [List.getLast?_eq_none_iff.mp hlast]
    rfl
  | some sig =>
    have := ordinal_of_scan hscan hlast
    dsimp only
    omega

/-- In every run of a session, all its signatures verify and all its exports are
    recovered if the random session id is not the zero sentinel and no chain metadata was
    signed; and only then, if it can export at all. -/
theorem sound_of_noMetadata (hC : C.Correct) {masterKey documentHash sessionId : Digest}
    (hpuf : deriveSigningKey C puf = .ok masterKey) {createdAt now : Int} {ops : List Op}
    {s : Session}
    (hrun : Run C puf (startSessionInner C masterKey documentHash sessionId createdAt) ops s)
    (hcounters : Nondecreasing ops) (hnow : now ≤ createdAt + sessionLifetime) :
    (sessionId ≠ filled 32 0 ∧ NoMetadata ops → Sound C puf now s)
      ∧ (Sound C puf now s → (∃ nonce exported, s.exportRecoveryState C puf nonce = .ok exported) →
        sessionId ≠ filled 32 0 ∧ NoMetadata ops) := by
  have hinv := hrun.inv hC hcounters
  have hlt : s.signatures.length < 2 ^ 64 := Nat.lt_of_le_of_lt hinv.length_le hinv.ordinal_lt
  have hcert : verifySessionCertificate C now s.certificate = .ok () := by
    rw [hinv.certificate]
    exact verifySessionCertificate_start hC hnow
  have hmaster : s.certificate.masterPubkey = C.ed25519.publicKey masterKey := by
    rw [hinv.certificate]
    rfl
  have hidentity : deriveMasterIdentity C puf = .ok (masterIdentity C masterKey) := by
    rw [deriveMasterIdentity, hpuf]
    rfl
  constructor
  · rintro ⟨hid, hno⟩
    obtain ⟨st, hscanned⟩ := hinv.scanned hno
    have hsigs := verifyCheckpointSignatures_eq_ok.mpr ⟨st, hscanned.scan⟩
    refine ⟨hsigs, fun identity hderive => ?_, fun nonce state s' hexport => ?_⟩
    · rw [hidentity] at hderive
      rw [← Except.ok.inj hderive]
      exact verifyKeyHierarchy_export hcert hmaster hsigs
    · refine (recoverSession_export hC hexport hinv.ordinal_lt).mpr
        ⟨⟨?_, hcert, ?_, rfl, ?_⟩, ?_, rfl⟩
      · rwa [hinv.certificate]
      · rw [hinv.certificate]
        rintro ⟨hnone, -⟩
        cases hnone
      · exact ⟨_, hidentity, hmaster.symm⟩
      · rw [nextOrdinal_of_accepted hsigs hlt]
        exact hinv.ordinal_eq.mp hno
  · rintro hsound ⟨nonce, ⟨state, s'⟩, hexport⟩
    have hrecovered := hsound.recovery nonce state s' hexport
    obtain ⟨hrecoverable, hnext, -⟩ :=
      (recoverSession_export hC hexport hinv.ordinal_lt).mp hrecovered
    refine ⟨?_, hinv.ordinal_eq.mpr ?_⟩
    · have hid := hrecoverable.sessionId_ne
      rwa [hinv.certificate] at hid
    · rw [hnext, nextOrdinal_of_accepted hsound.signatures hlt]

/-! ## Two runs -/

/-- Operations one after the other. -/
def Session.steps (C : Crypto) (puf : Puf) (s : Session) (ops : List Op) :
    Res KeyHierarchyError Session :=
  ops.foldlM (fun s op => s.step C puf op) s

theorem Run.of_steps (h : start.steps C puf ops = .ok s) :
    Run C puf start ops s := by
  induction ops using List.reverseRecOn generalizing s with
  | nil => exact Except.ok.inj h ▸ Run.start
  | append_singleton ops op ih =>
    rw [Session.steps, List.foldlM_append] at h
    obtain ⟨s₁, hops, h⟩ := res_bind_eq_ok.mp h
    obtain ⟨s₂, hop, hs⟩ := res_bind_eq_ok.mp h
    obtain rfl := Except.ok.inj hs
    exact (ih hops).step op hop

/-- Sums of bytes in place of hashes and of points. -/
def sumCrypto : Crypto :=
  { sha256 := fun bytes => filled 32 bytes.sum
    hkdf := fun ikm salt info => filled 32 (ikm.sum + salt.sum + info.sum)
    ed25519 := .summing
    rfc3339 := fun _ => "2026-01-01T00:00:00+00:00"
    encrypt := fun _ _ _ message => some (message ++ List.replicate 16 0)
    decrypt := fun _ _ _ ciphertext => some (ciphertext.take (ciphertext.length - 16)) }

theorem sumCrypto_correct : sumCrypto.Correct := by
  refine ⟨Ed25519.remaking_correct _, ?_, ?_⟩
  · intro key nonce aad message ciphertext h
    obtain rfl := Option.some.inj h
    have hlength : (message ++ List.replicate 16 (0 : UInt8)).length - 16 = message.length := by
      rw [List.length_append, List.length_replicate, Nat.add_sub_cancel]
    unfold sumCrypto
    dsimp only
    rw [hlength, List.take_left]
  · intro key nonce aad message ciphertext h
    obtain rfl := Option.some.inj h
    rw [List.length_append, List.length_replicate]

/-- A device that always gives the same response. -/
def fixedPuf : Puf := fun _ => .ok [1, 2, 3]

def fixedStart : Session :=
  startSessionInner sumCrypto (sumCrypto.hkdf [1, 2, 3] (Bytes.utf8 "cpoe-identity-v1")
    (Bytes.utf8 "master-seed")) (filled 32 5) (filled 32 1) 0

/-- Two checkpoints, one with a counter, and a recovery. -/
def signAndRecover : List Op :=
  [.signCheckpoint (filled 32 8), .signCheckpointWithCounter (filled 32 9)
    (some 4), .recover (filled 12 0) 0 (filled 32 5)]

/-- Two signatures and a recovery -/
theorem sound_of_noMetadata_recovered : ∃ s, Run sumCrypto fixedPuf fixedStart signAndRecover s
    ∧ s.signatures.length = 2 ∧ Sound sumCrypto fixedPuf 0 s := by
  have hsteps : (fixedStart.steps sumCrypto fixedPuf signAndRecover).toOption.map
      (fun s => s.signatures.length) = some 2 := by
    decide +kernel
  obtain ⟨s, hok, hlength⟩ := exists_ok_of_toOption hsteps
  have hrun := Run.of_steps hok
  refine ⟨s, hrun, hlength, ?_⟩
  have hpuf : deriveSigningKey sumCrypto fixedPuf = .ok (sumCrypto.hkdf [1, 2, 3]
      (Bytes.utf8 "cpoe-identity-v1") (Bytes.utf8 "master-seed")) := rfl
  have hcounters : Nondecreasing signAndRecover := by
    rw [Nondecreasing]
    decide
  refine (sound_of_noMetadata sumCrypto_correct hpuf hrun hcounters (by decide)).1 ⟨?_, ?_⟩
  · intro h
    exact absurd (congrArg val h) (by decide)
  · rw [NoMetadata]
    decide

/-- Signing chain metadata and then a checkpoint: the signature is rejected. -/
theorem not_sound_after_metadata : ∃ s, Run sumCrypto fixedPuf fixedStart
      [.signChainMetadata
        { checkpointCount := 0, mmrRoot := filled 32 0, mmrLeafCount := 0,
                            metadataSignature := none, metadataVersion := 1 },
        .signCheckpoint (filled 32 8)] s
    ∧ verifyCheckpointSignatures sumCrypto s.signatures = fail .ordinalMismatch
    ∧ ¬Sound sumCrypto fixedPuf 0 s := by
  have hsteps : (fixedStart.steps sumCrypto fixedPuf
      [.signChainMetadata
        { checkpointCount := 0, mmrRoot := filled 32 0, mmrLeafCount := 0,
                            metadataSignature := none, metadataVersion := 1 },
        .signCheckpoint (filled 32 8)]).toOption.map
      (fun s => s.signatures.map CheckpointSignature.ordinal) = some [1] := by
    decide +kernel
  obtain ⟨s, hok, hordinals⟩ := exists_ok_of_toOption hsteps
  obtain ⟨sig, hsigs, hordinal⟩ : ∃ sig, s.signatures = [sig] ∧ sig.ordinal = 1 := by
    obtain ⟨sig, rest, hsigs, hordinal, hrest⟩ := List.map_eq_cons_iff.mp hordinals
    rw [List.map_eq_nil_iff.mp hrest] at hsigs
    exact ⟨sig, hsigs, hordinal⟩
  have hverify : verifyCheckpointSignatures sumCrypto s.signatures = fail .ordinalMismatch := by
    have hne : sig.ordinal ≠ 0 := by
      rw [hordinal]
      decide
    rw [hsigs, verifyCheckpointSignatures, scanSignatures, verifyCheckpointSignature, reject,
      if_pos hne]
    rfl
  refine ⟨s, Run.of_steps hok, hverify, fun hsound => ?_⟩
  have hok := hsound.signatures
  rw [hverify] at hok
  cases hok

/-- The top level of the evidence says what the certificate and the identity say. -/
structure Bound (C : Crypto) (evidence : KeyHierarchyEvidence) (cert : SessionCertificate) :
    Prop where
  masterPublicKey : evidence.masterPublicKey = cert.masterPubkey.val
  masterFingerprint : evidence.masterFingerprint = fingerprintForPublicKey C cert.masterPubkey.val
  sessionPublicKey : evidence.sessionPublicKey = cert.sessionPubkey.val
  sessionId : evidence.sessionId = Hex.encode cert.sessionId.val
  sessionCertificateRaw : evidence.sessionCertificateRaw = cert.signature.val
  identity : ∀ identity ∈ evidence.masterIdentity,
    evidence.masterPublicKey = identity.publicKey.val
      ∧ evidence.masterFingerprint = identity.fingerprint

/-- The copies that the verifier compares with nothing are right. -/
structure Labelled (evidence : KeyHierarchyEvidence) (cert : SessionCertificate) : Prop where
  masterPublicKey : evidence.masterPublicKey = cert.masterPubkey.val
  sessionPublicKey : evidence.sessionPublicKey = cert.sessionPubkey.val
  sessionId : evidence.sessionId = Hex.encode cert.sessionId.val
  sessionCertificateRaw : evidence.sessionCertificateRaw = cert.signature.val
  fingerprint : ∀ identity ∈ evidence.masterIdentity,
    identity.fingerprint = evidence.masterFingerprint

structure Checked (C : Crypto) (now : Int) (evidence : KeyHierarchyEvidence)
    (cert : SessionCertificate) : Prop where
  unexpired : ∀ expiresAt ∈ cert.expiresAt, .ofNanos now ≤ expiresAt
  validKey : C.ed25519.validKey cert.masterPubkey = true
  signature : C.ed25519.verify cert.masterPubkey (buildCertDataWithExpiry cert.sessionId
    cert.sessionPubkey cert.createdAt cert.documentHash cert.expiresAt) cert.signature = true
  identity : ∀ identity ∈ evidence.masterIdentity, identity.publicKey = cert.masterPubkey
  fingerprint : fingerprintForPublicKey C evidence.masterPublicKey = evidence.masterFingerprint

theorem verifySessionCertificate_eq_ok :
    verifySessionCertificate C now cert = .ok () ↔
      (∀ expiresAt ∈ cert.expiresAt, .ofNanos now ≤ expiresAt)
      ∧ C.ed25519.validKey cert.masterPubkey = true
      ∧ C.ed25519.verify cert.masterPubkey (buildCertDataWithExpiry cert.sessionId
        cert.sessionPubkey cert.createdAt cert.documentHash cert.expiresAt) cert.signature
        = true := by
  simp only [verifySessionCertificate, verifyEd25519, reject_bind_eq_ok, reject_eq_ok,
    Bool.not_eq_false, not_exists, not_and, not_lt]

theorem checked_of_verifyKeyHierarchy (h : verifyKeyHierarchy C now evidence = .ok ()) :
    ∃ cert, evidence.sessionCertificate = some cert ∧ Checked C now evidence cert := by
  obtain ⟨cert, hcert, h⟩ := okOr_bind_eq_ok.mp h
  obtain ⟨hverified, h⟩ := unit_bind_eq_ok.mp h
  obtain ⟨hidentity, h⟩ := reject_bind_eq_ok.mp h
  obtain ⟨-, h⟩ := reject_bind_eq_ok.mp h
  obtain ⟨hfingerprint, -⟩ := reject_bind_eq_ok.mp h
  obtain ⟨hunexpired, hvalid, hsignature⟩ := verifySessionCertificate_eq_ok.mp hverified
  refine ⟨cert, hcert, hunexpired, hvalid, hsignature, ?_, not_not.mp hfingerprint⟩
  intro identity hmem
  by_contra hne
  exact hidentity ⟨identity, hmem, hne⟩

theorem Checked.bound_iff (h : Checked C now evidence cert) :
    Bound C evidence cert ↔ Labelled evidence cert := by
  constructor
  · intro hbound
    exact ⟨hbound.masterPublicKey, hbound.sessionPublicKey, hbound.sessionId,
      hbound.sessionCertificateRaw, fun identity hmem => (hbound.identity identity hmem).2.symm⟩
  · intro hlabelled
    refine ⟨hlabelled.masterPublicKey, ?_, hlabelled.sessionPublicKey, hlabelled.sessionId,
      hlabelled.sessionCertificateRaw, ?_⟩
    · rw [← h.fingerprint, hlabelled.masterPublicKey]
    · intro identity hmem
      rw [hlabelled.masterPublicKey, h.identity identity hmem]
      exact ⟨rfl, (hlabelled.fingerprint identity hmem).symm⟩

/-- Accepted evidence has a certificate that was signed with the key in it, and is bound to it
exactly when the copies that are not compared are right. -/
theorem bound_iff_labelled (C : Crypto) (now : Int) (evidence : KeyHierarchyEvidence)
    (h : verifyKeyHierarchy C now evidence = .ok ()) :
    ∃ cert, evidence.sessionCertificate = some cert ∧ Checked C now evidence cert
      ∧ (Bound C evidence cert ↔ Labelled evidence cert) := by
  obtain ⟨cert, hcert, hchecked⟩ := checked_of_verifyKeyHierarchy h
  exact ⟨cert, hcert, hchecked, hchecked.bound_iff⟩

def fixedEvidence : KeyHierarchyEvidence :=
  fixedStart.exportEvidence (masterIdentity sumCrypto fixedStart.certificate.masterPubkey)

/-- The same evidence under the master key of somebody else. -/
def relabelledEvidence : KeyHierarchyEvidence :=
  let other : Digest := filled 32 9
  { fixedEvidence with
    masterPublicKey := other.val
    masterFingerprint := fingerprintForPublicKey sumCrypto other.val }

theorem bound_iff_labelled_fixed : ∃ cert, fixedEvidence.sessionCertificate = some cert
    ∧ Checked sumCrypto 0 fixedEvidence cert
    ∧ (Bound sumCrypto fixedEvidence cert ↔ Labelled fixedEvidence cert) :=
  bound_iff_labelled sumCrypto 0 fixedEvidence (by decide +kernel)

/-- The evidence under the foreign master key is verified as well. -/
theorem not_bound : ¬ ∀ (C : Crypto) (now : Int) (evidence : KeyHierarchyEvidence),
    verifyKeyHierarchy C now evidence = .ok () →
    ∃ cert, evidence.sessionCertificate = some cert ∧ Bound C evidence cert := by
  intro h
  obtain ⟨cert, hcert, hbound⟩ := h sumCrypto 0 relabelledEvidence (by decide +kernel)
  obtain rfl : fixedStart.certificate = cert := Option.some.inj hcert
  exact absurd hbound.masterPublicKey (by decide +kernel)

end WritersProof.KeyHierarchy
