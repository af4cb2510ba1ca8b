/-
  WritersProof.KeyHierarchy.Recovery

  What the checks accept of a session, and when its recovery succeeds.

  The verifier counts the signatures, the ratchet counts everything it signed, and a
  recovery expects the second number to follow from the first.
-/
import WritersProof.KeyHierarchy.Verification

namespace WritersProof.KeyHierarchy

open Rust Bytes

variable {C : Crypto} {i : Nat} {st : CounterState} {sigs : List CheckpointSignature}
  {sig : CheckpointSignature} {s : Session} {masterKey : Digest} {now : Int}

/-! ## Signatures -/

theorem scanSignatures_append {xs ys : List CheckpointSignature} :
    scanSignatures C i st (xs ++ ys)
      = (scanSignatures C i st xs >>= fun st => scanSignatures C (i + xs.length) st ys) := by
  induction xs generalizing i st with
  | nil => rfl
  | cons x xs ih =>
    rw [List.cons_append, scanSignatures, scanSignatures, List.length_cons]
    cases verifyCheckpointSignature C i st x with
    | error e => rfl
    | ok st' =>
      rw [res_ok_bind, res_ok_bind, ih, Nat.add_right_comm, Nat.add_assoc]

theorem verifyCheckpointSignatures_eq_ok :
    verifyCheckpointSignatures C sigs = .ok () ↔
      ∃ st, scanSignatures C 0 { prevCounter := none, prevWasAdjacent := false } sigs = .ok st := by
  unfold verifyCheckpointSignatures
  rw [res_bind_eq_ok]
  apply exists_congr
  intro st
  exact and_iff_left rfl

theorem ordinal_of_scan {st' : CounterState} (h : scanSignatures C i st sigs = .ok st')
    (hlast : sigs.getLast? = some sig) : sig.ordinal + 1 = i + sigs.length := by
  obtain ⟨init, rfl⟩ := List.getLast?_eq_some_iff.mp hlast
  rw [scanSignatures_append] at h
  obtain ⟨st₁, -, h⟩ := res_bind_eq_ok.mp h
  obtain ⟨st₂, hsig, -⟩ := res_bind_eq_ok.mp h
  have hordinal := not_not.mp (reject_bind_eq_ok.mp hsig).1
  rw [hordinal, List.length_append, List.length_singleton]
  omega

theorem verifyEd25519_sign (hC : C.Correct) (seed : Digest) (message : Bytes)
    (e : KeyHierarchyError) : verifyEd25519 C (C.ed25519.publicKey seed) message
      (C.ed25519.sign seed message) e = .ok () := by
  unfold verifyEd25519
  rw [hC.ed25519.validKey_publicKey, hC.ed25519.verify_sign]
  rfl

theorem verifyLamport_fromSeed {seed : Digest}
    (hsig : sig.lamportSignature
      = some ((LamportPrivateKey.fromSeed C.sha256 seed).1.sign sig.checkpointHash).revealed)
    (hkey : sig.lamportPublicKey = some (LamportPrivateKey.fromSeed C.sha256 seed).2.hashes)
    (hfingerprint : sig.lamportPubkeyFingerprint
      = some ((LamportPrivateKey.fromSeed C.sha256 seed).2.fingerprint C.sha256)) :
    verifyLamport C sig = .ok () := by
  rw [verifyLamport, hsig, hkey, hfingerprint]
  dsimp only
  rw [fromBytes_revealed, fromBytes_hashes, okOr_some, okOr_some, res_ok_bind, res_ok_bind]
  refine reject_bind_eq_ok.mpr ⟨?_, reject_eq_ok.mpr ?_⟩
  · rintro ⟨fp, hfp, hne⟩
    exact hne (Option.some.inj hfp).symm
  · rw [verify_sign]
    decide

def Remembers (st : CounterState) (sigs : List CheckpointSignature) : Prop :=
  sigs.getLast?.bind CheckpointSignature.counterValue
    = if st.prevWasAdjacent then st.prevCounter else none

theorem verifyCounter_counterDelta {s : Session} {st : CounterState} {sig : CheckpointSignature}
    (hst : Remembers st s.signatures) (hdelta : sig.counterDelta = s.counterDelta sig.counterValue)
    (hle : ∀ prev ∈ st.prevCounter, ∀ current ∈ sig.counterValue, prev ≤ current) :
    verifyCounter st sig = .ok { prevCounter := sig.counterValue.or st.prevCounter
                                 prevWasAdjacent := sig.counterValue.isSome } := by
  unfold verifyCounter
  unfold Session.counterDelta at hdelta
  unfold Remembers at hst
  rw [hst] at hdelta
  cases hvalue : sig.counterValue with
  | none => rfl
  | some current =>
    dsimp only
    cases hprev : st.prevCounter with
    | none => rfl
    | some prev =>
      dsimp only
      have hnot : ¬current < prev := Nat.not_lt.mpr (hle prev hprev current hvalue)
      refine reject_bind_eq_ok.mpr ⟨hnot, ?_⟩
      rw [hvalue, hprev] at hdelta
      cases hadj : st.prevWasAdjacent with
      | false => rfl
      | true =>
        rw [hadj] at hdelta
        rw [hdelta]
        exact reject_bind_eq_ok.mpr ⟨not_not.mpr rfl, rfl⟩

theorem scan_sign (hC : C.Correct) {s : Session} {st : CounterState} {hash : Digest}
    {value delta : Option Nat}
    (hscan : scanSignatures C 0 { prevCounter := none, prevWasAdjacent := false } s.signatures
      = .ok st)
    (hordinal : s.ratchet.ordinal = s.signatures.length) (hst : Remembers st s.signatures)
    (hdelta : delta = s.counterDelta value)
    (hle : ∀ prev ∈ st.prevCounter, ∀ current ∈ value, prev ≤ current) :
    ∃ st', scanSignatures C 0 { prevCounter := none, prevWasAdjacent := false }
        (s.signatures ++ [s.checkpointSignature C hash value delta]) = .ok st'
      ∧ Remembers st' (s.signatures ++ [s.checkpointSignature C hash value delta])
      ∧ st'.prevCounter = value.or st.prevCounter := by
  have hcounter := @verifyCounter_counterDelta s st (s.checkpointSignature C hash value delta) hst
    hdelta hle
  have hsig : verifyCheckpointSignature C (0 + s.signatures.length) st
      (s.checkpointSignature C hash value delta) = .ok
        { prevCounter := value.or st.prevCounter, prevWasAdjacent := value.isSome } := by
    refine reject_bind_eq_ok.mpr ⟨not_not.mpr (hordinal.trans (Nat.zero_add _).symm), ?_⟩
    refine unit_bind_eq_ok.mpr ⟨verifyEd25519_sign hC _ _ _, ?_⟩
    exact unit_bind_eq_ok.mpr ⟨verifyLamport_fromSeed rfl rfl rfl, hcounter⟩
  refine ⟨{ prevCounter := value.or st.prevCounter, prevWasAdjacent := value.isSome }, ?_, ?_, rfl⟩
  · rw [scanSignatures_append, hscan, res_ok_bind, scanSignatures, hsig]
    rfl
  · unfold Remembers
    rw [List.getLast?_concat]
    cases value with
    | none => rfl
    | some current => rfl

/-! ## Evidence -/

theorem verifyRatchetKeyConsistency_export (s : Session) (identity : MasterIdentity) :
    verifyRatchetKeyConsistency (s.exportEvidence identity) = .ok () := by
  have hzip : (s.signatures.map fun sig => sig.publicKey.val).zip s.signatures
      = s.signatures.map fun sig => (sig.publicKey.val, sig) := by
    have h := @List.zip_map' _ _ _ (fun sig => sig.publicKey.val) id s.signatures
    rwa [List.map_id] at h
  refine reject_bind_eq_ok.mpr ⟨not_not.mpr (List.length_map _), forEach_eq_ok.mpr ?_⟩
  intro entry hentry
  have hmem := List.fst_mem_of_mem_zipIdx hentry
  rw [Session.exportEvidence, hzip] at hmem
  obtain ⟨sig, -, heq⟩ := List.mem_map.mp hmem
  rw [← heq]
  exact reject_eq_ok.mpr (not_not.mpr rfl)

theorem verifySessionCertificate_start (hC : C.Correct) {documentHash sessionId : Digest}
    {createdAt : Int} (hnow : now ≤ createdAt + sessionLifetime) :
    verifySessionCertificate C now
      (startSessionInner C masterKey documentHash sessionId createdAt).certificate = .ok () := by
  refine reject_bind_eq_ok.mpr ⟨?_, verifyEd25519_sign hC _ _ _⟩
  rintro ⟨expiresAt, hexpires, hlt⟩
  obtain rfl := Option.some.inj hexpires
  exact absurd (DateTime.ofNanos_lt_ofNanos.mp hlt) (not_lt.mpr hnow)

/-- Evidence passes exactly when its signatures do. -/
theorem verifyKeyHierarchy_export (hcert : verifySessionCertificate C now s.certificate = .ok ())
    (hmaster : s.certificate.masterPubkey = C.ed25519.publicKey masterKey)
    (hsigs : verifyCheckpointSignatures C s.signatures = .ok ()) :
    verifyKeyHierarchy C now (s.exportEvidence (masterIdentity C masterKey)) = .ok () := by
  unfold verifyKeyHierarchy Session.exportEvidence
  dsimp only
  rw [okOr_some, res_ok_bind]
  refine unit_bind_eq_ok.mpr ⟨hcert, reject_bind_eq_ok.mpr ⟨?_, reject_bind_eq_ok.mpr ⟨?_, ?_⟩⟩⟩
  · rintro ⟨identity, hidentity, hne⟩
    obtain rfl := Option.some.inj hidentity
    exact hne hmaster.symm
  · intro hnil
    have hlength := (C.ed25519.publicKey masterKey).length_val
    rw [masterIdentity] at hnil
    rw [hnil] at hlength
    cases hlength
  · refine reject_bind_eq_ok.mpr ⟨not_not.mpr rfl, reject_bind_eq_ok.mpr ⟨not_not.mpr rfl, ?_⟩⟩
    exact unit_bind_eq_ok.mpr ⟨verifyRatchetKeyConsistency_export s _, hsigs⟩

/-! ## Recovery -/

theorem exportRecoveryState_eq_ok {s' : Session} {puf : Puf} {nonce : FixedBytes 12}
    {state : SessionRecoveryState} (h : s.exportRecoveryState C puf nonce = .ok (state, s')) :
    ∃ key ciphertext, Session.recoveryKey C puf = .ok key ∧ s.ratchet.wiped = false
      ∧ s.exportCount + 1 < 2 ^ 64
      ∧ C.encrypt key nonce (toBE 8 s.signatures.length) (s.ratchet.current.val
          ++ toBE 8 s.ratchet.ordinal ++ toBE 8 (s.exportCount + 1)) = some ciphertext
      ∧ s' = { s with exportCount := s.exportCount + 1 }
      ∧ state = { certificate := s.certificate, signatures := s.signatures
                  lastRatchetState := [2] ++ nonce.val ++ ciphertext
                  exportCount := s.exportCount + 1 } := by
  obtain ⟨hwiped, h⟩ := reject_bind_eq_ok.mp h
  obtain ⟨key, hkey, h⟩ := res_bind_eq_ok.mp h
  obtain ⟨count, hcount, h⟩ := res_bind_eq_ok.mp h
  obtain ⟨ciphertext, hciphertext, h⟩ := res_bind_eq_ok.mp h
  rw [okOr_eq_ok] at hciphertext
  obtain ⟨hstate, hs'⟩ := Prod.mk.inj (Except.ok.inj h)
  obtain ⟨hlt, rfl⟩ := unwrap_checkedAdd_eq_ok.mp hcount
  exact ⟨key, ciphertext, hkey, by simpa using hwiped, hlt, hciphertext, hs'.symm, hstate.symm⟩

section Plaintext

variable (current : Digest) (a b : Nat)

theorem take_plaintext :
    (current.val ++ toBE 8 a ++ toBE 8 b).take 32 = current.val := by
  rw [List.append_assoc, List.take_left' current.length_val]

theorem ordinal_plaintext :
    ((current.val ++ toBE 8 a ++ toBE 8 b).drop 32).take 8 = toBE 8 a := by
  rw [List.append_assoc, List.drop_left' current.length_val,
    List.take_left' (length_toBE 8 a)]

theorem exportCount_plaintext :
    ((current.val ++ toBE 8 a ++ toBE 8 b).drop 40).take 8 = toBE 8 b := by
  have hlength : (current.val ++ toBE 8 a).length = 40 := by
    rw [List.length_append, current.length_val, length_toBE]
  rw [List.drop_left' hlength, List.take_of_length_le (Nat.le_of_eq (length_toBE 8 b))]

theorem length_plaintext : (current.val ++ toBE 8 a ++ toBE 8 b).length = 48 := by
  rw [List.length_append, List.length_append, current.length_val, length_toBE,
    length_toBE]

end Plaintext

/-- Decryption gives the exported state back; it is taken if its ordinal follows from the
    signatures. -/
theorem recoverRatchet_export (hC : C.Correct) {s s' : Session} {puf : Puf}
    {nonce : FixedBytes 12} {state : SessionRecoveryState}
    (h : s.exportRecoveryState C puf nonce = .ok (state, s'))
    (hordinal : s.ratchet.ordinal < 2 ^ 64)
    {r : Session} : recoverSessionWithRatchet C puf state = .ok r ↔
      s.ratchet.ordinal = nextOrdinal s.signatures ∧ r = s' := by
  obtain ⟨key, ciphertext, hkey, hwiped, hcount, hencrypt, rfl, rfl⟩ := exportRecoveryState_eq_ok h
  have hlength := hC.length_encrypt _ _ _ _ _ hencrypt
  have hdecrypt := hC.decrypt_encrypt _ _ _ _ _ hencrypt
  rw [length_plaintext] at hlength
  have hnonce : FixedBytes.tryFrom 12 ((nonce.val ++ ciphertext).take 12) = some nonce := by
    rw [List.take_left' nonce.length_val, FixedBytes.tryFrom_val]
  have hdrop : (nonce.val ++ ciphertext).drop 12 = ciphertext := List.drop_left' nonce.length_val
  have hdata : ¬([2] ++ nonce.val ++ ciphertext).length < 13 + 16 := by
    rw [List.length_append, List.length_append, nonce.length_val, hlength]
    decide
  have hordinal' : ofBE (toBE 8 s.ratchet.ordinal) = s.ratchet.ordinal :=
    ofBE_toBE_of_lt hordinal
  have hcount' : ofBE (toBE 8 (s.exportCount + 1)) = s.exportCount + 1 :=
    ofBE_toBE_of_lt hcount
  rw [recoverSessionWithRatchet, List.append_assoc, List.singleton_append]
  dsimp only
  rw [if_pos rfl, recoverRatchetV2Aead, reject_bind_eq_ok]
  dsimp only
  rw [List.drop_succ_cons, List.drop_zero, hnonce, okOr_some, res_ok_bind, hkey, res_ok_bind,
    List.drop_succ_cons, hdrop, hdecrypt, okOr_some, res_ok_bind, take_plaintext, ordinal_plaintext,
    exportCount_plaintext, length_plaintext, FixedBytes.tryFrom_val, hordinal', hcount']
  rw [reject_bind_eq_ok, okOr_some, res_ok_bind, reject_bind_eq_ok, not_not, Except.ok.injEq]
  have hratchet : s.ratchet = { s.ratchet with wiped := false } := by rw [← hwiped]
  rw [hratchet]
  constructor
  · rintro ⟨-, -, hnext, rfl⟩
    exact ⟨hnext, rfl⟩
  · rintro ⟨hnext, rfl⟩
    exact ⟨hdata, by decide, hnext, rfl⟩

/-- What a recovery asks of the certificate, before it looks at the ratchet. -/
structure Recoverable (C : Crypto) (puf : Puf) (now : Int) (cert : SessionCertificate)
    (documentHash : Digest) : Prop where
  sessionId_ne : cert.sessionId ≠ FixedBytes.filled 32 0
  certificate : verifySessionCertificate C now cert = .ok ()
  age : ¬(cert.expiresAt = none ∧
    recoveryMaxAgeSecs < (DateTime.ofNanos now).secondsSince cert.createdAt)
  documentHash_eq : cert.documentHash = documentHash
  identity : ∃ identity, deriveMasterIdentity C puf = .ok identity
    ∧ identity.publicKey = cert.masterPubkey

theorem recoverSession_export (hC : C.Correct) {s s' : Session} {puf : Puf}
    {nonce : FixedBytes 12} {state : SessionRecoveryState}
    (h : s.exportRecoveryState C puf nonce = .ok (state, s'))
    (hordinal : s.ratchet.ordinal < 2 ^ 64)
    {now : Int} {documentHash : Digest} {r : Session} :
    recoverSession C puf now state documentHash = .ok r ↔
      Recoverable C puf now s.certificate documentHash
        ∧ s.ratchet.ordinal = nextOrdinal s.signatures ∧ r = s' := by
  have hratchet := @recoverRatchet_export C hC s s' puf nonce state h hordinal r
  obtain ⟨key, ciphertext, -, -, -, -, rfl, rfl⟩ := exportRecoveryState_eq_ok h
  have hdata : [2] ++ nonce.val ++ ciphertext ≠ [] := List.cons_ne_nil _ _
  unfold recoverSession
  dsimp only at hratchet ⊢
  rw [reject_bind_eq_ok, unit_bind_eq_ok, reject_bind_eq_ok, reject_bind_eq_ok, res_bind_eq_ok]
  simp only [reject_bind_eq_ok, not_not, if_neg hdata, hratchet]
  constructor
  · rintro ⟨hid, hcert, hage, hdoc, identity, hidentity, hmaster, hnext⟩
    exact ⟨⟨hid, hcert, hage, hdoc, identity, hidentity, hmaster⟩, hnext⟩
  · rintro ⟨⟨hid, hcert, hage, hdoc, identity, hidentity, hmaster⟩, hnext⟩
    exact ⟨hid, hcert, hage, hdoc, identity, hidentity, hmaster, hnext⟩

end WritersProof.KeyHierarchy
