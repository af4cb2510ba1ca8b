/-
  WritersProof.Evidence.KeyProvenance

  `verify_key_provenance` (crates/cpoe/src/verify/seals.rs) looks once more at a key
  hierarchy that `verify_inner` has accepted.

  The signatures of checkpoints are attached in base64 (crates/cpoe/src/evidence/
  builder/setters.rs) and accepted in base64, and here they are read as hexadecimal:
  a signature that the one accepts is none to the other.
-/
import WritersProof.Evidence.Verification
import WritersProof.Lib.Base64

namespace WritersProof.Evidence

open Rust FixedBytes Hex CheckpointSignature
open Checkpoint (Digest)
open KeyHierarchy (KeyHierarchyEvidence MasterIdentity Session buildCertDataWithExpiry)

/-! ## Attaching a hierarchy -/

/-- The signature at position `idx`, which is taken for its ratchet index. -/
def attachSignature (entry : KeyHierarchy.CheckpointSignature × Nat) :
    Res Error CheckpointSignature := do
  reject (2 ^ 31 ≤ entry.2) (.evidence s!"ratchet index {entry.2} exceeds i32::MAX")
  .ok { ordinal := entry.1.ordinal
        checkpointHash := encode entry.1.checkpointHash.val
        ratchetIndex := entry.2
        signature := Base64.encode entry.1.signature.val }

def Builder.withKeyHierarchy (b : Builder) (evidence : KeyHierarchyEvidence) :
    Res Error Builder := do
  let checkpointSignatures ← evidence.checkpointSignatures.zipIdx.mapM attachSignature
  .ok { b with packet := { b.packet with
    keyHierarchy := some
      { masterPublicKey := encode evidence.masterPublicKey
        sessionId := evidence.sessionId
        sessionPublicKey := encode evidence.sessionPublicKey
        sessionStarted := evidence.sessionStarted
        sessionCertificate := Base64.encode evidence.sessionCertificateRaw
        ratchetPublicKeys := evidence.ratchetPublicKeys.map encode
        checkpointSignatures
        sessionDocumentHash :=
          evidence.sessionCertificate.map fun cert => encode cert.documentHash.val } } }

/-! ## Key provenance -/

structure KeyProvenanceCheck where
  hierarchyConsistent : Option Bool
  signingKeyConsistent : Bool
  ratchetMonotonic : Bool

/-- The flags that the pass over the signatures sets, and the last index it saw. -/
structure RatchetScan where
  prevIndex : Int
  signingKeyConsistent : Bool
  ratchetMonotonic : Bool
  warnings : List String

/-- `signing_key_consistent = false`, and why -/
def RatchetScan.inconsistent (st : RatchetScan) (warning : String) : RatchetScan :=
  { st with signingKeyConsistent := false, warnings := st.warnings ++ [warning] }

def eqIgnoreAsciiCase (a b : String) : Bool := a.toList.map Char.toLower = b.toList.map Char.toLower

section Defs

variable (C : Crates) (kh : KeyHierarchyEvidencePacket)

/-- The signature of the certificate, and the warning when it does not verify.  Without the hash of
the document the lengths are all there is to check. -/
def signatureConsistent (master session cert : Bytes) : Bool × List String :=
  match kh.sessionDocumentHash with
  | none => (true, [])
  | some docHashHex =>
    match (decode kh.sessionId).bind (tryFrom 32),
      (decode docHashHex).bind (tryFrom 32) with
    | some sessionId, some docHash =>
      match validateCertByteLengths C master session cert sessionId kh.sessionStarted docHash with
      | .ok () => (true, [])
      | .error (.err e) => (false, ["Key hierarchy certificate invalid: " ++ e.text])
      | .error .panic => (false, [])
    | _, _ => (false, ["Key hierarchy session_id or session_document_hash has invalid length"])

def certificateConsistent : Bool × List String :=
  match (decode kh.masterPublicKey).filter fun b => b.length = 32,
    (decode kh.sessionPublicKey).filter fun b => b.length = 32,
    (C.base64 kh.sessionCertificate).toOption.filter fun b => b.length = 64 with
  | some master, some session, some cert => signatureConsistent C kh master session cert
  | _, _, _ => (false, ["Key hierarchy has invalid key/certificate lengths"])

/-- The ratchet key of a signature, and the signature with it; `Ed25519Pubkey::from_hex` and
`Ed25519Sig::from_hex` take hexadecimal text. -/
def checkRatchet (sig : CheckpointSignature) :
    Res String Unit := do
  let idx := sig.ratchetIndex
  let keyHex ← okOr kh.ratchetPublicKeys[idx.toNat]?
    (s!"Checkpoint {sig.ordinal} references ratchet index {idx} but only "
      ++ s!"{kh.ratchetPublicKeys.length} keys exist")
  let pubkey ← okOr ((decode keyHex).bind (tryFrom 32))
    s!"Checkpoint {sig.ordinal}: ratchet key {idx} has invalid hex/length"
  let edSig ← okOr ((decode sig.signature).bind (tryFrom 64))
    s!"Checkpoint {sig.ordinal}: signature has invalid hex/length"
  let hashBytes ← okOr (decode sig.checkpointHash)
    s!"Checkpoint {sig.ordinal}: checkpoint_hash has invalid hex"
  reject (C.ed25519.validKey pubkey = false)
    s!"Checkpoint {sig.ordinal}: invalid Ed25519 public key"
  reject (C.ed25519.verify pubkey hashBytes edSig = false)
    s!"Checkpoint {sig.ordinal}: Ed25519 signature verification FAILED"

def scanSignature (st : RatchetScan) (sig : CheckpointSignature) : RatchetScan :=
  let idx := sig.ratchetIndex
  if idx < 0 then
    { st with
      ratchetMonotonic := false
      signingKeyConsistent := false
      warnings := st.warnings ++ [s!"Ratchet index negative ({idx}) at checkpoint {sig.ordinal}"] }
  else if idx ≤ st.prevIndex then
    { st with
      ratchetMonotonic := false
      warnings := st.warnings ++ [s!"Ratchet index non-monotonic at checkpoint {sig.ordinal}"] }
  else
    let st := { st with prevIndex := idx }
    match checkRatchet C kh sig with
    | .ok () => st
    | .error (.err warning) => st.inconsistent warning
    | .error .panic => st

/-- The pass, after the warnings about the certificate. -/
def scanSignatures : RatchetScan :=
  kh.checkpointSignatures.foldl (scanSignature C kh)
    { prevIndex := -1, signingKeyConsistent := true, ratchetMonotonic := true
      warnings := (certificateConsistent C kh).2 }

def packetKeyFound (pubkey : Digest) : Bool :=
  let pubkeyHex := encode pubkey.val
  kh.ratchetPublicKeys.any (fun k => eqIgnoreAsciiCase k pubkeyHex)
    || eqIgnoreAsciiCase kh.sessionPublicKey pubkeyHex

def verifyKeyProvenance (p : Packet) : KeyProvenanceCheck × List String :=
  match p.keyHierarchy with
  | none =>
    ({ hierarchyConsistent := none, signingKeyConsistent := true, ratchetMonotonic := true },
      ["No key hierarchy present"])
  | some kh =>
    let st := scanSignatures C kh
    let st := match p.signingPublicKey with
      | none => st
      | some pubkey =>
        if packetKeyFound kh pubkey then st
        else st.inconsistent "Packet signing key does not match any key in the hierarchy"
    ({ hierarchyConsistent := some (certificateConsistent C kh).1
       signingKeyConsistent := st.signingKeyConsistent
       ratchetMonotonic := st.ratchetMonotonic }, st.warnings)

end Defs

/-! ## The verdict -/

inductive ForensicVerdict where
  | v1VerifiedHuman
  | v2LikelyHuman
  | v3Suspicious
  | v4LikelySynthetic
  | v5ConfirmedForgery
  | v6InsufficientData
  deriving DecidableEq

structure SealVerification where
  jitterTagPresent : Option Bool
  entangledBindingValid : Option Bool

structure DurationCheck where
  computedMinSeconds : Rat
  ratio : Rat
  isPlausible : Bool

/-- The results of the other phases; of the forensic ones, the verdict they map to and whether
a checkpoint is suspicious. -/
structure Phases where
  structural : Bool
  signature : Option Bool
  declarationValid : Bool
  seals : SealVerification
  duration : DurationCheck
  forensics : Option ForensicVerdict
  perCheckpoint : Option Bool

def computeVerdict (r : Phases) (provenance : KeyProvenanceCheck) : ForensicVerdict :=
  let capped := !r.declarationValid || r.seals.entangledBindingValid.isNone
  let noVdf : Bool := r.duration.computedMinSeconds = 0
  if r.structural = false then .v5ConfirmedForgery
  else if r.signature = some false then .v5ConfirmedForgery
  else if r.seals.jitterTagPresent = some false ∨ r.seals.entangledBindingValid = some false then
    .v5ConfirmedForgery
  else if r.duration.isPlausible = false ∧ 0 < r.duration.computedMinSeconds
      ∧ r.duration.ratio < 1 / 2 then
    .v4LikelySynthetic
  else if provenance.hierarchyConsistent = some false ∨ provenance.ratchetMonotonic = false
      ∨ provenance.signingKeyConsistent = false then
    .v4LikelySynthetic
  else if r.duration.isPlausible = false ∧ 3 < r.duration.ratio then .v3Suspicious
  else if r.perCheckpoint = some true then .v3Suspicious
  else match r.forensics with
    | some fv =>
      if (noVdf || capped) = true ∧ fv = .v1VerifiedHuman then .v2LikelyHuman else fv
    | none =>
      if r.duration.isPlausible = false then .v3Suspicious
      else if r.signature = none then .v2LikelyHuman
      else if noVdf = false ∧ capped = false ∧ r.signature = some true
          ∧ provenance.signingKeyConsistent = true
          ∧ provenance.hierarchyConsistent ≠ some false then
        .v1VerifiedHuman
      else .v2LikelyHuman

def consistentProvenance : KeyProvenanceCheck :=
  { hierarchyConsistent := some true, signingKeyConsistent := true, ratchetMonotonic := true }

/-! ## Agreement -/

def KeyInHierarchy (p : Packet) (kh : KeyHierarchyEvidencePacket) : Prop :=
  ∃ pubkey ∈ p.signingPublicKey, packetKeyFound kh pubkey = true
    ∨ eqIgnoreAsciiCase kh.masterPublicKey (encode pubkey.val) = true

/-- What `verify_key_provenance` says of a genuine packet. -/
structure Agrees (C : Crates) (p : Packet) : Prop where
  hierarchy : (verifyKeyProvenance C p).1.hierarchyConsistent ≠ some false
  ratchet : (verifyKeyProvenance C p).1.ratchetMonotonic = true
  signingKey : ∀ kh ∈ p.keyHierarchy, KeyInHierarchy p kh →
    (verifyKeyProvenance C p).1.signingKeyConsistent = true
  verdict : ∀ kh ∈ p.keyHierarchy, KeyInHierarchy p kh → ∀ r,
    computeVerdict r (verifyKeyProvenance C p).1 = computeVerdict r consistentProvenance

def KeyHierarchyEvidencePacket.Increasing (kh : KeyHierarchyEvidencePacket) : Prop :=
  (kh.checkpointSignatures.map ratchetIndex).IsChain (· < ·)

/-- The certificate has the length of a signature, also where its document is not known. -/
def CertificateSized (kh : KeyHierarchyEvidencePacket) : Prop :=
  kh.sessionDocumentHash = none →
    ∃ cert : FixedBytes 64, Base64.decode kh.sessionCertificate = some cert.val

/-- A packet under a key of the hierarchy is under one that is looked for, and there is no
signature of a checkpoint that would be read. -/
def Unsigned (p : Packet) (kh : KeyHierarchyEvidencePacket) : Prop :=
  KeyInHierarchy p kh → kh.checkpointSignatures = []
    ∧ ∃ pubkey ∈ p.signingPublicKey, packetKeyFound kh pubkey = true

variable {C : Crates} {sessionId docHash master session : Digest} {createdAt : DateTime}
  {cert : FixedBytes 64} {n : Nat} {opt : Option Bytes} {sigs : List CheckpointSignature}
  {p : Packet}

/-! ## Certificates -/

theorem validateCertByteLengths_eq_ok {master session cert : Bytes} :
    validateCertByteLengths C master session cert sessionId createdAt docHash = .ok () ↔
      ∃ (masterKey sessionKey : Digest) (signature : FixedBytes 64),
        master = masterKey.val ∧ session = sessionKey.val ∧ cert = signature.val
          ∧ C.ed25519.validKey masterKey = true
          ∧ C.ed25519.verify masterKey
            (buildCertDataWithExpiry sessionId sessionKey createdAt docHash none) signature
            = true := by
  simp only [validateCertByteLengths, okOr_bind_eq_ok, reject_bind_eq_ok, reject_eq_ok,
    tryFrom_eq_some, Bool.not_eq_false]
  constructor
  · rintro ⟨masterKey, rfl, sessionKey, rfl, signature, rfl, hvalid, hverify⟩
    exact ⟨masterKey, sessionKey, signature, rfl, rfl, rfl, hvalid, hverify⟩
  · rintro ⟨masterKey, sessionKey, signature, rfl, rfl, rfl, hvalid, hverify⟩
    exact ⟨masterKey, rfl, sessionKey, rfl, signature, rfl, hvalid, hverify⟩

theorem validateCertByteLengths_fixed :
    validateCertByteLengths C master.val session.val cert.val sessionId createdAt docHash = .ok () ↔
      C.ed25519.validKey master = true
        ∧ C.ed25519.verify master
          (buildCertDataWithExpiry sessionId session createdAt docHash none) cert = true := by
  rw [validateCertByteLengths_eq_ok]
  constructor
  · rintro ⟨master', session', cert', hmaster, hsession, hcert, hvalid, hverify⟩
    obtain rfl := ext_val hmaster
    obtain rfl := ext_val hsession
    obtain rfl := ext_val hcert
    exact ⟨hvalid, hverify⟩
  · rintro ⟨hvalid, hverify⟩
    exact ⟨master, session, cert, rfl, rfl, rfl, hvalid, hverify⟩

/-- The certificate signs what the hierarchy says, without an expiry. -/
def CertificateSigned (C : Crates) (kh : KeyHierarchyEvidencePacket) (master session : Digest)
    (cert : FixedBytes 64) : Prop :=
  ∀ docHashHex ∈ kh.sessionDocumentHash, ∃ sessionId docHash : Digest,
    decode kh.sessionId = some sessionId.val ∧ decode docHashHex = some docHash.val
      ∧ C.ed25519.validKey master = true
      ∧ C.ed25519.verify master
        (buildCertDataWithExpiry sessionId session kh.sessionStarted docHash none) cert = true

theorem filter_length_eq_some {b : Bytes} :
    opt.filter (fun b => decide (b.length = n)) = some b ↔
      ∃ fixed : FixedBytes n, b = fixed.val ∧ opt = some fixed.val := by
  rw [Option.filter_eq_some_iff, decide_eq_true_eq]
  constructor
  · rintro ⟨hopt, hlength⟩
    exact ⟨⟨b, hlength⟩, rfl, hopt⟩
  · rintro ⟨fixed, rfl, hopt⟩
    exact ⟨hopt, fixed.length_val⟩

theorem bind_tryFrom_eq_some {fixed : FixedBytes n} :
    opt.bind (tryFrom n) = some fixed ↔ opt = some fixed.val := by
  rw [Option.bind_eq_some_iff]
  constructor
  · rintro ⟨b, hopt, hfixed⟩
    rw [hopt, tryFrom_eq_some.mp hfixed]
  · intro hopt
    exact ⟨_, hopt, tryFrom_eq_some.mpr rfl⟩

theorem toOption_eq_some {ε α : Type} {x : Except ε α} {a : α} :
    x.toOption = some a ↔ x = .ok a := by
  cases x with
  | error e => simp [Except.toOption]
  | ok b => simp [Except.toOption]

variable {kh : KeyHierarchyEvidencePacket} {sig : CheckpointSignature}

theorem signatureConsistent_eq_true :
    (signatureConsistent C kh master.val session.val cert.val).1 = true ↔
      CertificateSigned C kh master session cert := by
  unfold signatureConsistent CertificateSigned
  cases kh.sessionDocumentHash with
  | none => simp
  | some docHashHex =>
    simp only [Option.mem_some_iff, forall_eq']
    split
    next sessionId docHash hid hhash =>
      rw [bind_tryFrom_eq_some] at hid hhash
      have hunique : (∃ sessionId docHash : Digest, decode kh.sessionId = some sessionId.val
          ∧ decode docHashHex = some docHash.val ∧ C.ed25519.validKey master = true
          ∧ C.ed25519.verify master
            (buildCertDataWithExpiry sessionId session kh.sessionStarted docHash none) cert = true)
          ↔ C.ed25519.validKey master = true ∧ C.ed25519.verify master
            (buildCertDataWithExpiry sessionId session kh.sessionStarted docHash none) cert
            = true := by
        constructor
        · rintro ⟨sessionId', docHash', hid', hhash', hsigned⟩
          rw [hid] at hid'
          rw [hhash] at hhash'
          obtain rfl := ext_val (Option.some.inj hid')
          obtain rfl := ext_val (Option.some.inj hhash')
          exact hsigned
        · intro hsigned
          exact ⟨sessionId, docHash, hid, hhash, hsigned⟩
      rw [hunique, ← validateCertByteLengths_fixed]
      split
      next hok => simp [hok]
      next hfail => simp [hfail]
      next hpanic => simp [hpanic]
    next hnone =>
      simp only [Bool.false_eq_true, false_iff]
      rintro ⟨sessionId, docHash, hid, hhash, -⟩
      exact hnone sessionId docHash (bind_tryFrom_eq_some.mpr hid) (bind_tryFrom_eq_some.mpr hhash)

theorem certificateConsistent_eq_true :
    (certificateConsistent C kh).1 = true ↔
      ∃ (master session : Digest) (cert : FixedBytes 64),
        decode kh.masterPublicKey = some master.val
          ∧ decode kh.sessionPublicKey = some session.val
          ∧ C.base64 kh.sessionCertificate = .ok cert.val
          ∧ CertificateSigned C kh master session cert := by
  unfold certificateConsistent
  split
  next masterBytes sessionBytes certBytes hmaster hsession hcert =>
    obtain ⟨master, rfl, hmasterText⟩ := filter_length_eq_some.mp hmaster
    obtain ⟨session, rfl, hsessionText⟩ := filter_length_eq_some.mp hsession
    obtain ⟨cert, rfl, hcertText⟩ := filter_length_eq_some.mp hcert
    have hcertOk := toOption_eq_some.mp hcertText
    rw [signatureConsistent_eq_true]
    constructor
    · intro hsigned
      exact ⟨master, session, cert, hmasterText, hsessionText, hcertOk, hsigned⟩
    · rintro ⟨master', session', cert', hmaster', hsession', hcert', hsigned⟩
      -- what is decoded is the only thing there can be
      rw [hmasterText] at hmaster'
      rw [hsessionText] at hsession'
      rw [hcertOk] at hcert'
      obtain rfl := ext_val (Option.some.inj hmaster')
      obtain rfl := ext_val (Option.some.inj hsession')
      obtain rfl := ext_val (Except.ok.inj hcert')
      exact hsigned
  next hnone =>
    simp only [Bool.false_eq_true, false_iff]
    rintro ⟨master, session, cert, hmaster, hsession, hcert, -⟩
    exact hnone master.val session.val cert.val (filter_length_eq_some.mpr ⟨master, rfl, hmaster⟩)
      (filter_length_eq_some.mpr ⟨session, rfl, hsession⟩)
      (filter_length_eq_some.mpr ⟨cert, rfl, toOption_eq_some.mpr hcert⟩)

/-! ## Signatures -/

def RatchetVerified (C : Crates) (kh : KeyHierarchyEvidencePacket) (sig : CheckpointSignature) :
    Prop :=
  ∃ keyHex, kh.ratchetPublicKeys[sig.ratchetIndex.toNat]? = some keyHex
    ∧ ∃ pubkey : Digest, decode keyHex = some pubkey.val
    ∧ ∃ edSig : FixedBytes 64, decode sig.signature = some edSig.val
    ∧ ∃ hashBytes, decode sig.checkpointHash = some hashBytes
    ∧ C.ed25519.validKey pubkey = true ∧ C.ed25519.verify pubkey hashBytes edSig = true

theorem checkRatchet_eq_ok : checkRatchet C kh sig = .ok () ↔ RatchetVerified C kh sig := by
  simp only [checkRatchet, RatchetVerified, okOr_bind_eq_ok, reject_bind_eq_ok, reject_eq_ok,
    bind_tryFrom_eq_some, Bool.not_eq_false]

theorem checkRatchet_ne_abort : checkRatchet C kh sig ≠ abort := by
  unfold checkRatchet
  refine okOr_bind_ne_abort fun keyHex => ?_
  refine okOr_bind_ne_abort fun pubkey => ?_
  refine okOr_bind_ne_abort fun edSig => ?_
  refine okOr_bind_ne_abort fun hashBytes => ?_
  exact reject_bind_ne_abort reject_ne_abort

/-- A greater index moves the pass on, and its signature must verify. -/
theorem scanSignature_of_lt (kh : KeyHierarchyEvidencePacket) {st : RatchetScan}
    (h0 : 0 ≤ sig.ratchetIndex) (h : st.prevIndex < sig.ratchetIndex) :
    (scanSignature C kh st sig).prevIndex = sig.ratchetIndex
      ∧ (scanSignature C kh st sig).ratchetMonotonic = st.ratchetMonotonic
      ∧ ((scanSignature C kh st sig).signingKeyConsistent = true ↔
        st.signingKeyConsistent = true ∧ RatchetVerified C kh sig) := by
  unfold scanSignature
  rw [if_neg (by omega), if_neg (by omega), ← checkRatchet_eq_ok]
  dsimp only
  split
  next hok => simp [hok]
  next hfail => simp [hfail, RatchetScan.inconsistent]
  next hpanic => exact absurd hpanic checkRatchet_ne_abort

theorem foldl_scanSignature (kh : KeyHierarchyEvidencePacket) (st : RatchetScan)
    (h0 : ∀ sig ∈ sigs, 0 ≤ sig.ratchetIndex)
    (h : (st.prevIndex :: sigs.map ratchetIndex).IsChain (· < ·)) :
    (sigs.foldl (scanSignature C kh) st).ratchetMonotonic = st.ratchetMonotonic
      ∧ ((sigs.foldl (scanSignature C kh) st).signingKeyConsistent = true ↔
        st.signingKeyConsistent = true ∧ ∀ sig ∈ sigs, RatchetVerified C kh sig) := by
  induction sigs generalizing st with
  | nil => simp
  | cons sig sigs ih =>
    rw [List.map_cons, List.isChain_cons_cons] at h
    obtain ⟨hindex, hmonotonic, hsigning⟩ :=
      scanSignature_of_lt (C := C) kh (h0 sig List.mem_cons_self) h.1
    rw [← hindex] at h
    obtain ⟨hmonotonic', hsigning'⟩ :=
      ih _ (fun sig hsig => h0 sig (List.mem_cons_of_mem _ hsig)) h.2
    rw [List.foldl_cons, hmonotonic', hsigning', hmonotonic, hsigning, List.forall_mem_cons,
      and_assoc]
    exact ⟨rfl, Iff.rfl⟩

/-- The text of a signature in base64 is too short for one in hexadecimal. -/
theorem not_ratchetVerified {signature : Bytes} (hlength : signature.length = 64)
    (hdecode : Base64.decode sig.signature = some signature) : ¬ RatchetVerified C kh sig := by
  rintro ⟨keyHex, -, pubkey, -, edSig, hhex, -⟩
  have hlong := length_of_decode hhex
  have hshort := Base64.length_of_decode hdecode
  rw [length_val] at hlong
  rw [hlength] at hshort
  omega

/-- The pass over greater and greater indices ends well when there is nothing to pass over. -/
theorem scanSignatures_spec (hincreasing : kh.Increasing)
    (h0 : ∀ sig ∈ kh.checkpointSignatures, 0 ≤ sig.ratchetIndex)
    (hbase64 : ∀ sig ∈ kh.checkpointSignatures,
      ∃ signature, signature.length = 64 ∧ Base64.decode sig.signature = some signature) :
    (scanSignatures C kh).ratchetMonotonic = true
      ∧ ((scanSignatures C kh).signingKeyConsistent = true ↔ kh.checkpointSignatures = []) := by
  have hchain : (-1 :: kh.checkpointSignatures.map ratchetIndex).IsChain
      (· < ·) := by
    rw [KeyHierarchyEvidencePacket.Increasing] at hincreasing
    cases hsigs : kh.checkpointSignatures with
    | nil => exact .singleton _
    | cons sig sigs =>
      have hsig := h0 sig (by rw [hsigs]; exact List.mem_cons_self)
      rw [hsigs] at hincreasing
      rw [List.map_cons] at hincreasing ⊢
      exact hincreasing.cons_cons (by omega)
  obtain ⟨hmonotonic, hsigning⟩ := foldl_scanSignature (C := C) kh
    { prevIndex := -1, signingKeyConsistent := true, ratchetMonotonic := true
      warnings := (certificateConsistent C kh).2 } h0 hchain
  refine ⟨hmonotonic, hsigning.trans ?_⟩
  rw [eq_self, true_and]
  constructor
  · intro hall
    -- a signature would have to be hexadecimal
    refine List.eq_nil_iff_forall_not_mem.mpr fun sig hsig => ?_
    obtain ⟨signature, hlength, hdecode⟩ := hbase64 sig hsig
    exact not_ratchetVerified hlength hdecode (hall sig hsig)
  · intro hnil sig hsig
    rw [hnil] at hsig
    cases hsig

/-! ## Packets -/

theorem verifyKeyProvenance_of_some (hkh : p.keyHierarchy = some kh) :
    (verifyKeyProvenance C p).1.hierarchyConsistent = some (certificateConsistent C kh).1
      ∧ (verifyKeyProvenance C p).1.ratchetMonotonic = (scanSignatures C kh).ratchetMonotonic
      ∧ ((verifyKeyProvenance C p).1.signingKeyConsistent = true ↔
        (scanSignatures C kh).signingKeyConsistent = true
          ∧ ∀ pubkey ∈ p.signingPublicKey, packetKeyFound kh pubkey = true) := by
  unfold verifyKeyProvenance
  rw [hkh]
  cases hkey : p.signingPublicKey with
  | none => simp
  | some pubkey =>
    cases hfound : packetKeyFound kh pubkey with
    | true => simp [hfound]
    | false => simp [hfound, RatchetScan.inconsistent]

theorem computeVerdict_of_consistent {provenance : KeyProvenanceCheck}
    (hierarchy : provenance.hierarchyConsistent ≠ some false)
    (ratchet : provenance.ratchetMonotonic = true)
    (signingKey : provenance.signingKeyConsistent = true) (r : Phases) :
    computeVerdict r provenance = computeVerdict r consistentProvenance := by
  simp [computeVerdict, consistentProvenance, hierarchy, ratchet, signingKey]

theorem agrees_iff_of_some (hkh : p.keyHierarchy = some kh)
    (hmonotonic : (scanSignatures C kh).ratchetMonotonic = true)
    (hsigning : (scanSignatures C kh).signingKeyConsistent = true ↔ kh.checkpointSignatures = []) :
    Agrees C p ↔ (certificateConsistent C kh).1 = true ∧ Unsigned p kh := by
  obtain ⟨hierarchy, ratchet, signingKey⟩ := verifyKeyProvenance_of_some (C := C) hkh
  rw [hsigning] at signingKey
  constructor
  · intro h
    constructor
    · have hne := h.hierarchy
      rw [hierarchy] at hne
      exact Bool.eq_true_of_not_eq_false fun hfalse => hne (by rw [hfalse])
    · intro hin
      obtain ⟨hnil, hfound⟩ := signingKey.mp (h.signingKey kh hkh hin)
      obtain ⟨pubkey, hpubkey, -⟩ := hin
      exact ⟨hnil, pubkey, hpubkey, hfound pubkey hpubkey⟩
  · rintro ⟨hcertificate, hunsigned⟩
    have hne : (verifyKeyProvenance C p).1.hierarchyConsistent ≠ some false := by
      rw [hierarchy, hcertificate]
      decide
    have hkey : ∀ kh' ∈ p.keyHierarchy, KeyInHierarchy p kh' →
        (verifyKeyProvenance C p).1.signingKeyConsistent = true := by
      intro kh' hkh' hin
      obtain rfl : kh = kh' := Option.some.inj (hkh.symm.trans hkh')
      obtain ⟨hnil, pubkey, hpubkey, hfound⟩ := hunsigned hin
      refine signingKey.mpr ⟨hnil, fun pubkey' hpubkey' => ?_⟩
      obtain rfl : pubkey = pubkey' := Option.some.inj (hpubkey.symm.trans hpubkey')
      exact hfound
    exact ⟨hne, ratchet.trans hmonotonic, hkey, fun kh' hkh' hin r =>
      computeVerdict_of_consistent hne (ratchet.trans hmonotonic) (hkey kh' hkh' hin) r⟩

theorem agrees_of_none (hkh : p.keyHierarchy = none) : Agrees C p := by
  have hcheck : (verifyKeyProvenance C p).1 = ⟨none, true, true⟩ := by
    rw [verifyKeyProvenance, hkh]
  refine ⟨by rw [hcheck]; exact nofun, by rw [hcheck], ?_, ?_⟩
  · rw [hkh]
    exact nofun
  · rw [hkh]
    exact nofun

/-! ## Accepted hierarchies -/

/-- An accepted signature has an index and is base64 of 64 bytes. -/
theorem of_checkRatchetSignature (h : checkRatchetSignature C kh sig = .ok ()) :
    0 ≤ sig.ratchetIndex
      ∧ ∃ signature, signature.length = 64 ∧ C.base64 sig.signature = .ok signature := by
  obtain ⟨hindex, h⟩ := reject_bind_eq_ok.mp h
  obtain ⟨ratchetHex, -, h⟩ := okOr_bind_eq_ok.mp h
  obtain ⟨ratchetPub, -, h⟩ := mapErr_bind_eq_ok.mp h
  obtain ⟨-, h⟩ := reject_bind_eq_ok.mp h
  obtain ⟨checkpointHash, -, h⟩ := mapErr_bind_eq_ok.mp h
  obtain ⟨signature, hsignature, h⟩ := mapErr_bind_eq_ok.mp h
  obtain ⟨hlength, -⟩ := reject_bind_eq_ok.mp h
  exact ⟨Int.not_lt.mp hindex, signature, not_not.mp hlength, hsignature⟩

/-- Where the document is known, an accepted certificate has been verified. -/
theorem of_checkCertificate (master session : Digest) {certRaw : Bytes}
    (h : checkCertificate C kh master.val session.val certRaw = .ok ()) :
    (kh.sessionDocumentHash = none ∨ ∃ cert : FixedBytes 64, certRaw = cert.val)
      ∧ ∀ cert : FixedBytes 64, certRaw = cert.val →
        CertificateSigned C kh master session cert := by
  unfold checkCertificate at h
  unfold CertificateSigned
  cases hdoc : kh.sessionDocumentHash with
  | none => exact ⟨.inl rfl, fun _ _ => nofun⟩
  | some docHashHex =>
    rw [hdoc] at h
    simp only [mapErr_bind_eq_ok, okOr_bind_eq_ok, mapFault_eq_ok, Crates.hexDecode_eq_ok,
      tryFrom_eq_some] at h
    obtain ⟨_, hid, _, hhash, sessionId, rfl, docHash, rfl, hvalidate⟩ := h
    constructor
    · obtain ⟨-, -, cert, -, -, hcert, -⟩ := validateCertByteLengths_eq_ok.mp hvalidate
      exact .inr ⟨cert, hcert⟩
    · rintro cert rfl hex hmem
      obtain rfl := Option.some.inj hmem
      exact ⟨sessionId, docHash, hid, hhash, validateCertByteLengths_fixed.mp hvalidate⟩

theorem certificateConsistent_of_checkKeyHierarchy (hkh : p.keyHierarchy = some kh)
    (h : checkKeyHierarchy C p = .ok ()) :
    ((certificateConsistent C kh).1 = true ↔ (kh.sessionDocumentHash = none →
        ∃ cert : FixedBytes 64, C.base64 kh.sessionCertificate = .ok cert.val))
      ∧ ∀ sig ∈ kh.checkpointSignatures, checkRatchetSignature C kh sig = .ok () := by
  rw [checkKeyHierarchy, hkh] at h
  simp only [mapErr_bind_eq_ok, unit_bind_eq_ok, reject_eq_ok, forEach_eq_ok,
    Crates.hexDecode_eq_ok, not_not] at h
  obtain ⟨masterPub, hmaster, hmasterLength, sessionPub, hsession, hsessionLength, certRaw, hcert,
    hcertificate, hsignatures⟩ := h
  refine ⟨?_, hsignatures⟩
  obtain ⟨hsized, hsigned⟩ := of_checkCertificate ⟨masterPub, hmasterLength⟩
    ⟨sessionPub, hsessionLength⟩ hcertificate
  rw [certificateConsistent_eq_true]
  constructor
  · rintro ⟨-, -, cert, -, -, hcertOk, -⟩ -
    exact ⟨cert, hcertOk⟩
  · intro hlength
    obtain ⟨cert, rfl⟩ : ∃ cert : FixedBytes 64, certRaw = cert.val := by
      rcases hsized with hnone | hsome
      · obtain ⟨cert, hcertOk⟩ := hlength hnone
        exact ⟨cert, Except.ok.inj (hcert.symm.trans hcertOk)⟩
      · exact hsome
    exact ⟨⟨masterPub, hmasterLength⟩, ⟨sessionPub, hsessionLength⟩, cert, hmaster, hsession, hcert,
      hsigned cert rfl⟩

/-! ## Attached hierarchies -/

theorem of_attachSignature {entry : KeyHierarchy.CheckpointSignature × Nat}
    (h : attachSignature entry = .ok sig) :
    sig.ratchetIndex = entry.2 ∧ sig.signature = Base64.encode entry.1.signature.val := by
  obtain ⟨-, h⟩ := reject_bind_eq_ok.mp h
  obtain rfl := Except.ok.inj h
  exact ⟨rfl, rfl⟩

/-- Positions are greater and greater. -/
theorem increasing_of_attachSignature {entries : List (KeyHierarchy.CheckpointSignature × Nat)}
    (h : entries.mapM attachSignature = .ok sigs)
    (hentries : (entries.map Prod.snd).Pairwise (· < ·)) :
    (sigs.map ratchetIndex).IsChain (· < ·) := by
  have hindices : sigs.map ratchetIndex
      = (entries.map Prod.snd).map fun i : Nat => (i : Int) := by
    have hforall := mapM_forall₂ h
    clear h hentries
    induction hforall with
    | nil => rfl
    | cons hsig _ ih =>
      rw [List.map_cons, List.map_cons, List.map_cons, ih, (of_attachSignature hsig).1]
  rw [hindices]
  refine List.Pairwise.isChain (hentries.map _ ?_)
  intro i j hij
  exact Int.ofNat_lt.mpr hij

structure Attached (evidence : KeyHierarchyEvidence) (kh : KeyHierarchyEvidencePacket) : Prop where
  masterPublicKey : kh.masterPublicKey = encode evidence.masterPublicKey
  sessionId : kh.sessionId = evidence.sessionId
  sessionPublicKey : kh.sessionPublicKey = encode evidence.sessionPublicKey
  sessionStarted : kh.sessionStarted = evidence.sessionStarted
  sessionCertificate : kh.sessionCertificate = Base64.encode evidence.sessionCertificateRaw
  sessionDocumentHash : kh.sessionDocumentHash
    = evidence.sessionCertificate.map fun cert => encode cert.documentHash.val
  increasing : kh.Increasing
  signatures : ∀ sig ∈ kh.checkpointSignatures, 0 ≤ sig.ratchetIndex
    ∧ ∃ signature : FixedBytes 64, sig.signature = Base64.encode signature.val

theorem attached_of_withKeyHierarchy {b b' : Builder} {evidence : KeyHierarchyEvidence}
    (h : b.withKeyHierarchy evidence = .ok b') :
    ∃ kh, b'.packet.keyHierarchy = some kh ∧ Attached evidence kh := by
  obtain ⟨sigs, hsigs, h⟩ := res_bind_eq_ok.mp h
  obtain rfl := Except.ok.inj h
  refine ⟨_, rfl, rfl, rfl, rfl, rfl, rfl, rfl, ?_, ?_⟩
  · refine increasing_of_attachSignature hsigs ?_
    rw [List.zipIdx_map_snd]
    exact List.pairwise_lt_range'
  · intro sig hsig
    obtain ⟨entry, -, hentry⟩ := exists_of_mem_right (mapM_forall₂ hsigs) hsig
    obtain ⟨hindex, hsignature⟩ := of_attachSignature hentry
    exact ⟨by omega, entry.1.signature, hsignature⟩

theorem certificateConsistent_of_export {s : Session} {identity : MasterIdentity}
    (h : Attached (s.exportEvidence identity) kh)
    (hbase64 : ∀ text bytes, C.base64 text = .ok bytes ↔ Base64.decode text = some bytes) :
    (certificateConsistent C kh).1 = true ↔ C.ed25519.validKey identity.publicKey = true
      ∧ C.ed25519.verify identity.publicKey
        (buildCertDataWithExpiry s.certificate.sessionId s.certificate.sessionPubkey
          s.certificate.createdAt s.certificate.documentHash none) s.certificate.signature
        = true := by
  have hdoc : encode s.certificate.documentHash.val ∈ kh.sessionDocumentHash := by
    rw [h.sessionDocumentHash]
    rfl
  rw [certificateConsistent_eq_true, h.masterPublicKey, h.sessionPublicKey, h.sessionCertificate,
    decode_encode, decode_encode]
  simp only [hbase64, Base64.decode_encode, Option.some.injEq]
  constructor
  · rintro ⟨master, session, cert, hmaster, hsession, hcert, hsigned⟩
    obtain rfl : identity.publicKey = master := ext_val hmaster
    obtain rfl : s.certificate.sessionPubkey = session := ext_val hsession
    obtain rfl : s.certificate.signature = cert := ext_val hcert
    obtain ⟨sessionId, docHash, hid, hhash, hverified⟩ := hsigned _ hdoc
    rw [h.sessionId] at hid
    obtain rfl : s.certificate.sessionId = sessionId :=
      ext_val (Option.some.inj ((decode_encode _).symm.trans hid))
    obtain rfl : s.certificate.documentHash = docHash :=
      ext_val (Option.some.inj ((decode_encode _).symm.trans hhash))
    rwa [h.sessionStarted] at hverified
  · intro hverified
    refine ⟨identity.publicKey, s.certificate.sessionPubkey, s.certificate.signature, rfl, rfl, rfl,
      fun docHashHex hmem => ?_⟩
    obtain rfl : encode s.certificate.documentHash.val = docHashHex :=
      Option.some.inj (Option.mem_def.mp hdoc ▸ hmem)
    refine ⟨s.certificate.sessionId, s.certificate.documentHash, ?_, decode_encode _, ?_⟩
    · rw [h.sessionId]
      exact decode_encode _
    · rw [h.sessionStarted]
      exact hverified

/-! ## Agreement -/

/-- The two verifiers agree on an accepted hierarchy exactly when its certificate has the length of
one and the packet, if it is under a key of the hierarchy, is under one that is looked for and has
no signature of a checkpoint; and on the hierarchy of a session exactly when its certificate
verifies without the expiry, too. -/
theorem agrees_iff (C : Crates)
    (hbase64 : ∀ text bytes, C.base64 text = .ok bytes ↔ Base64.decode text = some bytes) :
    (∀ p : Packet, checkKeyHierarchy C p = .ok () → (∀ kh ∈ p.keyHierarchy, kh.Increasing) →
      (Agrees C p ↔ ∀ kh ∈ p.keyHierarchy, CertificateSized kh ∧ Unsigned p kh))
    ∧ ∀ (s : Session) (identity : MasterIdentity) (b b' : Builder) (p : Packet),
      b.withKeyHierarchy (s.exportEvidence identity) = .ok b' →
      p.keyHierarchy = b'.packet.keyHierarchy →
      (Agrees C p ↔ (C.ed25519.validKey identity.publicKey = true
          ∧ C.ed25519.verify identity.publicKey
            (buildCertDataWithExpiry s.certificate.sessionId s.certificate.sessionPubkey
              s.certificate.createdAt s.certificate.documentHash none) s.certificate.signature
            = true)
        ∧ ∀ kh ∈ p.keyHierarchy, Unsigned p kh) := by
  constructor
  · intro p hok hincreasing
    cases hkh : p.keyHierarchy with
    | none => exact iff_of_true (agrees_of_none hkh) nofun
    | some kh =>
      obtain ⟨hcertificate, hsignatures⟩ := certificateConsistent_of_checkKeyHierarchy hkh hok
      obtain ⟨hmonotonic, hsigning⟩ := scanSignatures_spec (C := C) (hincreasing kh hkh)
        (fun sig hsig => (of_checkRatchetSignature (hsignatures sig hsig)).1) fun sig hsig => by
          obtain ⟨-, signature, hlength, hdecode⟩ :=
            of_checkRatchetSignature (hsignatures sig hsig)
          exact ⟨signature, hlength, (hbase64 _ _).mp hdecode⟩
      rw [agrees_iff_of_some hkh hmonotonic hsigning, hcertificate]
      simp only [hbase64, Option.mem_some_iff, forall_eq', CertificateSized]
  · intro s identity b b' p hattach hp
    obtain ⟨kh, hkh, hattached⟩ := attached_of_withKeyHierarchy hattach
    rw [hkh] at hp
    obtain ⟨hmonotonic, hsigning⟩ := scanSignatures_spec (C := C) hattached.increasing
      (fun sig hsig => (hattached.signatures sig hsig).1) fun sig hsig => by
        obtain ⟨-, signature, hsignature⟩ := hattached.signatures sig hsig
        rw [hsignature]
        exact ⟨signature.val, signature.length_val, Base64.decode_encode _⟩
    rw [agrees_iff_of_some hp hmonotonic hsigning,
      certificateConsistent_of_export hattached hbase64, hp]
    simp only [Option.mem_some_iff, forall_eq']

def base64Crates : Crates :=
  { sumCrates with
    base64 := fun text => match Base64.decode text with
      | some bytes => .ok bytes
      | none => .error "Invalid padding" }

theorem base64Crates_eq_ok (text : String) (bytes : Bytes) :
    base64Crates.base64 text = .ok bytes ↔ Base64.decode text = some bytes := by
  unfold base64Crates
  dsimp only
  cases Base64.decode text with
  | none => simp
  | some bs => simp

/-- A packet under the key of its session, with the signatures of some checkpoints. -/
def sessionPacket (sigs : List CheckpointSignature) : Packet :=
  let key : Digest := filled 32 7
  { Packet.default 0 with
    signingPublicKey := some key
    keyHierarchy := some
      { masterPublicKey := encode (filled 32 1).val
        sessionId := encode (filled 32 2).val
        sessionPublicKey := encode key.val
        sessionStarted := .ofNanos 0
        sessionCertificate := Base64.encode (filled 64 3).val
        ratchetPublicKeys := [encode (filled 32 4).val]
        checkpointSignatures := sigs
        sessionDocumentHash := none } }

def oneSignature : CheckpointSignature :=
  let hash : Digest := filled 32 5
  { ordinal := 0
    checkpointHash := encode hash.val
    ratchetIndex := 0
    signature := Base64.encode (sumCrates.ed25519.sign (filled 32 4) hash.val).val }

/-- A session with the signature of a checkpoint -/
def signedSession : Session :=
  let s := KeyHierarchy.fixedStart
  (s.steps KeyHierarchy.sumCrypto KeyHierarchy.fixedPuf
    [.signCheckpoint (filled 32 8)]).toOption.getD s

def sessionIdentity : MasterIdentity :=
  { publicKey := signedSession.certificate.masterPubkey, fingerprint := "" }

theorem keyInHierarchy_oneSignature : KeyInHierarchy (sessionPacket [oneSignature])
    ((sessionPacket [oneSignature]).keyHierarchy.get rfl) :=
  ⟨filled 32 7, rfl, .inl (by decide +kernel)⟩

/-- The verifiers agree on a packet under the key of its session, not if it has the signature of a
checkpoint, and not on an exported session. -/
theorem agrees_iff_signed :
    Agrees base64Crates (sessionPacket [])
      ∧ ¬ Agrees base64Crates (sessionPacket [oneSignature])
      ∧ ∃ b', (⟨Packet.default 0, []⟩ : Builder).withKeyHierarchy
          (signedSession.exportEvidence sessionIdentity) = .ok b'
        ∧ (b'.packet.keyHierarchy.map fun kh => kh.checkpointSignatures.length) = some 1
        ∧ ¬ Agrees base64Crates b'.packet := by
  obtain ⟨haccepted, hattached⟩ := agrees_iff base64Crates base64Crates_eq_ok
  refine ⟨?_, ?_, ?_⟩
  · rw [haccepted (sessionPacket []) (by decide +kernel) fun kh hkh => Option.some.inj hkh ▸ .nil]
    intro kh hkh
    obtain rfl := Option.some.inj hkh
    exact ⟨fun _ => ⟨filled 64 3, Base64.decode_encode _⟩,
      fun _ => ⟨rfl, filled 32 7, rfl, by decide +kernel⟩⟩
  · rw [haccepted (sessionPacket [oneSignature]) (by decide +kernel)
      fun kh hkh => Option.some.inj hkh ▸ .singleton _]
    intro h
    exact absurd ((h _ rfl).2 keyInHierarchy_oneSignature).1 (List.cons_ne_nil _ _)
  · have hattach : ((⟨Packet.default 0, []⟩ : Builder).withKeyHierarchy
        (signedSession.exportEvidence sessionIdentity)).toOption.map (fun b =>
          b.packet.keyHierarchy.map fun kh => kh.checkpointSignatures.length) = some (some 1) := by
      decide +kernel
    obtain ⟨b', hok, hlength⟩ := exists_ok_of_toOption hattach
    refine ⟨b', hok, hlength, ?_⟩
    rw [hattached _ _ _ _ b'.packet hok rfl]
    -- the certificate is over the expiry, too
    exact fun h => absurd h.1.2 (by decide +kernel)

/-- The checkpoint signature is in base64, and the second verifier reads hex. -/
theorem not_agrees : ¬ ∀ C : Crates,
    (∀ text bytes, C.base64 text = .ok bytes ↔ Base64.decode text = some bytes) →
    ∀ p : Packet, checkKeyHierarchy C p = .ok () → (∀ kh ∈ p.keyHierarchy, kh.Increasing) →
      Agrees C p := by
  intro h
  have hagrees := h base64Crates base64Crates_eq_ok (sessionPacket [oneSignature])
    (by decide +kernel) fun kh hkh => Option.some.inj hkh ▸ .singleton _
  have hkey := hagrees.signingKey _ rfl keyInHierarchy_oneSignature
  exact absurd hkey (by decide +kernel)

end WritersProof.Evidence
