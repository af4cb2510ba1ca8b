/-
  WritersProof.War.Verification

  `Block::verify` and its checks (crates/cpoe/src/war/verification.rs).

  A report lists the checks that were made.  Where a block carries no evidence, one that
  has not passed is listed, but the report is as valid as without it.
-/
import WritersProof.War.Block

namespace WritersProof.War

open Rust
open Checkpoint (Digest VdfProof)
open Evidence (Packet Crates CheckpointProof)

structure CheckResult where
  name : String
  passed : Bool
  message : String

/-- Detailed forensic information from verification; the time is a double. -/
structure ForensicDetails where
  version : String
  author : String
  documentId : String
  timestamp : DateTime
  components : List String
  elapsedTimeSecs : Option Rat
  checkpointCount : Option Nat
  keystrokeCount : Option Nat
  hasJitterSeal : Bool
  hasHardwareAttestation : Bool
  hasVerifierNonce : Bool
  verifierNonce : Option String

/-- Result of WAR block verification. -/
structure VerificationReport where
  valid : Bool
  checks : List CheckResult
  summary : String
  details : ForensicDetails

def failed (name message : String) : CheckResult := { name, passed := false, message }

/-- `{ name, passed, message }` with one message for each case -/
def checked (name : String) (passed : Bool) (yes no : String) : CheckResult :=
  { name, passed, message := if passed then yes else no }

structure CaKeyEntry where
  kid : String
  pubkeyHex : String
  notBefore : String
  notAfter : String

def caKeyRing : List CaKeyEntry :=
  [{ kid := "a77d85cc10cc677d"
     pubkeyHex := "c7ff2220542bd8c130355580c14666e786111b97beae142003ceeb4a51084575"
     notBefore := "2026-06-18T00:00:00Z"
     notAfter := "2036-06-17T23:59:59Z" }]

def maxVerificationIterations : Nat := 3600000000

section Defs

variable (C : Crates)

/-! ## Seal -/

def Block.verifySignature (b : Block) : CheckResult :=
  if b.signed = false then
    failed "seal_signature" "Seal unsigned: block lacks cryptographic seal signature"
  else if C.ed25519.validKey b.warSeal.publicKey = false then
    failed "seal_signature" ("Invalid public key: " ++ C.signatureError)
  else
    checked "seal_signature"
      (C.ed25519.verifyStrict b.warSeal.publicKey b.warSeal.signedMessage b.warSeal.signature)
      "Ed25519 seal signature valid (domain-separated H3)"
      ("Seal signature verification failed: " ++ C.signatureError)

def verifyHashChain (s : Seal) (evidence : Packet) (version : Version) : CheckResult :=
  match evidence.declaration with
  | none => failed "hash_chain" "Missing declaration"
  | some declaration =>
    match computeSeal C evidence declaration with
    | .ok computed =>
      if computed.h1 ≠ s.h1 then
        failed "hash_chain" "H1 mismatch: document/checkpoint binding failed"
      else if computed.h2 ≠ s.h2 then
        failed "hash_chain" "H2 mismatch: jitter/identity binding failed"
      else if computed.h3 ≠ s.h3 then failed "hash_chain" "H3 mismatch: VDF binding failed"
      else checked "hash_chain" true ("Hash chain valid (" ++ version.text ++ " mode)") ""
    | .error (.err e) => failed "hash_chain" ("Failed to compute seal: " ++ e)
    -- a seal is computed without checked operations
    | .error .panic => failed "hash_chain" ""

/-! ## Delay proofs -/

/-- One half of the delay proof of checkpoint `i`. -/
def vdfPart (part : String) (i : Nat) (text : String) : Except CheckResult Digest :=
  match C.hexDecode text with
  | .error e =>
    .error (failed "vdf_proofs" ("VDF " ++ part ++ s!" at checkpoint {i} decode error: " ++ e))
  | .ok bytes =>
    match FixedBytes.tryFrom 32 bytes with
    | some digest => .ok digest
    | none => .error (failed "vdf_proofs" ("VDF " ++ part
        ++ s!" at checkpoint {i} has invalid length: {bytes.length} (expected 32)"))

def verifyVdf (i : Nat) (cp : CheckpointProof) : Except CheckResult Bool :=
  match cp.vdfInput, cp.vdfOutput, cp.vdfIterations with
  | some inputHex, some outputHex, some iterations =>
    if maxVerificationIterations < iterations then
      .error (failed "vdf_proofs" (s!"VDF iterations at checkpoint {i} exceed maximum: "
        ++ s!"{iterations} > {maxVerificationIterations}"))
    else do
      let input ← vdfPart C "input" i inputHex
      let output ← vdfPart C "output" i outputHex
      if VdfProof.verify C.sha256 { input, output, iterations, duration := 0 } then .ok true
      else .error (failed "vdf_proofs" s!"VDF proof at checkpoint {i} failed verification")
  | _, _, _ => .ok false

/-- The number of delay proofs, all of which verify. -/
def countVdf : Nat → Nat → List CheckpointProof → Except CheckResult Nat
  | _, total, [] => .ok total
  | i, total, cp :: cps => do
    let found ← verifyVdf C i cp
    countVdf (i + 1) (if found then total + 1 else total) cps

variable (evidence : Packet)

def verifyVdfProofs : CheckResult :=
  match countVdf C 0 0 evidence.checkpoints with
  | .error result => result
  | .ok total =>
    if total = 0 then
      checked "vdf_proofs" (evidence.checkpoints.length ≤ 1)
        "No VDF proofs to verify (first checkpoint only)"
        s!"No VDF proofs found but {evidence.checkpoints.length} checkpoints present"
    else
      -- `verified` counts with `total`
      checked "vdf_proofs" true s!"All {total}/{total} VDF proofs verified" ""

/-! ## Declaration and beacons -/

def verifyDeclaration : CheckResult :=
  match evidence.declaration with
  | some decl =>
    checked "declaration" (decl.verify C.sha256 C.ed25519 = .ok ())
      "Declaration signature valid" "Declaration signature invalid"
  | none => failed "declaration" "Missing declaration"

def CaKeyEntry.window (entry : CaKeyEntry) : Res String (DateTime × DateTime) := do
  let notBefore ← mapErr (C.parseRfc3339 entry.notBefore)
    fun e => "Internal error: bad not_before in key ring: " ++ e
  let notAfter ← mapErr (C.parseRfc3339 entry.notAfter)
    fun e => "Internal error: bad not_after in key ring: " ++ e
  .ok (notBefore, notAfter)

def findByTime (fetchedAt : String) (ts : DateTime) : List CaKeyEntry → Res String CaKeyEntry
  | [] => fail ("No valid CA key found for timestamp " ++ fetchedAt
      ++ "; evidence may predate the oldest key or postdate all key expiry dates")
  | entry :: entries => do
    let window ← entry.window C
    if window.1 ≤ ts ∧ ts ≤ window.2 then .ok entry else findByTime fetchedAt ts entries

def findCaKey (kid : Option String) (fetchedAt : String) : Res String CaKeyEntry := do
  let ts ← mapErr (C.parseRfc3339 fetchedAt) fun e => "Invalid fetched_at timestamp: " ++ e
  match kid with
  | some kid => do
    let entry ← okOr (caKeyRing.find? fun k => k.kid = kid) ("Unknown CA key ID: " ++ kid)
    let window ← entry.window C
    reject (ts < window.1 ∨ window.2 < ts)
      ("CA key " ++ kid ++ " expired or not yet valid for timestamp " ++ fetchedAt)
    .ok entry
  | none => findByTime C fetchedAt ts caKeyRing

def lengthPrefixed (text : String) : Bytes :=
  Bytes.toBE 4 (Bytes.utf8 text).length ++ Bytes.utf8 text

def beaconMessage (a : Evidence.WpBeaconAttestation) : Bytes :=
  Bytes.utf8 evidence.document.finalHash ++ Bytes.toBE 8 a.drandRound
    ++ lengthPrefixed a.drandRandomness ++ Bytes.toBE 8 a.nistPulseIndex
    ++ lengthPrefixed a.nistOutputValue ++ lengthPrefixed a.fetchedAt

/-- The check of an attestation under a CA key. -/
def verifyBeaconSignature (a : Evidence.WpBeaconAttestation) (entry : CaKeyEntry) : CheckResult :=
  match (Hex.decode entry.pubkeyHex).bind (FixedBytes.tryFrom 32) with
  | none =>
    failed "beacon_attestation" ("Internal error: invalid CA public key for kid " ++ entry.kid)
  | some pubkey =>
    if C.ed25519.validKey pubkey = false then
      failed "beacon_attestation"
        ("Invalid CA public key for kid " ++ entry.kid ++ ": " ++ C.signatureError)
    else
      match (Hex.decode a.wpSignature).bind (FixedBytes.tryFrom 64) with
      | none =>
        failed "beacon_attestation" ("Invalid beacon signature hex: " ++ C.hexError a.wpSignature)
      | some signature =>
        checked "beacon_attestation"
          (C.ed25519.verifyStrict pubkey (beaconMessage evidence a) signature)
          ("Beacon attestation valid (kid " ++ entry.kid
            ++ s!"): drand round {a.drandRound}, NIST pulse {a.nistPulseIndex}")
          ("Beacon counter-signature verification failed: " ++ C.signatureError)

def verifyBeaconAttestation : CheckResult :=
  match evidence.beaconAttestation with
  | none => checked "beacon_attestation" true "No beacon attestation present (optional)" ""
  | some a =>
    match findCaKey C a.wpKeyId a.fetchedAt with
    | .ok entry => verifyBeaconSignature C evidence a entry
    | .error (.err message) => failed "beacon_attestation" message
    | .error .panic => failed "beacon_attestation" ""

/-! ## Report -/

/-- How long the evidence took. -/
def Block.elapsedSecs (b : Block) : Res Empty (Option Rat) :=
  match b.evidence with
  | some evidence => do
    let total ← evidence.totalElapsedTime
    .ok (some (Binary64.asSecs total))
  | none => .ok none

def Block.buildForensicDetails (b : Block) : Res Empty ForensicDetails := do
  let elapsed ← b.elapsedSecs
  let has := fun (layer : Packet → Bool) => (b.evidence.map layer).getD false
  .ok { version := b.version.text
        author := b.author
        documentId := Hex.encode b.documentId.val
        timestamp := b.timestamp
        components := ["document", "declaration"]
          ++ (if has fun e => e.keystroke.isSome then ["keystroke_evidence"] else [])
          ++ (if has fun e => e.presence.isSome then ["presence"] else [])
          ++ (if has fun e => e.hardware.isSome then ["hardware_attestation"] else [])
          ++ (if has fun e => e.behavioral.isSome then ["behavioral"] else [])
        elapsedTimeSecs := elapsed
        checkpointCount := b.evidence.map fun e => e.checkpoints.length
        keystrokeCount := b.evidence.bind fun e => e.keystroke.map fun k => k.totalKeystrokes
        hasJitterSeal := match b.evidence with
          | some e => (e.declaration.map Declaration.hasJitterSeal).getD false
          | none => b.version = .v1_1 || b.version = .v2_0
        hasHardwareAttestation := has fun e => e.hardware.isSome
        hasVerifierNonce := b.verifierNonce.isSome
        verifierNonce := b.verifierNonce.map fun nonce => Hex.encode nonce.val }

/-- Whether the key of the seal is the expected one. -/
def Block.trustedKeyCheck (b : Block) (trusted : Bytes) : CheckResult :=
  checked "trusted_key" (trusted = b.warSeal.publicKey.val)
    "Seal public key matches trusted key" "Seal public key does not match trusted key"

def evidenceChecks (b : Block) (evidence : Packet) : List CheckResult :=
  [verifyHashChain C b.warSeal evidence b.version, verifyVdfProofs C evidence,
    verifyDeclaration C evidence, verifyBeaconAttestation C evidence]

/-- The signature and the evidence: `all_passed`, and the checks. -/
def Block.sealChecks (b : Block) : Bool × List CheckResult :=
  let sigCheck := b.verifySignature C
  match b.evidence with
  | some evidence =>
    let checks := sigCheck :: evidenceChecks C b evidence
    (checks.all CheckResult.passed, checks)
  | none =>
    -- this check is pushed without a look at `all_passed`
    (sigCheck.passed,
      [sigCheck, failed "hash_chain" "Cannot verify hash chain without full evidence"])

def Block.verify (b : Block) (expectedPublicKey : Option Bytes) :
    Res Empty VerificationReport := do
  let keyChecks := (expectedPublicKey.map b.trustedKeyCheck).toList
  if keyChecks.all CheckResult.passed = false then
    let details ← b.buildForensicDetails
    .ok { valid := false, checks := keyChecks
          summary := "WAR block INVALID: failed checks: trusted_key", details }
  else
    let allPassed := (b.sealChecks C).1
    let checks := keyChecks ++ (b.sealChecks C).2
    let summary :=
      if allPassed then
        "WAR block VALID: " ++ b.version.text ++ " evidence for document "
          ++ Hex.encode (b.documentId.val.take 8)
      else
        "WAR block INVALID: failed checks: " ++ String.intercalate ", "
          ((checks.filter fun c => !c.passed).map CheckResult.name)
    let details ← b.buildForensicDetails
    .ok { valid := allPassed, checks, summary, details }

end Defs

variable {C : Crates}

/-! ## What passes -/

@[simp] theorem passed_checked (name : String) (passed : Bool) (yes no : String) :
    (checked name passed yes no).passed = passed := rfl

@[simp] theorem passed_failed (name message : String) : (failed name message).passed = false := rfl

variable {b : Block}

theorem verifySignature_passed :
    (b.verifySignature C).passed = true ↔ b.signed = true
      ∧ C.ed25519.validKey b.warSeal.publicKey = true
      ∧ C.ed25519.verifyStrict b.warSeal.publicKey b.warSeal.signedMessage b.warSeal.signature
        = true := by
  unfold Block.verifySignature
  cases b.signed with
  | false => simp
  | true => cases C.ed25519.validKey b.warSeal.publicKey <;> simp

variable {evidence : Packet} {key : Option Bytes}

theorem verifyHashChain_passed {s : Seal} {version : Version} :
    (verifyHashChain C s evidence version).passed = true ↔
      ∃ declaration contents, evidence.declaration = some declaration
        ∧ Sealed C evidence declaration contents
        ∧ contents.h1 C = s.h1 ∧ contents.h2 C = s.h2 ∧ contents.h3 C = s.h3 := by
  unfold verifyHashChain
  cases hdecl : evidence.declaration with
  | none => simp
  | some declaration =>
    simp only [Option.some.injEq]
    cases hcomputed : computeSeal C evidence declaration with
    | ok computed =>
      obtain ⟨contents, hsealed, rfl⟩ := computeSeal_eq_ok.mp hcomputed
      have honly : ∀ contents', Sealed C evidence declaration contents' → contents' = contents := by
        intro contents' hsealed'
        have h := sealContents_eq_ok.mpr hsealed'
        rw [sealContents_eq_ok.mpr hsealed] at h
        exact (Except.ok.inj h).symm
      constructor
      · intro h
        refine ⟨declaration, contents, rfl, hsealed, ?_⟩
        by_cases h1 : contents.h1 C = s.h1
        · by_cases h2 : contents.h2 C = s.h2
          · by_cases h3 : contents.h3 C = s.h3
            · exact ⟨h1, h2, h3⟩
            · simp [sealOf, h1, h2, h3] at h
          · simp [sealOf, h1, h2] at h
        · simp [sealOf, h1] at h
      · rintro ⟨_, contents', rfl, hsealed', h1, h2, h3⟩
        rw [honly contents' hsealed'] at h1 h2 h3
        simp [sealOf, h1, h2, h3]
    | error fault =>
      have hnone : ¬∃ contents, Sealed C evidence declaration contents := by
        rintro ⟨contents, hsealed⟩
        rw [computeSeal_eq_ok.mpr ⟨contents, hsealed, rfl⟩] at hcomputed
        cases hcomputed
      constructor
      · intro h
        cases fault <;> cases h
      · rintro ⟨_, contents, rfl, hsealed, -⟩
        exact absurd ⟨contents, hsealed⟩ hnone

theorem verifyDeclaration_passed :
    (verifyDeclaration C evidence).passed = true ↔
      ∃ decl, evidence.declaration = some decl ∧ decl.verify C.sha256 C.ed25519 = .ok () := by
  unfold verifyDeclaration
  cases evidence.declaration with
  | none => simp
  | some decl => simp

theorem exists_elapsedSecs :
    (∃ secs, b.elapsedSecs = .ok secs) ↔
      ∀ evidence ∈ b.evidence,
        Evidence.elapsedNanos evidence.checkpoints < 2 ^ 64 * 1000000000 := by
  unfold Block.elapsedSecs
  cases b.evidence with
  | none => simp
  | some evidence =>
    simp only [res_bind_eq_ok, Option.mem_some_iff, forall_eq']
    rw [← Evidence.exists_totalElapsedTime (ε := Empty)]
    constructor
    · rintro ⟨_, total, htotal, _⟩
      exact ⟨total, htotal⟩
    · rintro ⟨total, htotal⟩
      exact ⟨_, total, htotal, rfl⟩

/-- Verification only aborts on times that do not add up. -/
theorem exists_details :
    (∃ details, b.buildForensicDetails = .ok details) ↔
      ∀ evidence ∈ b.evidence,
        Evidence.elapsedNanos evidence.checkpoints < 2 ^ 64 * 1000000000 := by
  rw [← exists_elapsedSecs]
  unfold Block.buildForensicDetails
  simp only [res_bind_eq_ok]
  exact ⟨fun ⟨_, secs, hsecs, _⟩ => ⟨secs, hsecs⟩, fun ⟨secs, hsecs⟩ => ⟨_, secs, hsecs, rfl⟩⟩

theorem verify_valid {report : VerificationReport} (h : b.verify C key = .ok report) :
    (report.valid = true ↔ (∀ trusted ∈ key, trusted = b.warSeal.publicKey.val)
      ∧ (b.sealChecks C).1 = true)
    ∧ (report.valid = true →
      report.checks = (key.map b.trustedKeyCheck).toList ++ (b.sealChecks C).2) := by
  have hkeys : (key.map b.trustedKeyCheck).toList.all CheckResult.passed = true ↔
      ∀ trusted ∈ key, trusted = b.warSeal.publicKey.val := by
    cases key with
    | none => simp
    | some trusted => simp [Block.trustedKeyCheck]
  unfold Block.verify at h
  dsimp only at h
  split at h
  next hbad =>
    obtain ⟨details, -, h⟩ := res_bind_eq_ok.mp h
    obtain rfl := Except.ok.inj h
    refine ⟨⟨nofun, fun hall => ?_⟩, nofun⟩
    rw [hkeys.mpr hall.1] at hbad
    cases hbad
  next hgood =>
    obtain ⟨details, -, h⟩ := res_bind_eq_ok.mp h
    obtain rfl := Except.ok.inj h
    exact ⟨⟨fun hvalid => ⟨hkeys.mp (Bool.eq_true_of_not_eq_false hgood), hvalid⟩, And.right⟩,
      fun _ => rfl⟩

/-- A report comes out unless the times of the evidence do not add up. -/
theorem exists_verify :
    (∃ report, b.verify C key = .ok report) ↔
      ∀ evidence ∈ b.evidence,
        Evidence.elapsedNanos evidence.checkpoints < 2 ^ 64 * 1000000000 := by
  rw [← exists_details]
  unfold Block.verify
  dsimp only
  split
  all_goals
    simp only [res_bind_eq_ok]
    exact ⟨fun ⟨_, details, hdetails, _⟩ => ⟨details, hdetails⟩,
      fun ⟨details, hdetails⟩ => ⟨_, details, hdetails, rfl⟩⟩

end WritersProof.War
