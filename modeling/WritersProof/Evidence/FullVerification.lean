/-
  WritersProof.Evidence.FullVerification

  `full_verify` (crates/cpoe/src/verify/mod.rs, seals.rs): the structural check, the
  signature and the declaration, then, for a packet whose structure is accepted, the
  seals, the duration, the keys and the forensics.

  An error of a phase becomes a warning.  What ends the program is arithmetic that
  leaves its type, and with it every verification of that packet.
-/
import WritersProof.Evidence.Forensics
import WritersProof.Evidence.Signing
import WritersProof.War.Verification

namespace WritersProof.Evidence

open Rust FixedBytes
open Checkpoint (Digest Parameters)

/-! ## Results -/

/-- Options controlling what the full verification pipeline checks. -/
structure VerifyOptions where
  vdfParams : Parameters
  expectedNonce : Option Digest
  runForensics : Bool
  trustedPublicKey : Option Digest

structure SealsChecked extends SealVerification where
  checkpointsChecked : Nat

structure DurationChecked extends DurationCheck where
  claimedSeconds : Rat

/-- What the phases after the structural one find. -/
structure Examination (Metrics : Type) where
  seals : SealsChecked
  duration : DurationChecked
  keyProvenance : KeyProvenanceCheck
  forensics : Option Metrics
  perCheckpoint : Option PerCheckpointResult
  warnings : List String

structure FullVerificationResult (Metrics : Type) extends Examination Metrics where
  structural : Bool
  signature : Option Bool
  verdict : ForensicVerdict
  anchorsVerified : Nat

section Defs

variable (C : Crates)

/-! ## Structure -/

def bindingVerifies (trusted : Digest) (binding : Binding) : Bool :=
  if binding.attestedHash.length ≠ 32 ∨ binding.safeClock = some false then false
  else
    let payload := binding.attestedHash
      ++ Bytes.toLE 8 (timestampNanosSafe binding.timestamp % 2 ^ 64).toNat
      ++ Bytes.utf8 binding.deviceId
    verifySignatureForProvider C binding.providerType trusted.val payload binding.signature = .ok ()

/-- `verify_binding_chain`, from binding `idx` on; its error is given as `{:?}` has it. -/
def verifyBindingChain (trusted : Digest) : Nat → Option Nat → List Binding → Res String Unit
  | _, _, [] => .ok ()
  | idx, lastCounter, binding :: rest => do
    reject (∃ prev ∈ lastCounter, ∃ counter ∈ binding.monotonicCounter, counter ≤ prev)
      "CounterRollback"
    reject (bindingVerifies C trusted binding = false)
      ("Verification(\"" ++ s!"binding {idx} failed" ++ "\")")
    verifyBindingChain trusted (idx + 1) binding.monotonicCounter rest

/-- Without a trusted key there is nothing to check bindings with. -/
def checkHardware (trusted : Option Digest) (p : LayeredPacket) : Res Error Unit :=
  match p.hardware, trusted with
  | some _, some key =>
    mapFault (verifyBindingChain C key 0 none p.bindings)
      fun e => .evidence ("hardware attestation invalid: " ++ e)
  | _, _ => .ok ()

def LayeredPacket.under (p : LayeredPacket) (trusted : Option Digest) : Packet :=
  { p.toPacket with signingPublicKey := trusted.or p.signingPublicKey }

def verifyInner (trusted : Option Digest) (p : LayeredPacket) : Res Error Unit := do
  checkDocument p.toPacket
  checkCheckpoints C p.toPacket 0 "" p.checkpoints
  checkDeclaration C p.toPacket
  checkHardware C trusted p
  checkKeyHierarchy C p.toPacket
  -- a baseline is checked with the key that is trusted, else with the packet's
  checkBaseline C (p.under trusted)

/-! ## Seals and duration -/

def isHash32 (text : String) : Bool := ((Hex.decode text).bind (tryFrom 32)).isSome

def checkEnds (cp : CheckpointProof) : Nat × List String :=
  match cp.vdfInput, cp.vdfOutput with
  | some vdfIn, some vdfOut =>
    (1, if isHash32 vdfIn && isHash32 vdfOut then []
      else [s!"Checkpoint {cp.ordinal} has malformed VDF input/output"])
  | _, _ => (0, [])

def verifySealsStructural (p : LayeredPacket) : SealsChecked × List String :=
  let zero : Digest := filled 32 0
  let tag := (p.declaration.bind Declaration.jitterSealed).map fun s => decide (s.jitterHash ≠ zero)
  let ends := p.checkpoints.map checkEnds
  let zeroCommitment := p.entropyCommitment = some zero
  ({ jitterTagPresent := if zeroCommitment then some false
        else if p.entropyCommitment.isSome then tag.or (some true) else tag
     entangledBindingValid := none
     checkpointsChecked := (if tag = some true then 1 else 0) + (ends.map Prod.fst).sum },
    (if tag = some false then ["Declaration jitter seal has zero hash"] else [])
      ++ ends.flatMap Prod.snd
      ++ (if zeroCommitment then ["Jitter binding has zero entropy commitment hash"] else []))

/-- The seconds between the earliest and the latest checkpoint, in whole milliseconds. -/
def claimedSeconds (checkpoints : List CheckpointProof) : Rat :=
  if 2 ≤ checkpoints.length then
    match (checkpoints.map CheckpointProof.timestamp).min?,
      (checkpoints.map CheckpointProof.timestamp).max? with
    | some earliest, some latest =>
      Binary64.div (Binary64.ofNat (latest.signedDurationSince earliest / 1000000).toNat) 1000
    | _, _ => 0
  else 0

def allIterations (checkpoints : List CheckpointProof) : List Nat :=
  checkpoints.filterMap CheckpointProof.vdfIterations

/-- The warning about a duration that is not plausible, given `{:.n}`. -/
def durationWarning (fixed : Nat → Rat → String) (claimed computed ratio : Rat) : String :=
  if ratio < 1 / 2 then
    "Duration implausible: claimed " ++ fixed 1 claimed ++ "s but VDF requires minimum "
      ++ fixed 1 computed ++ "s (ratio " ++ fixed 2 ratio ++ "x)"
  else
    "Duration suspicious: claimed " ++ fixed 1 claimed ++ "s vs VDF minimum " ++ fixed 1 computed
      ++ "s (ratio " ++ fixed 2 ratio ++ "x, max 3.0x)"

def verifyDuration (fixed : Nat → Rat → String) (params : Parameters)
    (checkpoints : List CheckpointProof) : Res Empty (DurationChecked × List String) :=
  if params.iterationsPerSecond = 0 then
    .ok ({ computedMinSeconds := 0, claimedSeconds := 0, ratio := 0, isPlausible := false },
      ["VDF iterations_per_second is zero — duration check cannot be performed"])
  else do
    let totalIterations ← sumU64 0 (allIterations checkpoints)
    let computed := Binary64.div (Binary64.ofNat totalIterations)
      (Binary64.ofNat params.iterationsPerSecond)
    let claimed := claimedSeconds checkpoints
    let ratio := if 0 < computed then Binary64.div claimed computed else 0
    let isPlausible : Bool :=
      if 0 < computed then 1 / 2 ≤ ratio && ratio ≤ 3 else checkpoints.isEmpty
    .ok ({ computedMinSeconds := computed, claimedSeconds := claimed, ratio, isPlausible },
      if isPlausible then []
      else if 0 < computed then [durationWarning fixed claimed computed ratio]
      else ["No VDF proof data found"])

/-! ## The pipeline -/

def warned (what : String) : Res Error Unit → Res Empty (Bool × List String)
  | .ok () => .ok (true, [])
  | .error (.err e) => .ok (false, [what ++ e.text])
  | .error .panic => abort

def signaturePhase (expectedNonce : Option Digest) (p : Packet) :
    Res Empty (Option Bool × List String) :=
  match p.packetSignature with
  | some _ => do
    let result ← warned "Signature verification failed: " (p.verifySignature C expectedNonce)
    .ok (some result.1, result.2)
  | none => .ok (none, ["Packet is unsigned"])

def declarationPhase (p : Packet) : Bool × List String :=
  match p.declaration with
  | some decl =>
    if decl.verify C.sha256 C.ed25519 = .ok () then (true, [])
    else (false, ["Declaration signature is invalid"])
  | none => (false, ["No declaration present"])

variable {Metrics : Type} (S : Statistics Metrics)

def skipped : Examination Metrics :=
  { seals := { jitterTagPresent := none, entangledBindingValid := none, checkpointsChecked := 0 }
    duration := { computedMinSeconds := 0, claimedSeconds := 0, ratio := 0, isPlausible := false }
    keyProvenance :=
      { hierarchyConsistent := none, signingKeyConsistent := false, ratchetMonotonic := false }
    forensics := none, perCheckpoint := none, warnings := [] }

/-- `pipeline::run_forensics`, if it is asked for -/
def forensicPhase (opts : VerifyOptions) (p : LayeredPacket) : Res Empty (ForensicPhase Metrics) :=
  if opts.runForensics then runForensics S p
  else .ok { metrics := none, perCheckpoint := none, warnings := [] }

def laterPhases (opts : VerifyOptions) (p : LayeredPacket) : Res Empty (Examination Metrics) := do
  let seals := verifySealsStructural p
  let duration ← verifyDuration S.fixed opts.vdfParams p.checkpoints
  let keyProvenance := verifyKeyProvenance C p.toPacket
  let forensics ← forensicPhase S opts p
  .ok { seals := seals.1, duration := duration.1, keyProvenance := keyProvenance.1
        forensics := forensics.metrics, perCheckpoint := forensics.perCheckpoint
        warnings := seals.2 ++ duration.2 ++ keyProvenance.2 ++ forensics.warnings }

/-- A packet whose structure is not accepted is not looked at any further. -/
def examine (structural : Bool) (opts : VerifyOptions) (p : LayeredPacket) :
    Res Empty (Examination Metrics) :=
  if structural then laterPhases C S opts p else .ok skipped

def fullVerify (opts : VerifyOptions) (p : LayeredPacket) :
    Res Empty (FullVerificationResult Metrics) := do
  let structural ← warned "Structural verification failed: " (verifyInner C opts.trustedPublicKey p)
  let signature ← signaturePhase C opts.expectedNonce p.toPacket
  let declaration := declarationPhase C p.toPacket
  let found ← examine C S structural.1 opts p
  let phases : Phases :=
    { structural := structural.1, signature := signature.1, declarationValid := declaration.1
      seals := found.seals.toSealVerification, duration := found.duration.toDurationCheck
      forensics := found.forensics.map S.verdict
      perCheckpoint := found.perCheckpoint.map PerCheckpointResult.suspicious }
  .ok { found with
    structural := structural.1, signature := signature.1
    verdict := computeVerdict phases found.keyProvenance
    -- a packet carries no anchors
    anchorsVerified := 0
    warnings := structural.2 ++ signature.2 ++ declaration.2 ++ found.warnings }

end Defs

variable {C : Crates}

/-! ## Checks that always return -/

variable {p : Packet} {trusted : Option Digest}

theorem checkDocument_ne_abort : checkDocument p ≠ abort := by
  unfold checkDocument
  split
  · refine reject_bind_ne_abort ?_
    exact reject_bind_ne_abort reject_ne_abort
  · exact reject_ne_abort

variable {i : Nat} {prevHash : String} {cp : CheckpointProof} {cps : List CheckpointProof}
  {master session cert : Bytes} {kh : KeyHierarchyEvidencePacket}

theorem checkLink_ne_abort : checkLink C p i prevHash cp ≠ abort := by
  unfold checkLink
  split <;> exact reject_ne_abort

/-- The numbers of a proof are only compared, and counted down in its verification. -/
theorem checkVdf_ne_abort : checkVdf C i cp ≠ abort := by
  unfold checkVdf
  split
  · refine reject_bind_ne_abort ?_
    refine mapErr_bind_ne_abort fun _ => ?_
    refine mapErr_bind_ne_abort fun _ => ?_
    refine okOr_bind_ne_abort fun _ => ?_
    exact okOr_bind_ne_abort fun _ => reject_ne_abort
  · exact nofun

theorem checkCheckpoints_ne_abort : checkCheckpoints C p i prevHash cps ≠ abort := by
  induction cps generalizing i prevHash with
  | nil => exact nofun
  | cons cp cps ih =>
    refine res_bind_ne_abort checkLink_ne_abort fun _ _ => ?_
    exact res_bind_ne_abort checkVdf_ne_abort fun _ _ => ih

theorem checkDeclaration_ne_abort : checkDeclaration C p ≠ abort := by
  unfold checkDeclaration
  split
  · exact nofun
  · split
    · exact nofun
    · exact fail_ne_abort _

theorem verifyBindingChain_ne_abort {trusted : Digest} {idx : Nat} {lastCounter : Option Nat}
    {bindings : List Binding} : verifyBindingChain C trusted idx lastCounter bindings ≠ abort := by
  induction bindings generalizing idx lastCounter with
  | nil => exact nofun
  | cons binding rest ih =>
    refine reject_bind_ne_abort ?_
    exact reject_bind_ne_abort ih

theorem checkHardware_ne_abort {p : LayeredPacket} : checkHardware C trusted p ≠ abort := by
  unfold checkHardware
  split
  · exact mapFault_ne_abort verifyBindingChain_ne_abort _
  · exact nofun

theorem validateCertByteLengths_ne_abort {sessionId docHash : Digest} {createdAt : DateTime} :
    validateCertByteLengths C master session cert sessionId createdAt docHash ≠ abort := by
  unfold validateCertByteLengths
  refine okOr_bind_ne_abort fun _ => ?_
  refine okOr_bind_ne_abort fun _ => ?_
  refine okOr_bind_ne_abort fun _ => ?_
  exact reject_bind_ne_abort reject_ne_abort

theorem verifyRatchetSignature_ne_abort {pubkey hash signature : Bytes} :
    verifyRatchetSignature C pubkey hash signature ≠ abort := by
  unfold verifyRatchetSignature
  refine okOr_bind_ne_abort fun _ => ?_
  refine reject_bind_ne_abort ?_
  refine okOr_bind_ne_abort fun _ => ?_
  exact reject_bind_ne_abort reject_ne_abort

theorem checkCertificate_ne_abort : checkCertificate C kh master session cert ≠ abort := by
  unfold checkCertificate
  split
  · exact nofun
  · refine mapErr_bind_ne_abort fun _ => ?_
    refine mapErr_bind_ne_abort fun _ => ?_
    refine okOr_bind_ne_abort fun _ => ?_
    refine okOr_bind_ne_abort fun _ => ?_
    exact mapFault_ne_abort validateCertByteLengths_ne_abort _

theorem checkRatchetSignature_ne_abort {sig : CheckpointSignature} :
    checkRatchetSignature C kh sig ≠ abort := by
  unfold checkRatchetSignature
  refine reject_bind_ne_abort ?_
  refine okOr_bind_ne_abort fun _ => ?_
  refine mapErr_bind_ne_abort fun _ => ?_
  refine reject_bind_ne_abort ?_
  refine mapErr_bind_ne_abort fun _ => ?_
  refine mapErr_bind_ne_abort fun _ => ?_
  refine reject_bind_ne_abort ?_
  exact mapFault_ne_abort verifyRatchetSignature_ne_abort _

theorem checkKeyHierarchy_ne_abort : checkKeyHierarchy C p ≠ abort := by
  unfold checkKeyHierarchy
  split
  · exact nofun
  · refine mapErr_bind_ne_abort fun _ => ?_
    refine reject_bind_ne_abort ?_
    refine mapErr_bind_ne_abort fun _ => ?_
    refine reject_bind_ne_abort ?_
    refine mapErr_bind_ne_abort fun _ => ?_
    refine res_bind_ne_abort checkCertificate_ne_abort fun _ _ => ?_
    exact forEach_ne_abort fun _ _ => checkRatchetSignature_ne_abort

theorem checkBaseline_ne_abort : checkBaseline C p ≠ abort := by
  unfold checkBaseline
  split
  · exact nofun
  · refine okOr_bind_ne_abort fun _ => ?_
    refine okOr_bind_ne_abort fun _ => ?_
    refine reject_bind_ne_abort ?_
    refine okOr_bind_ne_abort fun _ => ?_
    refine mapErr_bind_ne_abort fun _ => ?_
    exact reject_bind_ne_abort reject_ne_abort

/-- The structural check returns for every packet, under whatever key. -/
theorem verifyInner_ne_abort {p : LayeredPacket} : verifyInner C trusted p ≠ abort := by
  unfold verifyInner
  refine res_bind_ne_abort checkDocument_ne_abort fun _ _ => ?_
  refine res_bind_ne_abort checkCheckpoints_ne_abort fun _ _ => ?_
  refine res_bind_ne_abort checkDeclaration_ne_abort fun _ _ => ?_
  refine res_bind_ne_abort checkHardware_ne_abort fun _ _ => ?_
  exact res_bind_ne_abort checkKeyHierarchy_ne_abort fun _ _ => checkBaseline_ne_abort

/-- `verify_self_signed` is the structural check without a trusted key. -/
theorem verifyInner_none (p : LayeredPacket) :
    verifyInner C none p = verifySelfSigned C p.toPacket := by
  have hhardware : checkHardware C none p = .ok () := by
    unfold checkHardware
    split
    next hnone => cases hnone
    next => rfl
  unfold verifyInner
  rw [hhardware]
  rfl

theorem hashContentCbor_ne_abort : hashContentCbor C p ≠ abort := by
  unfold hashContentCbor
  exact mapErr_bind_ne_abort fun _ => nofun

theorem signingPayload_ne_abort : p.signingPayload C ≠ abort := by
  unfold Packet.signingPayload
  rw [contentHash_eq]
  refine res_bind_ne_abort hashContentCbor_ne_abort fun content _ => ?_
  cases p.verifierNonce with
  | none => exact nofun
  | some nonce => exact nofun

theorem verifySignature_ne_abort {expectedNonce : Option Digest} :
    p.verifySignature C expectedNonce ≠ abort := by
  unfold Packet.verifySignature
  extract_lets rest
  have hrest : ∀ u, rest u ≠ abort := by
    intro u
    refine okOr_bind_ne_abort fun _ => ?_
    refine okOr_bind_ne_abort fun _ => ?_
    refine reject_bind_ne_abort ?_
    exact res_bind_ne_abort signingPayload_ne_abort fun _ _ => reject_ne_abort
  split
  · exact reject_bind_ne_abort (hrest ())
  · exact fail_ne_abort _
  · exact hrest ()

/-! ## What is counted -/

/-- Sums and differences of a packet stay in range, those that the options ask for. -/
structure Countable (opts : VerifyOptions) (p : LayeredPacket) : Prop where
  iterations : opts.vdfParams.iterationsPerSecond ≠ 0 → (allIterations p.checkpoints).sum < 2 ^ 64
  times : opts.runForensics = true → p.keystroke.isSome → TimesFit p

variable {Metrics : Type} {S : Statistics Metrics} {opts : VerifyOptions} {p : LayeredPacket}

theorem exists_verifyDuration {fixed : Nat → Rat → String} {params : Parameters} :
    (∃ result, verifyDuration fixed params cps = .ok result) ↔
      (params.iterationsPerSecond ≠ 0 → (allIterations cps).sum < 2 ^ 64) := by
  unfold verifyDuration
  split
  next h => exact iff_of_true ⟨_, rfl⟩ fun hne => absurd h hne
  next h =>
    rw [exists_bind_pure, exists_sumU64 (by decide), Nat.zero_add]
    exact ⟨fun hlt _ => hlt, fun hlt => hlt h⟩

theorem exists_forensicPhase :
    (∃ phase, forensicPhase S opts p = .ok phase) ↔
      (opts.runForensics = true → p.keystroke.isSome → TimesFit p) := by
  unfold forensicPhase
  split
  next h => rw [exists_runForensics, forall_prop_of_true h]
  next h => exact iff_of_true ⟨_, rfl⟩ fun hrun => absurd hrun h

/-- Seals and keys are looked at without arithmetic. -/
theorem exists_laterPhases : (∃ found, laterPhases C S opts p = .ok found) ↔ Countable opts p := by
  unfold laterPhases
  dsimp only
  rw [exists_bind_eq_ok]
  simp only [exists_bind_pure]
  constructor
  · rintro ⟨duration, hduration, hforensics⟩
    exact ⟨exists_verifyDuration.mp ⟨duration, hduration⟩, exists_forensicPhase.mp hforensics⟩
  · intro h
    obtain ⟨duration, hduration⟩ := exists_verifyDuration.mpr h.iterations
    exact ⟨duration, hduration, exists_forensicPhase.mpr h.times⟩

theorem exists_examine {structural : Bool} :
    (∃ found, examine C S structural opts p = .ok found) ↔
      (structural = true → Countable opts p) := by
  unfold examine
  cases structural with
  | false => exact iff_of_true ⟨_, rfl⟩ nofun
  | true => simpa using exists_laterPhases

/-! ## When verification returns -/

/-- A check that returns gives a warning at most, and passes when it is right. -/
theorem exists_warned (what : String) {x : Res Error Unit} (h : x ≠ abort) :
    ∃ result, warned what x = .ok result ∧ (result.1 = true ↔ x = .ok ()) := by
  rcases x with (e | _) | u
  · exact ⟨_, rfl, nofun, nofun⟩
  · exact absurd rfl h
  · exact ⟨_, rfl, fun _ => rfl, fun _ => rfl⟩

theorem exists_signaturePhase (C : Crates) (expectedNonce : Option Digest) (p : Packet) :
    ∃ result, signaturePhase C expectedNonce p = .ok result := by
  have hnever : p.verifySignature C expectedNonce ≠ abort := verifySignature_ne_abort
  unfold signaturePhase
  split
  · obtain ⟨result, hresult, -⟩ := exists_warned "Signature verification failed: " hnever
    rw [hresult]
    exact ⟨_, rfl⟩
  · exact ⟨_, rfl⟩

/-- Under a trusted key its packet is checked for what it takes without one. -/
theorem verifyInner_eq_ok :
    verifyInner C trusted p = .ok () ↔
      Accepted C (p.under trusted) ∧ checkHardware C trusted p = .ok () := by
  rw [← verifySelfSigned_eq_ok]
  unfold verifyInner verifySelfSigned
  simp only [unit_bind_eq_ok, checkCheckpoints_eq_ok]
  constructor
  · rintro ⟨hdocument, hcheckpoints, hdeclaration, hhardware, hkeys, hbaseline⟩
    exact ⟨⟨hdocument, hcheckpoints, hdeclaration, hkeys, hbaseline⟩, hhardware⟩
  · rintro ⟨⟨hdocument, hcheckpoints, hdeclaration, hkeys, hbaseline⟩, hhardware⟩
    exact ⟨hdocument, hcheckpoints, hdeclaration, hhardware, hkeys, hbaseline⟩

/-- The pipeline aborts where a packet whose structure is accepted has more to count than the
    types hold. -/
theorem exists_fullVerify :
    (∃ result, fullVerify C S opts p = .ok result) ↔
      (Accepted C (p.under opts.trustedPublicKey) →
        checkHardware C opts.trustedPublicKey p = .ok () → Countable opts p) := by
  have hnever : verifyInner C opts.trustedPublicKey p ≠ abort := verifyInner_ne_abort
  obtain ⟨structural, hstructural, hpasses⟩ :=
    exists_warned "Structural verification failed: " hnever
  obtain ⟨signature, hsignature⟩ := exists_signaturePhase C opts.expectedNonce p.toPacket
  unfold fullVerify
  rw [hstructural, res_ok_bind, hsignature, res_ok_bind]
  dsimp only
  rw [exists_bind_pure, exists_examine, hpasses, verifyInner_eq_ok, and_imp]

/-- Every verification of a packet returns if and only if its times add up, and what is counted
    in it, if its structure is accepted, stays in range. -/
theorem verification_returns_iff (C : Crates) (S : Statistics Metrics) (opts : VerifyOptions)
    (p : LayeredPacket) (b : War.Block) (key : Option Bytes) :
    ((∃ result, fullVerify C S opts p = .ok result)
      ∧ verifySelfSigned C p.toPacket ≠ abort
      ∧ ∃ report, { b with evidence := some p.toPacket }.verify C key = .ok report) ↔
    (Accepted C (p.under opts.trustedPublicKey) →
        checkHardware C opts.trustedPublicKey p = .ok () → Countable opts p)
      ∧ elapsedNanos p.checkpoints < 2 ^ 64 * 1000000000 := by
  have hself : verifySelfSigned C p.toPacket ≠ abort := by
    rw [← verifyInner_none]
    exact verifyInner_ne_abort
  rw [exists_fullVerify, War.exists_verify]
  simp only [ne_eq, hself, not_false_eq_true, true_and, Option.mem_some_iff, forall_eq']

/-! ### Iterations without a proof -/

/-- A checkpoint that names iterations, and neither where they start nor where they end. -/
def unprovenCheckpoint (ordinal iterations : Nat) (previousHash hash : Digest) : CheckpointProof :=
  { ordinal, contentHash := Hex.encode (filled 32 1).val, contentSize := 40
    timestamp := .ofNanos 1700000000000000000, vdfInput := none, vdfOutput := none
    vdfIterations := some iterations, elapsedTime := none
    previousHash := Hex.encode previousHash.val, hash := Hex.encode hash.val, signature := none }

/-- A chain of two checkpoints, the first of which names `u64::MAX` iterations. -/
def overfullPacket : LayeredPacket :=
  { toPacket :=
      { Packet.default 1700000000000000000 with
        document :=
          { title := "Essay", path := "essay.txt"
            finalHash := Hex.encode (filled 32 1).val, finalSize := 40 }
        checkpoints :=
          [unprovenCheckpoint 0 18446744073709551615 (filled 32 0)
              (filled 32 2),
            unprovenCheckpoint 1 1 (filled 32 2) (filled 32 3)]
        chainHash := Hex.encode (filled 32 3).val }
    bindings := [], entropyCommitment := none, sampleTimes := [], typingSamples := []
    editRegions := 0 }

theorem accepted_overfullPacket : Accepted C (overfullPacket.under none) :=
  { document := by
      intro last hlast
      obtain rfl := Option.some.inj hlast
      exact ⟨rfl, rfl, rfl⟩
    noChain := nofun
    genesis := by
      intro cp hcp
      obtain rfl := Option.some.inj hcp
      exact isHexHash_encode _
    links := .cons_cons rfl (.singleton _)
    vdf := by
      -- an iteration count alone is not looked at
      intro cp hcp iterations _ inputHex hinput
      have hnone : cp.vdfInput = none := by
        rcases List.mem_pair.mp hcp with rfl | rfl
        · rfl
        · rfl
      rw [hnone] at hinput
      cases hinput
    declaration := nofun
    keyHierarchy := rfl
    baseline := rfl }

def plainOptions : VerifyOptions :=
  { vdfParams := Checkpoint.defaultParameters, expectedNonce := none, runForensics := false
    trustedPublicKey := none }

def noStatistics : Statistics Unit :=
  { metrics := fun _ => (), verdict := fun _ => .v6InsufficientData
    perCheckpointFlags := fun _ _ => { pctFlagged := 0, suspicious := false }
    fixed := fun _ _ => "" }

/-- The structure of the packet is accepted, and its iterations do not add up. -/
theorem fullVerify_overfull :
    verifySelfSigned sumCrates overfullPacket.toPacket = .ok ()
      ∧ fullVerify sumCrates noStatistics plainOptions overfullPacket = abort := by
  refine ⟨verifySelfSigned_eq_ok.mpr accepted_overfullPacket, ?_⟩
  apply eq_abort_of_forall_ne_ok
  intro result hresult
  have hcountable := exists_fullVerify.mp ⟨result, hresult⟩ accepted_overfullPacket rfl
  have hsum := hcountable.iterations (by decide)
  exact absurd hsum (by decide)

end WritersProof.Evidence
