/-
  WritersProof.War.Sealing

  Blocks made from packets that pass: which of them verify.

  The checks of a packet and of a block differ in three things.  A block of several
  checkpoints needs a delay proof, its seal needs hashes that are hexadecimal, and its
  report adds up the times of its checkpoints.
-/
import WritersProof.War.Certified

namespace WritersProof.War

open Rust Hex FixedBytes
open Checkpoint (Digest)
open Evidence (Packet Crates sumCrates_correct CheckpointProof VdfAccepted verifySelfSigned
  verifySelfSigned_eq_ok
  sumCrates)

/-- All three parts of a delay proof are there. -/
def hasVdf (cp : CheckpointProof) : Bool :=
  cp.vdfInput.isSome && cp.vdfOutput.isSome && cp.vdfIterations.isSome

/-- What a packet that passes needs besides, so that its block verifies. -/
structure Sealable (C : Crates) (p : Packet) : Prop where
  integrity : C.integrityCheck = .ok ()
  chainHash : ∃ bytes, decode p.chainHash = some bytes
  vdfOutput : ∀ text ∈ lastVdfOutput p, ∃ bytes, decode text = some bytes
  delays : p.checkpoints.length ≤ 1 ∨ ∃ cp ∈ p.checkpoints, hasVdf cp = true
  elapsed : Evidence.elapsedNanos p.checkpoints < 2 ^ 64 * 1000000000

variable {C : Crates} {i : Nat} {seed : Digest}

/-! ## Delay proofs -/

theorem vdfPart_eq_ok {part : String} {text : String} {digest : Digest}
    (h : decode text = some digest.val) : vdfPart C part i text = .ok digest := by
  unfold vdfPart
  rw [Crates.hexDecode_eq_ok.mpr h]
  simp

/-- A block takes longer delay proofs than a packet. -/
theorem verifyVdf_of_accepted {cp : CheckpointProof} (h : VdfAccepted C cp) :
    verifyVdf C i cp = .ok (hasVdf cp) := by
  unfold verifyVdf hasVdf
  cases hinput : cp.vdfInput with
  | none => rfl
  | some inputHex =>
    cases houtput : cp.vdfOutput with
    | none => rfl
    | some outputHex =>
      cases hiterations : cp.vdfIterations with
      | none => rfl
      | some iterations =>
        obtain ⟨hle, input, output, hin, hout, hverify⟩ :=
          h iterations hiterations inputHex hinput outputHex houtput
        have hmax : ¬maxVerificationIterations < iterations := by
          unfold Evidence.maxVdfIterations at hle
          unfold maxVerificationIterations
          omega
        simp only [if_neg hmax, vdfPart_eq_ok hin, vdfPart_eq_ok hout]
        show (if Checkpoint.VdfProof.verify C.sha256 { input, output, iterations, duration := 0 }
          = true then _ else _) = _
        rw [if_pos hverify]
        rfl

theorem countVdf_of_accepted {cps : List CheckpointProof} (h : ∀ cp ∈ cps, VdfAccepted C cp)
    (i total : Nat) : countVdf C i total cps = .ok (total + cps.countP hasVdf) := by
  induction cps generalizing i total with
  | nil => rfl
  | cons cp cps ih =>
    rw [countVdf, verifyVdf_of_accepted (h cp List.mem_cons_self), List.countP_cons]
    show countVdf C (i + 1) (if hasVdf cp = true then total + 1 else total) cps = _
    rw [ih fun cp' hcp' => h cp' (List.mem_cons_of_mem _ hcp')]
    cases hasVdf cp with
    | true => simp only [if_true, Nat.add_assoc, Nat.add_comm 1]
    | false => rfl

variable {p : Packet} {declaration : Declaration}

theorem verifyVdfProofs_passed (h : ∀ cp ∈ p.checkpoints, VdfAccepted C cp) :
    (verifyVdfProofs C p).passed = true ↔
      p.checkpoints.length ≤ 1 ∨ ∃ cp ∈ p.checkpoints, hasVdf cp = true := by
  unfold verifyVdfProofs
  rw [countVdf_of_accepted h, Nat.zero_add]
  by_cases hcount : p.checkpoints.countP hasVdf = 0
  · have hnone : ¬∃ cp ∈ p.checkpoints, hasVdf cp = true := by
      rintro ⟨cp, hcp, hvdf⟩
      exact List.countP_eq_zero.mp hcount cp hcp hvdf
    simp only [hcount, if_true, passed_checked, decide_eq_true_eq, hnone, or_false]
  · have hsome : ∃ cp ∈ p.checkpoints, hasVdf cp = true := by
      exact List.countP_pos_iff.mp (Nat.pos_of_ne_zero hcount)
    simp only [hcount, if_false, passed_checked, hsome, or_true]

/-! ## Seals -/

/-- A genuine counter-signature is 64 bytes in hexadecimal. -/
theorem decode_of_beacon (h : (verifyBeaconAttestation C p).passed = true) :
    ∀ b ∈ p.beaconAttestation, ∃ bytes, decode b.wpSignature = some bytes ∧ bytes ≠ [] := by
  intro b hb
  unfold verifyBeaconAttestation at h
  rw [Option.mem_def.mp hb] at h
  dsimp only at h
  split at h
  next entry _ =>
    unfold verifyBeaconSignature at h
    cases hsignature : (decode b.wpSignature).bind (tryFrom 64) with
    | some signature =>
      obtain ⟨bytes, hbytes, hfixed⟩ := Option.bind_eq_some_iff.mp hsignature
      rw [tryFrom_eq_some] at hfixed
      refine ⟨bytes, hbytes, ?_⟩
      apply List.ne_nil_of_length_pos
      rw [hfixed, length_val]
      decide
    | none =>
      rw [hsignature] at h
      split at h
      · cases h
      · split at h <;> cases h
  · cases h
  · cases h

/-- What it takes to seal a packet whose hash, key and attestation are as they should be. -/
theorem exists_sealed {documentId : Bytes}
    (hjson : ∃ bytes, C.declarationJson declaration = .ok bytes)
    (hkey : declaration.authorPublicKey.length = 32)
    (hdoc : decode p.document.finalHash = some documentId)
    (hbeacon : ∀ b ∈ p.beaconAttestation, ∃ bytes, decode b.wpSignature = some bytes
      ∧ bytes ≠ []) :
    (∃ contents, Sealed C p declaration contents) ↔
      (∃ bytes, decode p.chainHash = some bytes)
        ∧ ∀ text ∈ lastVdfOutput p, ∃ bytes, decode text = some bytes := by
  constructor
  · rintro ⟨contents, hsealed⟩
    refine ⟨⟨_, hsealed.checkpointRoot⟩, fun text htext => ⟨contents.vdfOutput, ?_⟩⟩
    have h := hsealed.vdfOutput
    rwa [Option.mem_def.mp htext, Option.elim_some] at h
  · rintro ⟨⟨root, hroot⟩, hvdf⟩
    obtain ⟨json, hjson⟩ := hjson
    obtain ⟨vdfOutput, hvdfOutput⟩ : ∃ bytes,
        (lastVdfOutput p).elim (some (List.replicate 32 0)) decode = some bytes := by
      cases hlast : lastVdfOutput p with
      | none => exact ⟨_, rfl⟩
      | some text => exact hvdf text hlast
    obtain ⟨beaconSig, hbeaconSig⟩ : ∃ bytes, p.beaconAttestation.elim (bytes = [])
        fun b => decode b.wpSignature = some bytes ∧ bytes ≠ [] := by
      cases hattestation : p.beaconAttestation with
      | none => exact ⟨[], rfl⟩
      | some b => exact hbeacon b hattestation
    exact ⟨{ docHash := documentId, checkpointRoot := root, declarationJson := json
             jitterHash := (declaration.jitterSealed.map fun j => j.jitterHash).getD
               (filled 32 0)
             authorPublicKey := ⟨declaration.authorPublicKey, hkey⟩, beaconSig, vdfOutput },
      hdoc, hroot, hvdfOutput, hjson, hbeaconSig, rfl, rfl⟩

/-! ## Blocks of packets that pass -/

def signedBlock (C : Crates) (seed : Digest) (b : Block) : Block :=
  { b with
    warSeal := { b.warSeal with signature := C.ed25519.sign seed b.warSeal.signedMessage }
    signed := true }

theorem fromPacketSigned_eq_ok {signed : Block} :
    Block.fromPacketSigned C p (Ed25519Signer C.ed25519 seed) = .ok signed ↔
      ∃ b, Block.fromPacket C p = .ok b ∧ C.integrityCheck = .ok ()
        ∧ signed = signedBlock C seed b := by
  unfold Block.fromPacketSigned
  simp only [res_bind_eq_ok, sign_eq_ok]
  rfl

/-- Signed by its author, a block has nothing left to fail but its delay proofs. -/
theorem sealChecks_signedBlock (hE : C.ed25519.Correct) {b : Block}
    (hdecl : p.declaration = some declaration)
    (hverify : declaration.verify C.sha256 C.ed25519 = .ok ())
    (hkey : declaration.authorPublicKey = (C.ed25519.publicKey seed).val)
    (hbeacon : (verifyBeaconAttestation C p).passed = true) (hb : Block.fromPacket C p = .ok b) :
    ((signedBlock C seed b).sealChecks C).1 = (verifyVdfProofs C p).passed := by
  have hmade := fromPacket_eq_ok hb
  obtain ⟨declaration', contents, hdecl', hsealed, hseal, -⟩ := hmade.declaration
  obtain rfl := Option.some.inj (hdecl.symm.trans hdecl')
  have hevidence : (signedBlock C seed b).evidence = some p := hmade.evidence
  have hpublic : b.warSeal.publicKey = C.ed25519.publicKey seed := by
    apply ext_val
    rw [← hkey, hsealed.authorPublicKey, hseal]
    rfl
  have hsignature : ((signedBlock C seed b).verifySignature C).passed = true := by
    apply verifySignature_passed.mpr
    show true = true ∧ C.ed25519.validKey b.warSeal.publicKey = true
      ∧ C.ed25519.verifyStrict b.warSeal.publicKey b.warSeal.signedMessage
        (C.ed25519.sign seed b.warSeal.signedMessage) = true
    rw [hpublic]
    exact ⟨rfl, hE.validKey_publicKey seed, hE.verifyStrict_sign seed _⟩
  have hchain : (verifyHashChain C (signedBlock C seed b).warSeal p b.version).passed = true := by
    apply verifyHashChain_passed.mpr
    refine ⟨declaration, contents, hdecl, hsealed, ?_⟩
    show contents.h1 C = b.warSeal.h1 ∧ contents.h2 C = b.warSeal.h2 ∧ contents.h3 C = b.warSeal.h3
    rw [hseal]
    exact ⟨rfl, rfl, rfl⟩
  have hdeclaration : (verifyDeclaration C p).passed = true :=
    verifyDeclaration_passed.mpr ⟨declaration, hdecl, hverify⟩
  rw [sealChecks_of_evidence hevidence]
  unfold Block.sealChecks
  rw [hevidence]
  simp only [evidenceChecks, List.all_cons, List.all_nil, hsignature, hdeclaration, hbeacon,
    Bool.true_and, Bool.and_true]
  rw [show (signedBlock C seed b).version = b.version from rfl, hchain, Bool.true_and]

theorem fromPacketSigned_valid_iff (hE : C.ed25519.Correct) {documentId : Digest}
    (hjson : ∃ bytes, C.declarationJson declaration = .ok bytes)
    (hdecl : p.declaration = some declaration) (haccepted : verifySelfSigned C p = .ok ())
    (hdoc : decode p.document.finalHash = some documentId.val)
    (hbeacon : (verifyBeaconAttestation C p).passed = true)
    (hkey : declaration.authorPublicKey = (C.ed25519.publicKey seed).val) :
    (∃ b report, Block.fromPacketSigned C p (Ed25519Signer C.ed25519 seed) = .ok b
        ∧ b.verify C (some declaration.authorPublicKey) = .ok report ∧ report.valid = true)
      ↔ Sealable C p := by
  have haccepted := verifySelfSigned_eq_ok.mp haccepted
  have hverify := haccepted.declaration declaration hdecl
  have hsealed := exists_sealed hjson (Declaration.length_authorPublicKey hverify) hdoc
    (decode_of_beacon hbeacon)
  rw [← exists_fromPacket hdecl hdoc] at hsealed
  constructor
  · rintro ⟨signed, report, hmade, hreport, hvalid⟩
    obtain ⟨b, hb, hintegrity, rfl⟩ := fromPacketSigned_eq_ok.mp hmade
    obtain ⟨hchain, hvdf⟩ := hsealed.mp ⟨b, hb⟩
    have hchecks := ((verify_valid hreport).1.mp hvalid).2
    rw [sealChecks_signedBlock hE hdecl hverify hkey hbeacon hb] at hchecks
    exact ⟨hintegrity, hchain, hvdf, (verifyVdfProofs_passed haccepted.vdf).mp hchecks,
      exists_verify.mp ⟨report, hreport⟩ p (fromPacket_eq_ok hb).evidence⟩
  · intro h
    obtain ⟨b, hb⟩ := hsealed.mpr ⟨h.chainHash, h.vdfOutput⟩
    have hmade := fromPacket_eq_ok hb
    obtain ⟨report, hreport⟩ : ∃ report,
        (signedBlock C seed b).verify C (some declaration.authorPublicKey) = .ok report := by
      apply exists_verify.mpr
      rintro evidence hevidence
      obtain rfl : evidence = p := Option.some.inj (hevidence.symm.trans hmade.evidence)
      exact h.elapsed
    refine ⟨_, report, fromPacketSigned_eq_ok.mpr ⟨b, hb, h.integrity, rfl⟩, hreport, ?_⟩
    apply (verify_valid hreport).1.mpr
    constructor
    · -- the key of the seal is the author's
      rintro trusted ⟨⟩
      obtain ⟨declaration', contents, hdecl', hcontents, hseal, -⟩ := hmade.declaration
      obtain rfl := Option.some.inj (hdecl.symm.trans hdecl')
      rw [hcontents.authorPublicKey]
      show contents.authorPublicKey.val = b.warSeal.publicKey.val
      rw [hseal]
      rfl
    · rw [sealChecks_signedBlock hE hdecl hverify hkey hbeacon hb]
      exact (verifyVdfProofs_passed haccepted.vdf).mpr h.delays

/-- The packets that pass and whose blocks verify, with any optional layers and any mixture
    of checkpoints. -/
theorem sealed_verifies_iff (C : Crates) (hE : C.ed25519.Correct)
    (hjson : ∀ declaration, ∃ bytes, C.declarationJson declaration = .ok bytes)
    (p : Packet) (declaration : Declaration) (documentId seed : Digest)
    (hdecl : p.declaration = some declaration)
    (haccepted : verifySelfSigned C p = .ok ())
    (hdoc : decode p.document.finalHash = some documentId.val)
    (hbeacon : (verifyBeaconAttestation C p).passed = true)
    (hkey : declaration.authorPublicKey = (C.ed25519.publicKey seed).val) :
    (∃ b report, Block.fromPacketSigned C p (Ed25519Signer C.ed25519 seed) = .ok b
        ∧ b.verify C (some declaration.authorPublicKey) = .ok report ∧ report.valid = true)
      ↔ C.integrityCheck = .ok () ∧ (∃ bytes, decode p.chainHash = some bytes)
        ∧ (∀ text ∈ lastVdfOutput p, ∃ bytes, decode text = some bytes)
        ∧ (p.checkpoints.length ≤ 1 ∨ ∃ cp ∈ p.checkpoints, hasVdf cp = true)
        ∧ Evidence.elapsedNanos p.checkpoints < 2 ^ 64 * 1000000000 := by
  rw [fromPacketSigned_valid_iff hE (hjson declaration) hdecl haccepted hdoc hbeacon hkey]
  constructor
  · rintro ⟨hintegrity, hchain, hvdf, hdelays, helapsed⟩
    exact ⟨hintegrity, hchain, hvdf, hdelays, helapsed⟩
  · rintro ⟨hintegrity, hchain, hvdf, hdelays, helapsed⟩
    exact ⟨hintegrity, hchain, hvdf, hdelays, helapsed⟩

/-! ## With one checkpoint and with two -/

/-- The author's evidence, of one or two checkpoints without delay proofs. -/
def undelayed (n : Nat) : Packet :=
  { Evidence.historyPacket 1 30 0 with
    checkpoints := (Evidence.history 1 30 0).drop n
    declaration := some authorDeclaration }

theorem accepted_undelayed : ∀ n < 2, verifySelfSigned sumCrates (undelayed n) = .ok () := by
  decide +kernel

/-- Both checkpoints, with delay proofs of one iteration -/
def delayed : Packet :=
  { undelayed 0 with checkpoints := (undelayed 0).checkpoints.map fun cp =>
      { cp with
        vdfInput := some (encode (filled 32 1).val)
        vdfOutput := some (encode (filled 32 32).val)
        vdfIterations := some 1 } }

/-- One checkpoint without a delay proof is enough, and so are two with them. -/
theorem sealed_verifies_iff_delayed : [undelayed 1, delayed].Forall fun p => ∃ b report,
    Block.fromPacketSigned sumCrates p (Ed25519Signer sumCrates.ed25519 authorSeed) = .ok b
      ∧ b.verify sumCrates (some authorDeclaration.authorPublicKey) = .ok report
      ∧ report.valid = true := by
  have hdelayed : verifySelfSigned sumCrates delayed = .ok () := by decide +kernel
  have hiff := fun p => sealed_verifies_iff sumCrates sumCrates_correct
    (fun declaration => ⟨_, rfl⟩) p authorDeclaration (filled 32 2) authorSeed
  refine List.forall_iff_forall_mem.mpr fun p hp => ?_
  rcases List.mem_pair.mp hp with rfl | rfl
  · refine (hiff _ rfl (accepted_undelayed 1 (by decide)) (decode_encode _) rfl rfl).mpr
      ⟨rfl, ⟨_, decode_encode _⟩, nofun, .inl (by decide), by decide⟩
  · refine (hiff _ rfl hdelayed (decode_encode _) rfl rfl).mpr
      ⟨rfl, ⟨_, decode_encode _⟩, ?_, .inr ⟨_, List.mem_cons_self, rfl⟩, by decide⟩
    intro text htext
    obtain rfl := Option.some.inj htext
    exact ⟨_, decode_encode _⟩

/-- Two checkpoints without a delay proof: the packet passes, it is sealed, and the block
    is invalid. -/
theorem not_valid_undelayed :
    verifySelfSigned sumCrates (undelayed 0) = .ok ()
      ∧ (undelayed 0).declaration = some authorDeclaration
      ∧ decode (undelayed 0).document.finalHash = some (filled 32 2).val
      ∧ (undelayed 0).beaconAttestation = none
      ∧ authorDeclaration.authorPublicKey = (sumCrates.ed25519.publicKey authorSeed).val
      ∧ ∃ b report, Block.fromPacketSigned sumCrates (undelayed 0)
          (Ed25519Signer sumCrates.ed25519 authorSeed) = .ok b
        ∧ b.verify sumCrates (some authorDeclaration.authorPublicKey) = .ok report
        ∧ report.valid = false := by
  refine ⟨accepted_undelayed 0 (by decide), rfl, decode_encode _, rfl, rfl, ?_⟩
  have h : (Block.fromPacketSigned sumCrates (undelayed 0)
      (Ed25519Signer sumCrates.ed25519 authorSeed)).toOption.map (fun b =>
        (b.verify sumCrates (some authorDeclaration.authorPublicKey)).toOption.map
          VerificationReport.valid) = some (some false) := by
    decide +kernel
  obtain ⟨b, hb, hreport⟩ := exists_ok_of_toOption h
  obtain ⟨report, hok, hvalid⟩ := exists_ok_of_toOption hreport
  exact ⟨b, report, hb, hok, hvalid⟩

end WritersProof.War
