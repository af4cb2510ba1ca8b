/-
  WritersProof.War.Ephemeral

  Blocks of ephemeral sessions (crates/cpoe/src/war/mod.rs).

  Two rules of the verifiers are not kept when such a packet is made: the chain hash is
  not that of the last checkpoint, and there is no delay proof for a block of several.
-/
import WritersProof.Evidence.Ephemeral
import WritersProof.Evidence.Signing
import WritersProof.War.Sealing

namespace WritersProof.War

open Rust
open Checkpoint (Digest)
open Evidence (Packet Crates EphemeralSnapshot BuiltFrom buildEphemeralPacket ephemeralInput
  length_ephemeralCheckpoints mem_ephemeralCheckpoints
  zeroHash verifySelfSigned verifySelfSigned_built_iff
  verifySelfSigned_single_iff exists_buildEphemeralPacket sumCrates
  sumCrates_correct)

/-- The packet passes, and when it is signed and sealed the block verifies. -/
def SessionVerifies (C : Crates) (seed : Digest) (p : Packet) : Prop :=
  verifySelfSigned C p = .ok ()
    ∧ ∃ signed b report, p.sign C seed = .ok signed
      ∧ Block.fromPacketSigned C signed (Ed25519Signer C.ed25519 seed) = .ok b
      ∧ b.verify C (some (C.ed25519.publicKey seed).val) = .ok report ∧ report.valid = true

variable {C : Crates}

theorem exists_sign (hcbor : ∀ p, ∃ bytes, C.packetCbor p = .ok bytes) (p : Packet)
    (seed : Digest) : ∃ signed, p.sign C seed = .ok signed := by
  obtain ⟨bytes, hbytes⟩ := hcbor p.cleared
  have hcontent : p.contentHash C = .ok (C.sha256 (Evidence.contentInput bytes)) := by
    rw [Evidence.contentHash_eq, Evidence.hashContentCbor, mapErr_eq_ok.mpr hbytes, res_ok_bind]
  obtain ⟨payload, hpayload⟩ : ∃ payload, p.signingPayload C = .ok payload := by
    unfold Packet.signingPayload
    rw [hcontent, res_ok_bind]
    cases p.verifierNonce with
    | none => exact ⟨_, rfl⟩
    | some nonce => exact ⟨_, rfl⟩
  exact ⟨_, Evidence.sign_eq_ok.mpr ⟨payload, hpayload, rfl⟩⟩

variable {p : Packet} {seed : Digest} {snapshots : List EphemeralSnapshot}
  {last : EphemeralSnapshot} {declaration : Declaration}

/-- The signature is beside what the verifiers look at. -/
theorem builtFrom_of_sign {signed : Packet} (h : BuiltFrom C seed snapshots last p declaration)
    (hsign : p.sign C seed = .ok signed) :
    BuiltFrom C seed snapshots last signed declaration := by
  obtain ⟨payload, -, rfl⟩ := Evidence.sign_eq_ok.mp hsign
  exact ⟨h.checkpoints, h.chainHash, h.finalHash, h.finalSize, h.declared, h.verified, h.author,
    h.keyHierarchy, h.baseline, h.beacon⟩

/-- No checkpoint of a session takes time or has a delay proof. -/
theorem sealable_built_iff (h : BuiltFrom C seed snapshots last p declaration) :
    Sealable C p ↔ C.integrityCheck = .ok () ∧ snapshots.length ≤ 1 := by
  have hbare : ∀ cp ∈ p.checkpoints, cp.vdfOutput = none ∧ cp.elapsedTime = none := by
    intro cp hcp
    rw [h.checkpoints] at hcp
    obtain ⟨_, _, _, -, rfl⟩ := mem_ephemeralCheckpoints hcp
    exact ⟨rfl, rfl⟩
  have hlength : p.checkpoints.length = snapshots.length := by
    rw [h.checkpoints, length_ephemeralCheckpoints]
  constructor
  · intro hsealable
    refine ⟨hsealable.integrity, ?_⟩
    rcases hsealable.delays with hle | ⟨cp, hcp, hvdf⟩
    · rwa [hlength] at hle
    · unfold hasVdf at hvdf
      rw [(hbare cp hcp).1] at hvdf
      simp at hvdf
  · rintro ⟨hintegrity, hle⟩
    refine ⟨hintegrity, ⟨last.contentHash.val, ?_⟩, ?_, .inl (by rwa [hlength]), ?_⟩
    · rw [h.chainHash]
      exact Hex.decode_encode _
    · intro text htext
      obtain ⟨cp, hcp, hsome⟩ := List.exists_of_findSome?_eq_some htext
      rw [(hbare cp (List.mem_reverse.mp hcp)).1] at hsome
      cases hsome
    · have hnone : p.checkpoints.map (fun cp => cp.elapsedTime.getD 0)
          = p.checkpoints.map fun _ => 0 := by
        apply List.map_congr_left
        intro cp hcp
        rw [(hbare cp hcp).2, Option.getD_none]
      unfold Evidence.elapsedNanos
      rw [hnone]
      simp

/-- A session's packet and its block verify when there is one snapshot, of a content whose
    hash is that of the checkpoint itself. -/
theorem ephemeral_verifies_iff (C : Crates) (hE : C.ed25519.Correct)
    (hjson : ∀ declaration, ∃ bytes, C.declarationJson declaration = .ok bytes)
    (hcbor : ∀ p, ∃ bytes, C.packetCbor p = .ok bytes) (oneDigit : Rat → String)
    (declaredAt exportedAt : Int) (statement label : String) (snapshots : List EphemeralSnapshot)
    (last : EphemeralSnapshot) (seed : Digest) (jitterIntervals : List Nat) (keystrokeCount : Nat)
    (hlast : snapshots.getLast? = some last)
    (hhash : ∀ snap ∈ snapshots, snap.contentHash ≠ zeroHash)
    (hstatement : statement ≠ "") (hlabel : label ≠ "") :
    ∃ p, buildEphemeralPacket C oneDigit declaredAt exportedAt (Hex.encode last.contentHash.val)
        statement label snapshots seed jitterIntervals keystrokeCount = .ok p
      ∧ (SessionVerifies C seed p ↔ C.integrityCheck = .ok () ∧ ∃ snap, snapshots = [snap]
        ∧ C.sha256 (ephemeralInput 0 (Hex.encode zeroHash.val) snap) = snap.contentHash) := by
  have hmem : last ∈ snapshots := List.mem_of_getLast? hlast
  obtain ⟨p, declaration, hp, hbuilt⟩ := exists_buildEphemeralPacket hE hlast (hhash last hmem)
    hstatement hlabel
  refine ⟨p, hp, ?_⟩
  obtain ⟨signed, hsigned⟩ := exists_sign hcbor p seed
  have hbuiltSigned := builtFrom_of_sign hbuilt hsigned
  -- the block of the signed packet, once the packet passes
  have hblock : verifySelfSigned C p = .ok () →
      ((∃ b report, Block.fromPacketSigned C signed (Ed25519Signer C.ed25519 seed) = .ok b
        ∧ b.verify C (some (C.ed25519.publicKey seed).val) = .ok report ∧ report.valid = true)
        ↔ C.integrityCheck = .ok () ∧ snapshots.length ≤ 1) := by
    intro hpasses
    have hpassesSigned : verifySelfSigned C signed = .ok () := by
      rw [verifySelfSigned_built_iff hlast hbuilt, hbuilt.checkpoints] at hpasses
      rw [verifySelfSigned_built_iff hlast hbuiltSigned, hbuiltSigned.checkpoints]
      exact hpasses
    have hdoc : Hex.decode signed.document.finalHash = some last.contentHash.val := by
      rw [hbuiltSigned.finalHash, Hex.decode_encode]
    have hbeacon : (verifyBeaconAttestation C signed).passed = true := by
      unfold verifyBeaconAttestation
      rw [hbuiltSigned.beacon]
      rfl
    rw [← sealable_built_iff hbuiltSigned, ← hbuilt.author]
    exact fromPacketSigned_valid_iff hE (hjson declaration) hbuiltSigned.declared hpassesSigned hdoc
      hbeacon hbuilt.author
  constructor
  · rintro ⟨hpasses, signed', b, report, hsigned', hb, hreport, hvalid⟩
    obtain rfl := Except.ok.inj (hsigned.symm.trans hsigned')
    obtain ⟨hintegrity, hle⟩ := (hblock hpasses).mp ⟨b, report, hb, hreport, hvalid⟩
    obtain ⟨snap, rfl⟩ : ∃ snap, snapshots = [snap] := by
      apply List.length_eq_one_iff.mp
      have hpos := List.length_pos_of_mem hmem
      omega
    obtain rfl : snap = last := Option.some.inj hlast
    exact ⟨hintegrity, snap, rfl, (verifySelfSigned_single_iff hbuilt).mp hpasses⟩
  · rintro ⟨hintegrity, snap, rfl, hfix⟩
    obtain rfl : snap = last := Option.some.inj hlast
    have hpasses := (verifySelfSigned_single_iff hbuilt).mpr hfix
    obtain ⟨b, report, h⟩ := (hblock hpasses).mpr ⟨hintegrity, le_refl 1⟩
    exact ⟨hpasses, signed, b, report, hsigned, h⟩

/-! ## A session with one snapshot -/

def noted : EphemeralSnapshot :=
  { timestampNs := 1700000000000000000, contentHash := FixedBytes.filled 32 7, charCount := 12 }

theorem ephemeral_verifies_iff_noted : ∃ p,
    buildEphemeralPacket sumCrates (fun _ => "100.0") 0 0 (Hex.encode noted.contentHash.val) "Mine."
        "notes" [noted] authorSeed [] 0 = .ok p
      ∧ (SessionVerifies sumCrates authorSeed p ↔ sumCrates.integrityCheck = .ok ()
        ∧ ∃ snap, [noted] = [snap]
          ∧ sumCrates.sha256 (ephemeralInput 0 (Hex.encode zeroHash.val) snap)
            = snap.contentHash) :=
  ephemeral_verifies_iff sumCrates sumCrates_correct (fun _ => ⟨_, rfl⟩) (fun _ => ⟨_, rfl⟩)
    (fun _ => "100.0") 0 0 "Mine." "notes" [noted] noted authorSeed [] 0 rfl
    (List.forall_mem_singleton.mpr (by decide)) (by decide) (by decide)

/-- Its packet is made and does not pass: the chain hash is the hash of the text, and that
    of the checkpoint is another one. -/
theorem not_verifies_noted : ∃ p,
    buildEphemeralPacket sumCrates (fun _ => "100.0") 0 0 (Hex.encode noted.contentHash.val) "Mine."
        "notes" [noted] authorSeed [] 0 = .ok p
      ∧ p.chainHash = Hex.encode noted.contentHash.val
      ∧ verifySelfSigned sumCrates p = fail (.evidence "chain hash mismatch") := by
  have h : (buildEphemeralPacket sumCrates (fun _ => "100.0") 0 0
      (Hex.encode noted.contentHash.val) "Mine." "notes" [noted] authorSeed [] 0).toOption.map
        (fun p => (p.chainHash, verifySelfSigned sumCrates p))
      = some (Hex.encode noted.contentHash.val, fail (.evidence "chain hash mismatch")) := by
    decide +kernel
  obtain ⟨p, hok, hpair⟩ := exists_ok_of_toOption h
  exact ⟨p, hok, (Prod.mk.inj hpair).1, (Prod.mk.inj hpair).2⟩

end WritersProof.War
