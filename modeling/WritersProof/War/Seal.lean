/-
  WritersProof.War.Seal

  The seal of a block: three hashes over the evidence, and a signature of the last
  (crates/cpoe/src/war/types.rs, `compute_seal` of war/verification.rs).

  Where the hashed texts do not collide, the last hash determines the contents, but for
  the length of the document's hash, which is hashed without it.
-/
import WritersProof.Evidence.Types

namespace WritersProof.War

open Rust FixedBytes
open Checkpoint (Digest)
open Evidence (Packet Crates)

/-- The cryptographic seal binding all evidence together. -/
structure Seal where
  h1 : Digest
  h2 : Digest
  h3 : Digest
  signature : FixedBytes 64
  publicKey : Digest
  reconstructed : Bool
  deriving DecidableEq

/-- What the hashes are computed from. -/
structure SealContents where
  docHash : Bytes
  checkpointRoot : Bytes
  declarationJson : Bytes
  jitterHash : Digest
  authorPublicKey : Digest
  /-- Empty when there is no attestation -/
  beaconSig : Bytes
  vdfOutput : Bytes
  deriving DecidableEq

def lastVdfOutput (packet : Packet) : Option String :=
  packet.checkpoints.reverse.findSome? Evidence.CheckpointProof.vdfOutput

section Defs

variable (C : Crates)

def vdfOutputBytes (packet : Packet) : Res String Bytes :=
  match lastVdfOutput packet with
  | some text => mapErr (C.hexDecode text) fun e => "invalid VDF output hex: " ++ e
  | none => .ok (List.replicate 32 0)

/-- The counter-signature of the beacons, nothing when there is none. -/
def beaconBytes (packet : Packet) : Res String Bytes :=
  match packet.beaconAttestation with
  | some b => do
    let decoded ← mapErr (C.hexDecode b.wpSignature)
      fun e => "invalid beacon wp_signature hex: " ++ e
    reject (decoded = []) "beacon wp_signature is empty; cannot bind empty signature"
    .ok decoded
  | none => .ok []

/-- What `compute_seal` reads, in the order of its errors. -/
def sealContents (packet : Packet) (declaration : Declaration) : Res String SealContents := do
  let docHash ← mapErr (C.hexDecode packet.document.finalHash)
    fun e => "invalid document hash: " ++ e
  let checkpointRoot ← mapErr (C.hexDecode packet.chainHash) fun e => "invalid chain hash: " ++ e
  let jitterHash :=
    (declaration.jitterSealed.map fun j => j.jitterHash).getD (filled 32 0)
  let vdfOutput ← vdfOutputBytes C packet
  let declarationJson ← mapErr (C.declarationJson declaration)
    fun e => "failed to encode declaration: " ++ (Error.validation ("encode: " ++ e)).text
  let beaconSig ← beaconBytes C packet
  let authorPublicKey ← okOr (tryFrom 32 declaration.authorPublicKey)
    s!"author_public_key must be 32 bytes, got {declaration.authorPublicKey.length}"
  .ok { docHash, checkpointRoot, declarationJson, jitterHash, authorPublicKey, beaconSig
        vdfOutput }

variable (contents : SealContents)

def SealContents.h1Input : Bytes :=
  Bytes.utf8 "cpoe-seal-h1-v1" ++ contents.docHash ++ contents.checkpointRoot
    ++ (C.sha256 contents.declarationJson).val

def SealContents.h1 : Digest := C.sha256 (contents.h1Input C)

def SealContents.h2Input : Bytes :=
  Bytes.utf8 "cpoe-seal-h2-v1" ++ (contents.h1 C).val ++ contents.jitterHash.val
    ++ contents.authorPublicKey.val ++ contents.beaconSig

def SealContents.h2 : Digest := C.sha256 (contents.h2Input C)

def SealContents.h3Input : Bytes :=
  Bytes.utf8 "cpoe-seal-h3-v1" ++ (contents.h2 C).val ++ contents.vdfOutput ++ contents.docHash

def SealContents.h3 : Digest := C.sha256 (contents.h3Input C)

def SealContents.inputs : List Bytes :=
  [contents.declarationJson, contents.h1Input C, contents.h2Input C, contents.h3Input C]

/-- The hashes. -/
def sealOf : Seal :=
  { h1 := contents.h1 C, h2 := contents.h2 C, h3 := contents.h3 C
    signature := filled 64 0, publicKey := contents.authorPublicKey
    reconstructed := false }

def computeSeal (packet : Packet) (declaration : Declaration) : Res String Seal := do
  let contents ← sealContents C packet declaration
  .ok (sealOf C contents)

end Defs

variable {C : Crates}

/-! ## What a seal takes -/

variable {packet : Packet} {bytes : Bytes} {declaration : Declaration}

theorem vdfOutputBytes_eq_ok :
    vdfOutputBytes C packet = .ok bytes ↔
      (lastVdfOutput packet).elim (some (List.replicate 32 0)) Hex.decode = some bytes := by
  unfold vdfOutputBytes
  cases lastVdfOutput packet with
  | none => simp
  | some text => simp [Crates.hexDecode_eq_ok]

theorem beaconBytes_eq_ok :
    beaconBytes C packet = .ok bytes ↔
      packet.beaconAttestation.elim (bytes = [])
        fun b => Hex.decode b.wpSignature = some bytes ∧ bytes ≠ [] := by
  unfold beaconBytes
  cases packet.beaconAttestation with
  | none =>
    show Except.ok [] = Except.ok bytes ↔ bytes = []
    rw [Except.ok.injEq, eq_comm]
  | some b =>
    simp only [mapErr_bind_eq_ok, reject_bind_eq_ok, Crates.hexDecode_eq_ok, Option.elim_some,
      Except.ok.injEq]
    constructor
    · rintro ⟨decoded, hdecoded, hne, rfl⟩
      exact ⟨hdecoded, hne⟩
    · rintro ⟨hdecoded, hne⟩
      exact ⟨bytes, hdecoded, hne, rfl⟩

structure Sealed (C : Crates) (packet : Packet) (declaration : Declaration)
    (contents : SealContents) : Prop where
  docHash : Hex.decode packet.document.finalHash = some contents.docHash
  checkpointRoot : Hex.decode packet.chainHash = some contents.checkpointRoot
  vdfOutput : (lastVdfOutput packet).elim (some (List.replicate 32 0)) Hex.decode
    = some contents.vdfOutput
  declarationJson : C.declarationJson declaration = .ok contents.declarationJson
  beaconSig : packet.beaconAttestation.elim (contents.beaconSig = [])
    fun b => Hex.decode b.wpSignature = some contents.beaconSig ∧ contents.beaconSig ≠ []
  authorPublicKey : declaration.authorPublicKey = contents.authorPublicKey.val
  jitterHash : contents.jitterHash
    = (declaration.jitterSealed.map fun j => j.jitterHash).getD (filled 32 0)

theorem sealContents_eq_ok {contents : SealContents} :
    sealContents C packet declaration = .ok contents ↔ Sealed C packet declaration contents := by
  unfold sealContents
  simp only [res_bind_eq_ok, mapErr_eq_ok, okOr_eq_ok, Crates.hexDecode_eq_ok,
    vdfOutputBytes_eq_ok, beaconBytes_eq_ok, tryFrom_eq_some, Except.ok.injEq]
  constructor
  · rintro ⟨docHash, hdoc, root, hroot, vdfOutput, hvdf, json, hjson, beaconSig, hbeacon, key, hkey,
      rfl⟩
    exact ⟨hdoc, hroot, hvdf, hjson, hbeacon, hkey, rfl⟩
  · intro h
    refine ⟨_, h.docHash, _, h.checkpointRoot, _, h.vdfOutput, _, h.declarationJson, _, h.beaconSig,
      _, h.authorPublicKey, ?_⟩
    rw [← h.jitterHash]

theorem computeSeal_eq_ok {computed : Seal} :
    computeSeal C packet declaration = .ok computed ↔
      ∃ contents, Sealed C packet declaration contents ∧ sealOf C contents = computed := by
  unfold computeSeal
  simp only [res_bind_eq_ok, sealContents_eq_ok, Except.ok.injEq]

/-! ## What a seal binds -/

/-- Nothing hashed for the one collides with what is hashed for the other. -/
def NoCollision (C : Crates) (a b : SealContents) : Prop :=
  ∀ x ∈ a.inputs C, ∀ y ∈ b.inputs C, C.sha256 x = C.sha256 y → x = y

/-- What two seals with one last hash have in common. -/
structure SameSealed (a b : SealContents) : Prop where
  declarationJson : a.declarationJson = b.declarationJson
  jitterHash : a.jitterHash = b.jitterHash
  authorPublicKey : a.authorPublicKey = b.authorPublicKey
  beaconSig : a.beaconSig = b.beaconSig
  -- the two hashes of the document have no length in front of them
  documentChain : a.docHash ++ a.checkpointRoot = b.docHash ++ b.checkpointRoot
  vdfDocument : a.vdfOutput ++ a.docHash = b.vdfOutput ++ b.docHash

theorem SameSealed.eq {a b : SealContents} (h : SameSealed a b)
    (hlength : a.docHash.length = b.docHash.length) : a = b := by
  obtain ⟨hdoc, hroot⟩ := List.append_inj h.documentChain hlength
  obtain ⟨hvdf, -⟩ := List.append_inj' h.vdfDocument hlength
  cases a
  cases b
  congr 1
  · exact h.declarationJson
  · exact h.jitterHash
  · exact h.authorPublicKey
  · exact h.beaconSig

/-- The last hash determines what the three are computed from. -/
theorem sameSealed_of_h3 {a b : SealContents} (hfree : NoCollision C a b) (h : a.h3 C = b.h3 C) :
    SameSealed a b := by
  -- from the last hash to the first: each input starts with the hash before it
  have h3 : a.h3Input C = b.h3Input C :=
    hfree _ (by simp [SealContents.inputs]) _ (by simp [SealContents.inputs]) h
  unfold SealContents.h3Input at h3
  simp only [List.append_assoc] at h3
  obtain ⟨-, h3⟩ := List.append_inj h3 rfl
  obtain ⟨hh2, hvdf⟩ := List.append_inj h3 (by simp)
  have h2 : a.h2Input C = b.h2Input C :=
    hfree _ (by simp [SealContents.inputs]) _ (by simp [SealContents.inputs])
      (ext_val hh2)
  unfold SealContents.h2Input at h2
  simp only [List.append_assoc] at h2
  obtain ⟨-, h2⟩ := List.append_inj h2 rfl
  obtain ⟨hh1, h2⟩ := List.append_inj h2 (by simp)
  obtain ⟨hjitter, h2⟩ := List.append_inj h2 (by simp)
  obtain ⟨hkey, hbeacon⟩ := List.append_inj h2 (by simp)
  have h1 : a.h1Input C = b.h1Input C :=
    hfree _ (by simp [SealContents.inputs]) _ (by simp [SealContents.inputs])
      (ext_val hh1)
  unfold SealContents.h1Input at h1
  obtain ⟨h1, hjson⟩ := List.append_inj' h1 (by simp)
  rw [List.append_assoc, List.append_assoc] at h1
  have hdocument := List.append_cancel_left h1
  have hjson : a.declarationJson = b.declarationJson :=
    hfree _ (by simp [SealContents.inputs]) _ (by simp [SealContents.inputs])
      (ext_val hjson)
  exact ⟨hjson, ext_val hjitter, ext_val hkey, hbeacon, hdocument, hvdf⟩

end WritersProof.War
