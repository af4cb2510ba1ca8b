/-
  WritersProof.Evidence.Signing

  The signature of a packet and its co-signature by a TPM
  (crates/cpoe/src/evidence/packet.rs, evidence/types.rs, tpm/verification.rs).

  Both are computed over a hash: that of the packet leaves out the nonce, the signature and
  its key; that of the co-signature has the signature in it.
-/
import WritersProof.Evidence.Types

namespace WritersProof.Evidence

open Rust
open Checkpoint (Digest)

/-! ## TPM providers -/

inductive TpmError where
  | notAvailable
  | invalidSignature
  | unsupportedPublicKey
  deriving DecidableEq

/-- `Display` -/
def TpmError.text : TpmError → String
  | .notAvailable => "hardware not available"
  | .invalidSignature => "invalid signature"
  | .unsupportedPublicKey => "unsupported public key type"

structure Provider where
  hardwareBacked : Bool
  /-- The kind that its bindings and quotes name -/
  providerType : String
  deviceId : String
  publicKey : Bytes
  algorithm : String
  sign : Bytes → Except String Bytes
  /-- `clock_info().clock` -/
  clock : Except String Nat

section Defs

variable (C : Crates)

def tryVerifyEd25519 (publicKey payload signature : Bytes) : Option (Res TpmError Unit) :=
  match FixedBytes.tryFrom 32 publicKey, FixedBytes.tryFrom 64 signature with
  | some key, some signature =>
    if C.ed25519.validKey key = false then none
    else some (reject (C.ed25519.verifyStrict key payload signature = false) .invalidSignature)
  | _, _ => none

def tried (outcome : Option Bool) : Option (Res TpmError Unit) :=
  outcome.map fun ok => reject (ok = false) .invalidSignature

def verifySignatureForProvider (providerType : String) (publicKey payload signature : Bytes) :
    Res TpmError Unit :=
  if providerType = "software" then
    (tryVerifyEd25519 C publicKey payload signature).getD (fail .invalidSignature)
  else if providerType = "secure-enclave" then
    (tried (C.ecdsaP256 publicKey payload signature)).getD (fail .invalidSignature)
  else if providerType = "tpm2-linux" ∨ providerType = "tpm2-windows" then
    ((tried (C.ecdsaP256 publicKey payload signature)).or
      (tried (C.rsa publicKey payload signature))).getD (fail .unsupportedPublicKey)
  else fail .notAvailable

/-! ## Signature -/

/-- What `hash_content_cbor` hashes for an encoded packet. -/
def contentInput (data : Bytes) : Bytes := Bytes.utf8 "cpoe-packet-content-v3" ++ data

variable (p : Packet)

def hashContentCbor : Res Error Digest := do
  let data ← mapErr (C.packetCbor p) fun e => .crypto ("content_hash: CBOR encoding failed: " ++ e)
  .ok (C.sha256 (contentInput data))

/-- A copy without nonce, signature and key. -/
def Packet.cleared : Packet :=
  { p with verifierNonce := none, packetSignature := none, signingPublicKey := none }

def Packet.contentHash : Res Error Digest :=
  if p.verifierNonce = none ∧ p.packetSignature = none ∧ p.signingPublicKey = none then
    hashContentCbor C p
  else hashContentCbor C p.cleared

def nonceInput (content nonce : Digest) : Bytes :=
  Bytes.utf8 "cpoe-nonce-binding-v1" ++ content.val ++ nonce.val

def Packet.signingPayload : Res Error Digest := do
  let content ← p.contentHash C
  match p.verifierNonce with
  | some nonce => .ok (C.sha256 (nonceInput content nonce))
  | none => .ok content

def Packet.setVerifierNonce (nonce : Digest) : Packet :=
  { p with verifierNonce := some nonce, packetSignature := none, signingPublicKey := none }

def Packet.sign (p : Packet) (seed : Digest) : Res Error Packet := do
  let payload ← p.signingPayload C
  .ok { p with
    packetSignature := some (C.ed25519.sign seed payload.val)
    signingPublicKey := some (C.ed25519.publicKey seed) }

def Packet.signWithDid (seed : Digest) (authorDid : Option String) :
    Res Error Packet :=
  { p with authorDid }.sign C seed

def Packet.signWithNonce (seed nonce : Digest) : Res Error Packet :=
  (p.setVerifierNonce nonce).sign C seed

def Packet.verifySignature (expectedNonce : Option Digest) : Res Error Unit := do
  match expectedNonce, p.verifierNonce with
  | some expected, some actual =>
    reject (expected ≠ actual) (.signature "verifier nonce mismatch")
  | some _, none => fail (.signature "expected verifier nonce but none present")
  -- a nonce that nobody expects is still covered by the signature
  | none, _ => .ok ()
  let signature ← okOr p.packetSignature (.signature "packet not signed")
  let publicKey ← okOr p.signingPublicKey (.signature "missing signing public key")
  reject (C.ed25519.validKey publicKey = false)
    (.signature ("invalid public key: " ++ C.signatureError))
  let payload ← p.signingPayload C
  reject (C.ed25519.verify publicKey payload.val signature = false)
    (.signature ("signature verification failed: " ++ C.signatureError))

/-! ## Co-signature -/

/-- What `compute_hw_entangled_hash` hashes -/
def hwEntangledInput (docHash swBinding : Bytes) (tpmClockMs monotonicCounter : Nat)
    (deviceId : String) (publicKey prevHwSignature : Bytes) : Bytes :=
  Bytes.utf8 "cpoe-hw-cosign-v1" ++ docHash ++ Bytes.toBE 4 swBinding.length ++ swBinding
    ++ Bytes.toBE 8 tpmClockMs ++ Bytes.toBE 8 monotonicCounter ++ Bytes.utf8 deviceId
    ++ Bytes.toBE 4 publicKey.length ++ publicKey ++ prevHwSignature

def computeHwEntangledHash (docHash swBinding : Bytes) (tpmClockMs monotonicCounter : Nat)
    (deviceId : String) (publicKey prevHwSignature : Bytes) : Digest :=
  C.sha256 (hwEntangledInput docHash swBinding tpmClockMs monotonicCounter deviceId publicKey
    prevHwSignature)

def prevSignature (prev : Option HardwareCosignature) : Bytes :=
  (prev.map fun c => c.signature).getD []

/-- `prev_cosignature.map(|c| c.chain_index + 1).unwrap_or(0)` -/
def nextChainIndex : Option HardwareCosignature → Res Error Nat
  | some c => unwrap (checkedAdd c.chainIndex 1)
  | none => .ok 0

def cosignature (provider : Provider) (prev : Option HardwareCosignature) :
    Res Error HardwareCosignature := do
  let swSig ← okOr p.packetSignature
    (.signature "must sign with software key before hardware co-sign")
  let clock ← mapErr provider.clock fun e => .crypto ("TPM clock: " ++ e)
  let chainIndex ← nextChainIndex prev
  let entangledHash := computeHwEntangledHash C (Bytes.utf8 p.document.finalHash) swSig.val clock
    clock provider.deviceId provider.publicKey (prevSignature prev)
  let signature ← mapErr (provider.sign entangledHash.val)
    fun e => .crypto ("hardware co-sign: " ++ e)
  .ok { entangledHash := entangledHash.val
        signature
        publicKey := provider.publicKey
        deviceId := provider.deviceId
        tpmClockMs := clock
        monotonicCounter := clock
        providerType := if provider.hardwareBacked then "hardware" else "software"
        algorithm := provider.algorithm
        saltCommitment := none
        prevHwSignature := some (prevSignature prev)
        chainIndex
        bindingType := some "ed25519" }

def Packet.cosignHardware (provider : Provider) (prev : Option HardwareCosignature) :
    Res Error Packet := do
  let cosig ← cosignature C p provider prev
  .ok { p with hardwareCosignature := some cosig }

/-- The place of a co-signature in its chain. -/
def checkChain (cosig : HardwareCosignature) (prev : Option HardwareCosignature) :
    Res Error Unit :=
  match prev, cosig.chainIndex with
  | none, 0 => .ok ()
  | some prev, _ + 1 =>
    reject (cosig.prevHwSignature.getD [] ≠ prev.signature)
      (.signature "hardware co-signature chain broken: prev_hw_signature mismatch")
  | none, idx =>
    fail (.signature (s!"hardware co-signature chain_index is {idx} "
      ++ "but no previous co-signature provided"))
  | some _, 0 =>
    fail (.signature ("hardware co-signature chain_index is 0 "
      ++ "but previous co-signature provided"))

def Packet.verifyHardwareCosignature (prev : Option HardwareCosignature) :
    Res Error Unit := do
  let cosig ← okOr p.hardwareCosignature (.signature "no hardware co-signature present")
  let swSig ← okOr p.packetSignature (.signature "no software signature for co-sign verification")
  checkChain cosig prev
  let expected := computeHwEntangledHash C (Bytes.utf8 p.document.finalHash) swSig.val
    cosig.tpmClockMs cosig.monotonicCounter cosig.deviceId cosig.publicKey (prevSignature prev)
  reject (expected.val ≠ cosig.entangledHash)
    (.signature ("hardware co-signature entangled hash mismatch; "
      ++ "document, signature, or chain was modified"))
  mapFault (verifySignatureForProvider C cosig.providerType cosig.publicKey cosig.entangledHash
      cosig.signature)
    fun e => .signature ("hardware co-signature invalid: " ++ e.text)

end Defs

variable {C : Crates}

theorem contentHash_eq (p : Packet) : p.contentHash C = hashContentCbor C p.cleared := by
  unfold Packet.contentHash
  split
  next h =>
    obtain ⟨hnonce, hsignature, hkey⟩ := h
    have hcleared : p.cleared = p := by
      cases p
      simp_all [Packet.cleared]
    rw [hcleared]
  next => rfl

theorem signingPayload_congr {p q : Packet} (hcleared : p.cleared = q.cleared)
    (hnonce : p.verifierNonce = q.verifierNonce) : p.signingPayload C = q.signingPayload C := by
  unfold Packet.signingPayload
  rw [contentHash_eq, contentHash_eq, hcleared, hnonce]

theorem sign_eq_ok {p signed : Packet} {seed : Digest} :
    p.sign C seed = .ok signed ↔ ∃ payload, p.signingPayload C = .ok payload
      ∧ { p with
          packetSignature := some (C.ed25519.sign seed payload.val)
          signingPublicKey := some (C.ed25519.publicKey seed) } = signed := by
  unfold Packet.sign
  simp only [res_bind_eq_ok, Except.ok.injEq]

end WritersProof.Evidence
