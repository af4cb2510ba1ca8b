/-
  WritersProof.Protocol.Cose

  Hashes, causality locks and COSE_Sign1 envelopes
  (crates/authorproof-protocol/src/crypto.rs).
-/
import WritersProof.Protocol.Types

namespace WritersProof.Protocol

open Rust

section Locks

variable (C : Crates)

def hashSha256 (data : Bytes) : HashValue := .ofSha256 (C.sha256 data)

/-- Length-prefixes a field to prevent concatenation ambiguity. -/
def hmacField (data : Bytes) : Res Error Bytes := do
  reject (2 ^ 32 - 1 < data.length) (.crypto "field too large for length prefix")
  .ok (Bytes.toBE 4 data.length ++ data)

def computeCausalityLockInner (key dst prevHash currentHash physEntropy : Bytes) :
    Res Error HashValue := do
  let derivedKey := C.sha256 key
  let dst ← hmacField dst
  let prevHash ← hmacField prevHash
  let currentHash ← hmacField currentHash
  let physEntropy ← hmacField physEntropy
  .ok (.ofSha256 (C.hmac derivedKey.val (dst ++ prevHash ++ currentHash ++ physEntropy)))

def computeCausalityLock (key prevHash currentHash : Bytes) : Res Error HashValue :=
  computeCausalityLockInner C key (Bytes.utf8 "causality_v1") prevHash currentHash []

/-- Binds physical entropy (jitter) to the content chain. -/
def computeCausalityLockV2 (key prevHash currentHash physEntropy : Bytes) : Res Error HashValue :=
  computeCausalityLockInner C key (Bytes.utf8 "causality_v2") prevHash currentHash physEntropy

end Locks

/-! ## Signers -/

structure EvidenceSigner where
  sign : Bytes → Except Error Bytes
  algorithm : Cbor
  publicKey : Bytes

def signingKey (C : Crates) (seed : FixedBytes 32) : EvidenceSigner where
  sign data := .ok (C.ed25519.sign seed data).val
  algorithm := .nint 7
  publicKey := (C.ed25519.publicKey seed).val

/-! ## Envelopes -/

/-- `Sig_structure` of a COSE_Sign1 without external data -/
def sigStructure (protectedHeader payload : Bytes) : Bytes :=
  Cbor.encode (.array [.text "Signature1", .bytes protectedHeader, .bytes [], .bytes payload])

def protectedHeader (algorithm : Cbor) (extra : List (Cbor × Cbor)) : Bytes :=
  Cbor.encode (.map ((.uint 1, algorithm) :: extra))

def coseSign1Inner (payload : Bytes) (signer : EvidenceSigner)
    (protectedExtra unprotected : List (Cbor × Cbor)) (detach : Bool) : Res Error Bytes := do
  let header := protectedHeader signer.algorithm protectedExtra
  let signature ← mapErr (signer.sign (sigStructure header payload)) id
  reject (signature = []) (.crypto "COSE signing produced empty signature")
  let sign1 : CoseSign1 :=
    { protectedHeader := header, unprotected, payload := if detach then none else some payload
      signature }
  .ok sign1.toCbor.encode

def coseSign1 (payload : Bytes) (signer : EvidenceSigner)
    (protectedExtra unprotected : List (Cbor × Cbor)) : Res Error Bytes :=
  coseSign1Inner payload signer protectedExtra unprotected false

def signEvidenceCose (payload : Bytes) (signer : EvidenceSigner) : Res Error Bytes :=
  coseSign1 payload signer [] []

section Verify

variable (C : Crates)

def MAX_COSE_INPUT_SIZE : Nat := 1024 * 1024

/-- Accepts both tagged and untagged CBOR. -/
def parseCoseSign1 (data : Bytes) : Res Error CoseSign1 :=
  match C.sign1FromTaggedSlice data with
  | .ok sign1 => .ok sign1
  | .error _ => mapErr (C.sign1FromSlice data) fun e => .crypto ("COSE_Sign1 decode error: " ++ e)

/-- The payload that the signature of a parsed envelope is over; a detached one counts as
empty. -/
def CoseSign1.signedPayload (sign1 : CoseSign1) : Bytes := sign1.payload.getD []

def verifyCoseSign1Ed25519 (sign1 : CoseSign1) (verifyingKey : FixedBytes 32) :
    Res Error Unit := do
  let signature ← okOr (FixedBytes.tryFrom 64 sign1.signature)
    (.crypto "Invalid signature format: signature error")
  reject (C.ed25519.verify verifyingKey (sigStructure sign1.protectedHeader sign1.signedPayload)
      signature ≠ true)
    (.crypto "Signature verification failed: signature error")

def verifyEvidenceCose (coseData : Bytes) (verifyingKey : FixedBytes 32) : Res Error Bytes := do
  reject (MAX_COSE_INPUT_SIZE < coseData.length)
    (.crypto s!"COSE input too large: {coseData.length} bytes (max {MAX_COSE_INPUT_SIZE})")
  let sign1 ← parseCoseSign1 C coseData
  verifyCoseSign1Ed25519 C sign1 verifyingKey
  okOr sign1.payload (.crypto "Missing payload in COSE_Sign1")

end Verify

/-! ## What a key signs verifies -/

section Signed

variable {C : Crates} (seed : FixedBytes 32) (payload : Bytes)

def ed25519Header : Bytes := protectedHeader (.nint 7) []

def signedEnvelope (C : Crates) (seed : FixedBytes 32) (payload : Bytes) : CoseSign1 where
  protectedHeader := ed25519Header
  unprotected := []
  payload := some payload
  signature := (C.ed25519.sign seed (sigStructure ed25519Header payload)).val

theorem signEvidenceCose_signingKey :
    signEvidenceCose payload (signingKey C seed)
      = .ok (signedEnvelope C seed payload).toCbor.encode := by
  have hne : (C.ed25519.sign seed (sigStructure ed25519Header payload)).val ≠ [] := by
    intro h
    have hlen := (C.ed25519.sign seed (sigStructure ed25519Header payload)).size_eq
    rw [h] at hlen
    cases hlen
  unfold signEvidenceCose coseSign1 coseSign1Inner
  show (reject _ _ >>= _) = _
  exact reject_bind_eq_ok.mpr ⟨hne, rfl⟩

theorem length_signedEnvelope :
    (signedEnvelope C seed payload).toCbor.encode.length
      = 73 + (Cbor.argument payload.length).length + payload.length := by
  have hsig := (C.ed25519.sign seed (sigStructure ed25519Header payload)).size_eq
  simp only [signedEnvelope, CoseSign1.toCbor, Option.map_some, Option.getD_some, Cbor.encode,
    Cbor.encodeItems, Cbor.encodeEntries, Cbor.header, List.length_append, List.length_cons,
    List.length_nil, hsig]
  have hheader : ed25519Header.length = 3 := by decide
  rw [hheader]
  have h64 : (Cbor.argument 64).length = 1 := by decide
  have h4 : (Cbor.argument 4).length = 0 := by decide
  have h3 : (Cbor.argument 3).length = 0 := by decide
  have h0 : (Cbor.argument 0).length = 0 := by decide
  rw [h64, h4, h3, h0]
  omega

theorem verifyEvidenceCose_signedEnvelope (hC : C.Faithful) (p : Bytes) :
    verifyEvidenceCose C (signedEnvelope C seed payload).toCbor.encode
        (C.ed25519.publicKey seed) = .ok p ↔
      (signedEnvelope C seed payload).toCbor.encode.length ≤ MAX_COSE_INPUT_SIZE ∧ payload = p := by
  obtain ⟨e, htagged⟩ := hC.untagged (signedEnvelope C seed payload)
  have hparse : (signedEnvelope C seed payload).toCbor.encode.length ≤ MAX_COSE_INPUT_SIZE →
      parseCoseSign1 C (signedEnvelope C seed payload).toCbor.encode
        = .ok (signedEnvelope C seed payload) := by
    intro hsize
    rw [parseCoseSign1, htagged]
    show mapErr _ _ = _
    rw [hC.sign1 _ (hsize.trans_lt (by decide))]
    rfl
  have hverify : verifyCoseSign1Ed25519 C (signedEnvelope C seed payload)
      (C.ed25519.publicKey seed) = .ok () := by
    unfold verifyCoseSign1Ed25519
    rw [signedEnvelope, FixedBytes.tryFrom_val, okOr_some, res_ok_bind]
    rw [reject, if_neg]
    exact not_not.mpr (hC.ed25519.verify_sign seed _)
  unfold verifyEvidenceCose
  rw [reject_bind_eq_ok, not_lt]
  apply and_congr_right
  intro hsize
  rw [hparse hsize, res_ok_bind, hverify, res_ok_bind, okOr_eq_ok]
  exact Option.some_inj

end Signed

end WritersProof.Protocol
