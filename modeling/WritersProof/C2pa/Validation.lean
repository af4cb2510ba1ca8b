/-
  WritersProof.C2pa.Validation

  Validation of manifests and of their signatures
  (crates/authorproof-protocol/src/c2pa/validation.rs, c2pa/cert.rs).
-/
import WritersProof.C2pa.Jumbf
import WritersProof.Lib.Hex
import Mathlib.Data.List.Infix

namespace WritersProof.C2pa

open Rust Protocol

section Signatures

variable (C : Crates)

/-! ## Keys -/

def ED25519_OID : String := "1.3.101.112"

def EC_PUBLIC_KEY_OID : String := "1.2.840.10045.2.1"

def extractPublicKeyFromCert (certDer : Bytes) : Res Error Bytes := do
  let (oid, rawBytes) ← mapErr (C.certPublicKey certDer)
    fun e => .crypto ("failed to parse certificate DER: " ++ e)
  if oid = ED25519_OID then
    reject (rawBytes.length ≠ 32)
      (.crypto s!"Ed25519 public key must be 32 bytes, got {rawBytes.length}")
    .ok rawBytes
  else if oid = EC_PUBLIC_KEY_OID then
    reject (rawBytes.length ≠ 65)
      (.crypto s!"P-256 uncompressed public key must be 65 bytes, got {rawBytes.length}")
    reject (rawBytes.head? ≠ some 0x04)
      (.crypto "P-256 public key must be uncompressed (0x04 prefix)")
    .ok rawBytes
  else fail (.crypto s!"unsupported public key algorithm OID: {oid}")

/-- The key in the certificate chain: raw, or in a certificate. -/
def extractPublicKey (sign1 : Sign1) : Res Error Bytes :=
  match sign1.header.rest.find? fun entry => entry.1 = X5CHAIN with
  | none => fail (.crypto "COSE_Sign1 protected header missing x5chain (label 33)")
  | some (_, .bytes bytes) =>
    if bytes.length = 32 ∨ bytes.length = 33 ∨ bytes.length = 65 then .ok bytes
    else if 65 < bytes.length then extractPublicKeyFromCert C bytes
    else fail (.crypto s!"x5chain value has unexpected length: {bytes.length}")
  | some (_, .other) => fail (.crypto "x5chain header value must be a byte string")

/-! ## Signatures -/

def verifyCoseSign1Es256 (sign1 : CoseSign1) (verifyingKey : C.P256Key) : Res Error Unit :=
  mapErr (C.p256Verify verifyingKey (sigStructure sign1.protectedHeader sign1.signedPayload)
      sign1.signature)
    fun e => .crypto ("ES256 signature verification failed: " ++ e)

def reattached (m : C2paManifest) (sign1 : Sign1) : Sign1 :=
  if sign1.payload.isNone then { sign1 with payload := some m.claimCbor } else sign1

/-- `match result`: an error of the verification is an answer. -/
def verdict (result : Res Error Unit) : Bool :=
  match result with
  | .ok () => true
  | .error _ => false

/-- `VerifyingKey::from_bytes` -/
def ed25519Key (pk : FixedBytes 32) : Res Error Unit :=
  reject (C.ed25519.validKey pk = false) (.crypto "invalid Ed25519 public key: signature error")

def parseManifestSign1 (m : C2paManifest) : Res Error Sign1 :=
  mapErr (C.parseSign1 m.signature) fun e => .crypto ("failed to parse COSE_Sign1: " ++ e)

def verifyUnder (sign1 : Sign1) (pkBytes : Bytes) : Algorithm → Res Error Bool
  | .edDSA => do
    let pk ← okOr (FixedBytes.tryFrom 32 pkBytes)
      (.crypto s!"Ed25519 public key must be 32 bytes, got {pkBytes.length}")
    ed25519Key C pk
    .ok (verdict (verifyCoseSign1Ed25519 C.toCrates sign1.toCoseSign1 pk))
  | .es256 => do
    let vk ← mapErr (C.p256FromSec1 pkBytes) fun e => .crypto ("invalid P-256 public key: " ++ e)
    .ok (verdict (verifyCoseSign1Es256 C sign1.toCoseSign1 vk))
  | .other debug => fail (.crypto ("unsupported COSE algorithm: " ++ debug))

/-- Verification under the key that the signature carries itself. -/
def verifyManifestSignature (m : C2paManifest) : Res Error Bool := do
  let sign1 ← parseManifestSign1 C m
  let sign1 := reattached m sign1
  let pkBytes ← extractPublicKey C sign1
  let alg ← okOr sign1.header.alg (.crypto "COSE_Sign1 protected header missing alg")
  verifyUnder C sign1 pkBytes alg

/-- Verification under a known Ed25519 key. -/
def verifyManifestWithKey (m : C2paManifest) (publicKey : FixedBytes 32) : Res Error Bool := do
  let sign1 ← parseManifestSign1 C m
  let sign1 := reattached m sign1
  ed25519Key C publicKey
  .ok (verdict (verifyCoseSign1Ed25519 C.toCrates sign1.toCoseSign1 publicKey))

end Signatures

/-! ## Structure -/

/-- `url` ends with `/{label}`. -/
def urlHasLabel (url label : String) : Bool :=
  Bytes.utf8 ("/" ++ label) <:+ Bytes.utf8 url

def contains (s part : String) : Bool := Bytes.utf8 part <:+: Bytes.utf8 s

def hashAssertionBox (C : Crates) (data : Bytes) (alg : Option String) : Bytes :=
  if alg = some "sha384" then (C.sha384 data).val
  else if alg = some "sha512" then (C.sha512 data).val
  else (C.sha256 data).val

def expectedHashLen (alg : Option String) : Nat :=
  if alg = some "sha384" then 48 else if alg = some "sha512" then 64 else 32

/-- Fatal failures, and issues that do not invalidate the manifest. -/
structure ValidationResult where
  errors : List String
  warnings : List String

def ValidationResult.isValid (r : ValidationResult) : Bool := r.errors.isEmpty

/-- `if p { errors.push(message) }` -/
def errorIf (p : Prop) [Decidable p] (message : String) : List String :=
  if p then [message] else []

section Validate

variable (C : Crates) (m : C2paManifest)

def countErrors (label what : String) : List String :=
  let count := m.claim.createdAssertions.countP fun a => urlHasLabel a.url label
  errorIf (count ≠ 1) s!"Standard manifest requires exactly 1 {what}, found {count}"

def referenceErrors (i : Nat) (a : HashedUri) : List String :=
  let expected := expectedHashLen m.claim.alg
  if a.hash.length ≠ expected then
    [s!"created_assertions[{i}] hash length {a.hash.length} != {expected}"]
  else errorIf (a.url = "") s!"created_assertions[{i}] has empty URL"

def boxErrors (i : Nat) (a : HashedUri) (box : Bytes) : List String :=
  if box.length < 8 then [s!"assertion_boxes[{i}] too short"]
  else
    let computed := hashAssertionBox C (box.drop 8) m.claim.alg
    errorIf (a.hash ≠ computed) (s!"created_assertions[{i}] hash mismatch: claim has " ++
      s!"{Hex.encode a.hash}, box hashes to {Hex.encode computed}")

def signatureResult : ValidationResult :=
  if m.signature = [] then { errors := ["COSE_Sign1 signature is empty"], warnings := [] }
  else
    match verifyManifestSignature C m with
    | .ok true => { errors := [], warnings := [] }
    | .ok false =>
      { errors := ["COSE_Sign1 signature verification failed"], warnings := [] }
    | .error (.err e) =>
      { errors := [], warnings := ["Could not verify COSE_Sign1 signature: " ++ e.text] }
    | .error .panic => { errors := [], warnings := [] }

def structureErrors : List String :=
  countErrors m ASSERTION_LABEL_HASH_DATA "hard binding"
  ++ countErrors m ASSERTION_LABEL_ACTIONS "actions assertion"
  ++ (m.claim.createdAssertions.zipIdx.flatMap fun (a, i) =>
    errorIf (contains a.url m.manifestLabel = false)
      s!"created_assertions[{i}].url does not contain manifest label '{m.manifestLabel}'")
  ++ errorIf (contains m.claim.signature m.manifestLabel = false)
    s!"signature URI does not contain manifest label '{m.manifestLabel}'"
  ++ errorIf
    (m.claim.claimGeneratorInfo.name = "") "claim_generator_info must have a non-empty name"
  ++ errorIf (m.claim.instanceId = "") "instanceID must not be empty"
  ++ errorIf (m.claim.signature = "") "signature URI must not be empty"
  ++ (m.claim.createdAssertions.zipIdx.flatMap fun (a, i) => referenceErrors m i a)
  ++ errorIf (m.assertionBoxes.length ≠ m.claim.createdAssertions.length)
    (s!"assertion_boxes count ({m.assertionBoxes.length}) != created_assertions " ++
      s!"count ({m.claim.createdAssertions.length})")
  ++ ((m.claim.createdAssertions.zip m.assertionBoxes).zipIdx.flatMap fun ((a, box), i) =>
    boxErrors C m i a box)

def validateManifest : ValidationResult where
  errors := structureErrors C m ++ (signatureResult C m).errors
  warnings :=
    (signatureResult C m).warnings ++ errorIf (m.manifestLabel = "") "manifest_label is empty"

end Validate

end WritersProof.C2pa
