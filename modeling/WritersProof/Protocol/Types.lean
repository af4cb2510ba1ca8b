/-
  WritersProof.Protocol.Types

  Evidence packets of the protocol crate
  (crates/authorproof-protocol/src/rfc/mod.rs, rfc/wire_types/enums.rs, error.rs) and
  their CBOR form.

  A structure is a map from its field numbers, as text, to the fields; an optional
  field that is absent is left out, and an enumeration is the name of its variant.

  Packets and envelopes are determined by their CBOR form, so that readers as the
  protocol expects them exist: one that looks for what was encoded.
-/
import WritersProof.Lib.Cbor
import WritersProof.Lib.Ed25519
import WritersProof.Lib.Vec
import Mathlib.Logic.Function.Basic

namespace WritersProof.Protocol

open Rust

inductive Error where
  | serialization (message : String)
  | crypto (message : String)
  | protocol (message : String)
  | validation (message : String)
  deriving DecidableEq

def Error.text : Error → String
  | serialization message => "serialization error: " ++ message
  | crypto message => "cryptographic error: " ++ message
  | protocol message => "protocol violation: " ++ message
  | validation message => "validation failed: " ++ message

inductive HashAlgorithm where
  | sha256
  | sha384
  | sha512
  deriving DecidableEq

def HashAlgorithm.name : HashAlgorithm → String
  | sha256 => "Sha256"
  | sha384 => "Sha384"
  | sha512 => "Sha512"

inductive AttestationTier where
  | softwareOnly
  | attestedSoftware
  | hardwareBound
  | hardwareHardened

def AttestationTier.name : AttestationTier → String
  | softwareOnly => "SoftwareOnly"
  | attestedSoftware => "AttestedSoftware"
  | hardwareBound => "HardwareBound"
  | hardwareHardened => "HardwareHardened"

/-- Equality, also as `ct_eq`, is that of algorithm and digest. -/
structure HashValue where
  algorithm : HashAlgorithm
  digest : Bytes
  deriving DecidableEq

namespace HashValue

def expectedDigestLen (h : HashValue) : Nat :=
  match h.algorithm with
  | .sha256 => 32
  | .sha384 => 48
  | .sha512 => 64

/-- The digest has the length of its algorithm, and not all of its bytes are zero. -/
def validate (h : HashValue) : Bool :=
  h.digest.length = h.expectedDigestLen && h.digest.any (· ≠ 0)

def toCbor (h : HashValue) : Cbor :=
  .map [(.text "1", .text h.algorithm.name), (.text "2", .bytes h.digest)]

/-- A SHA-256 digest, as `hash_sha256` and the causality locks return it. -/
def ofSha256 (digest : FixedBytes 32) : HashValue := { algorithm := .sha256, digest := digest.val }

end HashValue

structure DocumentRef where
  contentHash : HashValue
  filename : Option String
  byteLength : UInt64
  charCount : UInt64

def DocumentRef.toCbor (d : DocumentRef) : Cbor :=
  .map ([(.text "1", d.contentHash.toCbor)]
    ++ (d.filename.map fun filename => (Cbor.text "2", Cbor.text filename)).toList
    ++ [(.text "3", .uint d.byteLength), (.text "4", .uint d.charCount)])

structure Checkpoint where
  sequence : UInt64
  checkpointId : Bytes
  timestamp : UInt64
  contentHash : HashValue
  charCount : UInt64
  prevHash : HashValue
  checkpointHash : HashValue
  jitterHash : Option HashValue

def Checkpoint.toCbor (c : Checkpoint) : Cbor :=
  .map ([(.text "1", .uint c.sequence), (.text "2", .bytes c.checkpointId),
      (.text "3", .uint c.timestamp), (.text "4", c.contentHash.toCbor),
      (.text "5", .uint c.charCount), (.text "7", c.prevHash.toCbor),
      (.text "8", c.checkpointHash.toCbor)]
    ++ (c.jitterHash.map fun jitter => (Cbor.text "9", jitter.toCbor)).toList)

structure EvidencePacket (Baseline : Type) where
  version : UInt32
  profileUri : String
  packetId : Bytes
  created : UInt64
  document : DocumentRef
  checkpoints : List Checkpoint
  attestationTier : Option AttestationTier
  baselineVerification : Option Baseline

def EvidencePacket.toCbor {Baseline : Type} (baselineCbor : Baseline → Cbor)
    (p : EvidencePacket Baseline) : Cbor :=
  .map ([(.text "1", .uint p.version.toUInt64), (.text "2", .text p.profileUri),
      (.text "3", .bytes p.packetId), (.text "4", .uint p.created),
      (.text "5", p.document.toCbor), (.text "6", .array (p.checkpoints.map Checkpoint.toCbor))]
    ++ (p.attestationTier.map fun tier => (Cbor.text "7", Cbor.text tier.name)).toList
    ++ (p.baselineVerification.map fun b => (Cbor.text "19", baselineCbor b)).toList)

/-- A COSE_Sign1 structure; the protected header stays in its encoded form. -/
structure CoseSign1 where
  protectedHeader : Bytes
  unprotected : List (Cbor × Cbor)
  payload : Option Bytes
  signature : Bytes

def CoseSign1.toCbor (s : CoseSign1) : Cbor :=
  .array [.bytes s.protectedHeader, .map s.unprotected,
    (s.payload.map Cbor.bytes).getD .null, .bytes s.signature]

/-- The crates that packets and envelopes rest on, and the baseline verification of
crates/authorproof-protocol/src/baseline.rs, whose statistics are floating-point numbers. -/
structure Crates where
  sha256 : Bytes → FixedBytes 32
  /-- HMAC-SHA256 of a message under a key -/
  hmac : Bytes → Bytes → FixedBytes 32
  ed25519 : Ed25519
  Baseline : Type
  baselineCbor : Baseline → Cbor
  /-- `Verifier::validate_baseline_verification` under a key -/
  validateBaseline : FixedBytes 32 → Baseline → Except String Unit
  /-- `ciborium::from_reader` of a packet -/
  packetReader : Bytes → Except String (EvidencePacket Baseline)
  sign1FromTaggedSlice : Bytes → Except String CoseSign1
  sign1FromSlice : Bytes → Except String CoseSign1

/-- What was encoded is decoded, within the address space; an encoding without a tag is
not taken for a tagged one. -/
structure Crates.Faithful (C : Crates) : Prop where
  ed25519 : C.ed25519.Correct
  packet : ∀ p, (p.toCbor C.baselineCbor).encode.length < 2 ^ 64 →
    C.packetReader (p.toCbor C.baselineCbor).encode = .ok p
  sign1 : ∀ s, s.toCbor.encode.length < 2 ^ 64 → C.sign1FromSlice s.toCbor.encode = .ok s
  untagged : ∀ s : CoseSign1, ∃ e, C.sign1FromTaggedSlice s.toCbor.encode = .error e
  /-- A summary with histograms is nested three deep, a digest with its statistics likewise. -/
  baseline : ∀ b, (C.baselineCbor b).depth ≤ 3

/-! ## The CBOR forms are injective -/

theorem HashAlgorithm.name_injective : Function.Injective HashAlgorithm.name := by
  intro a b h
  cases a <;> cases b <;> first | rfl | exact absurd h (by decide)

theorem AttestationTier.name_injective : Function.Injective AttestationTier.name := by
  intro a b h
  cases a <;> cases b <;> first | rfl | exact absurd h (by decide)

theorem HashValue.toCbor_injective : Function.Injective HashValue.toCbor := by
  rintro ⟨algorithm, digest⟩ ⟨algorithm', digest'⟩ h
  simp only [HashValue.toCbor, Cbor.map.injEq, List.cons.injEq, Prod.mk.injEq, Cbor.text.injEq,
    Cbor.bytes.injEq, true_and, and_true] at h
  rw [HashValue.mk.injEq]
  exact ⟨HashAlgorithm.name_injective h.1, h.2⟩

theorem DocumentRef.toCbor_injective : Function.Injective DocumentRef.toCbor := by
  rintro ⟨hash, filename, byteLength, charCount⟩ ⟨hash', filename', byteLength', charCount'⟩ h
  -- The entry of the filename, if any, stands between the others.
  cases filename <;> cases filename' <;>
    simp [DocumentRef.toCbor, HashValue.toCbor_injective.eq_iff] at h ⊢
  · exact h
  · exact h

theorem Checkpoint.toCbor_injective : Function.Injective Checkpoint.toCbor := by
  rintro ⟨_, _, _, _, _, _, _, jitter⟩ ⟨_, _, _, _, _, _, _, jitter'⟩ h
  cases jitter <;> cases jitter' <;>
    simp [Checkpoint.toCbor, HashValue.toCbor_injective.eq_iff] at h ⊢
  · exact h
  · exact h

theorem EvidencePacket.toCbor_injective {Baseline : Type} {baselineCbor : Baseline → Cbor}
    (hbaseline : Function.Injective baselineCbor) :
    Function.Injective (EvidencePacket.toCbor baselineCbor) := by
  have hcheckpoints := List.map_injective_iff.mpr Checkpoint.toCbor_injective
  rintro ⟨_, _, _, _, _, _, tier, baseline⟩ ⟨_, _, _, _, _, _, tier', baseline'⟩ h
  cases tier <;> cases tier' <;> cases baseline <;> cases baseline' <;>
    simp [EvidencePacket.toCbor, UInt32.toUInt64_inj, hcheckpoints.eq_iff,
      DocumentRef.toCbor_injective.eq_iff, AttestationTier.name_injective.eq_iff,
      hbaseline.eq_iff] at h ⊢
  all_goals exact h

theorem CoseSign1.toCbor_injective : Function.Injective CoseSign1.toCbor := by
  rintro ⟨header, unprotected, payload, signature⟩ ⟨header', unprotected', payload', signature'⟩ h
  cases payload <;> cases payload' <;> simp [CoseSign1.toCbor] at h ⊢
  · exact h
  · exact h

/-! ## Readers -/

section Reader

variable {α : Type} (toCbor : α → Cbor)

open Classical in
noncomputable def reader (bytes : Bytes) : Except String α :=
  if h : ∃ a, (toCbor a).encode.length < 2 ^ 64 ∧ (toCbor a).encode = bytes then .ok h.choose
  else .error "unexpected bytes"

variable {toCbor}

theorem reader_encode (hinj : Function.Injective toCbor) (a : α)
    (hlt : (toCbor a).encode.length < 2 ^ 64) : reader toCbor (toCbor a).encode = .ok a := by
  have h : ∃ b, (toCbor b).encode.length < 2 ^ 64 ∧ (toCbor b).encode = (toCbor a).encode :=
    ⟨a, hlt, rfl⟩
  rw [reader, dif_pos h]
  exact congrArg Except.ok (hinj (Cbor.encode_injective h.choose_spec.1 h.choose_spec.2))

end Reader

/-- Crates that read what was encoded, and add bytes up where the real ones hash and sign. -/
noncomputable def summingCrates : Crates where
  sha256 bytes := FixedBytes.filled 32 bytes.sum
  hmac key bytes := FixedBytes.filled 32 (key.sum + bytes.sum)
  ed25519 := .summing
  Baseline := Empty
  baselineCbor := nofun
  validateBaseline _ := nofun
  packetReader := reader (EvidencePacket.toCbor nofun)
  sign1FromTaggedSlice _ := .error "expected a tag"
  sign1FromSlice := reader CoseSign1.toCbor

theorem summingCrates_faithful : summingCrates.Faithful where
  ed25519 := Ed25519.remaking_correct _
  packet p := reader_encode (EvidencePacket.toCbor_injective nofun) p
  sign1 s := reader_encode CoseSign1.toCbor_injective s
  untagged _ := ⟨_, rfl⟩
  baseline := nofun

end WritersProof.Protocol
