/-
  WritersProof.Declaration.Signing

  What an author declares, and the bytes that are signed for it
  (crates/cpoe/src/declaration/types.rs, helpers.rs, verification.rs).

  Signing a declaration and checking its signature
  (crates/cpoe/src/declaration/builder.rs, verification.rs).

  A declaration that its builder signs verifies, whatever was declared.
-/
import WritersProof.Checkpoint.Types
import WritersProof.Lib.Binary64
import WritersProof.Lib.Ed25519

namespace WritersProof

/-- The variants of `crate::error::Error` that the functions below return. -/
inductive Error where
  | crypto (message : String)
  | signature (message : String)
  | validation (message : String)
  | checkpoint (message : String)
  | evidence (message : String)
  deriving DecidableEq

/-- `Display` -/
def Error.text : Error → String
  | .crypto message => "crypto: " ++ message
  | .signature message => "signature: " ++ message
  | .validation message => "validation: " ++ message
  | .checkpoint message => "checkpoint: " ++ message
  | .evidence message => "evidence: " ++ message

namespace Declaration

open Rust
open Checkpoint (Digest F64)

inductive ModalityType where
  | keyboard
  | dictation
  | handwriting
  | paste
  | imported
  | mixed
  | other
  deriving DecidableEq

def ModalityType.text : ModalityType → String
  | .keyboard => "keyboard"
  | .dictation => "dictation"
  | .handwriting => "handwriting"
  | .paste => "paste"
  | .imported => "import"
  | .mixed => "mixed"
  | .other => "other"

/-- Input method with its percentage share of total content. -/
structure InputModality where
  modalityType : ModalityType
  percentage : F64
  note : Option String
  deriving DecidableEq

inductive AiPurpose where
  | ideation
  | outline
  | drafting
  | feedback
  | editing
  | research
  | formatting
  | other
  deriving DecidableEq

def AiPurpose.text : AiPurpose → String
  | .ideation => "ideation"
  | .outline => "outline"
  | .drafting => "drafting"
  | .feedback => "feedback"
  | .editing => "editing"
  | .research => "research"
  | .formatting => "formatting"
  | .other => "other"

/-- Degree of AI involvement, from least to most. -/
inductive AiExtent where
  | none
  | minimal
  | moderate
  | substantial
  deriving DecidableEq

def AiExtent.text : AiExtent → String
  | .none => "none"
  | .minimal => "minimal"
  | .moderate => "moderate"
  | .substantial => "substantial"

def AiExtent.rank : AiExtent → Nat
  | .none => 0
  | .minimal => 1
  | .moderate => 2
  | .substantial => 3

structure AiToolUsage where
  tool : String
  version : Option String
  purpose : AiPurpose
  interaction : Option String
  extent : AiExtent
  sections : List String
  deriving DecidableEq

inductive CollaboratorRole where
  | coAuthor
  | editor
  | researchAssistant
  | reviewer
  | transcriber
  | other
  deriving DecidableEq

def CollaboratorRole.text : CollaboratorRole → String
  | .coAuthor => "co-author"
  | .editor => "editor"
  | .researchAssistant => "research_assistant"
  | .reviewer => "reviewer"
  | .transcriber => "transcriber"
  | .other => "other"

structure Collaborator where
  name : String
  role : CollaboratorRole
  sections : List String
  publicKey : Option Bytes
  deriving DecidableEq

/-- Jitter evidence captured during interactive declaration typing. -/
structure DeclarationJitter where
  jitterHash : Digest
  keystrokeCount : Nat
  durationMs : Nat
  avgIntervalMs : F64
  entropyBits : F64
  hardwareSealed : Bool
  deriving DecidableEq

end Declaration

open Declaration Checkpoint Rust in
/-- Signed author declaration binding document hash, AI usage, and input modalities. -/
structure Declaration where
  documentHash : Digest
  chainHash : Digest
  title : String
  inputModalities : List InputModality
  aiTools : List AiToolUsage
  collaborators : List Collaborator
  statement : String
  createdAt : DateTime
  version : Nat
  authorPublicKey : Bytes
  signature : Bytes
  jitterSealed : Option DeclarationJitter
  deriving DecidableEq

namespace Declaration

open Rust
open Checkpoint (Digest F64)

/-! ## Signed bytes -/

def hashStr (text : String) : Bytes :=
  Bytes.toBE 8 (Bytes.utf8 text).length ++ Bytes.utf8 text

def hashOptStr : Option String → Bytes
  | some text => [1] ++ hashStr text
  | none => [0]

def hashOptBytes : Option Bytes → Bytes
  | some bytes => [1] ++ Bytes.toBE 8 bytes.length ++ bytes
  | none => [0]

def hashList {α : Type} (item : α → Bytes) (xs : List α) : Bytes :=
  Bytes.toBE 8 xs.length ++ xs.flatMap item

def InputModality.hashed (modality : InputModality) : Bytes :=
  hashStr modality.modalityType.text ++ modality.percentage.be.val ++ hashOptStr modality.note

def AiToolUsage.hashed (tool : AiToolUsage) : Bytes :=
  hashStr tool.tool ++ hashOptStr tool.version ++ hashStr tool.purpose.text
    ++ hashOptStr tool.interaction ++ hashStr tool.extent.text ++ hashList hashStr tool.sections

def Collaborator.hashed (collaborator : Collaborator) : Bytes :=
  hashStr collaborator.name ++ hashStr collaborator.role.text
    ++ hashList hashStr collaborator.sections ++ hashOptBytes collaborator.publicKey

def DeclarationJitter.hashed (jitter : DeclarationJitter) : Bytes :=
  Bytes.utf8 "cpoe-jitter-seal-v1" ++ jitter.jitterHash.val ++ Bytes.toBE 8 jitter.keystrokeCount
    ++ Bytes.toBE 8 jitter.durationMs ++ jitter.avgIntervalMs.be.val ++ jitter.entropyBits.be.val
    ++ [if jitter.hardwareSealed then 1 else 0]

/-- What `signing_payload` feeds to SHA-256.  Times count in milliseconds. -/
def signedBytes (d : Declaration) : Bytes :=
  Bytes.utf8 "cpoe-declaration-v3" ++ d.documentHash.val ++ d.chainHash.val ++ hashStr d.title
    ++ hashList InputModality.hashed d.inputModalities
    ++ hashList AiToolUsage.hashed d.aiTools
    ++ hashList Collaborator.hashed d.collaborators
    ++ hashStr d.statement
    ++ Bytes.toBE 8 (Bytes.ofInt 8 d.createdAt.timestampMillis)
    ++ Bytes.toBE 8 d.version
    ++ Bytes.toBE 8 d.authorPublicKey.length ++ d.authorPublicKey
    ++ match d.jitterSealed with
      | some jitter => [1] ++ jitter.hashed
      | none => [0]

def hasJitterSeal (d : Declaration) : Bool := d.jitterSealed.isSome

def hasAiUsage (d : Declaration) : Bool := !d.aiTools.isEmpty

def maxAiExtent (d : Declaration) : AiExtent :=
  d.aiTools.foldl (fun most tool =>
    if most.rank < tool.extent.rank then tool.extent else most) .none

end Declaration

/-! ## Signing -/

open Rust
open Checkpoint (Digest F64)

structure EvidenceSigner where
  sign : Bytes → Except String Bytes
  publicKey : Bytes

def Ed25519Signer (E : Ed25519) (seed : Digest) : EvidenceSigner :=
  { sign := fun data => .ok (E.sign seed data).val
    publicKey := (E.publicKey seed).val }

namespace Declaration

section Defs

variable (sha256 : Bytes → Digest) (E : Ed25519)

def signingPayload (d : Declaration) : Digest := sha256 d.signedBytes

def verify (d : Declaration) : Res String Unit := do
  let key ← okOr (FixedBytes.tryFrom 32 d.authorPublicKey)
    s!"invalid public key length: expected 32, got {d.authorPublicKey.length}"
  let signature ← okOr (FixedBytes.tryFrom 64 d.signature)
    s!"invalid signature length: expected 64, got {d.signature.length}"
  reject (E.validKey key = false) "public key is not a valid Ed25519 key"
  reject (E.verify key (d.signingPayload sha256).val signature = false)
    "signature verification failed"

def percentageSum : Rat → List InputModality → Res Error Rat
  | total, [] => .ok total
  | total, modality :: rest => do
    let percentage ← okOr (Binary64.value modality.percentage.be)
      (.validation "modality percentage must be 0-100")
    reject (percentage < 0 ∨ 100 < percentage) (.validation "modality percentage must be 0-100")
    percentageSum (Binary64.add total percentage) rest

/-- `validate`, with `{:.1}` of a sum as a parameter -/
def validate (oneDigit : Rat → String) (d : Declaration) : Res Error Unit := do
  reject (d.documentHash = FixedBytes.filled 32 0) (.validation "document hash is required")
  reject (d.chainHash = FixedBytes.filled 32 0) (.validation "chain hash is required")
  reject d.title.isEmpty (.validation "title is required")
  reject d.inputModalities.isEmpty (.validation "at least one input modality is required")
  reject d.statement.isEmpty (.validation "statement is required")
  let total ← percentageSum 0 d.inputModalities
  reject (total < 95 ∨ 105 < total)
    (.validation s!"modality percentages sum to {oneDigit total}%, expected ~100%")

/-- `Builder::sign`.  No setter of the builder leaves an error behind. -/
def sign (oneDigit : Rat → String) (d : Declaration) (signer : EvidenceSigner) :
    Res Error Declaration := do
  validate oneDigit d
  let d := { d with authorPublicKey := signer.publicKey }
  let signature ← mapErr (signer.sign (d.signingPayload sha256).val)
    fun e => .crypto ("signing failed: " ++ e)
  .ok { d with signature }

end Defs

/-- `100.0` -/
def hundred : F64 := ⟨⟨[0x40, 0x59, 0, 0, 0, 0, 0, 0], rfl⟩⟩

def noAiDeclaration (now : Int) (documentHash chainHash : Digest) (title statement : String) :
    Declaration :=
  { documentHash, chainHash, title
    inputModalities := [{ modalityType := .keyboard, percentage := hundred, note := none }]
    aiTools := [], collaborators := [], statement, createdAt := .ofNanos now, version := 2
    authorPublicKey := [], signature := [], jitterSealed := none }

variable {sha256 : Bytes → Digest} {E : Ed25519}

theorem verify_eq_ok {d : Declaration} :
    d.verify sha256 E = .ok () ↔
      ∃ key signature, d.authorPublicKey = FixedBytes.val (n := 32) key
        ∧ d.signature = FixedBytes.val (n := 64) signature ∧ E.validKey key = true
        ∧ E.verify key (d.signingPayload sha256).val signature = true := by
  unfold verify
  simp only [okOr_bind_eq_ok, reject_bind_eq_ok, reject_eq_ok, FixedBytes.tryFrom_eq_some,
    Bool.not_eq_false]
  constructor
  · rintro ⟨key, hkey, signature, hsignature, hvalid, hverify⟩
    exact ⟨key, signature, hkey, hsignature, hvalid, hverify⟩
  · rintro ⟨key, signature, hkey, hsignature, hvalid, hverify⟩
    exact ⟨key, hkey, signature, hsignature, hvalid, hverify⟩

theorem length_authorPublicKey {d : Declaration} (h : d.verify sha256 E = .ok ()) :
    d.authorPublicKey.length = 32 := by
  obtain ⟨key, signature, hkey, -⟩ := verify_eq_ok.mp h
  rw [hkey, FixedBytes.length_val]

theorem verify_of_sign (hE : E.Correct) {oneDigit : Rat → String} {d signed : Declaration}
    {seed : Digest} (h : sign sha256 oneDigit d (Ed25519Signer E seed) = .ok signed) :
    signed.verify sha256 E = .ok () := by
  unfold sign at h
  rw [unit_bind_eq_ok] at h
  obtain ⟨-, h⟩ := h
  obtain ⟨signature, hsignature, h⟩ := res_bind_eq_ok.mp h
  rw [mapErr_eq_ok] at hsignature
  obtain rfl := Except.ok.inj hsignature
  obtain rfl := Except.ok.inj h
  apply verify_eq_ok.mpr
  refine ⟨E.publicKey seed, E.sign seed _, rfl, rfl, hE.validKey_publicKey seed, ?_⟩
  exact hE.verify_sign seed _

end Declaration

end WritersProof
