/-
  WritersProof.Evidence.Types

  Evidence packets (crates/cpoe/src/evidence/types.rs).

  Layers that are only recorded are kept as they are serialised, and left out where
  nothing asks whether they are there.  Messages of checkpoints are left out too.

  Packets that are built from a chain and a declaration
  (crates/cpoe/src/evidence/builder/mod.rs, setters.rs).

  Layers that other setters attach, and the claims made of them, are left out.
-/
import WritersProof.KeyHierarchy.Runs
import WritersProof.Checkpoint.Chain

namespace WritersProof.Evidence

open Rust
open Checkpoint (Digest Parameters DocumentRef)

/-- A layer that no function below looks into. -/
abbrev Recorded := Bytes

structure DocumentInfo where
  title : String
  path : String
  finalHash : String
  finalSize : Nat
  deriving DecidableEq

/-- Single checkpoint in the evidence chain with VDF proof and content hash. -/
structure CheckpointProof where
  ordinal : Nat
  contentHash : String
  contentSize : Nat
  timestamp : DateTime
  vdfInput : Option String
  vdfOutput : Option String
  vdfIterations : Option Nat
  elapsedTime : Option Nat
  previousHash : String
  /-- Hash of this checkpoint's full chain state. -/
  hash : String
  signature : Option String
  deriving DecidableEq

structure KeystrokeEvidence where
  sessionId : String
  startedAt : DateTime
  endedAt : DateTime
  duration : Nat
  totalKeystrokes : Nat
  totalSamples : Nat
  keystrokesPerMinute : Rat
  uniqueDocStates : Nat
  chainValid : Bool
  plausibleHumanRate : Bool
  deriving DecidableEq

/-- Signature binding a checkpoint hash to a ratchet key. -/
structure CheckpointSignature where
  ordinal : Nat
  checkpointHash : String
  ratchetIndex : Int
  signature : String
  deriving DecidableEq

/-- Key hierarchy snapshot proving session certificate chain and ratchet state. -/
structure KeyHierarchyEvidencePacket where
  masterPublicKey : String
  sessionId : String
  sessionPublicKey : String
  sessionStarted : DateTime
  sessionCertificate : String
  ratchetPublicKeys : List String
  checkpointSignatures : List CheckpointSignature
  sessionDocumentHash : Option String
  deriving DecidableEq

structure BaselineDigest where
  identityFingerprint : Bytes
  /-- The other fields -/
  stats : Recorded
  deriving DecidableEq

structure BaselineVerification where
  digest : Option BaselineDigest
  digestSignature : Option Bytes
  deriving DecidableEq

/-- Hardware co-signature entangled with document content, software signature, and device
    time. -/
structure HardwareCosignature where
  entangledHash : Bytes
  signature : Bytes
  publicKey : Bytes
  deviceId : String
  tpmClockMs : Nat
  monotonicCounter : Nat
  providerType : String
  algorithm : String
  saltCommitment : Option Bytes
  prevHwSignature : Option Bytes
  chainIndex : Nat
  bindingType : Option String
  deriving DecidableEq

structure WpBeaconAttestation where
  drandRound : Nat
  drandRandomness : String
  nistPulseIndex : Nat
  nistOutputValue : String
  fetchedAt : String
  wpSignature : String
  wpKeyId : Option String
  deriving DecidableEq

inductive TrustTier where
  | local_
  | signed
  | nonceBound
  | attested
  deriving DecidableEq

/-- The kinds of claims that the builders below make. -/
inductive ClaimType where
  | chainIntegrity
  | timeElapsed
  | processDeclared
  | keystrokesVerified
  deriving DecidableEq

structure Claim where
  claimType : ClaimType
  description : String
  confidence : String
  deriving DecidableEq

/-- Complete evidence packet containing all attestation data for a document session. -/
structure Packet where
  exportedAt : DateTime
  document : DocumentInfo
  checkpoints : List CheckpointProof
  vdfParams : Parameters
  chainHash : String
  declaration : Option Declaration
  presence : Option Recorded
  hardware : Option Recorded
  keystroke : Option KeystrokeEvidence
  behavioral : Option Recorded
  keyHierarchy : Option KeyHierarchyEvidencePacket
  verifierNonce : Option Digest
  packetSignature : Option (FixedBytes 64)
  signingPublicKey : Option Digest
  authorDid : Option String
  hardwareCosignature : Option HardwareCosignature
  trustTier : Option TrustTier
  writersproofCertificateId : Option String
  baselineVerification : Option BaselineVerification
  claims : List Claim
  limitations : List String
  beaconAttestation : Option WpBeaconAttestation
  deriving DecidableEq

/-- `Packet::default()`, at a time -/
def Packet.default (now : Int) : Packet :=
  { exportedAt := .ofNanos now
    document := { title := "", path := "", finalHash := "", finalSize := 0 }
    checkpoints := [], vdfParams := Checkpoint.defaultParameters, chainHash := ""
    declaration := none, presence := none, hardware := none, keystroke := none, behavioral := none
    keyHierarchy := none, verifierNonce := none, packetSignature := none, signingPublicKey := none
    authorDid := none, hardwareCosignature := none, trustTier := none
    writersproofCertificateId := none, baselineVerification := none, claims := []
    limitations := [], beaconAttestation := none }

/-- `total += elapsed`, over the checkpoints that have a time -/
def totalElapsed {ε : Type} : Nat → List CheckpointProof → Res ε Nat
  | total, [] => .ok total
  | total, cp :: cps =>
    match cp.elapsedTime with
    | none => totalElapsed total cps
    | some elapsed => do
      let total ← addDuration total elapsed
      totalElapsed total cps

def Packet.totalElapsedTime {ε : Type} (p : Packet) : Res ε Nat := totalElapsed 0 p.checkpoints

/-- The crates that packets are handled with.  Their errors come with the text that
    `Display` gives. -/
structure Crates where
  sha256 : Bytes → Digest
  ed25519 : Ed25519
  signatureError : String
  /-- `hex::FromHexError` of a text that does not decode -/
  hexError : String → String
  /-- `general_purpose::STANDARD.decode` -/
  base64 : String → Except String Bytes
  /-- `codec::cbor::encode` -/
  documentRefCbor : Checkpoint.DocumentRef → Except String Bytes
  packetCbor : Packet → Except String Bytes
  /-- `serde_json::to_vec_pretty` -/
  declarationJson : Declaration → Except String Bytes
  /-- `serde_json::to_vec` -/
  digestJson : BaselineDigest → Except String Bytes
  /-- `DateTime::parse_from_rfc3339` -/
  parseRfc3339 : String → Except String DateTime
  /-- `runtime_integrity_check`, which asks the operating system -/
  integrityCheck : Except String Unit
  /-- P-256 and RSA of a public key, a payload and a signature, when these two parse -/
  ecdsaP256 : Bytes → Bytes → Bytes → Option Bool
  rsa : Bytes → Bytes → Bytes → Option Bool

def Crates.hexDecode (C : Crates) (text : String) : Except String Bytes :=
  match Hex.decode text with
  | some bytes => .ok bytes
  | none => .error (C.hexError text)

theorem Crates.hexDecode_eq_ok {C : Crates} {text : String} {bytes : Bytes} :
    C.hexDecode text = .ok bytes ↔ Hex.decode text = some bytes := by
  unfold hexDecode
  cases Hex.decode text with
  | none => simp
  | some bs => simp

def elapsedNanos (cps : List CheckpointProof) : Nat :=
  (cps.map fun cp => cp.elapsedTime.getD 0).sum

/-- The times add up unless they leave the range of a `Duration`. -/
theorem totalElapsed_eq_ok {ε : Type} {total t : Nat} {cps : List CheckpointProof}
    (h : total < 2 ^ 64 * 1000000000) :
    totalElapsed (ε := ε) total cps = .ok t ↔
      total + elapsedNanos cps < 2 ^ 64 * 1000000000 ∧ t = total + elapsedNanos cps := by
  unfold elapsedNanos
  induction cps generalizing total with
  | nil =>
    simp only [totalElapsed, List.map_nil, List.sum_nil, Nat.add_zero, Except.ok.injEq, h, true_and]
    exact eq_comm
  | cons cp cps ih =>
    cases helapsed : cp.elapsedTime with
    | none =>
      simp only [totalElapsed, helapsed, List.map_cons, List.sum_cons, Option.getD_none,
        Nat.zero_add]
      exact ih h
    | some elapsed =>
      simp only [totalElapsed, helapsed, List.map_cons, List.sum_cons, Option.getD_some]
      by_cases hadd : total + elapsed < 2 ^ 64 * 1000000000
      · rw [addDuration, if_pos hadd, res_ok_bind, ← Nat.add_assoc]
        exact ih hadd
      · -- a sum that is too large stays so
        rw [addDuration, if_neg hadd]
        refine ⟨nofun, fun hok => absurd hok.1 ?_⟩
        omega

theorem exists_totalElapsedTime {ε : Type} {p : Packet} :
    (∃ t, p.totalElapsedTime (ε := ε) = .ok t) ↔
      elapsedNanos p.checkpoints < 2 ^ 64 * 1000000000 := by
  unfold Packet.totalElapsedTime
  constructor
  · rintro ⟨t, ht⟩
    have hsum := (totalElapsed_eq_ok (by decide)).mp ht
    rw [Nat.zero_add] at hsum
    exact hsum.1
  · intro hlt
    refine ⟨_, (totalElapsed_eq_ok (by decide)).mpr ⟨?_, rfl⟩⟩
    rwa [Nat.zero_add]

/-- Crates with sums in place of hashes and of points, and texts in place of encodings. -/
def sumCrates : Crates :=
  { sha256 := KeyHierarchy.sumCrypto.sha256
    ed25519 := KeyHierarchy.sumCrypto.ed25519
    signatureError := "signature error"
    hexError := fun text => "Invalid string length " ++ toString text.length
    base64 := fun text => .ok (Bytes.utf8 text)
    documentRefCbor := fun docRef => .ok docRef.contentHash.val
    packetCbor := fun packet => .ok (Bytes.utf8 packet.chainHash)
    declarationJson := fun decl => .ok (Bytes.utf8 decl.statement)
    digestJson := fun digest => .ok digest.stats
    parseRfc3339 := fun text => .ok (.ofNanos text.length)
    integrityCheck := .ok ()
    ecdsaP256 := fun _ _ _ => none
    rsa := fun _ _ _ => none }

theorem sumCrates_correct : sumCrates.ed25519.Correct := KeyHierarchy.sumCrypto_correct.ed25519

open Checkpoint (Chain Digest VdfProof)

/-- Accumulate evidence layers into a signed evidence packet. -/
structure Builder where
  packet : Packet
  errors : List String

def proofElapsed {ε : Type} (params : Checkpoint.Parameters) : Option VdfProof → Res ε (Option Nat)
  | none => .ok none
  | some vdf => do
    let elapsed ← vdf.minElapsedTime params
    .ok (some elapsed)

def exportCheckpoint {ε : Type} (params : Checkpoint.Parameters) (cp : Checkpoint) :
    Res ε CheckpointProof := do
  let elapsedTime ← proofElapsed params cp.vdf
  .ok { ordinal := cp.ordinal
        contentHash := Hex.encode cp.contentHash.val
        contentSize := cp.contentSize
        timestamp := cp.timestamp
        vdfInput := cp.vdf.map fun vdf => Hex.encode vdf.input.val
        vdfOutput := cp.vdf.map fun vdf => Hex.encode vdf.output.val
        vdfIterations := cp.vdf.map fun vdf => vdf.iterations
        elapsedTime
        previousHash := Hex.encode cp.previousHash.val
        hash := Hex.encode cp.hash.val
        signature := cp.signature.map Hex.encode }

/-- `Builder::new`, at a time -/
def Builder.new {ε : Type} (now : Int) (title : String) (chain : Chain) : Res ε Builder := do
  let checkpoints ← chain.checkpoints.mapM (exportCheckpoint chain.metadata.vdfParams)
  let latest := chain.checkpoints.getLast?
  .ok { packet := { Packet.default now with
          document :=
            { title
              path := chain.metadata.documentPath
              finalHash := (latest.map fun cp => Hex.encode cp.contentHash.val).getD ""
              finalSize := (latest.map fun cp => cp.contentSize).getD 0 }
          checkpoints
          vdfParams := chain.metadata.vdfParams
          chainHash := (latest.map fun cp => Hex.encode cp.hash.val).getD "" }
        errors := [] }

def Builder.withDeclaration (C : Crates) (b : Builder) (decl : Declaration) : Builder :=
  match decl.verify C.sha256 C.ed25519 with
  | .ok () => { b with packet := { b.packet with declaration := some decl } }
  | .error _ => { b with errors := b.errors ++ ["declaration signature invalid"] }

/-! ## Claims -/

def chainIntegrityClaim : Claim :=
  { claimType := .chainIntegrity
    description := "Content states form an unbroken cryptographic chain"
    confidence := "cryptographic" }

def temporalClaims (totalTime : Nat) : List Claim :=
  if 0 < totalTime then
    [{ claimType := .timeElapsed
       description := s!"At least {durationText totalTime} elapsed during documented composition"
       confidence := "cryptographic" }]
  else []

def declarationClaim (decl : Declaration) : Claim :=
  let aiDesc := if decl.hasAiUsage
    then s!"AI assistance declared: {decl.maxAiExtent.text} extent" else "No AI tools declared"
  { claimType := .processDeclared
    description := s!"Author signed declaration of creative process. {aiDesc}"
    confidence := "attestation" }

def generateClaims (p : Packet) : Res Error (List Claim) := do
  let totalTime ← p.totalElapsedTime
  .ok (p.claims ++ [chainIntegrityClaim] ++ temporalClaims totalTime
    ++ (p.declaration.map declarationClaim).toList)

def generateLimitations (p : Packet) : List String :=
  p.limitations
    ++ ["Cannot prove cognitive origin of ideas",
      "Cannot prove absence of AI involvement in ideation"]
    ++ (if p.presence.isNone then
        ["No presence verification - cannot confirm human was at keyboard"] else [])
    ++ (if p.keystroke.isNone then
        ["No keystroke evidence - cannot verify real typing occurred"] else [])
    ++ (if p.hardware.isNone then ["No hardware attestation - software-only security"] else [])
    ++ if p.declaration.any Declaration.hasAiUsage then
        ["Author declares AI tool usage - verify institutional policy compliance"] else []

def Packet.isSigned (p : Packet) : Bool := p.packetSignature.isSome && p.signingPublicKey.isSome

def computeTrustTier (p : Packet) : TrustTier :=
  if p.writersproofCertificateId.isSome then .attested
  else if p.isSigned && p.verifierNonce.isSome then .nonceBound
  else if p.isSigned then .signed
  else .local_

/-- `{:?}` of texts without anything to escape -/
def debugTexts (texts : List String) : String :=
  "[" ++ ", ".intercalate (texts.map fun text => "\"" ++ text ++ "\"") ++ "]"

def Builder.build (b : Builder) : Res Error Packet := do
  let errors := b.errors ++ if b.packet.declaration.isNone then ["declaration is required"] else []
  reject (errors ≠ []) (.evidence ("build errors: " ++ debugTexts errors))
  let claims ← generateClaims b.packet
  .ok { b.packet with
    claims
    limitations := generateLimitations b.packet
    trustTier := some (computeTrustTier b.packet) }

/-- `Builder::new(title, chain).with_declaration(decl).build()` -/
def exportPacket (C : Crates) (now : Int) (title : String) (chain : Chain) (decl : Declaration) :
    Res Error Packet := do
  let b ← Builder.new now title chain
  (b.withDeclaration C decl).build

end WritersProof.Evidence
