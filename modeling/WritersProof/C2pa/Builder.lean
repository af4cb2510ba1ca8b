/-
  WritersProof.C2pa.Builder

  Building signed manifests (crates/authorproof-protocol/src/c2pa/builder.rs,
  c2pa/timestamp.rs, `cose_sign1_c2pa` of crypto.rs).

  The assertions that do not depend on the document stand in the builder as serde
  serializes them; where that may fail, with the error.
-/
import WritersProof.C2pa.Validation

namespace WritersProof.C2pa

open Rust Protocol

/-! ## Labels -/

def ASSERTION_LABEL_PROCESS_PROOF : String := "com.writerslogic.process-proof"

def ASSERTION_LABEL_KEYSTROKE_CADENCE : String := "com.writerslogic.keystroke-cadence"

def ASSERTION_LABEL_COGNITIVE_MARKERS : String := "com.writerslogic.cognitive-markers"

def ASSERTION_LABEL_EVIDENCE_CHAIN : String := "com.writerslogic.evidence-chain"

def ASSERTION_LABEL_VC_EMBEDDED : String := "com.writerslogic.verifiable-credential"

def ASSERTION_LABEL_METADATA : String := "c2pa.metadata"

def ASSERTION_LABEL_EXTERNAL_REF : String := "c2pa.external-reference"

def ASSERTION_LABEL_AI_DISCLOSURE : String := "c2pa.ai-disclosure"

def ASSERTION_LABEL_INGREDIENT : String := "c2pa.ingredient"

def ASSERTION_LABEL_CAWG_IDENTITY : String := "cawg.identity"

def ASSERTION_LABEL_CAWG_TDM : String := "cawg.training-mining"

def ASSERTION_LABEL_VC_REFERENCE : String := "com.writerslogic.vc-reference.v1"

def ASSERTION_LABEL_LOCAL_TIMESTAMP : String := "com.writerslogic.local-timestamp.v1"

def C2PA_SPEC_VERSION : String := "2.4.0"

def PKG_VERSION : String := "0.3.0"

/-! ## Signing -/

inductive SigningAlgorithm where
  | edDSA
  | es256
  | es384
  | other (id : Cbor) (debug : String)

/-- The COSE identifiers -8, -7 and -35. -/
def SigningAlgorithm.toCbor : SigningAlgorithm → Cbor
  | edDSA => .nint 7
  | es256 => .nint 6
  | es384 => .nint 34
  | other id _ => id

/-- `{:?}` -/
def SigningAlgorithm.debug : SigningAlgorithm → String
  | edDSA => "EdDSA"
  | es256 => "ES256"
  | es384 => "ES384"
  | other _ debug => debug

structure Signer where
  sign : Bytes → Except Error Bytes
  algorithm : SigningAlgorithm
  publicKey : Bytes

def ed25519Signer (C : Crates) (seed : FixedBytes 32) : Signer where
  sign data := .ok (C.ed25519.sign seed data).val
  algorithm := .edDSA
  publicKey := (C.ed25519.publicKey seed).val

/-- Which lengths a public key may have -/
def SigningAlgorithm.validLen (len : Nat) : SigningAlgorithm → Option Bool
  | edDSA => some (len = 32)
  | es256 => some (len = 65 || len = 33)
  | es384 => some (len = 97 || len = 49)
  | other _ _ => none

def x5chainEntry (bytes : Bytes) : Cbor × Cbor := (.uint 33, .bytes bytes)

/-- `cose_sign1_c2pa`: the claim is signed and not kept. -/
def coseSign1C2pa (payload : Bytes) (signer : Signer) (certDer : Option Bytes) :
    Res Error Bytes :=
  coseSign1Inner payload
    { sign := signer.sign, algorithm := signer.algorithm.toCbor, publicKey := signer.publicKey }
    [x5chainEntry (certDer.getD signer.publicKey)] [] true

def signC2paClaim (claimCbor : Bytes) (signer : Signer) (certDer : Option Bytes) :
    Res Error Bytes :=
  match signer.algorithm.validLen signer.publicKey.length with
  | none => fail (.crypto ("unsupported COSE algorithm " ++ signer.algorithm.debug))
  | some validLen => do
    reject (validLen = false)
      (.crypto (s!"invalid public key length {signer.publicKey.length} for " ++
        signer.algorithm.debug))
    coseSign1C2pa claimCbor signer certDer

def sigTstEntry (timestampToken : Bytes) : Cbor × Cbor :=
  (.text "sigTst", .map [(.text "tstTokens", .array [.map [(.text "val", .bytes timestampToken)]])])

def parseForTimestamp (C : Crates) (coseSign1Bytes : Bytes) : Res Error CoseSign1 :=
  match C.sign1FromTaggedSlice coseSign1Bytes with
  | .ok sign1 => .ok sign1
  | .error _ => mapErr (C.sign1FromSlice coseSign1Bytes)
      fun e => .crypto ("failed to parse COSE_Sign1 for timestamp injection: " ++ e)

/-- The signature does not cover the unprotected header. -/
def injectTimestampIntoCose (C : Crates) (coseSign1Bytes timestampToken : Bytes) :
    Res Error Bytes := do
  let sign1 ← parseForTimestamp C coseSign1Bytes
  .ok { sign1 with unprotected := sign1.unprotected ++ [sigTstEntry timestampToken] }.toCbor.encode

/-! ## Assertions -/

/-- An assertion to come: its label, and its content as CBOR or JSON. -/
structure Assertion where
  label : String
  isCbor : Bool
  content : Res Error Bytes

/-- A builder that sees to an assertion of a kind only when it is set. -/
def assertionOf (label : String) (isCbor : Bool) (content : Option Bytes) : List Assertion :=
  (content.map fun bytes => { label, isCbor, content := .ok bytes }).toList

structure C2paManifestBuilder where
  documentHash : FixedBytes 32
  documentFilename : Option String
  packetId : Bytes
  processProof : Bytes
  evidenceChain : Bytes
  keystrokeCadence : Option Bytes
  cognitiveMarkers : Option Bytes
  /-- The embedded credential, parsed and serialized again -/
  vcEmbedded : Option (Except String Bytes)
  title : Option String
  format : Option String
  /-- The reference to the evidence, whose packet may have to be encoded -/
  externalReference : Option (Except String Bytes)
  aiDisclosure : Option Bytes
  ingredients : List Bytes
  cawgIdentity : Option Bytes
  cawgTdm : Option Bytes
  vcReference : Option Bytes
  localTimestamp : Option Bytes
  certDer : Option Bytes
  certChain : List Bytes
  exclusions : List ExclusionRange
  timestampToken : Option Bytes
  createdAt : Option String

namespace C2paManifestBuilder

variable (b : C2paManifestBuilder)

def manifestLabel : String := "urn:cpoe:" ++ Hex.encode b.packetId

def hashDataAssertion : HashDataAssertion where
  name := b.documentFilename.getD "document"
  hash := b.documentHash.val
  algorithm := "sha256"
  exclusions := b.exclusions
  pad := []

/-- The `c2pa.created` action at a time -/
def actionsAssertion (time : String) : Cbor :=
  .map [(.text "actions", .array [.map [
    (.text "action", .text "c2pa.created"),
    (.text "when", .text time),
    (.text "softwareAgent",
      .map [(.text "name", .text "WritersProof"), (.text "version", .text PKG_VERSION)]),
    (.text "parameters", .map [(.text "description",
      .text "Document authored with WritersProof Proof-of-Effort witnessing")])]])]

def metadataAssertion : Cbor := .map (optional "dc:title" b.title ++ optional "dc:format" b.format)

def furtherAssertions : List Assertion :=
  [{ label := ASSERTION_LABEL_PROCESS_PROOF, isCbor := true, content := .ok b.processProof },
    { label := ASSERTION_LABEL_EVIDENCE_CHAIN, isCbor := true, content := .ok b.evidenceChain }]
  ++ assertionOf ASSERTION_LABEL_KEYSTROKE_CADENCE true b.keystrokeCadence
  ++ assertionOf ASSERTION_LABEL_COGNITIVE_MARKERS true b.cognitiveMarkers
  ++ (b.vcEmbedded.map fun json =>
    { label := ASSERTION_LABEL_VC_EMBEDDED, isCbor := false
      content := mapErr json fun e => .serialization ("VC JSON parse: " ++ e) }).toList
  ++ (if b.title.isSome || b.format.isSome then
      [{ label := ASSERTION_LABEL_METADATA, isCbor := true
         content := .ok b.metadataAssertion.encode }]
    else [])
  ++ (b.externalReference.map fun reference =>
    { label := ASSERTION_LABEL_EXTERNAL_REF, isCbor := true
      content := mapErr reference
        fun e => .serialization ("C2PA: failed to re-encode evidence with tag: " ++ e) }).toList
  ++ assertionOf ASSERTION_LABEL_AI_DISCLOSURE false b.aiDisclosure
  ++ (b.ingredients.zipIdx.map fun (bytes, i) =>
    { label := s!"{ASSERTION_LABEL_INGREDIENT}.{i}", isCbor := true, content := .ok bytes })
  ++ assertionOf ASSERTION_LABEL_CAWG_IDENTITY false b.cawgIdentity
  ++ assertionOf ASSERTION_LABEL_CAWG_TDM false b.cawgTdm
  ++ assertionOf ASSERTION_LABEL_VC_REFERENCE false b.vcReference
  ++ assertionOf ASSERTION_LABEL_LOCAL_TIMESTAMP false b.localTimestamp

def assertions (time : String) : List Assertion :=
  [{ label := ASSERTION_LABEL_HASH_DATA, isCbor := true
     content := .ok b.hashDataAssertion.toCbor.encode },
    { label := ASSERTION_LABEL_ACTIONS, isCbor := true
      content := .ok (actionsAssertion time).encode }]
  ++ b.furtherAssertions

def assertionJumbf (a : Assertion) : Res Error Bytes := do
  let content ← a.content
  if a.isCbor then buildAssertionJumbfCbor a.label content
  else buildAssertionJumbfJson a.label content

def buildBoxes : List Assertion → Res Error (List (String × Bytes))
  | [] => .ok []
  | a :: as => do
    let box ← assertionJumbf a
    let boxes ← buildBoxes as
    .ok ((a.label, box) :: boxes)

def hashedUri (C : Crates) (manifestLabel label : String) (box : Bytes) : HashedUri where
  url := s!"self#jumbf=/c2pa/{manifestLabel}/c2pa.assertions/{label}"
  hash := (C.sha256 (box.drop 8)).val
  alg := some "sha256"

def claimOver (C : Crates) (boxes : List (String × Bytes)) : C2paClaim where
  claimGeneratorInfo :=
    { name := "CPoE/authorproof_protocol", version := some PKG_VERSION
      specVersion := some C2PA_SPEC_VERSION }
  instanceId := "xmp:iid:" ++ Hex.encode b.packetId
  signature := s!"self#jumbf=/c2pa/{b.manifestLabel}/c2pa.signature"
  alg := some "sha256"
  createdAssertions := boxes.map fun (label, box) => hashedUri C b.manifestLabel label box

def certificate : Option Bytes := b.certDer.or b.certChain.head?

def signClaim (C : Crates) (signer : Signer) (claimCbor : Bytes) : Res Error Bytes := do
  let signature ← signC2paClaim claimCbor signer b.certificate
  match b.timestampToken with
  | some token => injectTimestampIntoCose C signature token
  | none => .ok signature

/-- `build_manifest`, with what the clock says; boxes without a header are not pushed. -/
def buildManifest (C : Crates) (signer : Signer) (now : String) : Res Error C2paManifest := do
  let boxes ← buildBoxes (b.assertions (b.createdAt.getD now))
  let pushed := boxes.filter fun entry => 8 ≤ entry.2.length
  let claim := b.claimOver C pushed
  let claimCbor := claim.toCbor.encode
  let signature ← b.signClaim C signer claimCbor
  .ok { claim, claimCbor, manifestLabel := b.manifestLabel
        assertionBoxes := pushed.map Prod.snd, signature }

def buildJumbf (C : Crates) (signer : Signer) (now : String) : Res Error Bytes := do
  let manifest ← b.buildManifest C signer now
  encodeJumbf manifest

/-- `document_hash(hash)` and `exclusions(vec![..])` -/
def bound (hash : FixedBytes 32) (start length : UInt64) : C2paManifestBuilder :=
  { b with documentHash := hash, exclusions := [{ start, length }] }

/-! ## The bytes of labels -/

/-- The labels of all assertions but those on the document, the actions and ingredients -/
def FURTHER_LABELS : List String :=
  [ASSERTION_LABEL_PROCESS_PROOF, ASSERTION_LABEL_EVIDENCE_CHAIN, ASSERTION_LABEL_KEYSTROKE_CADENCE,
    ASSERTION_LABEL_COGNITIVE_MARKERS, ASSERTION_LABEL_VC_EMBEDDED, ASSERTION_LABEL_METADATA,
    ASSERTION_LABEL_EXTERNAL_REF, ASSERTION_LABEL_AI_DISCLOSURE, ASSERTION_LABEL_CAWG_IDENTITY,
    ASSERTION_LABEL_CAWG_TDM, ASSERTION_LABEL_VC_REFERENCE, ASSERTION_LABEL_LOCAL_TIMESTAMP]

theorem slash_notMem_of_mem {label : String}
    (h : label ∈ [ASSERTION_LABEL_HASH_DATA, ASSERTION_LABEL_ACTIONS] ++ FURTHER_LABELS) :
    (0x2F : UInt8) ∉ Bytes.utf8 label := by
  revert label
  decide +kernel

theorem label_ne_of_mem {label : String} (h : label ∈ FURTHER_LABELS) :
    label ≠ ASSERTION_LABEL_HASH_DATA ∧ label ≠ ASSERTION_LABEL_ACTIONS := by
  revert label
  decide +kernel

/-- The start of the label of an ingredient has no slash in it, and a sixth letter. -/
theorem ingredient_bytes :
    (0x2F : UInt8) ∉ Bytes.utf8 (ASSERTION_LABEL_INGREDIENT ++ ".")
      ∧ (Bytes.utf8 (ASSERTION_LABEL_INGREDIENT ++ "."))[5]? = some 0x69 := by
  decide +kernel

/-- The assertions on the document and on its actions have another sixth letter. -/
theorem document_bytes :
    (Bytes.utf8 ASSERTION_LABEL_HASH_DATA)[5]? ≠ some 0x69
      ∧ (Bytes.utf8 ASSERTION_LABEL_ACTIONS)[5]? ≠ some 0x69 := by
  decide +kernel

theorem utf8_assertionsPath :
    Bytes.utf8 "/c2pa.assertions/" = Bytes.utf8 "/c2pa.assertions" ++ [0x2F] := by
  decide +kernel

end C2paManifestBuilder

def placeholderHash : FixedBytes 32 := FixedBytes.filled 32 0

end WritersProof.C2pa
