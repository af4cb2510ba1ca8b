/-
  WritersProof.Evidence.Verification

  `Packet::verify_self_signed` (crates/cpoe/src/evidence/packet.rs): `verify_inner`
  without a trusted key.  Bindings to hardware are then not checked, and a baseline is
  checked with the key in the packet.

  Hashes of checkpoints are compared with each other, and never computed.

  What the checks of a packet leave open in its checkpoints.

  A checkpoint names the hash of the one before it, but no hash is computed from what
  it is a hash of.  So the other fields can be rewritten in any packet that passes:
  its ordinals and timestamps freely, its contents up to the last checkpoint.
-/
import WritersProof.Evidence.Types
import Mathlib.Data.List.Chain

namespace WritersProof

open FixedBytes Hex

/-- `Display` -/
def KeyHierarchy.KeyHierarchyError.text : KeyHierarchy.KeyHierarchyError → String
  | .ratchetWiped => "ratchet state has been wiped"
  | .invalidCert => "invalid session certificate"
  | .ordinalMismatch => "checkpoint ordinal mismatch"
  | .signatureFailed => "signature verification failed"
  | .sessionRecoveryFailed => "session recovery failed"
  | .noRecoveryData => "no recovery data available"
  | .crypto message => "crypto error: " ++ message

namespace Evidence

open Rust
open Checkpoint (Digest VdfProof genesisPrevHash)
open KeyHierarchy (KeyHierarchyError buildCertDataWithExpiry)

def isAsciiHexdigit (c : Char) : Bool :=
  let n := c.toNat
  (48 ≤ n && n ≤ 57) || (97 ≤ n && n ≤ 102) || (65 ≤ n && n ≤ 70)

/-- The text of 32 bytes, in digits of either case. -/
def isHexHash (text : String) : Bool :=
  (Bytes.utf8 text).length = 64 && text.toList.all isAsciiHexdigit

def maxVdfIterations : Nat := 1000000000

section Defs

variable (C : Crates)

/-! ## Checkpoints -/

variable (p : Packet)

/-- The chain hash is the last checkpoint's, and the document ends as that one has it. -/
def checkDocument : Res Error Unit :=
  match p.checkpoints.getLast? with
  | some last => do
    reject (p.chainHash ≠ last.hash) (.evidence "chain hash mismatch")
    reject (p.document.finalHash ≠ last.contentHash) (.evidence "document final hash mismatch")
    reject (p.document.finalSize ≠ last.contentSize) (.evidence "document final size mismatch")
  | none => reject (p.chainHash ≠ "") (.evidence "chain hash present with no checkpoints")

/-- The previous hash of a first checkpoint is that of its document. -/
def isDocRef (cp : CheckpointProof) : Bool :=
  match (decode cp.contentHash).bind (tryFrom 32) with
  | none => false
  | some contentHash =>
    match genesisPrevHash C.sha256 C.documentRefCbor contentHash cp.contentSize p.document.path with
    | .ok hash => cp.previousHash = encode hash.val
    | .error _ => false

def checkLink (i : Nat) (prevHash : String) (cp : CheckpointProof) : Res Error Unit :=
  if i = 0 then
    -- any hexadecimal hash will do: one that is not the document's is only logged
    reject (isDocRef C p cp = false ∧ isHexHash cp.previousHash = false)
      (.evidence "checkpoint 0: invalid genesis previous hash")
  else
    reject (cp.previousHash ≠ prevHash) (.evidence s!"checkpoint {i}: broken chain link")

def checkVdf (i : Nat) (cp : CheckpointProof) : Res Error Unit :=
  match cp.vdfIterations, cp.vdfInput, cp.vdfOutput with
  | some iterations, some inputHex, some outputHex => do
    reject (maxVdfIterations < iterations)
      (.evidence s!"checkpoint {i}: VDF iterations {iterations} exceeds safety limit")
    let input ← mapErr (C.hexDecode inputHex) fun e => .evidence ("invalid hex: " ++ e)
    let output ← mapErr (C.hexDecode outputHex) fun e => .evidence ("invalid hex: " ++ e)
    let input ← okOr (tryFrom 32 input)
      (.evidence s!"checkpoint {i}: VDF input/output size mismatch")
    let output ← okOr (tryFrom 32 output)
      (.evidence s!"checkpoint {i}: VDF input/output size mismatch")
    let proof : VdfProof := { input, output, iterations, duration := 0 }
    reject (proof.verify C.sha256 = false) (.evidence s!"checkpoint {i}: VDF verification failed")
  | _, _, _ => .ok ()

/-- `for (i, cp) in self.checkpoints.iter().enumerate() { ... }` -/
def checkCheckpoints (p : Packet) : Nat → String → List CheckpointProof → Res Error Unit
  | _, _, [] => .ok ()
  | i, prevHash, cp :: cps => do
    checkLink C p i prevHash cp
    checkVdf C i cp
    checkCheckpoints p (i + 1) cp.hash cps

/-! ## Layers -/

def checkDeclaration : Res Error Unit :=
  match p.declaration with
  | none => .ok ()
  | some decl =>
    match decl.verify C.sha256 C.ed25519 with
    | .ok () => .ok ()
    | .error _ => fail (.evidence "declaration signature invalid")

def validateCertByteLengths (masterPubkey sessionPubkey certSignature : Bytes) (sessionId : Digest)
    (createdAt : DateTime) (documentHash : Digest) : Res KeyHierarchyError Unit := do
  let masterPubkey ← okOr (tryFrom 32 masterPubkey) .invalidCert
  let sessionPubkey ← okOr (tryFrom 32 sessionPubkey) .invalidCert
  let certSignature ← okOr (tryFrom 64 certSignature) .invalidCert
  let certData := buildCertDataWithExpiry sessionId sessionPubkey createdAt documentHash none
  reject (C.ed25519.validKey masterPubkey = false) .invalidCert
  reject (C.ed25519.verify masterPubkey certData certSignature = false) .invalidCert

def verifyRatchetSignature (ratchetPubkey checkpointHash signature : Bytes) :
    Res KeyHierarchyError Unit := do
  let pubkey ← okOr (tryFrom 32 ratchetPubkey)
      (.crypto "invalid ratchet public key size")
  reject (checkpointHash.length ≠ 32) (.crypto "invalid checkpoint hash size")
  let signature ← okOr (tryFrom 64 signature) (.crypto "invalid signature size")
  reject (C.ed25519.validKey pubkey = false) (.crypto "invalid ratchet public key")
  reject (C.ed25519.verify pubkey checkpointHash signature = false) .signatureFailed

/-- The certificate, when the document hash that it binds is there. -/
def checkCertificate (kh : KeyHierarchyEvidencePacket) (masterPub sessionPub certRaw : Bytes) :
    Res Error Unit :=
  match kh.sessionDocumentHash with
  | none => .ok ()
  | some docHashHex => do
    let sessionId ← mapErr (C.hexDecode kh.sessionId)
      fun e => .evidence ("invalid session_id hex: " ++ e)
    let docHash ← mapErr (C.hexDecode docHashHex)
      fun e => .evidence ("invalid session_document_hash hex: " ++ e)
    let sessionId ← okOr (tryFrom 32 sessionId) (.evidence "session_id must be 32 bytes")
    let docHash ← okOr (tryFrom 32 docHash)
      (.evidence "session_document_hash must be 32 bytes")
    mapFault (validateCertByteLengths C masterPub sessionPub certRaw sessionId kh.sessionStarted
      docHash) fun e => .evidence ("key hierarchy verification failed: " ++ e.text)

def checkRatchetSignature (kh : KeyHierarchyEvidencePacket) (sig : CheckpointSignature) :
    Res Error Unit := do
  reject (sig.ratchetIndex < 0) (.evidence s!"negative ratchet index {sig.ratchetIndex}")
  let ratchetHex ← okOr kh.ratchetPublicKeys[sig.ratchetIndex.toNat]?
    (.evidence (s!"ratchet index {sig.ratchetIndex} out of range "
      ++ s!"(have {kh.ratchetPublicKeys.length} keys)"))
  let ratchetPub ← mapErr (C.hexDecode ratchetHex)
    fun e => .evidence ("invalid ratchet key hex: " ++ e)
  reject (ratchetPub.length ≠ 32) (.evidence "ratchet public key must be 32 bytes")
  let checkpointHash ← mapErr (C.hexDecode sig.checkpointHash)
    fun e => .evidence ("invalid checkpoint_hash hex: " ++ e)
  let signature ← mapErr (C.base64 sig.signature)
    fun e => .evidence ("invalid signature base64: " ++ e)
  reject (signature.length ≠ 64) (.evidence "ratchet signature must be 64 bytes")
  mapFault (verifyRatchetSignature C ratchetPub checkpointHash signature)
    fun e => .evidence ("key hierarchy verification failed: " ++ e.text)

def checkKeyHierarchy : Res Error Unit :=
  match p.keyHierarchy with
  | none => .ok ()
  | some kh => do
    let masterPub ← mapErr (C.hexDecode kh.masterPublicKey)
      fun e => .evidence ("invalid master_public_key hex: " ++ e)
    reject (masterPub.length ≠ 32) (.evidence "master_public_key must be 32 bytes")
    let sessionPub ← mapErr (C.hexDecode kh.sessionPublicKey)
      fun e => .evidence ("invalid session_public_key hex: " ++ e)
    reject (sessionPub.length ≠ 32) (.evidence "session_public_key must be 32 bytes")
    let certRaw ← mapErr (C.base64 kh.sessionCertificate)
      fun e => .evidence ("invalid session_certificate base64: " ++ e)
    checkCertificate C kh masterPub sessionPub certRaw
    forEach (checkRatchetSignature C kh) kh.checkpointSignatures

def checkBaseline : Res Error Unit :=
  match p.baselineVerification.bind fun bv => bv.digest.map fun digest => (bv, digest) with
  | none => .ok ()
  | some (bv, digest) => do
    let sig ← okOr bv.digestSignature
      (.evidence "baseline digest present but digest_signature is missing")
    let publicKey ← okOr p.signingPublicKey (.signature "missing signing public key for baseline")
    reject (C.ed25519.validKey publicKey = false)
      (.signature ("invalid public key: " ++ C.signatureError))
    let signature ← okOr (tryFrom 64 sig) (.evidence "invalid signature length")
    let digestJson ← mapErr (C.digestJson digest)
      fun e => .evidence ("digest serialize failed: " ++ e)
    reject (C.ed25519.verify publicKey digestJson signature = false)
      (.signature ("baseline digest signature invalid: " ++ C.signatureError))
    reject (digest.identityFingerprint ≠ (C.sha256 publicKey.val).val)
      (.evidence "baseline identity fingerprint mismatch")

def verifySelfSigned : Res Error Unit := do
  checkDocument p
  checkCheckpoints C p 0 "" p.checkpoints
  checkDeclaration C p
  checkKeyHierarchy C p
  checkBaseline C p

/-! ## What passes -/

/-- A checkpoint has no complete delay proof, or one that is not too long and verifies. -/
def VdfAccepted (cp : CheckpointProof) : Prop :=
  ∀ iterations ∈ cp.vdfIterations, ∀ inputHex ∈ cp.vdfInput, ∀ outputHex ∈ cp.vdfOutput,
    iterations ≤ maxVdfIterations ∧ ∃ input output : Digest,
      decode inputHex = some input.val ∧ decode outputHex = some output.val
        ∧ VdfProof.verify C.sha256 { input, output, iterations, duration := 0 } = true

/-- What `verify_self_signed` takes. -/
structure Accepted (p : Packet) : Prop where
  document : ∀ last ∈ p.checkpoints.getLast?, p.chainHash = last.hash
    ∧ p.document.finalHash = last.contentHash ∧ p.document.finalSize = last.contentSize
  noChain : p.checkpoints = [] → p.chainHash = ""
  genesis : ∀ cp ∈ p.checkpoints.head?, isHexHash cp.previousHash = true
  links : p.checkpoints.IsChain fun a b => b.previousHash = a.hash
  vdf : ∀ cp ∈ p.checkpoints, VdfAccepted C cp
  declaration : ∀ decl ∈ p.declaration, decl.verify C.sha256 C.ed25519 = .ok ()
  keyHierarchy : checkKeyHierarchy C p = .ok ()
  baseline : checkBaseline C p = .ok ()

end Defs

variable {C : Crates}

/-! ## Hexadecimal hashes -/

theorem digit_hexdigit : ∀ n < 16, isAsciiHexdigit (digit n) = true := by decide

theorem length_utf8_digits (bytes : Bytes) :
    ((bytes.flatMap digits).flatMap String.utf8EncodeChar).length = 2 * bytes.length := by
  induction bytes with
  | nil => rfl
  | cons b bytes ih =>
    have hb := b.toNat_lt
    obtain ⟨hi, hhi, -⟩ := digit_spec (b.toNat / 16) (by omega)
    obtain ⟨lo, hlo, -⟩ := digit_spec (b.toNat % 16) (by omega)
    rw [List.flatMap_cons, List.flatMap_append, List.length_append, ih, List.length_cons,
      digits, List.flatMap_cons, List.flatMap_singleton, hhi, hlo]
    simp
    omega

theorem isHexHash_encode (d : Digest) : isHexHash (encode d.val) = true := by
  have hlength : (Bytes.utf8 (encode d.val)).length = 64 := by
    rw [encode, utf8_ofList, length_utf8_digits, length_val]
  have hdigits : (encode d.val).toList.all isAsciiHexdigit = true := by
    rw [encode, String.toList_ofList, List.all_flatMap, List.all_eq_true]
    intro b _
    have hb := b.toNat_lt
    rw [digits, List.all_cons, List.all_cons, digit_hexdigit _ (by omega),
      digit_hexdigit _ (by omega)]
    rfl
  unfold isHexHash
  rw [hlength, hdigits]
  rfl

variable {p : Packet} {cp : CheckpointProof}

theorem isHexHash_of_isDocRef (h : isDocRef C p cp = true) : isHexHash cp.previousHash = true := by
  unfold isDocRef at h
  split at h
  · cases h
  · split at h
    next hash _ =>
      rw [of_decide_eq_true h]
      exact isHexHash_encode hash
    next => cases h

/-! ## Acceptance -/

theorem checkDocument_eq_ok :
    checkDocument p = .ok () ↔
      (∀ last ∈ p.checkpoints.getLast?, p.chainHash = last.hash
        ∧ p.document.finalHash = last.contentHash ∧ p.document.finalSize = last.contentSize)
      ∧ (p.checkpoints = [] → p.chainHash = "") := by
  unfold checkDocument
  cases hlast : p.checkpoints.getLast? with
  | none =>
    have hnil : p.checkpoints = [] := List.getLast?_eq_none_iff.mp hlast
    simp [hnil]
  | some last =>
    have hne : p.checkpoints ≠ [] := by
      rintro hnil
      rw [hnil] at hlast
      cases hlast
    simp only [reject_bind_eq_ok, reject_eq_ok, ne_eq, not_not, Option.mem_some_iff,
      forall_eq', hne, false_implies, and_true]

variable {prevHash : String} {i : Nat} {cps : List CheckpointProof}

theorem checkLink_zero_eq_ok :
    checkLink C p 0 prevHash cp = .ok () ↔ isHexHash cp.previousHash = true := by
  rw [checkLink, if_pos rfl, reject_eq_ok]
  constructor
  · intro h
    -- the hash of a document is hexadecimal too
    cases hdoc : isDocRef C p cp with
    | true => exact isHexHash_of_isDocRef hdoc
    | false => exact Bool.eq_true_of_not_eq_false fun hhex => h ⟨hdoc, hhex⟩
  · rintro h ⟨-, hhex⟩
    rw [h] at hhex
    cases hhex

theorem checkLink_succ_eq_ok :
    checkLink C p (i + 1) prevHash cp = .ok () ↔ cp.previousHash = prevHash := by
  rw [checkLink, if_neg (Nat.succ_ne_zero i), reject_eq_ok, not_not]

theorem checkVdf_eq_ok : checkVdf C i cp = .ok () ↔ VdfAccepted C cp := by
  unfold checkVdf VdfAccepted
  split
  next iterations inputHex outputHex hiterations hinput houtput =>
    simp only [reject_bind_eq_ok, mapErr_bind_eq_ok, okOr_bind_eq_ok, reject_eq_ok,
      Crates.hexDecode_eq_ok, tryFrom_eq_some, hiterations, hinput, houtput,
      Option.mem_some_iff, forall_eq', Nat.not_lt, Bool.not_eq_false]
    constructor
    · rintro ⟨hle, _, hin, _, hout, input, rfl, output, rfl, hverify⟩
      exact ⟨hle, input, output, hin, hout, hverify⟩
    · rintro ⟨hle, input, output, hin, hout, hverify⟩
      exact ⟨hle, _, hin, _, hout, input, rfl, output, rfl, hverify⟩
  next hnone =>
    simp only [true_iff]
    intro iterations hiterations inputHex hinput outputHex houtput
    exact absurd houtput (hnone iterations inputHex outputHex hiterations hinput)

/-- Past the first checkpoint each one names the hash of the one before it. -/
theorem checkCheckpoints_succ_eq_ok {prev : CheckpointProof} :
    checkCheckpoints C p (i + 1) prev.hash cps = .ok () ↔
      (prev :: cps).IsChain (fun a b => b.previousHash = a.hash)
        ∧ ∀ cp ∈ cps, VdfAccepted C cp := by
  induction cps generalizing i prev with
  | nil => simp [checkCheckpoints]
  | cons cp cps ih =>
    rw [checkCheckpoints, unit_bind_eq_ok, unit_bind_eq_ok, checkLink_succ_eq_ok, checkVdf_eq_ok,
      ih, List.isChain_cons_cons, List.forall_mem_cons]
    grind

theorem checkCheckpoints_eq_ok :
    checkCheckpoints C p 0 "" cps = .ok () ↔
      (∀ cp ∈ cps.head?, isHexHash cp.previousHash = true)
        ∧ cps.IsChain (fun a b => b.previousHash = a.hash) ∧ ∀ cp ∈ cps, VdfAccepted C cp := by
  cases cps with
  | nil => simp [checkCheckpoints]
  | cons cp cps =>
    rw [checkCheckpoints, unit_bind_eq_ok, unit_bind_eq_ok, checkLink_zero_eq_ok, checkVdf_eq_ok,
      checkCheckpoints_succ_eq_ok, List.head?_cons, List.forall_mem_cons]
    simp only [Option.mem_some_iff, forall_eq']
    grind

theorem checkDeclaration_eq_ok :
    checkDeclaration C p = .ok () ↔
      ∀ decl ∈ p.declaration, decl.verify C.sha256 C.ed25519 = .ok () := by
  unfold checkDeclaration
  cases p.declaration with
  | none => simp
  | some decl =>
    cases hverify : decl.verify C.sha256 C.ed25519 with
    | ok u => simp [hverify]
    | error e => simp [hverify]

theorem verifySelfSigned_eq_ok : verifySelfSigned C p = .ok () ↔ Accepted C p := by
  unfold verifySelfSigned
  rw [unit_bind_eq_ok, unit_bind_eq_ok, unit_bind_eq_ok, unit_bind_eq_ok, checkDocument_eq_ok,
    checkCheckpoints_eq_ok, checkDeclaration_eq_ok]
  constructor
  · rintro ⟨⟨hdocument, hnil⟩, ⟨hgenesis, hlinks, hvdf⟩, hdeclaration, hkey, hbaseline⟩
    exact ⟨hdocument, hnil, hgenesis, hlinks, hvdf, hdeclaration, hkey, hbaseline⟩
  · rintro ⟨hdocument, hnil, hgenesis, hlinks, hvdf, hdeclaration, hkey, hbaseline⟩
    exact ⟨⟨hdocument, hnil⟩, ⟨hgenesis, hlinks, hvdf⟩, hdeclaration, hkey, hbaseline⟩

def CheckpointProof.fields (cp : CheckpointProof) :
    Nat × String × Nat × DateTime × String × String :=
  (cp.ordinal, cp.contentHash, cp.contentSize, cp.timestamp, cp.previousHash, cp.hash)

/-- Packets with this chain hash and as many checkpoints have these checkpoints. -/
def Binds (C : Crates) (p : Packet) : Prop :=
  ∀ p', verifySelfSigned C p' = .ok () → p'.chainHash = p.chainHash →
    p'.checkpoints.length = p.checkpoints.length →
      p'.checkpoints.map CheckpointProof.fields = p.checkpoints.map CheckpointProof.fields

structure KeepsCompared (f : CheckpointProof → CheckpointProof) : Prop where
  contentHash : ∀ cp, (f cp).contentHash = cp.contentHash
  contentSize : ∀ cp, (f cp).contentSize = cp.contentSize
  vdfInput : ∀ cp, (f cp).vdfInput = cp.vdfInput
  vdfOutput : ∀ cp, (f cp).vdfOutput = cp.vdfOutput
  vdfIterations : ∀ cp, (f cp).vdfIterations = cp.vdfIterations
  previousHash : ∀ cp, (f cp).previousHash = cp.previousHash
  hash : ∀ cp, (f cp).hash = cp.hash

/-- Another ordinal, also one of 64 bits. -/
def renumber (cp : CheckpointProof) : CheckpointProof :=
  { cp with ordinal := if cp.ordinal = 0 then 1 else 0 }

theorem keepsCompared_renumber : KeepsCompared renumber :=
  ⟨fun _ => rfl, fun _ => rfl, fun _ => rfl, fun _ => rfl, fun _ => rfl, fun _ => rfl, fun _ => rfl⟩

theorem ordinal_renumber (cp : CheckpointProof) : (renumber cp).ordinal ≠ cp.ordinal := by
  show (if cp.ordinal = 0 then 1 else 0) ≠ cp.ordinal
  split
  next h =>
    rw [h]
    exact Nat.one_ne_zero
  next h => exact fun h' => h h'.symm

/-- A packet that passes also passes with its checkpoints rewritten. -/
theorem Accepted.rewrite {f : CheckpointProof → CheckpointProof} (hf : KeepsCompared f)
    {p : Packet} (h : Accepted C p) :
    Accepted C { p with checkpoints := p.checkpoints.map f } := by
  refine ⟨?document, ?noChain, ?genesis, ?links, ?vdf, h.declaration, h.keyHierarchy, h.baseline⟩
  case document =>
    intro last hlast
    show p.chainHash = last.hash ∧ p.document.finalHash = last.contentHash
      ∧ p.document.finalSize = last.contentSize
    rw [List.getLast?_map] at hlast
    obtain ⟨cp, hcp, rfl⟩ := Option.map_eq_some_iff.mp hlast
    rw [hf.hash, hf.contentHash, hf.contentSize]
    exact h.document cp hcp
  case noChain =>
    intro hnil
    exact h.noChain (List.map_eq_nil_iff.mp hnil)
  case genesis =>
    intro first hfirst
    rw [List.head?_map] at hfirst
    obtain ⟨cp, hcp, rfl⟩ := Option.map_eq_some_iff.mp hfirst
    rw [hf.previousHash]
    exact h.genesis cp hcp
  case links =>
    show (p.checkpoints.map f).IsChain fun a b => b.previousHash = a.hash
    apply (List.isChain_map f).mpr
    simp only [hf.previousHash, hf.hash]
    exact h.links
  case vdf =>
    intro cp' hcp'
    obtain ⟨cp, hcp, rfl⟩ := List.mem_map.mp hcp'
    -- the three parts of a delay proof are kept
    unfold VdfAccepted
    rw [hf.vdfIterations, hf.vdfInput, hf.vdfOutput]
    exact h.vdf cp hcp

/-- Nothing but the empty list of checkpoints is determined by a chain hash. -/
theorem binds_iff (C : Crates) {p : Packet} (h : verifySelfSigned C p = .ok ()) :
    Binds C p ↔ p.checkpoints = [] := by
  constructor
  · intro hbinds
    have haccepted := (verifySelfSigned_eq_ok.mp h).rewrite keepsCompared_renumber
    have heq := hbinds _ (verifySelfSigned_eq_ok.mpr haccepted) rfl (List.length_map _)
    by_contra hne
    obtain ⟨cp, cps, hcps⟩ := List.exists_cons_of_ne_nil hne
    rw [hcps, List.map_cons, List.map_cons, List.map_cons] at heq
    have hfields := (List.cons.inj heq).1
    exact ordinal_renumber cp (congrArg Prod.fst hfields)
  · rintro hnil p' - - hlength
    rw [hnil] at hlength ⊢
    rw [List.length_eq_zero_iff.mp hlength]

/-! ## One chain hash, two histories -/

def history (first : UInt8) (size : Nat) (start : Int) : List CheckpointProof :=
  let hash := fun b => encode (filled 32 b).val
  [ { ordinal := 0, contentHash := hash first, contentSize := size, timestamp := .ofNanos start
      vdfInput := none, vdfOutput := none, vdfIterations := none, elapsedTime := none
      previousHash := hash 0, hash := hash 7, signature := none },
    { ordinal := 1, contentHash := hash 2, contentSize := 40, timestamp := .ofNanos 5000000000
      vdfInput := none, vdfOutput := none, vdfIterations := none, elapsedTime := none
      previousHash := hash 7, hash := hash 8, signature := none } ]

def historyPacket (first : UInt8) (size : Nat) (start : Int) : Packet :=
  { Packet.default 6000000000 with
    document := { title := "Draft", path := "/home/a/draft.txt"
                  finalHash := encode (filled 32 2).val, finalSize := 40 }
    checkpoints := history first size start
    chainHash := encode (filled 32 8).val }

theorem verify_historyPacket (first : UInt8) (size : Nat) (start : Int) :
    verifySelfSigned sumCrates (historyPacket first size start) = .ok () := by
  apply verifySelfSigned_eq_ok.mpr
  refine ⟨?_, nofun, ?_, ?_, ?_, nofun, rfl, rfl⟩
  · rintro last ⟨⟩
    exact ⟨rfl, rfl, rfl⟩
  · rintro cp ⟨⟩
    exact isHexHash_encode _
  · exact .cons_cons rfl (.singleton _)
  · intro cp hcp iterations hiterations
    -- neither of the two has a delay proof
    rcases List.mem_pair.mp hcp with rfl | rfl <;> cases hiterations

theorem binds_iff_history :
    Binds sumCrates (historyPacket 1 30 0) ↔ (historyPacket 1 30 0).checkpoints = [] :=
  binds_iff sumCrates (verify_historyPacket 1 30 0)

/-- A packet in which the first content, its size and its time are other ones passes with
    the same chain hash. -/
theorem not_binds_history :
    verifySelfSigned sumCrates (historyPacket 1 30 0) = .ok ()
      ∧ verifySelfSigned sumCrates (historyPacket 9 31 1000000000) = .ok ()
      ∧ (historyPacket 1 30 0).chainHash = (historyPacket 9 31 1000000000).chainHash
      ∧ (historyPacket 1 30 0).checkpoints.length
        = (historyPacket 9 31 1000000000).checkpoints.length
      ∧ (historyPacket 1 30 0).checkpoints.map CheckpointProof.contentHash
        ≠ (historyPacket 9 31 1000000000).checkpoints.map CheckpointProof.contentHash
      ∧ ¬Binds sumCrates (historyPacket 1 30 0) := by
  have hother := verify_historyPacket 9 31 1000000000
  refine ⟨verify_historyPacket 1 30 0, hother, rfl, rfl, by decide +kernel, ?_⟩
  intro hbinds
  have heq := hbinds _ hother rfl rfl
  exact absurd (congrArg (List.map fun fields => fields.2.2.1) heq) (by decide)

end WritersProof.Evidence
