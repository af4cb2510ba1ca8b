/-
  WritersProof.C2pa.Binding

  What a manifest signature binds.

  The verifier puts the claim in place of a detached payload only: a signature that
  brings a payload of its own is checked over that one, whatever the claim says.  With
  a detached payload, the bytes of the claim are those that were signed, and the hashes
  in the claim fix the assertion boxes but for their headers.  No check reads the headers,
  or compares the claim with its bytes.
-/
import WritersProof.C2pa.Validation

namespace WritersProof.C2pa

open Rust Protocol FixedBytes

section Keys

variable (C : Crates)

inductive Key where
  | ed25519 (key : FixedBytes 32)
  | p256 (key : C.P256Key)

variable {C}

def Key.Verifies (message signature : Bytes) : Key C → Prop
  | .ed25519 key =>
    ∃ s, tryFrom 64 signature = some s ∧ C.ed25519.verify key message s = true
  | .p256 key => C.p256Verify key message signature = .ok ()

/-- `VerifyingKey::from_bytes` has found a point; P-256 keys are points to begin with. -/
def Key.Valid : Key C → Prop
  | .ed25519 key => ¬ C.ed25519.validKey key = false
  | .p256 _ => True

def Key.of (pkBytes : Bytes) : Algorithm → Option (Key C)
  | .edDSA => (tryFrom 32 pkBytes).map .ed25519
  | .es256 => (C.p256FromSec1 pkBytes).toOption.map .p256
  | .other _ => none

variable (C)

/-- The signature in a manifest verifies over the `Sig_structure` of a payload. -/
def SignedOver (key : Key C) (m : C2paManifest) (payload : Bytes) : Prop :=
  ∃ sign1, C.parseSign1 m.signature = .ok sign1
    ∧ key.Verifies (sigStructure sign1.protectedHeader payload) sign1.signature

/-- The signature carries the key itself. -/
def EmbeddedKey (m : C2paManifest) (key : Key C) : Prop :=
  ∃ sign1 pkBytes alg, C.parseSign1 m.signature = .ok sign1
    ∧ extractPublicKey C sign1 = .ok pkBytes ∧ sign1.header.alg = some alg
    ∧ Key.of pkBytes alg = some key

/-- One of the two verifications has answered `true` under a key. -/
inductive Checked (m : C2paManifest) : Key C → Prop
  | withKey {key} : verifyManifestWithKey C m key = .ok true → Checked m (.ed25519 key)
  | embedded {key} : verifyManifestSignature C m = .ok true → EmbeddedKey C m key → Checked m key

/-- The signature has no payload but the claim. -/
def Detached (m : C2paManifest) : Prop :=
  ∀ sign1, C.parseSign1 m.signature = .ok sign1 → ∀ payload ∈ sign1.payload, payload = m.claimCbor

end Keys

variable {C : Crates}

/-! ## What was checked -/

theorem verdict_eq_true {result : Res Error Unit} : verdict result = true ↔ result = .ok () := by
  rcases result with _ | ⟨⟩
  · exact ⟨nofun, nofun⟩
  · exact ⟨fun _ => rfl, fun _ => rfl⟩

theorem signedPayload_reattached (m : C2paManifest) (sign1 : Sign1) :
    (reattached m sign1).signedPayload = sign1.payload.getD m.claimCbor := by
  unfold reattached CoseSign1.signedPayload
  cases h : sign1.payload with
  | none => rfl
  | some payload =>
    rw [if_neg (by simp), h]
    rfl

theorem reattached_fields (m : C2paManifest) (sign1 : Sign1) :
    (reattached m sign1).protectedHeader = sign1.protectedHeader
      ∧ (reattached m sign1).signature = sign1.signature
      ∧ (reattached m sign1).header = sign1.header := by
  unfold reattached
  split <;> exact ⟨rfl, rfl, rfl⟩

variable {sign1 : CoseSign1} {key : FixedBytes 32} {a b : Bytes}

theorem verifyCoseSign1Ed25519_eq_ok :
    verifyCoseSign1Ed25519 C.toCrates sign1 key = .ok () ↔
      (Key.ed25519 key : Key C).Verifies (sigStructure sign1.protectedHeader sign1.signedPayload)
        sign1.signature := by
  unfold verifyCoseSign1Ed25519 Key.Verifies
  simp only [okOr_bind_eq_ok, reject_eq_ok, not_not]

theorem verifyCoseSign1Es256_eq_ok {key : C.P256Key} :
    verifyCoseSign1Es256 C sign1 key = .ok () ↔
      (Key.p256 key : Key C).Verifies (sigStructure sign1.protectedHeader sign1.signedPayload)
        sign1.signature := mapErr_eq_ok

variable {m : C2paManifest}

theorem verifyManifestWithKey_eq_true :
    verifyManifestWithKey C m key = .ok true ↔
      ∃ sign1, C.parseSign1 m.signature = .ok sign1 ∧ (Key.ed25519 key : Key C).Valid
        ∧ (Key.ed25519 key : Key C).Verifies
          (sigStructure sign1.protectedHeader (sign1.payload.getD m.claimCbor))
          sign1.signature := by
  unfold verifyManifestWithKey parseManifestSign1 ed25519Key
  simp only [mapErr_bind_eq_ok, reject_bind_eq_ok, Except.ok.injEq, verdict_eq_true,
    verifyCoseSign1Ed25519_eq_ok, signedPayload_reattached, reattached_fields, Key.Valid]

theorem verifyUnder_eq_true {sign1 : Sign1} {pkBytes : Bytes} {alg : Algorithm} :
    verifyUnder C sign1 pkBytes alg = .ok true ↔
      ∃ key : Key C, Key.of pkBytes alg = some key ∧ key.Valid
        ∧ key.Verifies (sigStructure sign1.protectedHeader sign1.signedPayload)
          sign1.signature := by
  cases alg with
  | edDSA =>
    unfold verifyUnder ed25519Key Key.of
    simp only [okOr_bind_eq_ok, reject_bind_eq_ok, Except.ok.injEq, verdict_eq_true,
      verifyCoseSign1Ed25519_eq_ok, Option.map_eq_some_iff]
    constructor
    · rintro ⟨pk, hpk, hvalid, hver⟩
      exact ⟨_, ⟨pk, hpk, rfl⟩, hvalid, hver⟩
    · rintro ⟨_, ⟨pk, hpk, rfl⟩, hvalid, hver⟩
      exact ⟨pk, hpk, hvalid, hver⟩
  | es256 =>
    unfold verifyUnder Key.of
    simp only [mapErr_bind_eq_ok, Except.ok.injEq, verdict_eq_true, verifyCoseSign1Es256_eq_ok,
      Option.map_eq_some_iff]
    constructor
    · rintro ⟨vk, hvk, hver⟩
      exact ⟨_, ⟨vk, by rw [hvk]; rfl, rfl⟩, trivial, hver⟩
    · rintro ⟨_, ⟨vk, hvk, rfl⟩, -, hver⟩
      refine ⟨vk, ?_, hver⟩
      cases hfrom : C.p256FromSec1 pkBytes with
      | error e =>
        rw [hfrom] at hvk
        cases hvk
      | ok vk' =>
        rw [hfrom] at hvk
        cases hvk
        rfl
  | other debug => exact ⟨nofun, nofun⟩

theorem extractPublicKey_reattached (m : C2paManifest) (sign1 : Sign1) :
    extractPublicKey C (reattached m sign1) = extractPublicKey C sign1 := by
  rw [extractPublicKey, extractPublicKey, (reattached_fields m sign1).2.2]

/-- The verification under the embedded key, in one piece. -/
theorem verifyManifestSignature_eq_true :
    verifyManifestSignature C m = .ok true ↔
      ∃ (sign1 : Sign1) (pkBytes : Bytes) (alg : Algorithm) (key : Key C),
        C.parseSign1 m.signature = .ok sign1
        ∧ extractPublicKey C sign1 = .ok pkBytes ∧ sign1.header.alg = some alg
        ∧ Key.of pkBytes alg = some key ∧ key.Valid
        ∧ key.Verifies (sigStructure sign1.protectedHeader (sign1.payload.getD m.claimCbor))
          sign1.signature := by
  unfold verifyManifestSignature parseManifestSign1
  simp only [res_bind_eq_ok, mapErr_eq_ok, okOr_eq_ok, verifyUnder_eq_true,
    signedPayload_reattached, extractPublicKey_reattached, reattached_fields]
  constructor
  · rintro ⟨sign1, hparse, pk, hpk, alg, halg, key, hkey⟩
    exact ⟨sign1, pk, alg, key, hparse, hpk, halg, hkey⟩
  · rintro ⟨sign1, pk, alg, key, hparse, hpk, halg, hkey⟩
    exact ⟨sign1, hparse, pk, hpk, alg, halg, key, hkey⟩

/-- Whichever verification answered, it was over the payload in the signature, or else over
the claim. -/
theorem Checked.verifies {key : Key C} (h : Checked C m key) :
    ∃ sign1, C.parseSign1 m.signature = .ok sign1
      ∧ key.Verifies (sigStructure sign1.protectedHeader (sign1.payload.getD m.claimCbor))
        sign1.signature := by
  cases h with
  | @withKey key h =>
    obtain ⟨sign1, hparse, -, hver⟩ := verifyManifestWithKey_eq_true.mp h
    exact ⟨sign1, hparse, hver⟩
  | embedded h hkey =>
    obtain ⟨sign1, pkBytes, alg, hparse, hextract, halg, hof⟩ := hkey
    obtain ⟨sign1', pkBytes', alg', key', hparse', hextract', halg', hof', -, hver⟩ :=
      verifyManifestSignature_eq_true.mp h
    cases hparse.symm.trans hparse'
    cases hextract.symm.trans hextract'
    cases halg.symm.trans halg'
    cases hof.symm.trans hof'
    exact ⟨sign1, hparse, hver⟩

/-! ## Boxes -/

theorem box_ext (ha : Framed a) (hb : Framed b) (htype : typeOf a = typeOf b)
    (hbody : a.drop 8 = b.drop 8) : a = b := by
  have hsplit : ∀ {box : Bytes}, Framed box →
      box = Bytes.toBE 4 (8 + (box.drop 8).length) ++ typeOf box ++ box.drop 8 := by
    intro box hbox
    obtain ⟨hlen, hint⟩ := hbox
    have htake : (box.take 4).length = 4 := by
      rw [List.length_take]
      omega
    have hfirst : Bytes.toBE 4 (8 + (box.drop 8).length) = box.take 4 := by
      rw [List.length_drop, Nat.add_sub_cancel' hlen, ← hint, beInt]
      conv_rhs => rw [← Bytes.toBE_ofBE (box.take 4), htake]
    rw [hfirst, typeOf, ← List.take_add, List.take_append_drop]
  rw [hsplit ha, hsplit hb, htype, hbody]

theorem errorIf_eq_nil {p : Prop} [Decidable p] {message : String} :
    errorIf p message = [] ↔ ¬ p := by
  unfold errorIf
  split <;> simp_all

theorem isValid_iff : (validateManifest C m).isValid = true ↔
    structureErrors C m = [] ∧ (signatureResult C m).errors = [] := by
  rw [ValidationResult.isValid, List.isEmpty_iff, validateManifest, List.append_eq_nil_iff]

/-- What a valid manifest says of its boxes: there is one for each reference, with its hash. -/
theorem boxes_of_isValid (h : (validateManifest C m).isValid = true) :
    m.assertionBoxes.length = m.claim.createdAssertions.length
      ∧ ∀ (i : Nat) (a : HashedUri) (box : Bytes), m.claim.createdAssertions[i]? = some a →
          m.assertionBoxes[i]? = some box →
            a.hash = hashAssertionBox C (box.drop 8) m.claim.alg := by
  obtain ⟨hstructure, -⟩ := isValid_iff.mp h
  simp only [structureErrors, List.append_eq_nil_iff, List.flatMap_eq_nil_iff] at hstructure
  obtain ⟨⟨-, hcount⟩, hboxes⟩ := hstructure
  refine ⟨not_not.mp (errorIf_eq_nil.mp hcount), ?_⟩
  intro i a box ha hbox
  have hmem : ((a, box), i) ∈ (m.claim.createdAssertions.zip m.assertionBoxes).zipIdx := by
    rw [List.mem_zipIdx_iff_getElem?, List.getElem?_zip_eq_some]
    exact ⟨ha, hbox⟩
  have herrors := hboxes _ hmem
  dsimp only at herrors
  rw [boxErrors] at herrors
  split at herrors
  · cases herrors
  · exact not_not.mp (errorIf_eq_nil.mp herrors)

/-! ## Honest signers -/

def signatureBytes (C : Crates) (m : C2paManifest) : Option Bytes :=
  (C.parseSign1 m.signature).toOption.map fun sign1 => sign1.signature

structure Honest (C : Crates) (h : C2paManifest) : Prop where
  claim : C.claimReader h.claimCbor = .ok h.claim
  count : h.assertionBoxes.length = h.claim.createdAssertions.length
  hashes : ∀ (i : Nat) (a : HashedUri) (box : Bytes), h.claim.createdAssertions[i]? = some a →
    h.assertionBoxes[i]? = some box → a.hash = hashAssertionBox C (box.drop 8) h.claim.alg
  boxes : ∀ box ∈ h.assertionBoxes, Framed box ∧ typeOf box = JUMB

/-- The holder of a key has signed the claims of these manifests, and no one forges or finds
collisions: what verifies in `m` was signed, for one claim only, and the boxes of `m` hash
differently from other boxes that were signed. -/
structure Unforged (C : Crates) (key : Key C) (manifests : List C2paManifest)
    (m : C2paManifest) : Prop where
  honest : ∀ h ∈ manifests, Honest C h
  signed : ∀ sign1, C.parseSign1 m.signature = .ok sign1 →
    ∀ payload ∈ sign1.payload.toList ++ [m.claimCbor],
      key.Verifies (sigStructure sign1.protectedHeader payload) sign1.signature →
        ∃ h ∈ manifests, h.claimCbor = payload ∧ signatureBytes C h = some sign1.signature
  oneClaim : ∀ h ∈ manifests, ∀ h' ∈ manifests, signatureBytes C h = signatureBytes C h' →
    h.claimCbor = h'.claimCbor
  collisionFree : ∀ h ∈ manifests, ∀ box ∈ h.assertionBoxes, ∀ box' ∈ m.assertionBoxes,
    ∀ alg, hashAssertionBox C (box.drop 8) alg = hashAssertionBox C (box'.drop 8) alg →
      box.drop 8 = box'.drop 8

theorem assertionBoxes_eq {key : Key C} {manifests : List C2paManifest} {m h : C2paManifest}
    (hideal : Unforged C key manifests m) (hh : h ∈ manifests) (hclaim : m.claim = h.claim)
    (hvalid : (validateManifest C m).isValid = true)
    (hboxes : ∀ box ∈ m.assertionBoxes, Framed box ∧ typeOf box = JUMB) :
    m.assertionBoxes = h.assertionBoxes := by
  have hhonest := hideal.honest h hh
  obtain ⟨hcount, hhashes⟩ := boxes_of_isValid hvalid
  have hlen : m.assertionBoxes.length = h.assertionBoxes.length := by
    rw [hcount, hhonest.count, hclaim]
  apply List.ext_getElem hlen
  intro i hi hi'
  have ha : i < h.claim.createdAssertions.length := by
    rw [← hhonest.count]
    exact hi'
  have hget := List.getElem?_eq_getElem ha
  simp only [hclaim] at hhashes
  have hbox := hhashes i _ _ hget (List.getElem?_eq_getElem hi)
  have hbox' := hhonest.hashes i _ _ hget (List.getElem?_eq_getElem hi')
  have hmem := List.getElem_mem hi
  have hmem' := List.getElem_mem hi'
  obtain ⟨hframed', htype'⟩ := hhonest.boxes _ hmem'
  apply box_ext (hboxes _ hmem).1 hframed'
  · rw [(hboxes _ hmem).2, htype']
  · exact (hideal.collisionFree h hh _ hmem' _ hmem _ (hbox'.symm.trans hbox)).symm

/-- A signature that passes one of the checks is over the claim exactly when it brings no
other payload; and a manifest that passes validation too is a signed one, in its claim and
boxes, exactly when besides its claim is the one in the claim's bytes and all of its boxes
are superboxes. -/
theorem checked_binds {m : C2paManifest} {key : Key C} (hchecked : Checked C m key) :
    (Detached C m → SignedOver C key m m.claimCbor)
      ∧ ∀ manifests, Unforged C key manifests m →
        (SignedOver C key m m.claimCbor → Detached C m)
          ∧ ((validateManifest C m).isValid = true →
            ((SignedOver C key m m.claimCbor ∧ ∃ h ∈ manifests, m.claimCbor = h.claimCbor
                ∧ m.claim = h.claim ∧ m.assertionBoxes = h.assertionBoxes) ↔
              Detached C m ∧ C.claimReader m.claimCbor = .ok m.claim
                ∧ ∀ box ∈ m.assertionBoxes, Framed box ∧ typeOf box = JUMB)) := by
  obtain ⟨sign1, hparse, hverifies⟩ := hchecked.verifies
  have hbound : Detached C m → SignedOver C key m m.claimCbor := by
    intro hdetached
    refine ⟨sign1, hparse, ?_⟩
    have hpayload : sign1.payload.getD m.claimCbor = m.claimCbor := by
      cases hp : sign1.payload with
      | none => rfl
      | some payload => exact hdetached sign1 hparse payload hp
    rwa [hpayload] at hverifies
  refine ⟨hbound, fun manifests hideal => ?_⟩
  have hdetached : SignedOver C key m m.claimCbor → Detached C m := by
    rintro ⟨sign1', hparse', hover⟩ sign1'' hparse'' payload hpayload
    cases hparse.symm.trans hparse'
    cases hparse.symm.trans hparse''
    -- Both the payload and the claim were signed, by the same signature.
    rw [Option.mem_def.mp hpayload] at hverifies
    obtain ⟨h, hh, hclaim, hsig⟩ := hideal.signed sign1 hparse payload
      (by simp [Option.mem_def.mp hpayload]) hverifies
    obtain ⟨h', hh', hclaim', hsig'⟩ := hideal.signed sign1 hparse m.claimCbor (by simp) hover
    rw [← hclaim, ← hclaim']
    exact hideal.oneClaim h hh h' hh' (hsig.trans hsig'.symm)
  refine ⟨hdetached, fun hvalid => ?_⟩
  constructor
  · rintro ⟨hover, h, hh, hcbor, hclaim, hboxes⟩
    have hhonest := hideal.honest h hh
    refine ⟨hdetached hover, ?_, fun box hbox => hhonest.boxes box (hboxes ▸ hbox)⟩
    rw [hcbor, hclaim, hhonest.claim]
  · rintro ⟨hdet, hreader, hboxes⟩
    have hover := hbound hdet
    refine ⟨hover, ?_⟩
    obtain ⟨sign1', hparse', hver⟩ := hover
    obtain ⟨h, hh, hclaimCbor, -⟩ := hideal.signed sign1' hparse' m.claimCbor (by simp) hver
    have hclaim : m.claim = h.claim := by
      have hread := (hideal.honest h hh).claim
      rw [hclaimCbor, hreader] at hread
      exact Except.ok.inj hread
    exact ⟨h, hh, hclaimCbor.symm, hclaim, assertionBoxes_eq hideal hh hclaim hvalid hboxes⟩

/-! ## A signed manifest, and a forged one -/

variable (seed : FixedBytes 32)

/-- The signature of key `seed` over a payload, as `sign_c2pa_claim` makes it, with what is
left of the payload in the envelope. -/
noncomputable def signed (payload : Bytes) (kept : Option Bytes) :
    CoseSign1 where
  protectedHeader := protectedHeader (.nint 7) [(.uint 33, .bytes seed.val)]
  unprotected := []
  payload := kept
  signature := (summingCrates.ed25519.sign seed
    (sigStructure (protectedHeader (.nint 7) [(.uint 33, .bytes seed.val)]) payload)).val

/-- The header of such an envelope: its key stands last. -/
def readHeader (sign1 : CoseSign1) : Sign1 :=
  { sign1 with header :=
      { alg := some .edDSA
        rest :=
          [(X5CHAIN, .bytes (sign1.protectedHeader.drop (sign1.protectedHeader.length - 32)))] } }

/-- Crates that read envelopes and one claim, and add bytes up where the real ones hash and
sign. -/
noncomputable def bindingCrates (claim : C2paClaim) : Crates where
  toCrates := summingCrates
  sha384 bytes := filled 48 bytes.sum
  sha512 bytes := filled 64 bytes.sum
  P256Key := Empty
  p256FromSec1 _ := .error "no curve"
  p256Verify := nofun
  certPublicKey _ := .error "no certificate"
  parseSign1 bytes := (summingCrates.sign1FromSlice bytes).map fun sign1 =>
    readHeader sign1
  claimReader bytes := if bytes = claim.toCbor.encode then .ok claim else .error "no claim"
  hashDataReader _ := .error "no hash binding"

theorem parseSign1_encode (claim : C2paClaim) (sign1 : CoseSign1)
    (hlt : sign1.toCbor.encode.length < 2 ^ 64) :
    (bindingCrates claim).parseSign1 sign1.toCbor.encode = .ok (readHeader sign1) := by
  show (summingCrates.sign1FromSlice _).map _ = _
  rw [summingCrates_faithful.sign1 sign1 hlt]
  rfl

theorem claimReader_encode (claim : C2paClaim) :
    (bindingCrates claim).claimReader claim.toCbor.encode = .ok claim := if_pos rfl

def assertionBox (label : String) (content : Bytes) : Bytes :=
  (buildAssertionJumbfCbor label content).toOption.getD []

def honestBoxes : List Bytes :=
  [assertionBox ASSERTION_LABEL_HASH_DATA [0xA0], assertionBox ASSERTION_LABEL_ACTIONS [0xA0]]

def honestClaim : C2paClaim where
  claimGeneratorInfo := { name := "CPoE", version := none, specVersion := none }
  instanceId := "xmp:iid:aa"
  signature := "self#jumbf=/c2pa/urn:cpoe:aa/c2pa.signature"
  alg := some "sha256"
  createdAssertions :=
    [ASSERTION_LABEL_HASH_DATA, ASSERTION_LABEL_ACTIONS].zipWith
      (fun label box =>
        { url := "self#jumbf=/c2pa/urn:cpoe:aa/c2pa.assertions/" ++ label
          hash := (filled 32 (box.drop 8).sum).val, alg := some "sha256" })
      honestBoxes

noncomputable def honestManifest : C2paManifest where
  claim := honestClaim
  claimCbor := honestClaim.toCbor.encode
  manifestLabel := "urn:cpoe:aa"
  assertionBoxes := honestBoxes
  signature := (signed seed honestClaim.toCbor.encode none).toCbor.encode

/-- The claim of another author under a signature that brings the payload it is of. -/
noncomputable def forgedManifest : C2paManifest :=
  { honestManifest seed with
    claimCbor := { honestClaim with instanceId := "xmp:iid:bb" }.toCbor.encode
    signature := (signed seed [1] (some [1])).toCbor.encode }

theorem sum_of_hashAssertionBox {claim : C2paClaim} {alg : Option String}
    (h : hashAssertionBox (bindingCrates claim) a alg
      = hashAssertionBox (bindingCrates claim) b alg) :
    a.sum = b.sum := by
  have hfilled : ∀ {n : Nat} {x y : UInt8},
      (filled (n + 1) x).val = (filled (n + 1) y).val → x = y := by
    intro n x y hxy
    exact (List.cons.inj hxy).1
  unfold hashAssertionBox at h
  split at h
  · exact hfilled h
  split at h
  · exact hfilled h
  · exact hfilled h

theorem honestManifest_checked (hlt : (honestManifest seed).signature.length < 2 ^ 64) :
    Checked (bindingCrates honestClaim) (honestManifest seed) (.ed25519 seed) := by
  apply Checked.withKey
  rw [verifyManifestWithKey_eq_true]
  refine ⟨_, parseSign1_encode _ _ hlt, Bool.true_eq_false.mp, _, tryFrom_val _, ?_⟩
  exact summingCrates_faithful.ed25519.verify_sign seed _

theorem honestManifest_embedded
    (hlt : (honestManifest (filled 32 9)).signature.length < 2 ^ 64) :
    verifyManifestSignature (bindingCrates honestClaim) (honestManifest (filled 32 9))
      = .ok true := by
  rw [verifyManifestSignature_eq_true]
  refine ⟨_, (filled 32 9).val, .edDSA, .ed25519 (filled 32 9),
    parseSign1_encode _ _ hlt, by decide +kernel, rfl, rfl, Bool.true_eq_false.mp, _,
    tryFrom_val _, ?_⟩
  exact summingCrates_faithful.ed25519.verify_sign _ _

theorem honestManifest_unforged (hlt : (honestManifest seed).signature.length < 2 ^ 64) :
    Unforged (bindingCrates honestClaim) (.ed25519 seed) [honestManifest seed]
      (honestManifest seed) where
  honest h hh := by
    rw [List.mem_singleton.mp hh]
    have hcount : honestBoxes.length = honestClaim.createdAssertions.length := by decide +kernel
    have hboxes : ∀ box ∈ honestBoxes, Framed box ∧ typeOf box = JUMB := by decide +kernel
    refine ⟨claimReader_encode honestClaim, hcount, ?_, hboxes⟩
    intro i a box ha hbox
    have hash : ∀ data : Bytes, hashAssertionBox (bindingCrates honestClaim) data honestClaim.alg
        = (filled 32 data.sum).val := fun data =>
      (if_neg (by decide)).trans (if_neg (by decide))
    rw [show (honestManifest seed).claim.alg = honestClaim.alg from rfl, hash]
    match i with
    | 0 | 1 =>
      cases ha
      cases hbox
      rfl
    | i + 2 => cases ha
  signed sign1 hparse payload hpayload _ := by
    cases (parseSign1_encode _ _ hlt).symm.trans hparse
    refine ⟨_, List.mem_singleton_self _, (List.mem_singleton.mp hpayload).symm, ?_⟩
    rw [signatureBytes, hparse]
    rfl
  oneClaim h hh h' hh' _ := by rw [List.mem_singleton.mp hh, List.mem_singleton.mp hh']
  collisionFree h hh box hbox box' hbox' alg hhash := by
    rw [List.mem_singleton.mp hh] at hbox
    have hdistinct : ∀ box ∈ honestBoxes, ∀ box' ∈ honestBoxes,
        (box.drop 8).sum = (box'.drop 8).sum → box.drop 8 = box'.drop 8 := by decide +kernel
    exact hdistinct box hbox box' hbox' (sum_of_hashAssertionBox hhash)

/-- The manifest of an honest signer is the one it has signed. -/
theorem checked_binds_honest :
    SignedOver (bindingCrates honestClaim) (.ed25519 (filled 32 9))
        (honestManifest (filled 32 9)) honestClaim.toCbor.encode
      ∧ ∃ h ∈ [honestManifest (filled 32 9)],
        (honestManifest (filled 32 9)).claimCbor = h.claimCbor
          ∧ (honestManifest (filled 32 9)).claim = h.claim
          ∧ (honestManifest (filled 32 9)).assertionBoxes = h.assertionBoxes := by
  have hlt : (honestManifest (filled 32 9)).signature.length < 2 ^ 64 := by
    decide +kernel
  have hdetached : Detached (bindingCrates honestClaim)
      (honestManifest (filled 32 9)) := by
    intro sign1 hparse payload hpayload
    cases (parseSign1_encode _ _ hlt).symm.trans hparse
    cases hpayload
  have hvalid : (validateManifest (bindingCrates honestClaim)
      (honestManifest (filled 32 9))).isValid = true := by
    rw [isValid_iff]
    refine ⟨by decide +kernel, ?_⟩
    rw [signatureResult, if_neg (by decide +kernel), honestManifest_embedded hlt]
  have hboxes : ∀ box ∈ honestBoxes, Framed box ∧ typeOf box = JUMB := by decide +kernel
  exact (((checked_binds (honestManifest_checked _ hlt)).2 _
    (honestManifest_unforged _ hlt)).2 hvalid).mpr
      ⟨hdetached, claimReader_encode honestClaim, hboxes⟩

/-- A signature with a payload of its own passes for a claim that it is not over. -/
theorem not_signedOver_of_forged :
    verifyManifestWithKey (bindingCrates honestClaim) (forgedManifest (filled 32 9))
        (filled 32 9) = .ok true
      ∧ ¬ SignedOver (bindingCrates honestClaim) (.ed25519 (filled 32 9))
        (forgedManifest (filled 32 9))
        (forgedManifest (filled 32 9)).claimCbor := by
  have hlt : (forgedManifest (filled 32 9)).signature.length < 2 ^ 64 := by
    decide +kernel
  constructor
  · rw [verifyManifestWithKey_eq_true]
    refine ⟨_, parseSign1_encode _ _ hlt, Bool.true_eq_false.mp, _, tryFrom_val _, ?_⟩
    exact summingCrates_faithful.ed25519.verify_sign _ _
  · rintro ⟨sign1, hparse, s, hs, hverify⟩
    cases (parseSign1_encode _ _ hlt).symm.trans hparse
    cases (tryFrom_val _).symm.trans hs
    exact absurd hverify (by decide +kernel)

end WritersProof.C2pa
