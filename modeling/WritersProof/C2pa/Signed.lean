/-
  WritersProof.C2pa.Signed

  Signatures of built manifests: what the signer puts into the envelope is what the
  verifier finds in it, and the manifest is read back from its store.
-/
import WritersProof.C2pa.Built

namespace WritersProof.C2pa

open Rust Protocol Cbor HashDataAssertion FixedBytes

/-! ## Envelopes -/

/-- The envelope of a signature over a claim, which it does not contain. -/
def envelope (algorithm : SigningAlgorithm) (key : Bytes) (timestamp : Option Bytes)
    (signature : Bytes) : CoseSign1 where
  protectedHeader := protectedHeader algorithm.toCbor [x5chainEntry key]
  unprotected := (timestamp.map sigTstEntry).toList
  payload := none
  signature := signature

/-- Crates that read what the builder encodes, within the address space. -/
structure Crates.Faithful (C : Crates) : Prop where
  ed25519 : C.ed25519.Correct
  claim : ∀ claim, claim.toCbor.encode.length < 2 ^ 64 →
    C.claimReader claim.toCbor.encode = .ok claim
  hashData : ∀ assertion, assertion.toCbor.encode.length < 2 ^ 64 →
    C.hashDataReader assertion.toCbor.encode = .ok assertion
  /-- An envelope without a tag, under one of the algorithms that the builder knows -/
  envelope : ∀ (algorithm : SigningAlgorithm) (len : Nat) (key signature : Bytes),
    algorithm.validLen len = some true →
    (C2pa.envelope algorithm key none signature).toCbor.encode.length < 2 ^ 64 →
    (∃ e, C.sign1FromTaggedSlice (C2pa.envelope algorithm key none signature).toCbor.encode
      = .error e)
      ∧ C.sign1FromSlice (C2pa.envelope algorithm key none signature).toCbor.encode
        = .ok (C2pa.envelope algorithm key none signature)
  header : ∀ (key : Bytes) (timestamp : Option Bytes) (signature : Bytes),
    (C2pa.envelope .edDSA key timestamp signature).toCbor.encode.length < 2 ^ 64 →
    C.parseSign1 (C2pa.envelope .edDSA key timestamp signature).toCbor.encode
      = .ok { C2pa.envelope .edDSA key timestamp signature with
              header := { alg := some .edDSA, rest := [(X5CHAIN, .bytes key)] } }

theorem length_envelope (algorithm : SigningAlgorithm) (key : Bytes) (timestamp : Option Bytes)
    (signature signature' : Bytes) :
    (envelope algorithm key timestamp signature).toCbor.encode.length
        + (width signature'.length + signature'.length)
      = (envelope algorithm key timestamp signature').toCbor.encode.length
        + (width signature.length + signature.length) := by
  simp only [envelope, CoseSign1.toCbor, Option.map_none, Option.getD_none, encode,
    encodeItems, List.length_append, List.length_cons, List.length_nil, length_header]
  omega

variable {algorithm : SigningAlgorithm} {key : Bytes} {len : Nat} {signer : Signer}

theorem length_envelope_lt {signature : Bytes} (halg : algorithm.validLen len = some true)
    (hkey : key.length < 2 ^ 63) (hsig : signature.length < 2 ^ 62) :
    (envelope algorithm key none signature).toCbor.encode.length < 2 ^ 64 := by
  have hid : algorithm.toCbor.encode.length ≤ 2 := by
    cases algorithm with
    | edDSA => decide
    | es256 => decide
    | es384 => decide
    | other id debug => cases halg
  have hheader : (protectedHeader algorithm.toCbor [x5chainEntry key]).length
      ≤ 15 + width key.length + key.length := by
    simp only [protectedHeader, x5chainEntry, encode, encodeEntries, encodeEntry,
      List.length_append, List.length_cons, List.length_nil, length_header]
    have h2 : width 2 = 0 := by decide
    have h1 : width (1 : UInt64).toNat = 0 := by decide
    have h33 : width (33 : UInt64).toNat = 1 := by decide
    rw [h2, h1, h33]
    omega
  have hwidth := width_le key.length
  have hwidth' := width_le signature.length
  have hwidth'' := width_le (protectedHeader algorithm.toCbor [x5chainEntry key]).length
  simp only [envelope, CoseSign1.toCbor, Option.map_none, Option.getD_none, Option.toList_none,
    encode, encodeItems, encodeEntries, List.length_append, List.length_cons,
    List.length_nil, length_header]
  have h4 : width 4 = 0 := by decide
  have h0 : width 0 = 0 := by decide
  have h22 : width 22 = 0 := by decide
  rw [h4, h0, h22]
  omega

/-! ## Signing -/

def signedMessage (algorithm : SigningAlgorithm) (key claimCbor : Bytes) : Bytes :=
  sigStructure (protectedHeader algorithm.toCbor [x5chainEntry key]) claimCbor

theorem signC2paClaim_eq_ok {claimCbor bytes : Bytes} {certDer : Option Bytes} :
    signC2paClaim claimCbor signer certDer = .ok bytes ↔
      signer.algorithm.validLen signer.publicKey.length = some true
        ∧ ∃ signature, signer.sign
            (signedMessage signer.algorithm (certDer.getD signer.publicKey) claimCbor)
              = .ok signature
          ∧ signature ≠ []
          ∧ bytes = (envelope signer.algorithm (certDer.getD signer.publicKey) none
            signature).toCbor.encode := by
  unfold signC2paClaim
  cases hvalid : signer.algorithm.validLen signer.publicKey.length with
  | none => exact ⟨nofun, fun h => absurd h.1 (by simp)⟩
  | some valid =>
    unfold coseSign1C2pa coseSign1Inner
    simp only [reject_bind_eq_ok, mapErr_bind_eq_ok, Except.ok.injEq, Option.some.injEq,
      Bool.not_eq_false]
    apply and_congr_right
    intro _
    constructor
    · rintro ⟨signature, hsign, hne, rfl⟩
      exact ⟨signature, hsign, hne, rfl⟩
    · rintro ⟨signature, hsign, hne, rfl⟩
      exact ⟨signature, hsign, hne, rfl⟩

theorem injectTimestampIntoCose_envelope {C : Crates} (hC : C.Faithful) {signature : Bytes}
    (halg : algorithm.validLen len = some true)
    (hlt : (envelope algorithm key none signature).toCbor.encode.length < 2 ^ 64) (token : Bytes) :
    injectTimestampIntoCose C (envelope algorithm key none signature).toCbor.encode token
      = .ok (envelope algorithm key (some token) signature).toCbor.encode := by
  obtain ⟨⟨e, htagged⟩, hslice⟩ := hC.envelope algorithm len key signature halg hlt
  rw [injectTimestampIntoCose, parseForTimestamp, htagged]
  dsimp only
  rw [hslice]
  rfl

/-- A signer with a key of its algorithm that signs whatever it is given. -/
structure Signer.Works (signer : Signer) : Prop where
  key : signer.algorithm.validLen signer.publicKey.length = some true
  signs : ∀ message, ∃ signature, signer.sign message = .ok signature ∧ signature ≠ []
    ∧ signature.length < 2 ^ 62

def Signer.signature (signer : Signer) (message : Bytes) : Bytes :=
  (signer.sign message).toOption.getD []

theorem Signer.Works.sign_signature (h : signer.Works) (message : Bytes) :
    signer.sign message = .ok (signer.signature message) ∧ signer.signature message ≠ [] := by
  obtain ⟨signature, hsign, hne, -⟩ := h.signs message
  have heq : signer.signature message = signature := by
    rw [Signer.signature, hsign]
    rfl
  rw [heq]
  exact ⟨hsign, hne⟩

theorem works_ed25519Signer (C : Crates) (seed : FixedBytes 32) : (ed25519Signer C seed).Works where
  key := by
    show SigningAlgorithm.edDSA.validLen (C.ed25519.publicKey seed).val.length = some true
    rw [(C.ed25519.publicKey seed).size_eq]
    rfl
  signs message := by
    have hlen := (C.ed25519.sign seed message).size_eq
    refine ⟨_, rfl, ?_, ?_⟩
    · intro h
      rw [h] at hlen
      cases hlen
    · rw [hlen]
      decide

namespace C2paManifestBuilder

variable {C : Crates} {b : C2paManifestBuilder}

/-- The certificate chain that goes into the envelope: that of the builder, or the key. -/
def chainBytes (b : C2paManifestBuilder) (signer : Signer) : Bytes :=
  b.certificate.getD signer.publicKey

theorem signClaim_eq_ok (hC : C.Faithful) (hkey : (b.chainBytes signer).length < 2 ^ 63)
    (hsig : ∀ message signature, signer.sign message = .ok signature → signature.length < 2 ^ 62)
    {claimCbor bytes : Bytes} :
    b.signClaim C signer claimCbor = .ok bytes ↔
      signer.algorithm.validLen signer.publicKey.length = some true
        ∧ ∃ signature,
          signer.sign (signedMessage signer.algorithm (b.chainBytes signer) claimCbor)
              = .ok signature
            ∧ signature ≠ []
            ∧ bytes = (envelope signer.algorithm (b.chainBytes signer) b.timestampToken
              signature).toCbor.encode := by
  unfold signClaim
  simp only [res_bind_eq_ok, signC2paClaim_eq_ok]
  cases htoken : b.timestampToken with
  | none =>
    simp only [Except.ok.injEq]
    constructor
    · rintro ⟨_, ⟨hvalid, signature, hsign, hne, rfl⟩, rfl⟩
      exact ⟨hvalid, signature, hsign, hne, rfl⟩
    · rintro ⟨hvalid, signature, hsign, hne, rfl⟩
      exact ⟨_, ⟨hvalid, signature, hsign, hne, rfl⟩, rfl⟩
  | some token =>
    have hinject : ∀ signature, signer.algorithm.validLen signer.publicKey.length = some true →
        signature.length < 2 ^ 62 →
          injectTimestampIntoCose C (envelope signer.algorithm (b.chainBytes signer) none
              signature).toCbor.encode token
            = .ok (envelope signer.algorithm (b.chainBytes signer) (some token)
              signature).toCbor.encode := fun signature hvalid hlen =>
      injectTimestampIntoCose_envelope hC hvalid (length_envelope_lt hvalid hkey hlen) token
    constructor
    · rintro ⟨_, ⟨hvalid, signature, hsign, hne, rfl⟩, hinjected⟩
      have h := hinject signature hvalid (hsig _ _ hsign)
      exact ⟨hvalid, signature, hsign, hne, Except.ok.inj (hinjected.symm.trans h)⟩
    · rintro ⟨hvalid, signature, hsign, hne, rfl⟩
      exact ⟨_, ⟨hvalid, signature, hsign, hne, rfl⟩, hinject signature hvalid (hsig _ _ hsign)⟩

def signatureAt (C : Crates) (signer : Signer) (time : String) : Bytes :=
  signer.signature
    (signedMessage signer.algorithm (b.chainBytes signer) (b.claimAt C time).toCbor.encode)

def signedBy (C : Crates) (signer : Signer) (time : String) : C2paManifest :=
  b.manifest C time (envelope signer.algorithm (b.chainBytes signer) b.timestampToken
    (b.signatureAt C signer time)).toCbor.encode

theorem buildJumbf_of_works (hC : C.Faithful) (hworks : signer.Works)
    (hkey : (b.chainBytes signer).length < 2 ^ 63) {now : String} {data : Bytes} :
    b.buildJumbf C signer now = .ok data ↔
      b.Serializes ∧ (storeBox (b.signedBy C signer (b.time now))).length < 2 ^ 32
        ∧ data = storeBox (b.signedBy C signer (b.time now)) := by
  have hlong : ∀ message signature, signer.sign message = .ok signature →
      signature.length < 2 ^ 62 := by
    intro message signature hsign
    obtain ⟨_, hsign', -, hlt⟩ := hworks.signs message
    cases hsign.symm.trans hsign'
    exact hlt
  have hsignature := fun message => hworks.sign_signature message
  rw [buildJumbf_eq_ok]
  apply and_congr_right
  intro _
  constructor
  · rintro ⟨_, hsign, hstore, rfl⟩
    obtain ⟨-, signature, hsigned, -, rfl⟩ := (signClaim_eq_ok hC hkey hlong).mp hsign
    cases (hsignature _).1.symm.trans hsigned
    exact ⟨hstore, rfl⟩
  · rintro ⟨hstore, rfl⟩
    exact ⟨_, (signClaim_eq_ok hC hkey hlong).mpr
      ⟨hworks.key, _, (hsignature _).1, (hsignature _).2, rfl⟩, hstore, rfl⟩

/-! ## Sizes -/

/-- A string of bytes with its header, but for the first byte -/
def sized (length : Nat) : Nat := width length + length

theorem length_actionsAssertion (time time' : String) :
    (actionsAssertion time).encode.length + sized (Bytes.utf8 time').length
      = (actionsAssertion time').encode.length + sized (Bytes.utf8 time).length := by
  simp only [actionsAssertion, encode, encodeItems, encodeEntries, encodeEntry,
    List.length_append, List.length_cons, List.length_nil, length_header, sized]
  omega

/-- What the stores of two bindings take besides the length of the exclusion, the time and the
signature is the same. -/
theorem length_signedBy {signer' : Signer} (halg : signer.algorithm = signer'.algorithm)
    (hkey : signer.publicKey = signer'.publicKey) (hash hash' : FixedBytes 32)
    (start length length' : UInt64) (time time' : String) :
    (storeBox ((b.bound hash start length).signedBy C signer time)).length
        + (width length'.toNat + sized (Bytes.utf8 time').length
          + sized ((b.bound hash' start length').signatureAt C signer' time').length)
      = (storeBox ((b.bound hash' start length').signedBy C signer' time')).length
        + (width length.toNat + sized (Bytes.utf8 time).length
          + sized ((b.bound hash start length).signatureAt C signer time).length) := by
  let e := b.bound hash start length
  let e' := b.bound hash' start length'
  have hstore := length_store C
    (show e.packetId = e'.packetId from rfl) rfl time time'
    (envelope signer.algorithm (b.chainBytes signer) b.timestampToken
      (e.signatureAt C signer time)).toCbor.encode
    (envelope signer'.algorithm (b.chainBytes signer') b.timestampToken
      (e'.signatureAt C signer' time')).toCbor.encode
  have hbinding := length_toCbor e.hashDataAssertion
    (hash.size_eq.trans hash'.size_eq.symm) start length length'
  have hchain : b.chainBytes signer = b.chainBytes signer' := by rw [chainBytes, chainBytes, hkey]
  have henvelope := length_envelope signer'.algorithm (b.chainBytes signer') b.timestampToken
    (e.signatureAt C signer time) (e'.signatureAt C signer' time')
  have hactions := length_actionsAssertion time time'
  have hdocument : (e.hashDataAssertion.toCbor.encode).length + width length'.toNat
      = (e'.hashDataAssertion.toCbor.encode).length + width length.toNat := hbinding
  rw [halg, hchain] at hstore
  have hleft : storeBox (e.signedBy C signer time)
      = storeBox (e.manifest C time
        (envelope signer'.algorithm (b.chainBytes signer') b.timestampToken
          (e.signatureAt C signer time)).toCbor.encode) := by
    rw [← halg, ← hchain]
    rfl
  have hright : storeBox (e'.signedBy C signer' time')
      = storeBox (e'.manifest C time'
        (envelope signer'.algorithm (b.chainBytes signer') b.timestampToken
          (e'.signatureAt C signer' time')).toCbor.encode) := rfl
  rw [hleft, hright]
  unfold sized at hactions ⊢
  dsimp only [e, e'] at *
  omega

def signedManifest (C : Crates) (seed : FixedBytes 32) (time : String) : C2paManifest :=
  b.signedBy C (ed25519Signer C seed) time

/-! ## Reading back -/

theorem nul_notMem_manifestLabel : (0 : UInt8) ∉ Bytes.utf8 b.manifestLabel := by
  rw [manifestLabel, Text.utf8_append, List.mem_append]
  rintro (h | h)
  · revert h
    decide
  · exact Hex.nul_notMem_encode b.packetId h

theorem decodeJumbf_manifest (hC : C.Faithful) {time : String} {signature : Bytes}
    (hsize : (storeBox (b.manifest C time signature)).length < 2 ^ 32) :
    decodeJumbf C (storeBox (b.manifest C time signature)) = .ok (b.manifest C time signature) := by
  apply decodeJumbf_storeBox hsize
  · have hlength := length_storeBox (b.manifest C time signature)
    apply hC.claim
    show (b.manifest C time signature).claimCbor.length < 2 ^ 64
    omega
  · intro box hbox
    obtain ⟨entry, hentry, rfl⟩ := List.mem_map.mp hbox
    obtain ⟨a, ha, rfl⟩ := List.mem_map.mp hentry
    have hle := length_le_of_mem_boxes C signature ha
    have hbytes := a.bytes_eq_box
    rw [hbytes, length_box rfl] at hle
    dsimp only
    rw [hbytes]
    exact framed_box rfl (by omega)
  · intro h
    have hlabel : b.manifestLabel = "" := Bytes.utf8_injective h
    exact append_ne_empty (by decide) _ hlabel
  · exact b.nul_notMem_manifestLabel

end C2paManifestBuilder

/-! ## Verification -/

section Verification

variable {C : Crates}

def x5chainKey (C : Crates) (bytes : Bytes) : Res Error Bytes :=
  if bytes.length = 32 ∨ bytes.length = 33 ∨ bytes.length = 65 then .ok bytes
  else if 65 < bytes.length then extractPublicKeyFromCert C bytes
  else fail (.crypto s!"x5chain value has unexpected length: {bytes.length}")

theorem x5chainKey_val (key : FixedBytes 32) : x5chainKey C key.val = .ok key.val :=
  if_pos (.inl key.size_eq)

theorem verifyManifestSignature_envelope (hC : C.Faithful) (hexclusive : C.ed25519.Exclusive)
    {seed : FixedBytes 32} {key : Bytes} {timestamp : Option Bytes} {m : C2paManifest}
    (hsignature : m.signature = (envelope .edDSA key timestamp
      (C.ed25519.sign seed (signedMessage .edDSA key m.claimCbor)).val).toCbor.encode)
    (hlt : m.signature.length < 2 ^ 64) :
    verifyManifestSignature C m = .ok true ↔
      x5chainKey C key = .ok (C.ed25519.publicKey seed).val := by
  have hparse := hC.header key timestamp
    (C.ed25519.sign seed (signedMessage .edDSA key m.claimCbor)).val (hsignature ▸ hlt)
  rw [← hsignature] at hparse
  rw [verifyManifestSignature_eq_true]
  constructor
  · rintro ⟨sign1, pkBytes, alg, found, hparse', hextract, halg, hof, -, hverifies⟩
    cases hparse.symm.trans hparse'
    cases halg
    obtain ⟨pk, hpk, rfl⟩ := Option.map_eq_some_iff.mp hof
    obtain ⟨s, hs, hverify⟩ := hverifies
    cases (tryFrom_val _).symm.trans hs
    have hkey := hexclusive seed pk _ hverify
    rw [← hkey, ← tryFrom_eq_some.mp hpk]
    exact hextract
  · intro hkey
    refine ⟨_, _, .edDSA, .ed25519 (C.ed25519.publicKey seed), hparse, hkey, rfl, ?_, ?_, ?_⟩
    · rw [Key.of, tryFrom_val]
      rfl
    · rw [Key.Valid, hC.ed25519.validKey_publicKey]
      exact Bool.true_eq_false.mp
    · exact ⟨_, tryFrom_val _, hC.ed25519.verify_sign seed _⟩

end Verification

/-! ## Crates that read -/

theorem optional_injective (key : String) : Function.Injective (optional key) := by
  intro a b h
  cases a <;> cases b <;> simp [optional] at h ⊢
  exact h

theorem ClaimGeneratorInfo.toCbor_injective : Function.Injective ClaimGeneratorInfo.toCbor := by
  rintro ⟨name, version, specVersion⟩ ⟨name', version', specVersion'⟩ h
  cases version <;> cases version' <;> cases specVersion <;> cases specVersion' <;>
    simp [ClaimGeneratorInfo.toCbor, optional] at h ⊢
  all_goals exact h

theorem HashedUri.toCbor_injective : Function.Injective HashedUri.toCbor := by
  rintro ⟨url, hash, alg⟩ ⟨url', hash', alg'⟩ h
  simp only [HashedUri.toCbor, map.injEq, List.cons_append, List.nil_append, List.cons.injEq,
    Prod.mk.injEq, text.injEq, bytes.injEq, true_and] at h
  obtain ⟨rfl, rfl, halg⟩ := h
  rw [optional_injective "alg" halg]

theorem C2paClaim.toCbor_injective : Function.Injective C2paClaim.toCbor := by
  have hassertions := List.map_injective_iff.mpr HashedUri.toCbor_injective
  rintro ⟨_, _, _, alg, _⟩ ⟨_, _, _, alg', _⟩ h
  cases alg <;> cases alg' <;>
    simp [C2paClaim.toCbor, optional, ClaimGeneratorInfo.toCbor_injective.eq_iff,
      hassertions.eq_iff] at h ⊢
  all_goals exact h

theorem ExclusionRange.toCbor_injective : Function.Injective ExclusionRange.toCbor := by
  rintro ⟨start, length⟩ ⟨start', length'⟩ h
  simpa [ExclusionRange.toCbor] using h

theorem HashDataAssertion.toCbor_injective : Function.Injective toCbor := by
  have hexclusions := List.map_injective_iff.mpr ExclusionRange.toCbor_injective
  rintro ⟨_, _, _, exclusions, _⟩ ⟨_, _, _, exclusions', _⟩ h
  cases exclusions <;> cases exclusions' <;>
    simp [toCbor, ExclusionRange.toCbor_injective.eq_iff,
      hexclusions.eq_iff] at h ⊢
  all_goals exact h

/-- The protected header of an Ed25519 signature with its certificate chain -/
def ed25519HeaderCbor (key : Bytes) : Cbor :=
  .map [(.uint 1, SigningAlgorithm.edDSA.toCbor), x5chainEntry key]

theorem ed25519HeaderCbor_injective : Function.Injective ed25519HeaderCbor := by
  intro a b h
  simpa [ed25519HeaderCbor, x5chainEntry] using h

/-- The header of an envelope, as far as it is one of these -/
noncomputable def readChain (sign1 : CoseSign1) : Sign1 :=
  match reader ed25519HeaderCbor sign1.protectedHeader with
  | .ok key => { sign1 with header := { alg := some .edDSA, rest := [(X5CHAIN, .bytes key)] } }
  | .error _ => { sign1 with header := { alg := none, rest := [] } }

/-- Signatures that name their key and add up the message -/
def namingEd25519 : Ed25519 := .remaking fun seed message =>
  ⟨seed.val ++ List.replicate 32 message.sum, by
    rw [List.length_append, seed.size_eq, List.length_replicate]⟩

noncomputable def readingCrates : Crates where
  toCrates := { summingCrates with ed25519 := namingEd25519 }
  sha384 bytes := filled 48 bytes.sum
  sha512 bytes := filled 64 bytes.sum
  P256Key := Empty
  p256FromSec1 _ := .error "no curve"
  p256Verify := nofun
  certPublicKey _ := .error "no certificate"
  parseSign1 bytes := (reader CoseSign1.toCbor bytes).map readChain
  claimReader := reader C2paClaim.toCbor
  hashDataReader := reader toCbor

theorem length_protectedHeader_le (sign1 : CoseSign1) :
    sign1.protectedHeader.length ≤ sign1.toCbor.encode.length := by
  simp only [CoseSign1.toCbor, encode, encodeItems, List.length_append]
  omega

theorem readingCrates_faithful : readingCrates.Faithful where
  ed25519 := Ed25519.remaking_correct _
  claim claim := reader_encode C2paClaim.toCbor_injective claim
  hashData assertion := reader_encode toCbor_injective assertion
  envelope algorithm len key signature _ hlt :=
    ⟨⟨_, rfl⟩, reader_encode CoseSign1.toCbor_injective _ hlt⟩
  header key timestamp signature hlt := by
    have hheader : (ed25519HeaderCbor key).encode.length < 2 ^ 64 :=
      Nat.lt_of_le_of_lt (length_protectedHeader_le (envelope .edDSA key timestamp signature)) hlt
    have hread := reader_encode ed25519HeaderCbor_injective key hheader
    show (reader CoseSign1.toCbor _).map readChain = _
    rw [reader_encode CoseSign1.toCbor_injective _ hlt]
    show Except.ok (readChain _) = _
    rw [readChain]
    have hprotected : (envelope .edDSA key timestamp signature).protectedHeader
        = (ed25519HeaderCbor key).encode := rfl
    rw [hprotected, hread]

theorem readingCrates_exclusive : readingCrates.ed25519.Exclusive := by
  intro seed key message hverify
  have happend : seed.val ++ List.replicate 32 message.sum
      = key.val ++ List.replicate 32 message.sum := of_decide_eq_true hverify
  exact (ext_val (List.append_cancel_right happend)).symm

end WritersProof.C2pa
