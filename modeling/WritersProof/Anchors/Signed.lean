/-
  WritersProof.Anchors.Signed

  What the signature of an RFC 3161 token covers (crates/cpoe/src/anchors/rfc3161.rs).
-/
import WritersProof.Anchors.Total

namespace WritersProof.Anchors

open Rust

variable {Time : Type} {C : Chrono Time} {P : Crates} {now : Time} {token info : Bytes}
  {hash : FixedBytes 32} {fields : SignerInfoFields} {cert : Tlv token}

/-- The first SignerInfo whose signature a certificate verifies, with the certificate -/
def acceptedSigner (P : Crates) (token info : Bytes) : Option (SignerInfoFields × Tlv token) :=
  (findSignedData token).bind fun signedData =>
    (findSignerInfosSet signedData).bind fun signerInfosSet =>
      (signerInfos signerInfosSet).findSome? fun si =>
        (parseSignerInfo si).bind fun fields =>
          (signerCert P info (extractCerts signedData) si).map (fields, ·)

theorem acceptedSigner_snd :
    (acceptedSigner P token info).map Prod.snd = signingCert P token info := by
  have hsnd : ∀ (certs : List (Tlv token)) (si : Tlv token),
      ((parseSignerInfo si).bind fun fields =>
      (signerCert P info certs si).map (Prod.snd ∘ (fields, ·))) = signerCert P info certs si := by
    intro certs si
    rw [signerCert]
    cases parseSignerInfo si <;> simp [Function.comp_def]
  simp only [acceptedSigner, signingCert, Option.map_bind, Function.comp_def, List.map_findSome?,
    Option.map_map] at hsnd ⊢
  simp only [hsnd]

theorem acceptedSigner_spec (h : acceptedSigner P token info = some (fields, cert)) :
    fields.digestMatches P info = true
      ∧ verifiesWith P (fields.message info) fields.signature cert = true := by
  obtain ⟨signedData, -, h⟩ := Option.bind_eq_some_iff.mp h
  obtain ⟨signerInfosSet, -, h⟩ := Option.bind_eq_some_iff.mp h
  obtain ⟨si, -, h⟩ := List.exists_of_findSome?_eq_some h
  obtain ⟨_, hparse, h⟩ := Option.bind_eq_some_iff.mp h
  rw [signerCert, hparse, Option.bind_some, Option.map_eq_some_iff] at h
  obtain ⟨_, hcert, ⟨⟩⟩ := h
  obtain ⟨hchecked, hfound⟩ := Option.ite_none_right_eq_some.mp hcert
  exact ⟨hchecked.2, List.find?_some hfound⟩

/-- The checks besides that of the signature -/
structure Passes (C : Chrono Time) (now : Time) (token : Bytes) (hash : FixedBytes 32)
    (info : Bytes) (cert : Tlv token) : Prop where
  length : 100 ≤ token.length
  head : token.head? = some 0x30
  extracted : extractTstInfo token = .ok info
  imprint : extractMessageImprintHash info = some hash
  validity : checkCertValidity C now cert = .ok ()
  usage : checkCertExtKeyUsage cert = .ok ()

theorem verifyTimestampToken_eq_ok :
    verifyTimestampToken P C now token hash = .ok true ↔ ∃ info fields cert,
      Passes C now token hash info cert ∧ acceptedSigner P token info = some (fields, cert) := by
  rw [verifyTimestampToken, reject_bind_eq_ok, reject_bind_eq_ok, Nat.not_lt, not_not,
    res_bind_eq_ok]
  constructor
  · rintro ⟨hlen, hhead, info, hinfo, h⟩
    obtain ⟨_, himprint, h⟩ := res_bind_eq_ok.mp h
    obtain ⟨heq, h⟩ := reject_bind_eq_ok.mp h
    rw [not_not.mp heq] at himprint
    obtain ⟨-, e, hfail⟩ | ⟨cert, hcert, hrest⟩ := verifyCmsSignature_cases P C now token info
    · exact absurd (hfail.symm.trans h) (fail_ne_ok e true)
    · rw [hrest, unit_bind_eq_ok, unit_bind_eq_ok, total_eq_ok] at h
      rw [← acceptedSigner_snd] at hcert
      obtain ⟨⟨fields, cert⟩, hsigner, rfl⟩ := Option.map_eq_some_iff.mp hcert
      exact ⟨info, fields, cert, ⟨hlen, hhead, total_eq_ok.mp hinfo, okOr_eq_ok.mp himprint, h.1,
        h.2.1⟩, hsigner⟩
  · rintro ⟨info, fields, cert, h, hsigner⟩
    have hcert := @acceptedSigner_snd P token info
    rw [hsigner] at hcert
    refine ⟨h.length, h.head, info, total_eq_ok.mpr h.extracted, ?_⟩
    rw [h.imprint, okOr_some, res_ok_bind, reject_bind_eq_ok]
    refine ⟨not_not.mpr rfl, ?_⟩
    obtain ⟨hnone, -⟩ | ⟨_, hsome, hrest⟩ := verifyCmsSignature_cases P C now token info
    · cases hcert.trans hnone
    · cases hcert.trans hsome
      rw [hrest, h.validity, h.usage]
      rfl

/-! ## What the signature covers -/

/-- The signed attributes, if there are any, have the digest of the TSTInfo. -/
def SignerInfoFields.Covers (P : Crates) (info : Bytes) (fields : SignerInfoFields) : Prop :=
  ∀ attrs ∈ fields.signedAttrs, extractMessageDigestFromSignedAttrs attrs = some (P.sha256 info).val

/-- The signature was checked over the TSTInfo, or over attributes with its digest, and it was
made for no other TSTInfo, unless RSA is forged or two digests collide. -/
structure Signed (P : Crates) (token : Bytes) (hash : FixedBytes 32) (info : Bytes)
    (fields : SignerInfoFields) (cert : Tlv token) : Prop where
  extracted : extractTstInfo token = .ok info
  imprint : extractMessageImprintHash info = some hash
  signer : acceptedSigner P token info = some (fields, cert)
  verified : verifiesWith P (fields.message info) fields.signature cert = true
  covers : fields.Covers P info
  original : ∀ other, fields.Covers P other →
    verifiesWith P (fields.message other) fields.signature cert = true →
    (∀ m m', verifiesWith P m fields.signature cert = true →
      verifiesWith P m' fields.signature cert = true → m = m') →
    (P.sha256 other = P.sha256 info → other = info) → other = info

/-- The token is accepted for signed attributes in which no messageDigest is found. -/
def AcceptsBare (C : Chrono Time) (P : Crates) (now : Time) (token : Bytes)
    (hash : FixedBytes 32) : Prop :=
  ∃ info fields cert attrs, Passes C now token hash info cert
    ∧ acceptedSigner P token info = some (fields, cert) ∧ fields.signedAttrs = some attrs
    ∧ extractMessageDigestFromSignedAttrs attrs = none

theorem signed_of_accepted (h : Passes C now token hash info cert)
    (hsigner : acceptedSigner P token info = some (fields, cert))
    (hbare : ∀ attrs ∈ fields.signedAttrs, extractMessageDigestFromSignedAttrs attrs ≠ none) :
    Signed P token hash info fields cert := by
  obtain ⟨hdigest, hverified⟩ := acceptedSigner_spec hsigner
  have hcovers : fields.Covers P info := by
    intro attrs hattrs
    obtain ⟨md, hmd⟩ := Option.ne_none_iff_exists'.mp (hbare attrs hattrs)
    rw [SignerInfoFields.digestMatches, hattrs, Option.bind_some, hmd] at hdigest
    rw [hmd, of_decide_eq_true hdigest]
  refine ⟨h.extracted, h.imprint, hsigner, hverified, hcovers, ?_⟩
  intro other hother hmade hrsa hsha
  cases hattrs : fields.signedAttrs with
  | none =>
    have hsame := hrsa _ _ hmade hverified
    rwa [SignerInfoFields.message, SignerInfoFields.message, hattrs] at hsame
  | some attrs =>
    have hsame := (hother attrs hattrs).symm.trans (hcovers attrs hattrs)
    exact hsha (FixedBytes.ext_val (Option.some.inj hsame))

/-- A token is accepted for its own TSTInfo unless no messageDigest is found in the signed
    attributes that it is accepted for: then nothing ties the two. -/
theorem signed_iff (C : Chrono Time) (P : Crates) (now : Time) (token : Bytes)
    (hash : FixedBytes 32) :
    (verifyTimestampToken P C now token hash = .ok true →
        ∃ info fields cert, Signed P token hash info fields cert)
      ↔ ¬ AcceptsBare C P now token hash := by
  rw [verifyTimestampToken_eq_ok]
  constructor
  · rintro hsigned ⟨info, fields, cert, attrs, hpasses, hsigner, hattrs, hnone⟩
    obtain ⟨info', fields', cert', h⟩ := hsigned ⟨info, fields, cert, hpasses, hsigner⟩
    obtain rfl : info' = info := Except.ok.inj (h.extracted.symm.trans hpasses.extracted)
    cases h.signer.symm.trans hsigner
    cases hnone.symm.trans (h.covers attrs hattrs)
  · rintro hbare ⟨info, fields, cert, hpasses, hsigner⟩
    refine ⟨info, fields, cert, signed_of_accepted hpasses hsigner ?_⟩
    exact fun attrs hattrs hnone =>
      hbare ⟨info, fields, cert, attrs, hpasses, hsigner, hattrs, hnone⟩

/-- The signature of a message is the message, and its hash is its last 32 bytes. -/
def plainRsa : Crates where
  Key := Unit
  Signature := Bytes
  fromPublicKeyDer _ := .ok ()
  size _ := 256
  signature bytes := .ok bytes
  verify _ message signature := signature = message
  sha256 data := Bytes.ofNat 32 (Bytes.ofBE data)

def serialInfo (serial : UInt8) : Bytes :=
  der 0x30 (der 0x02 [1] ++ der 0x06 [] ++ der 0x30 (der 0x30 [] ++ der 0x04 (.replicate 32 7))
    ++ der 0x02 [serial])

/-- A token whose signed attributes are empty -/
def bareToken (serial : UInt8) : Bytes :=
  let midnight := der 0x17 (.replicate 12 0x30)
  let cert := der 0x30 (der 0x30 (der 0x30 (midnight ++ midnight)
    ++ der 0x30 (der 0x30 [] ++ der 0x03 [])))
  let signer := der 0x30 (der 0x02 [1] ++ der 0x30 [] ++ der 0x30 (der 0x06 oidSha256)
    ++ der 0xA0 [] ++ der 0x30 (der 0x06 oidSha256WithRsa) ++ der 0x04 [0x31, 0])
  [0x30, 0x81, 148, 0xA0, 0x81, 145, 0x30, 0x81, 142] ++ der 0x02 [3] ++ der 0x31 []
    ++ der 0x30 (der 0xA0 (der 0x04 (serialInfo serial))) ++ der 0xA0 cert ++ der 0x31 signer

/-- Two tokens with one signature and another TSTInfo are both accepted. -/
theorem bareToken_swapped :
    (∀ serial ∈ [1, 2],
      verifyTimestampToken plainRsa decimalChrono 0 (bareToken serial) (.filled 32 7) = .ok true)
    ∧ ¬ ∃ info fields cert, Signed plainRsa (bareToken 1) (.filled 32 7) info fields cert := by
  refine ⟨by decide +kernel, ?_⟩
  rintro ⟨info, fields, cert, h⟩
  have hinfo : extractTstInfo (bareToken 1) = .ok (serialInfo 1) := by decide +kernel
  obtain rfl : info = serialInfo 1 := Except.ok.inj (h.extracted.symm.trans hinfo)
  have hattrs : (acceptedSigner plainRsa (bareToken 1) (serialInfo 1)).bind (·.1.signedAttrs)
      = some [0x31, 0] := by decide +kernel
  rw [h.signer] at hattrs
  exact absurd (h.covers _ hattrs) (by decide)

end WritersProof.Anchors
