/-
  WritersProof.Anchors.Rfc3161

  RFC 3161 timestamps: what is read from a response, and the checks of a token
  (crates/cpoe/src/anchors/rfc3161.rs).

  The functions that only walk elements cannot abort and have no outcome for it; those that
  slice the text of a time have one.  The chrono, rsa and sha2 crates are parameters.
-/
import WritersProof.Anchors.Der
import WritersProof.Anchors.Types
import WritersProof.Lib.Hex
import WritersProof.Lib.Text
import Mathlib.Data.List.DropRight

namespace WritersProof.Anchors

open Rust

/-! ## Times -/

structure Chrono (Time : Type) where
  /-- `NaiveDateTime::parse_from_str` and `from_utc_datetime` -/
  parseFromStr : (text : List Char) → (format : String) → Option Time
  /-- `dt + Duration::nanoseconds(..)`, nothing where the sum aborts -/
  addNanoseconds : Time → Nat → Option Time
  /-- `a < b` -/
  before : Time → Time → Bool

section Times

variable {Time ε : Type} (C : Chrono Time)

/-- `s.trim_end_matches('Z')` -/
def trimEndZ (s : List Char) : List Char := s.rdropWhile (· = 'Z')

def generalizedFormat : String := "%Y%m%d%H%M%S"

def utcFormat : String := "%y%m%d%H%M%S"

/-- A time from the first `n` bytes of a text, if it has as many -/
def parsePrefix (n : Nat) (format : String) (s : List Char) : Res ε (Option Time) :=
  if n ≤ (Text.bytes s).length then do
    let front ← unwrap (Text.cut n s)
    return C.parseFromStr front format
  else
    return none

/-- Fractional seconds, padded or cut to nine digits -/
def nanosOf (frac : List Char) : Nat :=
  let fracDigits := frac.take 9
  let padded := fracDigits ++ List.replicate (9 - fracDigits.length) '0'
  (Text.parseU32 padded).getD 0

def parseGeneralizedTime (s : List Char) : Res ε (Option Time) :=
  let s := trimEndZ s
  match Text.splitOnce '.' s with
  | none => parsePrefix C 14 generalizedFormat s
  | some (base, frac) =>
    if (Text.bytes base).length = 14 then
      match C.parseFromStr base generalizedFormat with
      | none => return none
      | some dt => do return some (← unwrap (C.addNanoseconds dt (nanosOf frac)))
    else
      parsePrefix C 14 generalizedFormat s

def parseCertTime {data : Bytes} (tlv : Tlv data) : Res ε (Option Time) :=
  match Text.fromUtf8 tlv.content with
  | none => return none
  | some s =>
    if tlv.tag = 0x17 then
      parsePrefix C 12 utcFormat (trimEndZ s.toList)
    else if tlv.tag = 0x18 then
      parseGeneralizedTime C s.toList
    else
      return none

end Times

/-! ## The fields of a response -/

/-- The first `PKIStatus` values, 0 and 1, grant the request. -/
def checkStatus {data : Bytes} (statusSeq : Tlv data) : Except AnchorError Unit :=
  match childrenOf statusSeq with
  | [] => .ok ()
  | status :: _ =>
    if status.tag = 0x02 then
      let statusVal := status.content.foldl
        (fun acc b => min (min (acc * 256) (2 ^ 32 - 1) + b.toNat) (2 ^ 32 - 1)) 0
      if 2 ≤ statusVal then
        .error (.invalidFormat s!"TSA returned failure status {statusVal} in PKIStatusInfo")
      else
        .ok ()
    else
      .ok ()

/-- The TSTInfo of an encapContentInfo, for the children of SignedData that look like one -/
def econtent {data : Bytes} (child : Tlv data) : Option (Except AnchorError Bytes) :=
  if child.tag = 0x30 then
    (findChildByTag child 0xA0).map fun econtentExplicit =>
      match findChildByTag econtentExplicit 0x04 with
      | some octet => .ok octet.content
      | none => .error (.invalidFormat "encapContentInfo [0] has no OCTET STRING for TSTInfo")
  else
    none

def extractTstInfo (data : Bytes) : Except AnchorError Bytes := do
  let outer ← okOrElse (readTlv data 0) (.invalidFormat "Cannot parse outer SEQUENCE")
  if outer.tag ≠ 0x30 then
    throw (.invalidFormat "Expected SEQUENCE")
  let contentInfoTlv ← match childrenOf outer with
    | [] => throw (.invalidFormat "Empty outer SEQUENCE")
    | [_] => pure outer
    | first :: second :: _ =>
      -- a SEQUENCE in front is the status of a TimeStampResp
      if first.tag = 0x30 then do
        checkStatus first
        pure second
      else
        pure outer
  let explicit0 ← okOrElse (findChildByTag contentInfoTlv 0xA0)
    (.invalidFormat "Cannot find [0] content in ContentInfo")
  let signedData ← okOrElse (findChildByTag explicit0 0x30)
    (.invalidFormat "Cannot find SignedData SEQUENCE")
  ((childrenOf signedData).findSome? econtent).getD
    (.error (.invalidFormat "Cannot find TSTInfo in CMS envelope"))

variable (tstInfo : Bytes)

/-- The fields of TSTInfo, with or without its SEQUENCE around them -/
def tstInfoKids : Option (List (Tlv tstInfo)) :=
  (readTlv tstInfo 0).map fun outer =>
    if outer.tag = 0x30 then childrenOf outer else children tstInfo 0 tstInfo.length

def genTimeText : Option String :=
  (tstInfoKids tstInfo).bind fun kids =>
    kids.findSome? fun child =>
      if child.tag = 0x18 then Text.fromUtf8 child.content else none

def extractGeneralizedTime {Time ε : Type} (C : Chrono Time) (tstInfo : Bytes) :
    Res ε (Option Time) :=
  match genTimeText tstInfo with
  | some s => parseGeneralizedTime C s.toList
  | none => return none

def extractSerialNumber : Option String :=
  (tstInfoKids tstInfo).bind fun kids =>
    match kids[3]? with
    | some serial => if serial.tag = 0x02 then some (Hex.encode serial.content) else none
    | none => none

/-- One zero in front of other bytes is taken for the sign. -/
def dropSignByte : Bytes → Bytes
  | 0x00 :: second :: rest => second :: rest
  | content => content

def canonicalNonce (content : Bytes) : Option Bytes :=
  if content = [] ∨ 65 < content.length then
    none
  else
    let canonical := dropSignByte content
    if canonical = [] ∨ 64 < canonical.length then none else some canonical

/-- The first INTEGER after genTime -/
def nonceElement {data : Bytes} (kids : List (Tlv data)) : Option (Tlv data) :=
  ((kids.dropWhile fun child => child.tag ≠ 0x18).find? fun child => child.tag = 0x02)

def extractNonce : Option Bytes :=
  (tstInfoKids tstInfo).bind fun kids =>
    (nonceElement kids).bind fun child => canonicalNonce child.content

def extractMessageImprintHash : Option (FixedBytes 32) :=
  (tstInfoKids tstInfo).bind fun kids =>
    match kids[2]? with
    | none => none
    | some imprint =>
      if imprint.tag ≠ 0x30 then
        none
      else
        match (childrenOf imprint)[1]? with
        | none => none
        | some hash => if hash.tag = 0x04 then FixedBytes.tryFrom 32 hash.content else none

def nonEmptyText {data : Bytes} (tlv : Tlv data) : Option String :=
  (Text.fromUtf8 tlv.content).filter (· ≠ "")

def attributeText {data : Bytes} (attrSeq : Tlv data) : Option String :=
  let attrKids := childrenOf attrSeq
  if attrKids.length < 2 then
    none
  else
    attrKids.getLast?.bind fun val =>
      if val.tag = 0x0C ∨ val.tag = 0x13 ∨ val.tag = 0x16 then nonEmptyText val else none

def generalNameText {data : Bytes} (kid : Tlv data) : Option String :=
  if kid.tag = 0xA4 then
    (childrenOf kid).findSome? fun rdnSet => (childrenOf rdnSet).findSome? attributeText
  else if kid.tag = 0x82 ∨ kid.tag = 0x81 then
    nonEmptyText kid
  else
    none

def extractTsaName : Option String :=
  (tstInfoKids tstInfo).bind fun kids =>
    kids.findSome? fun child =>
      if child.tag = 0xA1 then (childrenOf child).findSome? generalNameText else none

structure TimestampInfo (Time : Type) where
  timestamp : Time
  serialNumber : String
  tsaName : String

def parseTimestampResponse {Time : Type} (C : Chrono Time) (response : Bytes) :
    Res AnchorError (TimestampInfo Time) := do
  reject (response.length < 10) (.invalidFormat "Response too short")
  let tstInfo ← total (extractTstInfo response)
  let genTime ← okOr (← extractGeneralizedTime C tstInfo)
    (.invalidFormat "Cannot extract genTime from TSTInfo")
  let serial ← okOr (extractSerialNumber tstInfo)
    (.invalidFormat "Cannot extract serialNumber from TSTInfo")
  return ⟨genTime, serial, (extractTsaName tstInfo).getD "RFC 3161 TSA"⟩

/-! ## The signature of a token -/

def oidSha256 : Bytes := [0x60, 0x86, 0x48, 0x01, 0x65, 0x03, 0x04, 0x02, 0x01]

def oidSha256WithRsa : Bytes := [0x2a, 0x86, 0x48, 0x86, 0xf7, 0x0d, 0x01, 0x01, 0x0b]

def oidKpTimestamping : Bytes := [0x2b, 0x06, 0x01, 0x05, 0x05, 0x07, 0x03, 0x08]

def oidMessageDigest : Bytes := [0x2a, 0x86, 0x48, 0x86, 0xf7, 0x0d, 0x01, 0x09, 0x04]

def oidEku : Bytes := [0x55, 0x1D, 0x25]

structure Crates where
  Key : Type
  Signature : Type
  fromPublicKeyDer : Bytes → Except String Key
  /-- In bytes -/
  size : Key → Nat
  signature : Bytes → Except String Signature
  /-- PKCS #1 v1.5 with SHA-256 -/
  verify : Key → Bytes → Signature → Bool
  sha256 : Bytes → FixedBytes 32

def verifyRsaPkcs1v15Sha256 (P : Crates) (spkiDer message sigBytes : Bytes) :
    Except AnchorError Bool :=
  match P.fromPublicKeyDer spkiDer with
  | .error e => .error (.verification s!"Invalid RSA public key DER: {e}")
  | .ok pubKey =>
    if P.size pubKey < 256 then
      .error (.verification s!"RSA key too small: {P.size pubKey * 8} bits (minimum 2048)")
    else
      match P.signature sigBytes with
      | .error e => .error (.verification s!"Invalid RSA signature encoding: {e}")
      | .ok sig => .ok (P.verify pubKey message sig)

def findSignedData (data : Bytes) : Option (Tlv data) := do
  let outer ← readTlv data 0
  if outer.tag ≠ 0x30 then
    none
  else
    let contentInfo ← match childrenOf outer with
      | [] => none
      | [_] => some outer
      | first :: second :: _ => if first.tag = 0x30 then some second else some outer
    let explicit0 ← findChildByTag contentInfo 0xA0
    findChildByTag explicit0 0x30

def extractCerts {data : Bytes} (signedData : Tlv data) : List (Tlv data) :=
  -- behind version, digestAlgorithms and encapContentInfo
  match ((childrenOf signedData).drop 3).find? fun kid => kid.tag = 0xA0 with
  | some kid => (childrenOf kid).filter fun c => c.tag = 0x30
  | none => []

/-- Whether an element looks like a SubjectPublicKeyInfo -/
def isSpki {data : Bytes} (child : Tlv data) : Bool :=
  child.tag = 0x30 &&
    match childrenOf child with
    | algorithm :: key :: _ => algorithm.tag = 0x30 && key.tag = 0x03
    | _ => false

def extractSpki {data : Bytes} (cert : Tlv data) : Option (Tlv data) :=
  (findChildByTag cert 0x30).bind fun tbs => (childrenOf tbs).find? isSpki

structure SignerInfoFields where
  digestAlgOid : Bytes
  sigAlgOid : Bytes
  /-- Re-encoded with the tag of a SET -/
  signedAttrs : Option Bytes
  signature : Bytes

def encodeDerLength (len : Nat) : Option Bytes :=
  if len < 0x80 then
    some [UInt8.ofNat len]
  else if len ≤ 0xFF then
    some [0x81, UInt8.ofNat len]
  else if len ≤ 0xFFFF then
    some [0x82, UInt8.ofNat (len / 256), UInt8.ofNat (len % 256)]
  else
    none

def parseSignerInfo {data : Bytes} (si : Tlv data) : Option SignerInfoFields :=
  match childrenOf si with
  | _ :: _ :: digestAlg :: fourth :: fifth :: rest =>
    if digestAlg.tag ≠ 0x30 then
      none
    else do
      let digOid ← findChildByTag digestAlg 0x06
      let (signedAttrs, behind) ←
        if fourth.tag = 0xA0 then do
          let length ← encodeDerLength fourth.content.length
          some (some (0x31 :: length ++ fourth.content), fifth :: rest)
        else
          some (none, fourth :: fifth :: rest)
      match behind with
      | sigAlg :: sig :: _ =>
        if sigAlg.tag ≠ 0x30 then
          none
        else do
          let sigOid ← findChildByTag sigAlg 0x06
          if sig.tag ≠ 0x04 then
            none
          else
            some ⟨digOid.content, sigOid.content, signedAttrs, sig.content⟩
      | _ => none
  | _ => none

def messageDigestValue {data : Bytes} (attr : Tlv data) : Option Bytes :=
  if attr.tag ≠ 0x30 then
    none
  else
    match childrenOf attr with
    | oid :: val :: rest =>
      if oid.tag ≠ 0x06 ∨ oid.content ≠ oidMessageDigest then
        none
      else
        (val :: rest).findSome? fun valKid =>
          if valKid.tag = 0x31 then (findChildByTag valKid 0x04).map Tlv.content else none
    | _ => none

def extractMessageDigestFromSignedAttrs (signedAttrs : Bytes) : Option Bytes :=
  (readTlv signedAttrs 0).bind fun outer => (childrenOf outer).findSome? messageDigestValue

section Checks

variable {Time : Type} (C : Chrono Time) (now : Time)

/-- The two times of a child of TBSCertificate that looks like its validity -/
def validityPeriod {data : Bytes} (kid : Tlv data) : Option (Tlv data × Tlv data) :=
  if kid.tag = 0x30 then
    match childrenOf kid with
    | [notBefore, notAfter] =>
      if notBefore.tag = 0x17 ∨ notBefore.tag = 0x18 then some (notBefore, notAfter) else none
    | _ => none
  else
    none

/-- The loop of `check_cert_validity` over the children that look like the validity -/
def checkPeriods {data : Bytes} : List (Tlv data × Tlv data) → Res AnchorError Unit
  | [] => fail (.verification "Could not parse certificate validity period")
  | (first, second) :: periods => do
    let notBefore ← parseCertTime C first
    let notAfter ← parseCertTime C second
    match notBefore, notAfter with
    | some nb, some na => do
      reject (C.before now nb) (.verification "TSA certificate not yet valid")
      reject (C.before na now) (.verification "TSA certificate has expired")
    | _, _ => checkPeriods periods

def validityPeriods {data : Bytes} (tbs : Tlv data) : List (Tlv data × Tlv data) :=
  (childrenOf tbs).filterMap validityPeriod

def checkCertValidity {data : Bytes} (cert : Tlv data) : Res AnchorError Unit := do
  let tbs ← okOr (findChildByTag cert 0x30) (.verification "No TBSCertificate")
  checkPeriods C now (validityPeriods tbs)

/-- Whether the value of an extKeyUsage extension has id-kp-timeStamping -/
def allowsTimestamping (inner : Bytes) : Bool :=
  match readTlv inner 0 with
  | some seq =>
    (childrenOf seq).any fun oidTlv => oidTlv.tag = 0x06 && oidTlv.content = oidKpTimestamping
  | none => false

/-- What an extension says about the check, unless it is not the one, or has no value -/
def extKeyUsage {data : Bytes} (ext : Tlv data) : Option (Except AnchorError Unit) :=
  if ext.tag ≠ 0x30 then
    none
  else
    match childrenOf ext with
    | [] => none
    | oid :: rest =>
      if oid.tag ≠ 0x06 ∨ oid.content ≠ oidEku then
        none
      else
        ((oid :: rest).find? fun ek => ek.tag = 0x04).map fun ek =>
          if allowsTimestamping ek.content then
            .ok ()
          else
            .error (.verification "TSA certificate lacks id-kp-timeStamping in extKeyUsage")

def checkCertExtKeyUsage {data : Bytes} (cert : Tlv data) : Except AnchorError Unit := do
  let tbs ← okOrElse (findChildByTag cert 0x30) (.verification "No TBSCertificate")
  match findChildByTag tbs 0xA3 with
  | none => .ok ()
  | some extWrapper =>
    match findChildByTag extWrapper 0x30 with
    | none => .ok ()
    | some extSeq =>
      ((childrenOf extSeq).findSome? extKeyUsage).getD (.error (.verification
        "TSA certificate missing required extKeyUsage extension (RFC 3161 §2.3)"))

end Checks

section Signers

variable (P : Crates) {token : Bytes} (tstInfo : Bytes)

/-- The loop over the certificates: the one whose key verifies the signature, or the last
error -/
def tryCerts (message signature : Bytes) :
    List (Tlv token) → Option AnchorError → Except (Option AnchorError) (Tlv token)
  | [], lastError => .error lastError
  | cert :: certs, lastError =>
    match extractSpki cert with
    | none => tryCerts message signature certs lastError
    | some spki =>
      match verifyRsaPkcs1v15Sha256 P spki.asBytes message signature with
      | .ok true => .ok cert
      | .ok false => tryCerts message signature certs lastError
      | .error e => tryCerts message signature certs (some e)

def SignerInfoFields.supported (fields : SignerInfoFields) : Bool :=
  fields.sigAlgOid = oidSha256WithRsa && fields.digestAlgOid = oidSha256

def SignerInfoFields.digestMatches (fields : SignerInfoFields) : Bool :=
  match fields.signedAttrs.bind extractMessageDigestFromSignedAttrs with
  | some md => md = (P.sha256 tstInfo).val
  | none => true

def SignerInfoFields.message (fields : SignerInfoFields) : Bytes := fields.signedAttrs.getD tstInfo

def trySigners (certs : List (Tlv token)) :
    List (Tlv token) → Option AnchorError → Except (Option AnchorError) (Tlv token)
  | [], lastError => .error lastError
  | si :: signers, lastError =>
    match parseSignerInfo si with
    | none => trySigners certs signers lastError
    | some fields =>
      if fields.supported = false then
        trySigners certs signers (some (.unavailable
          "TSA uses non-RSA/SHA256 algorithm; CMS signature verification not supported"))
      else if fields.digestMatches P tstInfo = false then
        trySigners certs signers (some (.verification
          "messageDigest attribute does not match SHA-256(TSTInfo)"))
      else
        match tryCerts P (fields.message tstInfo) fields.signature certs lastError with
        | .ok cert => .ok cert
        | .error lastError => trySigners certs signers (some (lastError.getD (.verification
            "CMS signature verification failed: no matching TSA certificate")))

def signerInfos (signerInfosSet : Tlv token) : List (Tlv token) :=
  (childrenOf signerInfosSet).filter fun c => c.tag = 0x30

def findSignerInfosSet (signedData : Tlv token) : Option (Tlv token) :=
  (childrenOf signedData).reverse.find? fun c => c.tag = 0x31

def verifyCmsSignature {Time : Type} (C : Chrono Time) (now : Time) (token tstInfo : Bytes) :
    Res AnchorError Bool := do
  let signedData ← okOr (findSignedData token) (.invalidFormat "Cannot locate SignedData")
  let certs := extractCerts signedData
  let signerInfosSet ← okOr (findSignerInfosSet signedData)
    (.invalidFormat "No signerInfos in SignedData")
  let signers := signerInfos signerInfosSet
  reject (signers.isEmpty = true) (.invalidFormat "Empty signerInfos")
  match trySigners P tstInfo certs signers none with
  | .ok cert => do
    checkCertValidity C now cert
    total (checkCertExtKeyUsage cert)
    return true
  | .error lastError =>
    fail (lastError.getD (.invalidFormat "No parseable SignerInfo found"))

def verifyTimestampToken {Time : Type} (C : Chrono Time) (now : Time) (token : Bytes)
    (hash : FixedBytes 32) : Res AnchorError Bool := do
  reject (token.length < 100) (.invalidFormat "Token too short")
  reject (token.head? ≠ some 0x30) (.invalidFormat "Invalid ASN.1 structure")
  let tstInfo ← total (extractTstInfo token)
  let imprintHash ← okOr (extractMessageImprintHash tstInfo)
    (.invalidFormat "Cannot extract MessageImprint hash from TSTInfo")
  reject (imprintHash ≠ hash) .hashMismatch
  verifyCmsSignature P C now token tstInfo

end Signers

end WritersProof.Anchors
