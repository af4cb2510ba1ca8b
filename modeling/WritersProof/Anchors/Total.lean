/-
  WritersProof.Anchors.Total

  Which bytes make the functions on RFC 3161 timestamps abort
  (crates/cpoe/src/anchors/rfc3161.rs).
-/
import WritersProof.Anchors.Rfc3161

namespace WritersProof.Anchors

open Rust Text

/-! ## Times -/

section Times

variable {Time ε : Type} {C : Chrono Time}

def Chrono.AddsNanoseconds (C : Chrono Time) : Prop :=
  ∀ text dt nanos, (bytes text).length = 14 →
    C.parseFromStr text generalizedFormat = some dt → nanos < 10 ^ 9 →
    (C.addNanoseconds dt nanos).isSome

variable {s : List Char} {n : Nat} {format : String} {e : ε} {data : Bytes}

theorem parsePrefix_eq_abort :
    parsePrefix (ε := ε) C n format s = abort ↔ Text.CutsCharacter n s := by
  rw [parsePrefix]
  by_cases hlen : n ≤ (bytes s).length
  · rw [if_pos hlen, ← cut_eq_none_iff hlen]
    cases cut n s with
    | none => exact ⟨fun _ => rfl, fun _ => rfl⟩
    | some front => exact ⟨nofun, nofun⟩
  · rw [if_neg hlen]
    exact ⟨nofun, fun h => absurd h.1 hlen⟩

theorem parsePrefix_ne_fail : parsePrefix C n format s ≠ fail e := by
  rw [parsePrefix]
  split
  · cases cut n s with
    | none => exact nofun
    | some front => exact nofun
  · exact nofun

theorem nanosOf_lt (frac : List Char) : nanosOf frac < 10 ^ 9 := by
  rw [nanosOf]
  generalize hpadded : frac.take 9 ++ List.replicate (9 - (frac.take 9).length) '0' = padded
  have hlen : padded.length = 9 := by
    rw [← hpadded, List.length_append, List.length_replicate]
    have := List.length_take_le 9 frac
    omega
  cases hnanos : parseU32 padded with
  | none => decide
  | some nanos =>
    rw [Option.getD_some, ← hlen]
    exact parseU32_lt hnanos

theorem parseGeneralizedTime_eq_abort (hC : C.AddsNanoseconds) :
    parseGeneralizedTime (ε := ε) C s = abort ↔ Text.CutsCharacter 14 (trimEndZ s) := by
  rw [parseGeneralizedTime]
  cases hsplit : splitOnce '.' (trimEndZ s) with
  | none => exact parsePrefix_eq_abort
  | some parts =>
    obtain ⟨base, frac⟩ := parts
    simp only
    by_cases hbase : (bytes base).length = 14
    · -- the point is byte 14, so no character is cut there
      have hnot : ¬ Text.CutsCharacter 14 (trimEndZ s) := fun h =>
        h.2 base (prefix_of_splitOnce hsplit) hbase
      rw [if_pos hbase, iff_false_right hnot]
      cases hdt : C.parseFromStr base generalizedFormat with
      | none => exact nofun
      | some dt =>
        obtain ⟨later, hlater⟩ := Option.isSome_iff_exists.mp
          (hC base dt (nanosOf frac) hbase hdt (nanosOf_lt frac))
        simp only [hlater]
        exact nofun
    · rw [if_neg hbase]
      exact parsePrefix_eq_abort

theorem parseGeneralizedTime_ne_fail : parseGeneralizedTime C s ≠ fail e := by
  rw [parseGeneralizedTime]
  cases splitOnce '.' (trimEndZ s) with
  | none => exact parsePrefix_ne_fail
  | some parts =>
    simp only
    split
    · split
      · exact nofun
      · rename_i dt _
        cases C.addNanoseconds dt (nanosOf parts.2) with
        | none => exact nofun
        | some later => exact nofun
    · exact parsePrefix_ne_fail

/-- The text of the time is sliced within a character. -/
def CutsTime {data : Bytes} (tlv : Tlv data) : Prop :=
  ∃ s, fromUtf8 tlv.content = some s ∧
    (tlv.tag = 0x17 ∧ Text.CutsCharacter 12 (trimEndZ s.toList) ∨
      tlv.tag = 0x18 ∧ Text.CutsCharacter 14 (trimEndZ s.toList))

theorem parseCertTime_eq_abort (hC : C.AddsNanoseconds) {tlv : Tlv data} :
    parseCertTime (ε := ε) C tlv = abort ↔ CutsTime tlv := by
  rw [parseCertTime, CutsTime]
  cases fromUtf8 tlv.content with
  | none => exact ⟨nofun, nofun⟩
  | some s =>
    simp only [Option.some.injEq, exists_eq_left']
    by_cases hutc : tlv.tag = 0x17
    · rw [if_pos hutc, parsePrefix_eq_abort, hutc]
      simp
    · rw [if_neg hutc, or_iff_right (fun h => hutc h.1)]
      by_cases hgeneralized : tlv.tag = 0x18
      · rw [if_pos hgeneralized, parseGeneralizedTime_eq_abort hC, and_iff_right hgeneralized]
      · rw [if_neg hgeneralized]
        exact ⟨nofun, fun h => absurd h.1 hgeneralized⟩

theorem parseCertTime_ne_fail {tlv : Tlv data} : parseCertTime C tlv ≠ fail e := by
  rw [parseCertTime]
  split
  · exact nofun
  · split
    · exact parsePrefix_ne_fail
    · split
      · exact parseGeneralizedTime_ne_fail
      · exact nofun

end Times

/-! ## Responses -/

section Responses

variable {Time : Type} {C : Chrono Time}

def CutsGenTime (response : Bytes) : Prop :=
  ∃ tstInfo s, 10 ≤ response.length ∧ extractTstInfo response = .ok tstInfo ∧
    genTimeText tstInfo = some s ∧ Text.CutsCharacter 14 (trimEndZ s.toList)

theorem extractGeneralizedTime_eq_abort {ε : Type} (hC : C.AddsNanoseconds) {tstInfo : Bytes} :
    extractGeneralizedTime (ε := ε) C tstInfo = abort ↔
      ∃ s, genTimeText tstInfo = some s ∧ Text.CutsCharacter 14 (trimEndZ s.toList) := by
  rw [extractGeneralizedTime]
  cases genTimeText tstInfo with
  | none => exact ⟨nofun, nofun⟩
  | some s =>
    simp only [Option.some.injEq, exists_eq_left']
    exact parseGeneralizedTime_eq_abort hC

theorem parseTimestampResponse_eq_abort (hC : C.AddsNanoseconds) {response : Bytes} :
    parseTimestampResponse C response = abort ↔ CutsGenTime response := by
  rw [parseTimestampResponse, reject_bind_eq_abort, Nat.not_lt, res_bind_eq_abort,
    or_iff_right (total_ne_abort _)]
  constructor
  · rintro ⟨hlen, tstInfo, htst, h⟩
    rcases res_bind_eq_abort.mp h with h | ⟨dt, -, h⟩
    · obtain ⟨s, hs, hcuts⟩ := (extractGeneralizedTime_eq_abort hC).mp h
      exact ⟨tstInfo, s, hlen, total_eq_ok.mp htst, hs, hcuts⟩
    · -- the fields behind genTime are only looked up
      refine absurd h (res_bind_ne_abort (okOr_ne_abort _ _) ?_)
      intro genTime _
      apply res_bind_ne_abort (okOr_ne_abort _ _)
      exact fun _ _ => nofun
  · rintro ⟨tstInfo, s, hlen, htst, hs, hcuts⟩
    refine ⟨hlen, tstInfo, total_eq_ok.mpr htst, ?_⟩
    rw [res_bind_eq_abort]
    exact .inl ((extractGeneralizedTime_eq_abort hC).mpr ⟨s, hs, hcuts⟩)

end Responses

/-! ## Tokens -/

section Tokens

variable {Time : Type} {C : Chrono Time} {P : Crates} {now : Time} {data : Bytes}
  {periods : List (Tlv data × Tlv data)} {certs : List (Tlv data)} {tstInfo token : Bytes}

def ReadsPeriod (C : Chrono Time) (period : Tlv data × Tlv data) : Prop :=
  (∃ nb, parseCertTime (ε := AnchorError) C period.1 = .ok (some nb)) ∧
    ∃ na, parseCertTime (ε := AnchorError) C period.2 = .ok (some na)

/-- A time is sliced within a character, in the first validity that can be read or in one in
front of it. -/
def CutsPeriods (C : Chrono Time) (periods : List (Tlv data × Tlv data)) : Prop :=
  ∃ before period after, periods = before ++ period :: after ∧
    (∀ p ∈ before, ¬ ReadsPeriod C p) ∧ (CutsTime period.1 ∨ CutsTime period.2)

theorem cutsPeriods_cons {period : Tlv data × Tlv data} :
    CutsPeriods C (period :: periods) ↔
      (CutsTime period.1 ∨ CutsTime period.2) ∨ ¬ ReadsPeriod C period ∧ CutsPeriods C periods :=
  exists_split_cons

theorem checkPeriods_eq_abort (hC : C.AddsNanoseconds) :
    checkPeriods C now periods = abort ↔ CutsPeriods C periods := by
  induction periods with
  | nil =>
    refine ⟨nofun, ?_⟩
    rintro ⟨before, p, after, hsplit, -⟩
    exact absurd hsplit (by simp)
  | cons period periods ih =>
    obtain ⟨first, second⟩ := period
    rw [checkPeriods, cutsPeriods_cons, ← ih, ← parseCertTime_eq_abort (ε := AnchorError) hC,
      ← parseCertTime_eq_abort (ε := AnchorError) hC, ReadsPeriod]
    match hfirst : parseCertTime (ε := AnchorError) C first with
    | .error (.err e) => exact absurd hfirst parseCertTime_ne_fail
    | .error .panic => exact ⟨fun _ => .inl (.inl rfl), fun _ => rfl⟩
    | .ok notBefore =>
      match hsecond : parseCertTime (ε := AnchorError) C second with
      | .error (.err e) => exact absurd hsecond parseCertTime_ne_fail
      | .error .panic => exact ⟨fun _ => .inl (.inr rfl), fun _ => rfl⟩
      | .ok notAfter =>
        rw [or_iff_right (by rintro (h | h) <;> cases h), res_ok_bind, res_ok_bind]
        match notBefore, notAfter with
        | none, _ => exact (and_iff_right (fun h => nomatch h.1)).symm
        | some nb, none => exact (and_iff_right (fun h => nomatch h.2)).symm
        | some nb, some na =>
          refine ⟨?_, fun h => absurd ⟨⟨nb, rfl⟩, na, rfl⟩ h.1⟩
          intro h
          rw [reject_bind_eq_abort] at h
          exact absurd h.2 reject_ne_abort

def verifiesWith (P : Crates) (message signature : Bytes) (cert : Tlv data) : Bool :=
  match extractSpki cert with
  | none => false
  | some spki =>
    match verifyRsaPkcs1v15Sha256 P spki.asBytes message signature with
    | .ok b => b
    | .error _ => false

/-- The first certificate that verifies the signature of a signer -/
def signerCert (P : Crates) (tstInfo : Bytes) (certs : List (Tlv data)) (si : Tlv data) :
    Option (Tlv data) :=
  (parseSignerInfo si).bind fun fields =>
    if fields.supported ∧ fields.digestMatches P tstInfo then
      certs.find? (verifiesWith P (fields.message tstInfo) fields.signature)
    else
      none

def signingCert (P : Crates) (token tstInfo : Bytes) : Option (Tlv token) :=
  (findSignedData token).bind fun signedData =>
    (findSignerInfosSet signedData).bind fun signerInfosSet =>
      (signerInfos signerInfosSet).findSome? (signerCert P tstInfo (extractCerts signedData))

/-- The error that is kept says nothing about which certificate is found. -/
theorem tryCerts_toOption {message signature : Bytes} (lastError : Option AnchorError) :
    (tryCerts P message signature certs lastError).toOption =
      certs.find? (verifiesWith P message signature) := by
  induction certs generalizing lastError with
  | nil => rfl
  | cons cert certs ih =>
    rw [tryCerts, List.find?_cons, verifiesWith]
    cases extractSpki cert with
    | none => exact ih _
    | some spki =>
      simp only
      cases verifyRsaPkcs1v15Sha256 P spki.asBytes message signature with
      | error e => exact ih _
      | ok verified =>
        cases verified with
        | true => rfl
        | false => exact ih _

theorem trySigners_toOption {signers : List (Tlv data)} (lastError : Option AnchorError) :
    (trySigners P tstInfo certs signers lastError).toOption =
      signers.findSome? (signerCert P tstInfo certs) := by
  induction signers generalizing lastError with
  | nil => rfl
  | cons si signers ih =>
    rw [trySigners, List.findSome?_cons, signerCert]
    cases parseSignerInfo si with
    | none => exact ih _
    | some fields =>
      simp only [Option.bind_some]
      by_cases hsupported : fields.supported
      · by_cases hdigest : fields.digestMatches P tstInfo
        · rw [if_neg (by simp [hsupported]), if_neg (by simp [hdigest]),
            if_pos ⟨hsupported, hdigest⟩, ← tryCerts_toOption lastError]
          cases tryCerts P (fields.message tstInfo) fields.signature certs lastError with
          | ok cert => rfl
          | error lastError => exact ih _
        · rw [if_neg (by simp [hsupported]), if_pos (by simpa using hdigest),
            if_neg (fun h => hdigest h.2)]
          exact ih _
      · rw [if_pos (by simpa using hsupported), if_neg (fun h => hsupported h.1)]
        exact ih _

/-- A time of the certificate that signed the token is sliced within a character. -/
def CutsValidity (C : Chrono Time) (P : Crates) (token : Bytes) (hash : FixedBytes 32) : Prop :=
  ∃ tstInfo cert tbs, 100 ≤ token.length ∧ token.head? = some 0x30 ∧
    extractTstInfo token = .ok tstInfo ∧ extractMessageImprintHash tstInfo = some hash ∧
    signingCert P token tstInfo = some cert ∧ findChildByTag cert 0x30 = some tbs ∧
    CutsPeriods C (validityPeriods tbs)

theorem checkCertValidity_eq_abort (hC : C.AddsNanoseconds) (now : Time) {cert : Tlv data} :
    checkCertValidity C now cert = abort ↔
      ∃ tbs, findChildByTag cert 0x30 = some tbs ∧ CutsPeriods C (validityPeriods tbs) := by
  rw [checkCertValidity]
  cases findChildByTag cert 0x30 with
  | none => exact ⟨nofun, nofun⟩
  | some tbs =>
    simp only [okOr_some, res_ok_bind, Option.some.injEq, exists_eq_left']
    exact checkPeriods_eq_abort hC

theorem verifyCmsSignature_cases (P : Crates) (C : Chrono Time) (now : Time)
    (token tstInfo : Bytes) :
    (signingCert P token tstInfo = none ∧ ∃ e, verifyCmsSignature P C now token tstInfo = fail e)
      ∨ ∃ cert, signingCert P token tstInfo = some cert
        ∧ verifyCmsSignature P C now token tstInfo = (do
          checkCertValidity C now cert
          total (checkCertExtKeyUsage cert)
          return true) := by
  rw [verifyCmsSignature, signingCert]
  cases findSignedData token with
  | none => exact .inl ⟨rfl, _, rfl⟩
  | some signedData =>
    simp only [okOr_some, res_ok_bind, Option.bind_some]
    cases findSignerInfosSet signedData with
    | none => exact .inl ⟨rfl, _, rfl⟩
    | some signerInfosSet =>
      simp only [okOr_some, res_ok_bind, Option.bind_some, ← trySigners_toOption none]
      cases signerInfos signerInfosSet with
      | nil => exact .inl ⟨rfl, _, rfl⟩
      | cons si signers =>
        cases trySigners P tstInfo (extractCerts signedData) (si :: signers) none with
        | error lastError => exact .inl ⟨rfl, _, rfl⟩
        | ok cert => exact .inr ⟨cert, rfl, rfl⟩

theorem verifyCmsSignature_eq_abort (hC : C.AddsNanoseconds) :
    verifyCmsSignature P C now token tstInfo = abort ↔
      ∃ cert, signingCert P token tstInfo = some cert ∧
        ∃ tbs, findChildByTag cert 0x30 = some tbs ∧ CutsPeriods C (validityPeriods tbs) := by
  obtain ⟨hnone, e, h⟩ | ⟨cert, hcert, h⟩ := verifyCmsSignature_cases P C now token tstInfo
  · rw [h, hnone]
    exact iff_of_false (fail_ne_abort e) (by rintro ⟨_, ⟨⟩, _⟩)
  · simp only [hcert, Option.some.injEq, exists_eq_left']
    rw [h, unit_bind_eq_abort, unit_bind_eq_abort, ← checkCertValidity_eq_abort hC now]
    apply or_iff_left
    rintro ⟨-, h | ⟨-, h⟩⟩
    · exact total_ne_abort _ h
    · cases h

theorem verifyTimestampToken_eq_abort (hC : C.AddsNanoseconds) {hash : FixedBytes 32} :
    verifyTimestampToken P C now token hash = abort ↔ CutsValidity C P token hash := by
  rw [verifyTimestampToken, reject_bind_eq_abort, reject_bind_eq_abort, Nat.not_lt, not_not,
    res_bind_eq_abort, or_iff_right (total_ne_abort _)]
  constructor
  · rintro ⟨hlen, htag, tstInfo, htst, h⟩
    rcases res_bind_eq_abort.mp h with h | ⟨imprintHash, himprint, h⟩
    · exact absurd h (okOr_ne_abort _ _)
    · obtain ⟨heq, h⟩ := reject_bind_eq_abort.mp h
      obtain ⟨cert, hcert, tbs, htbs, hcuts⟩ := (verifyCmsSignature_eq_abort hC).mp h
      rw [not_not.mp heq] at himprint
      exact ⟨tstInfo, cert, tbs, hlen, htag, total_eq_ok.mp htst, okOr_eq_ok.mp himprint, hcert,
        htbs, hcuts⟩
  · rintro ⟨tstInfo, cert, tbs, hlen, htag, htst, himprint, hcert, htbs, hcuts⟩
    refine ⟨hlen, htag, tstInfo, total_eq_ok.mpr htst, ?_⟩
    rw [himprint, okOr_some, res_ok_bind, reject_bind_eq_abort]
    exact ⟨not_not.mpr rfl, (verifyCmsSignature_eq_abort hC).mpr ⟨cert, hcert, tbs, htbs, hcuts⟩⟩

end Tokens

/-! ## Every byte string -/

/-- No index is out of range and no sum overflows.  What is left is the slice of a time within
a character, and a header that runs beyond the element that it is in. -/
theorem aborts_iff {Time : Type} {C : Chrono Time} (hC : C.AddsNanoseconds) (P : Crates)
    (now : Time)
    (data : Bytes) :
    (parseTimestampResponse C data ≠ abort ↔ ¬ CutsGenTime data) ∧
    (∀ hash, verifyTimestampToken P C now data hash ≠ abort ↔ ¬ CutsValidity C P data hash) ∧
    (∀ start stop, (∀ t ∈ children data start stop, t.Within start stop) ↔
      ¬ Overruns data start stop) ∧
    (∀ start stop, (children data start stop).Pairwise fun a b => a.contentEnd ≤ b.start) ∧
    (data.length < 2 ^ 63 → ∀ offset, readTlvChecked (ε := AnchorError) data offset =
      .ok ((readTlv data offset).map fun t => (t.tag, t.start, t.contentStart, t.contentEnd))) := by
  refine ⟨?_, ?_, children_contained_iff data, children_pairwise data, ?_⟩
  · exact not_congr (parseTimestampResponse_eq_abort hC)
  · intro hash
    exact not_congr (verifyTimestampToken_eq_abort hC)
  · intro hdata offset
    exact readTlvChecked_eq offset hdata

/-- Times as numbers with the digits of their text -/
def decimalChrono : Chrono Nat where
  parseFromStr text _ := if text.all Char.isDigit then some (ofDigits text * 10 ^ 9) else none
  addNanoseconds dt nanos := some (dt + nanos)
  before a b := a < b

theorem decimalChrono_addsNanoseconds : decimalChrono.AddsNanoseconds := fun _ _ _ _ _ _ => rfl

/-- No key can be read. -/
def keyless : Crates where
  Key := Unit
  Signature := Unit
  fromPublicKeyDer _ := .error "unknown algorithm"
  size _ := 0
  signature _ := .ok ()
  verify _ _ _ := false
  sha256 _ := default

/-- A granted response of which only the genTime is there; byte 14 of that is the second one of
its last character. -/
def cutResponse : Bytes :=
  [0x30, 0x1D, 0xA0, 0x1B, 0x30, 0x19, 0x30, 0x17, 0xA0, 0x15, 0x04, 0x13, 0x30, 0x11, 0x18, 0x0F,
    0x32, 0x30, 0x32, 0x34, 0x30, 0x31, 0x30, 0x31, 0x30, 0x30, 0x30, 0x30, 0x30, 0xC3, 0xA9]

theorem cutsGenTime_cutResponse : CutsGenTime cutResponse := by
  refine ⟨cutResponse.drop 12,
    String.ofList ['2', '0', '2', '4', '0', '1', '0', '1', '0', '0', '0', '0', '0', 'é'],
    by decide, rfl, ?_, ?_⟩
  · show fromUtf8 (cutResponse.drop 16) = _
    rw [fromUtf8_eq_some, utf8_ofList]
    rfl
  · rw [String.toList_ofList, ← cut_eq_none_iff (by decide)]
    decide

/-- The response aborts the call, and the child of a SEQUENCE of two bytes ends three bytes
behind it. -/
theorem cutResponse_aborts : parseTimestampResponse decimalChrono cutResponse = abort ∧
    ∃ parent : Tlv [0x30, 0x02, 0x04, 0x03, 0x01, 0x02, 0x03], ∃ child ∈ childrenOf parent,
      readTlv _ 0 = some parent ∧ ¬ child.Within parent.contentStart parent.contentEnd := by
  refine ⟨(parseTimestampResponse_eq_abort decimalChrono_addsNanoseconds).mpr
    cutsGenTime_cutResponse, ⟨0x30, 0, 2, 4, by decide, by decide, by decide⟩,
    ⟨0x04, 2, 4, 7, by decide, by decide, by decide⟩, ?_, rfl, fun h => absurd h.2 (by decide)⟩
  exact List.mem_singleton_self _

/-- The slice of the time ends within a character. -/
theorem cutResponse_not_safe : ¬ parseTimestampResponse decimalChrono cutResponse ≠ abort := by
  intro h
  exact (aborts_iff decimalChrono_addsNanoseconds keyless 0 cutResponse).1.mp h
    cutsGenTime_cutResponse

end WritersProof.Anchors
