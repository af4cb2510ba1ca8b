/-
  WritersProof.Anchors.Nonce

  The nonce of an RFC 3161 request and of its response (`build_timestamp_request`,
  `extract_nonce` and the comparison in `request_timestamp`,
  crates/cpoe/src/anchors/rfc3161.rs).

  A DER INTEGER is two's complement in as few bytes as possible.  The request puts a sign byte
  in front of a nonce whose high bit is set, and strips nothing.  The response loses one zero in
  front, the nonce that was sent loses all of them, and nobody looks at the sign.
-/
import WritersProof.Anchors.Rfc3161

namespace WritersProof.Anchors

open Rust Bytes

/-! ## Integers -/

section Integers

variable {a b content : Bytes}

def derInt (content : Bytes) : Int := toInt content.length (ofBE content)

/-- The first nine bits are neither all zero nor all one. -/
def Minimal : Bytes → Prop
  | [] => False
  | [_] => True
  | first :: second :: _ => ¬ (first = 0x00 ∧ second < 0x80) ∧ ¬ (first = 0xFF ∧ 0x80 ≤ second)

/-- Nothing but a number of one byte starts with a zero. -/
def Stripped : Bytes → Prop
  | [] => False
  | [_] => True
  | first :: _ :: _ => first ≠ 0x00

theorem ofBE_zero_cons (rest : Bytes) : ofBE (0x00 :: rest) = ofBE rest := by
  rw [ofBE, UInt8.toNat_zero, Nat.zero_mul, Nat.zero_add]

variable {rest : Bytes} {first : UInt8}

/-- A number whose high bit is not set is what its bytes say. -/
theorem derInt_of_lt (h : first < 0x80) : derInt (first :: rest) = ofBE (first :: rest) := by
  have hfirst : first.toNat < 128 := h
  have hrest := ofBE_lt rest
  have hmul : (first.toNat + 1) * 256 ^ rest.length ≤ 128 * 256 ^ rest.length :=
    Nat.mul_le_mul_right _ hfirst
  rw [Nat.add_mul, Nat.one_mul] at hmul
  rw [derInt, toInt, if_pos]
  rw [ofBE, List.length_cons, Nat.pow_succ]
  omega

theorem derInt_of_le (h : 0x80 ≤ first) : derInt (first :: rest) < 0 := by
  have hfirst : 128 ≤ first.toNat := h
  have hlt := ofBE_lt (first :: rest)
  have hmul : 128 * 256 ^ rest.length ≤ first.toNat * 256 ^ rest.length :=
    Nat.mul_le_mul_right _ hfirst
  rw [derInt, toInt, if_neg]
  · omega
  · rw [ofBE, List.length_cons, Nat.pow_succ]
    omega

/-- Nor has a number that is not negative its high bit set. -/
theorem derInt_of_nonneg (h : 0 ≤ derInt content) : derInt content = ofBE content := by
  have hlt := ofBE_lt content
  rw [derInt, toInt] at h ⊢
  split
  · rfl
  · rename_i hsign
    rw [if_neg hsign] at h
    omega

/-- Without zeros in front the length tells how large a number is. -/
theorem Stripped.le_ofBE {second : UInt8} (h : Stripped (first :: second :: rest)) :
    256 ^ (rest.length + 1) ≤ ofBE (first :: second :: rest) := by
  have hfirst : 1 ≤ first.toNat := by
    rw [Nat.one_le_iff_ne_zero]
    exact fun hzero => h (UInt8.toNat_inj.mp hzero)
  have hmul : 1 * 256 ^ (rest.length + 1) ≤ first.toNat * 256 ^ (rest.length + 1) :=
    Nat.mul_le_mul_right _ hfirst
  rw [ofBE, List.length_cons]
  omega

theorem Stripped.length_le (ha : Stripped a) (h : ofBE a ≤ ofBE b) (hb : b ≠ []) :
    a.length ≤ b.length := by
  have hpos : 0 < b.length := List.length_pos_iff.mpr hb
  match a, ha with
  | [_], _ => exact hpos
  | first :: second :: rest, ha =>
    have hlow := ha.le_ofBE
    have hhigh := ofBE_lt b
    have hpow :=
      Nat.pow_lt_pow_iff_right (n := rest.length + 1) (m := b.length) (show 1 < 256 by decide)
    have := hpow.mp (Nat.lt_of_le_of_lt hlow (Nat.lt_of_le_of_lt h hhigh))
    simp only [List.length_cons]
    omega

theorem Stripped.eq (ha : Stripped a) (hb : Stripped b) (h : ofBE a = ofBE b) :
    a = b := by
  have hne : ∀ {c}, Stripped c → c ≠ [] := by
    rintro c hc rfl
    exact hc
  have hlen := Nat.le_antisymm (ha.length_le h.le (hne hb)) (hb.length_le h.ge (hne ha))
  rw [← toBE_ofBE a, ← toBE_ofBE b, h, hlen]

end Integers

/-! ## The request -/

/-- `u8::try_from(len)` -/
def lengthByte (len : Nat) : Except AnchorError UInt8 :=
  if len ≤ 0xFF then .ok (UInt8.ofNat len) else .error (.submission "DER length overflow")

variable (nonce : FixedBytes 16)

/-- The content of the INTEGER -/
def writtenNonce : Bytes :=
  if 0x80 ≤ nonce.val.headD 0 then 0x00 :: nonce.val else nonce.val

def nonceInteger : Bytes :=
  if 0x80 ≤ nonce.val.headD 0 then [0x02, 0x11, 0x00] ++ nonce.val else [0x02, 0x10] ++ nonce.val

variable (hash : FixedBytes 32)

def imprintContent : Bytes :=
  [0x06, 0x09, 0x60, 0x86, 0x48, 0x01, 0x65, 0x03, 0x04, 0x02, 0x01] ++ [0x05, 0x00, 0x04, 32] ++
    hash.val

/-- `build_timestamp_request`, with what `getrandom` gives -/
def buildTimestampRequest (random : Option (FixedBytes 16)) (hash : FixedBytes 32) :
    Except AnchorError (Bytes × Bytes) := do
  let nonce ← okOrElse random (.submission "Failed to generate nonce")
  let miContentLen := 11 + 2 + 2 + 32
  let messageImprint := 0x30 :: (← lengthByte miContentLen) :: imprintContent hash
  let request := [0x02, 0x01, 0x01, 0x30] ++ [← lengthByte messageImprint.length] ++
    messageImprint ++ nonceInteger nonce ++ [0x01, 0x01, 0xFF]
  let header ←
    if request.length < 128 then
      pure [UInt8.ofNat request.length]
    else if request.length ≤ 0xFF then
      pure [0x81, UInt8.ofNat request.length]
    else if request.length ≤ 0xFFFF then
      pure [0x82, UInt8.ofNat (request.length / 256), UInt8.ofNat (request.length % 256)]
    else
      throw (.submission "DER request length exceeds 2-byte encoding limit")
  return (0x30 :: header ++ request, nonce.val)

def requestFields : List (UInt8 × Bytes) :=
  [(0x02, [0x01]), (0x30, 0x30 :: 47 :: imprintContent hash), (0x02, writtenNonce nonce),
    (0x01, [0xFF])]

theorem length_writtenNonce :
    (writtenNonce nonce).length = 16 ∨ (writtenNonce nonce).length = 17 := by
  have hlen : nonce.val.length = 16 := nonce.size_eq
  rw [writtenNonce]
  split
  · exact .inr (by rw [List.length_cons, hlen])
  · exact .inl hlen

theorem nonceInteger_eq : nonceInteger nonce = der 0x02 (writtenNonce nonce) := by
  have hlen : nonce.val.length = 16 := nonce.size_eq
  rw [nonceInteger, writtenNonce, der]
  split
  · rw [List.length_cons, hlen]
    rfl
  · rw [hlen]
    rfl

theorem length_imprint : (0x30 :: (47 : UInt8) :: imprintContent hash).length = 49 := by
  rw [List.length_cons, List.length_cons, imprintContent, List.length_append, hash.size_eq]
  rfl

/-- What is pushed one after the other -/
theorem derAll_requestFields :
    derAll (requestFields nonce hash) = [0x02, 0x01, 0x01, 0x30] ++ [49] ++
      (0x30 :: 47 :: imprintContent hash) ++ nonceInteger nonce ++ [0x01, 0x01, 0xFF] := by
  rw [nonceInteger_eq, requestFields, derAll]
  simp only [List.flatMap_cons, List.flatMap_nil, List.append_nil, List.append_assoc]
  rw [der, der, der, length_imprint]
  rfl

theorem length_requestFields_lt : (derAll (requestFields nonce hash)).length < 0x80 := by
  rw [derAll_requestFields, nonceInteger_eq]
  simp only [List.length_append, length_imprint, length_der]
  rcases length_writtenNonce nonce with h | h
  · rw [h]
    decide
  · rw [h]
    decide

theorem buildTimestampRequest_eq :
    buildTimestampRequest (some nonce) hash =
      .ok (der 0x30 (derAll (requestFields nonce hash)), nonce.val) := by
  have hbyte : lengthByte 47 = .ok 47 := rfl
  have hbyte' : lengthByte 49 = .ok 49 := rfl
  have hlen := length_requestFields_lt nonce hash
  rw [buildTimestampRequest]
  simp only [okOrElse, hbyte, length_imprint, ok_bind]
  rw [hbyte', ok_bind, ← derAll_requestFields, if_pos hlen]
  rfl

theorem request_integer : ∃ outer integer,
    readTlv (der 0x30 (derAll (requestFields nonce hash))) 0 = some outer ∧
    (childrenOf outer)[2]? = some integer ∧ integer.tag = 0x02 ∧
    integer.content = writtenNonce nonce := by
  obtain ⟨outer, houter, -, h⟩ := readTlv_der_zero 0x30 (length_requestFields_lt nonce hash)
  have hview := childrenOf_derAll h fun field hfield =>
    Nat.lt_of_le_of_lt (length_le_derAll hfield) (length_requestFields_lt nonce hash)
  have hthird : ((childrenOf outer).map Tlv.view)[2]? = some (0x02, writtenNonce nonce) := by
    rw [hview]
    rfl
  rw [List.getElem?_map, Option.map_eq_some_iff] at hthird
  obtain ⟨integer, hinteger, hview⟩ := hthird
  exact ⟨outer, integer, houter, hinteger, congrArg Prod.fst hview, congrArg Prod.snd hview⟩

/-! ## The response -/

/-- The loop that strips the nonce that was sent -/
def stripZeros : Bytes → Bytes
  | 0x00 :: second :: rest => stripZeros (second :: rest)
  | bytes => bytes

def checkNonce (nonceSent body : Bytes) : Except AnchorError Bytes := do
  let tstInfo ← extractTstInfo body
  let responseNonce ← okOrElse (extractNonce tstInfo) (.invalidFormat "TSA response missing nonce")
  if responseNonce ≠ stripZeros nonceSent then
    throw (.invalidFormat "TSA response nonce does not match request nonce")
  return body

/-- The nonce of a response is an INTEGER with this content. -/
def Carries (body content : Bytes) : Prop :=
  ∃ tstInfo kids child, extractTstInfo body = .ok tstInfo ∧ tstInfoKids tstInfo = some kids ∧
    nonceElement kids = some child ∧ child.content = content

theorem stripped_stripZeros {bytes : Bytes} (h : bytes ≠ []) : Stripped (stripZeros bytes) := by
  fun_induction stripZeros bytes with
  | case1 second rest ih => exact ih (List.cons_ne_nil _ _)
  | case2 bytes hzero =>
    match bytes, h, hzero with
    | [_], _, _ => trivial
    | first :: second :: rest, _, hzero =>
      rintro rfl
      exact hzero second rest rfl

theorem ofBE_stripZeros (bytes : Bytes) : ofBE (stripZeros bytes) = ofBE bytes := by
  fun_induction stripZeros bytes with
  | case1 second rest ih => rw [ih, ofBE_zero_cons]
  | case2 => rfl

theorem length_stripZeros_le (bytes : Bytes) : (stripZeros bytes).length ≤ bytes.length := by
  fun_induction stripZeros bytes with
  | case1 second rest ih => exact Nat.le_succ_of_le ih
  | case2 => exact Nat.le_refl _

variable {first : UInt8} {rest content body nonce : Bytes}

theorem stripZeros_of_ne (h : first ≠ 0x00) : stripZeros (first :: rest) = first :: rest := by
  rw [stripZeros]
  rintro second rest' heq
  exact h (List.cons.inj heq).1

@[simp] theorem dropSignByte_zero (second : UInt8) (rest : Bytes) :
    dropSignByte (0x00 :: second :: rest) = second :: rest := rfl

@[simp] theorem dropSignByte_single (first : UInt8) : dropSignByte [first] = [first] := by
  rw [dropSignByte]
  exact nofun

theorem dropSignByte_of_ne (h : first ≠ 0x00) : dropSignByte (first :: rest) = first :: rest := by
  rw [dropSignByte]
  rintro second rest' heq
  exact h (List.cons.inj heq).1

theorem ofBE_dropSignByte (content : Bytes) :
    ofBE (dropSignByte content) = ofBE content := by
  fun_cases dropSignByte content with
  | case1 second rest => exact (ofBE_zero_cons _).symm
  | case2 => rfl

/-- Of as few bytes as possible at most one is a zero in front. -/
theorem Minimal.stripped (h : Minimal content) : Stripped (dropSignByte content) := by
  match content, h with
  | [first], _ =>
    rw [dropSignByte_single]
    trivial
  | first :: second :: rest, h =>
    by_cases hfirst : first = 0x00
    · rw [hfirst, dropSignByte_zero]
      match rest with
      | [] => trivial
      | _ :: _ =>
        rintro rfl
        exact h.1 ⟨hfirst, by decide⟩
    · rw [dropSignByte_of_ne hfirst]
      exact hfirst

/-- A response passes just when nothing but one zero of its own, and all those of the nonce, are
between them. -/
theorem passes_iff {sent : Bytes} (h : Carries body content) :
    checkNonce sent body = .ok body ↔ canonicalNonce content = some (stripZeros sent) := by
  obtain ⟨tstInfo, kids, child, htst, hkids, hchild, rfl⟩ := h
  rw [checkNonce, htst]
  show (okOrElse (extractNonce tstInfo) _ >>= _) = _ ↔ _
  rw [extractNonce, hkids, Option.bind_some, hchild, Option.bind_some]
  cases hnonce : canonicalNonce child.content with
  | none => exact ⟨nofun, nofun⟩
  | some nonce =>
    rw [Option.some_inj]
    show (if nonce ≠ stripZeros sent then _ else _ : Except AnchorError Bytes) = _ ↔ _
    by_cases heq : nonce = stripZeros sent
    · rw [if_neg (not_not.mpr heq)]
      exact ⟨fun _ => heq, fun _ => rfl⟩
    · rw [if_pos heq]
      exact ⟨nofun, fun h => absurd h heq⟩

theorem canonicalNonce_eq_some :
    canonicalNonce content = some nonce ↔
      (content ≠ [] ∧ content.length ≤ 65) ∧ (nonce ≠ [] ∧ nonce.length ≤ 64) ∧
        dropSignByte content = nonce := by
  rw [canonicalNonce]
  by_cases hcontent : content = [] ∨ 65 < content.length
  · rw [if_pos hcontent]
    refine ⟨nofun, ?_⟩
    rintro ⟨⟨hne, hlen⟩, -⟩
    exact absurd hcontent (not_or.mpr ⟨hne, Nat.not_lt.mpr hlen⟩)
  · rw [if_neg hcontent, ← Nat.not_lt, ← not_or, and_iff_right hcontent]
    simp only
    by_cases hcanonical : dropSignByte content = [] ∨ 64 < (dropSignByte content).length
    · rw [if_pos hcanonical]
      refine ⟨nofun, ?_⟩
      rintro ⟨⟨hne, hlen⟩, rfl⟩
      exact absurd hcanonical (not_or.mpr ⟨hne, Nat.not_lt.mpr hlen⟩)
    · rw [if_neg hcanonical, Option.some_inj]
      refine ⟨?_, fun h => h.2⟩
      rintro rfl
      rw [not_or, Nat.not_lt] at hcanonical
      exact ⟨hcanonical, rfl⟩

theorem dropSignByte_eq (h : dropSignByte content = nonce) :
    content = nonce ∨ content = 0x00 :: nonce := by
  revert h
  fun_cases dropSignByte content with
  | case1 second rest =>
    rintro rfl
    exact .inr rfl
  | case2 => exact .inl

/-- A granted response of which only an empty genTime and the nonce are there -/
def replyWith (content : Bytes) : Bytes :=
  der 0x30 (der 0xA0 (der 0x30 (der 0x30 (der 0xA0 (der 0x04
    (der 0x30 (derAll [(0x18, []), (0x02, content)])))))))

theorem carries_replyWith (hlen : content.length ≤ 64) : Carries (replyWith content) content := by
  rw [replyWith]
  generalize htst : der 0x30 (derAll [(0x18, []), (0x02, content)]) = tstInfo
  have hfields : (derAll [(0x18, []), (0x02, content)]).length = content.length + 4 := by
    rw [derAll, List.flatMap_cons, List.flatMap_cons, List.flatMap_nil, List.append_nil,
      List.length_append, length_der, length_der, List.length_nil]
    show 0 + 2 + (content.length + 2) = content.length + 4
    omega
  have htstLen : tstInfo.length = content.length + 6 := by
    rw [← htst, length_der, hfields]
  -- down to the TSTInfo, one element in each
  have houterLen : (der 0xA0 (der 0x30 (der 0x30 (der 0xA0 (der 0x04 tstInfo))))).length
      < 0x80 := by
    simp only [length_der]
    omega
  obtain ⟨outer, houter, houterTag, h⟩ := readTlv_der_zero 0x30 houterLen
  obtain ⟨explicit0, hexplicit, hexplicitTag, h⟩ :=
    childrenOf_der h (by simp only [length_der]; omega)
  obtain ⟨signedData, hsigned, hsignedTag, h⟩ := childrenOf_der h (by simp only [length_der]; omega)
  obtain ⟨encap, hencap, hencapTag, h⟩ := childrenOf_der h (by simp only [length_der]; omega)
  obtain ⟨econtentTlv, hecontent, hecontentTag, h⟩ := childrenOf_der h
    (by simp only [length_der]; omega)
  obtain ⟨octet, hoctet, hoctetTag, h⟩ := childrenOf_der h (by omega)
  have hextract : extractTstInfo (der 0x30 (der 0xA0 (der 0x30 (der 0x30 (der 0xA0
      (der 0x04 tstInfo)))))) = .ok tstInfo := by
    rw [extractTstInfo, houter]
    simp [okOrElse, houterTag, hexplicit, findChildByTag, hexplicitTag, hsigned, hsignedTag, hencap,
      hencapTag, econtent, hecontent, hecontentTag, hoctet, hoctetTag, h]
  subst htst
  have hfieldsLen : (derAll [(0x18, []), (0x02, content)]).length < 0x80 := by omega
  obtain ⟨info, hinfo, hinfoTag, h⟩ := readTlv_der_zero 0x30 hfieldsLen
  have hview := childrenOf_derAll h fun field hfield =>
    Nat.lt_of_le_of_lt (length_le_derAll hfield) hfieldsLen
  obtain ⟨genTime, rest, hkids, hgenTime, hrest⟩ := List.map_eq_cons_iff.mp hview
  obtain ⟨nonce, rfl, hnonce⟩ := List.map_eq_singleton_iff.mp hrest
  have hgenTimeTag : genTime.tag = 0x18 := congrArg Prod.fst hgenTime
  have hnonceTag : nonce.tag = 0x02 := congrArg Prod.fst hnonce
  refine ⟨_, [genTime, nonce], nonce, hextract, ?_, ?_, congrArg Prod.snd hnonce⟩
  · rw [tstInfoKids, hinfo, Option.map_some, if_pos hinfoTag, hkids]
  · rw [nonceElement]
    simp [hgenTimeTag, hnonceTag]

/-! ## There and back -/

theorem derInt_writtenNonce (nonce : FixedBytes 16) :
    derInt (writtenNonce nonce) = ofBE nonce.val := by
  have hlen : nonce.val.length = 16 := nonce.size_eq
  rw [writtenNonce]
  match nonce.val, hlen with
  | first :: rest, _ =>
    rw [List.headD_cons]
    by_cases hfirst : 0x80 ≤ first
    · rw [if_pos hfirst, derInt_of_lt (by decide), ofBE_zero_cons]
    · rw [if_neg hfirst, derInt_of_lt (UInt8.not_le.mp hfirst)]

/-- The sender has the nonce as it is, and an integer of the same value differs from it by the
sign byte at most. -/
theorem passes_of_minimal {nonce : FixedBytes 16} (h : Carries body content)
    (hminimal : Minimal content) (hvalue : derInt content = ofBE nonce.val) :
    checkNonce nonce.val body = .ok body := by
  have hlen : nonce.val.length = 16 := nonce.size_eq
  have hne : nonce.val ≠ [] := by
    intro hnil
    rw [hnil] at hlen
    cases hlen
  have hnonneg : 0 ≤ derInt content := by
    rw [hvalue]
    exact Int.natCast_nonneg _
  have hsame : ofBE (dropSignByte content) = ofBE (stripZeros nonce.val) := by
    rw [ofBE_dropSignByte, ofBE_stripZeros]
    rw [derInt_of_nonneg hnonneg] at hvalue
    exact Int.ofNat.inj hvalue
  have hstripped := stripped_stripZeros hne
  have hcanonical := Stripped.eq hminimal.stripped hstripped hsame
  have hshort := length_stripZeros_le nonce.val
  rw [passes_iff h, canonicalNonce_eq_some]
  refine ⟨?_, ⟨?_, by omega⟩, hcanonical⟩
  · rcases dropSignByte_eq hcanonical with rfl | rfl
    · refine ⟨?_, by omega⟩
      intro hnil
      rw [hnil] at hstripped
      exact hstripped
    · exact ⟨List.cons_ne_nil _ _, by rw [List.length_cons]; omega⟩
  · intro hnil
    rw [hnil] at hstripped
    exact hstripped

/-- What is claimed of a nonce: it is written as the integer that it denotes, responses with this
integer pass, and responses with another one do not. -/
structure RoundTrips (nonce : FixedBytes 16) : Prop where
  written : ∀ hash, ∃ request outer integer,
    buildTimestampRequest (some nonce) hash = .ok (request, nonce.val) ∧
    readTlv request 0 = some outer ∧ (childrenOf outer)[2]? = some integer ∧ integer.tag = 0x02 ∧
    integer.content = writtenNonce nonce ∧
    derInt integer.content = ofBE nonce.val ∧ Minimal integer.content
  echoed : ∀ body content, Carries body content →
    content = writtenNonce nonce ∨ Minimal content ∧ derInt content = ofBE nonce.val →
    checkNonce nonce.val body = .ok body
  different : ∀ body content, Carries body content → derInt content ≠ ofBE nonce.val →
    checkNonce nonce.val body ≠ .ok body

/-- A nonce with its high bit set behind the zeros passes as the negative number too. -/
theorem not_roundTrips {nonce : FixedBytes 16} (hstrip : stripZeros nonce.val = first :: rest)
    (hfirst : 0x80 ≤ first) : ¬ RoundTrips nonce := by
  intro h
  have hlen : nonce.val.length = 16 := nonce.size_eq
  have hshort := length_stripZeros_le nonce.val
  rw [hstrip, hlen] at hshort
  have hne : first ≠ 0x00 := by
    rintro rfl
    exact absurd hfirst (by decide)
  have hcarries := carries_replyWith (Nat.le_trans hshort (show 16 ≤ 64 by decide))
  apply h.different _ _ hcarries
  · have hneg : derInt (first :: rest) < 0 := derInt_of_le hfirst
    intro hvalue
    omega
  · rw [passes_iff hcarries, canonicalNonce_eq_some, dropSignByte_of_ne hne, hstrip]
    refine ⟨⟨List.cons_ne_nil _ _, ?_⟩, ⟨List.cons_ne_nil _ _, ?_⟩, rfl⟩
    · exact Nat.le_trans hshort (by decide)
    · exact Nat.le_trans hshort (by decide)

/-- The nonces that go there and back are those whose first byte is neither zero nor has the high
bit set. -/
theorem nonce_roundTrips_iff (nonce : FixedBytes 16) :
    RoundTrips nonce ↔ 0x00 < nonce.val.headD 0 ∧ nonce.val.headD 0 < 0x80 := by
  have hlen : nonce.val.length = 16 := nonce.size_eq
  obtain ⟨first, second, rest, hval⟩ :
      ∃ first second rest, nonce.val = first :: second :: rest := by
    match nonce.val, hlen with
    | first :: second :: rest, _ => exact ⟨first, second, rest, rfl⟩
  have hhead : nonce.val.headD 0 = first := by rw [hval, List.headD_cons]
  rw [hhead]
  constructor
  · intro h
    refine ⟨?_, ?_⟩
    · -- a zero in front is not minimal, or the byte behind it has the high bit
      by_contra hzero
      have hfirst : first = 0x00 := UInt8.le_antisymm (UInt8.not_lt.mp hzero) (UInt8.zero_le)
      subst hfirst
      have hwritten : writtenNonce nonce = 0x00 :: second :: rest := by
        rw [writtenNonce, hhead, if_neg (by decide), hval]
      obtain ⟨_, _, integer, -, -, -, -, hcontent, -, hminimal⟩ := h.written default
      rw [hcontent, hwritten] at hminimal
      have hsecond : 0x80 ≤ second := UInt8.not_lt.mp fun hlt => hminimal.1 ⟨rfl, hlt⟩
      have hstrip : stripZeros nonce.val = second :: rest := by
        rw [hval, stripZeros, stripZeros_of_ne]
        rintro rfl
        exact absurd hsecond (by decide)
      exact not_roundTrips hstrip hsecond h
    · by_contra hhigh
      have hfirst : 0x80 ≤ first := UInt8.not_lt.mp hhigh
      have hstrip : stripZeros nonce.val = first :: second :: rest := by
        rw [hval, stripZeros_of_ne]
        rintro rfl
        exact absurd hfirst (by decide)
      exact not_roundTrips hstrip hfirst h
  · rintro ⟨hpos, hlow⟩
    have hne : first ≠ 0x00 := by
      rintro rfl
      exact absurd hpos (by decide)
    have hwritten : writtenNonce nonce = nonce.val := by
      rw [writtenNonce, hhead, if_neg (UInt8.not_le.mpr hlow)]
    have hminimal : Minimal (writtenNonce nonce) := by
      rw [hwritten, hval]
      refine ⟨fun h => hne h.1, ?_⟩
      rintro ⟨rfl, -⟩
      exact absurd hlow (by decide)
    have hvalue := derInt_writtenNonce nonce
    refine ⟨?_, ?_, ?_⟩
    · intro hash
      obtain ⟨outer, integer, houter, hinteger, htag, hcontent⟩ := request_integer nonce hash
      refine ⟨_, outer, integer, buildTimestampRequest_eq nonce hash, houter, hinteger, htag,
        hcontent, ?_, ?_⟩
      · rw [hcontent, hvalue]
      · rw [hcontent]
        exact hminimal
    · rintro body content hcarries (rfl | ⟨hminimal, hvalue⟩)
      · exact passes_of_minimal hcarries hminimal hvalue
      · exact passes_of_minimal hcarries hminimal hvalue
    · -- the content has a sign byte in front at most
      intro body content hcarries hother hpasses
      rw [passes_iff hcarries, canonicalNonce_eq_some, hval, stripZeros_of_ne hne, ← hval]
        at hpasses
      rcases dropSignByte_eq hpasses.2.2 with rfl | rfl
      · rw [← hwritten] at hother
        exact hother (by rw [hvalue, hwritten])
      · apply hother
        rw [derInt_of_lt (by decide), ofBE_zero_cons]

/-- A response that echoes the nonce of all zeros does not pass. -/
theorem zeroNonce_fails : ¬ RoundTrips (.filled 16 0) := by
  intro h
  have hcarries := carries_replyWith (show (writtenNonce (.filled 16 0)).length ≤ 64 by decide)
  have hpasses := h.echoed _ _ hcarries (.inl rfl)
  rw [passes_iff hcarries] at hpasses
  exact absurd hpasses (by decide)

end WritersProof.Anchors
