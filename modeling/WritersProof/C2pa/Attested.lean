/-
  WritersProof.C2pa.Attested

  Attested text: when it verifies, and what a verified text has in common with it.

  The exclusion length is found by iteration: the length of a wrapper depends on it by the
  width of its CBOR argument only, which settles after two rounds.  The verifier then looks
  for the first wrapper in the text, and that is the one that was appended only if the text
  had none; and it zeroes as many bytes as the wrapper had, whatever they are.
-/
import WritersProof.C2pa.TextAttest

namespace WritersProof.C2pa

open Rust Protocol Text C2paManifestBuilder Cbor

/-! ## The binding in a store -/

theorem parseAssertionBox_bytes {a : Assertion} (hcbor : a.isCbor = true)
    (hsize : a.bytes.length < 2 ^ 32) (hne : Bytes.utf8 a.label ≠ [])
    (hnul : (0 : UInt8) ∉ Bytes.utf8 a.label) :
    parseAssertionBox a.bytes = some (a.label, a.content.toOption.getD []) := by
  have huuid : (if a.isCbor then JUMBF_CBOR_UUID else JUMBF_JSON_UUID) = JUMBF_CBOR_UUID :=
    if_pos hcbor
  have htype : (if a.isCbor then CBOR else JSON) = CBOR := if_pos hcbor
  have hbytes := a.bytes_eq_box
  rw [huuid, htype] at hbytes
  have hlength : a.bytes.length = _ := congrArg List.length hbytes
  rw [length_box rfl, List.length_append, length_box rfl, length_box rfl] at hlength
  have hflatten : a.bytes.drop 8
      = [box JUMD (descriptionBody JUMBF_CBOR_UUID a.label),
          box CBOR (a.content.toOption.getD [])].flatten := by
    have hdrop := drop_box (show JUMB.length = 4 from rfl)
      (box JUMD (descriptionBody JUMBF_CBOR_UUID a.label)
        ++ box CBOR (a.content.toOption.getD [])) []
    rw [List.append_nil, List.append_nil, ← hbytes] at hdrop
    rw [hdrop]
    simp
  have hframed : ∀ b ∈ [box JUMD (descriptionBody JUMBF_CBOR_UUID a.label),
      box CBOR (a.content.toOption.getD [])], Framed b := by
    intro b hb
    rcases List.mem_cons.mp hb with rfl | hb
    · exact framed_box rfl (by omega)
    · rw [List.mem_singleton.mp hb]
      exact framed_box rfl (by omega)
  have hfuel : (a.bytes.drop 8).length ≤ a.bytes.length := by
    rw [List.length_drop]
    omega
  have hboxes := boxesIn_flatten _ hframed (hflatten ▸ hfuel)
  -- The description shows the label, the other box the content.
  have hdescription : (box JUMD (descriptionBody JUMBF_CBOR_UUID a.label)).drop 8
      = descriptionBody JUMBF_CBOR_UUID a.label := by
    have h := drop_box (show JUMD.length = 4 from rfl) (descriptionBody JUMBF_CBOR_UUID a.label) []
    rwa [List.append_nil, List.append_nil] at h
  have hcontent : (box CBOR (a.content.toOption.getD [])).drop 8 = a.content.toOption.getD [] := by
    have h := drop_box (show CBOR.length = 4 from rfl) (a.content.toOption.getD []) []
    rwa [List.append_nil, List.append_nil] at h
  have hlabel := extractLabel_descriptionBody (show JUMBF_CBOR_UUID.length = 16 from rfl) hne hnul
  have hlong := length_descriptionBody (show JUMBF_CBOR_UUID.length = 16 from rfl) a.label
  rw [extractLabelFromJumd, if_neg (by omega)] at hlabel
  dsimp only at hlabel
  split at hlabel
  next => cases hlabel
  next =>
    have hfirst : readPart (none, none) (box JUMD (descriptionBody JUMBF_CBOR_UUID a.label))
        = (some a.label, none) := by
      rw [readPart, typeOf_box rfl, hdescription, if_pos ⟨rfl, by omega⟩, hlabel]
    have hsecond : readPart (some a.label, none) (box CBOR (a.content.toOption.getD []))
        = (some a.label, some (a.content.toOption.getD [])) := by
      rw [readPart, typeOf_box rfl, if_neg fun h => absurd h.1 (by decide), if_pos rfl, hcontent]
    have htypeOf : typeOf a.bytes = JUMB := by
      rw [hbytes]
      exact typeOf_box rfl _
    rw [parseAssertionBox, if_neg, hflatten, hboxes, List.foldl_cons, List.foldl_cons,
      List.foldl_nil, hfirst, hsecond]
    rw [not_or, not_lt, not_not]
    exact ⟨a.eight_le_length_bytes, htypeOf⟩

namespace C2paManifestBuilder

variable {C : Crates} {b : C2paManifestBuilder}

def documentAssertion (b : C2paManifestBuilder) : Assertion where
  label := ASSERTION_LABEL_HASH_DATA
  isCbor := true
  content := .ok b.hashDataAssertion.toCbor.encode

theorem assertionBoxes_manifest (time : String) (signature : Bytes) :
    (b.manifest C time signature).assertionBoxes
      = b.documentAssertion.bytes :: ((b.assertions time).tail.map Assertion.bytes) := by
  have hboxes : (b.manifest C time signature).assertionBoxes
      = (b.assertions time).map Assertion.bytes := List.map_map
  have hassertions : b.assertions time = b.documentAssertion :: (b.assertions time).tail := rfl
  rw [hboxes, hassertions, List.map_cons, List.tail_cons]

/-- The verifier finds the binding that the builder has made. -/
theorem extractHashData_manifest (hC : C.Faithful) {time : String} {signature : Bytes}
    (hsize : (storeBox (b.manifest C time signature)).length < 2 ^ 32) :
    extractHashData C (b.manifest C time signature) = some b.hashDataAssertion := by
  have hmem : b.documentAssertion ∈ b.assertions time :=
    List.mem_append_left _ List.mem_cons_self
  have hle := (length_le_of_mem_boxes C signature hmem).trans_lt hsize
  have hlength := b.documentAssertion.length_bytes
  have hcontent : b.documentAssertion.content.toOption.getD []
      = b.hashDataAssertion.toCbor.encode := rfl
  rw [hcontent] at hlength
  have hne : Bytes.utf8 ASSERTION_LABEL_HASH_DATA ≠ [] := by decide
  have hnul : (0 : UInt8) ∉ Bytes.utf8 ASSERTION_LABEL_HASH_DATA := by decide
  have hparse := parseAssertionBox_bytes (a := b.documentAssertion) rfl hle hne hnul
  rw [hcontent] at hparse
  have hread := hC.hashData b.hashDataAssertion (by omega)
  have hlabel : b.documentAssertion.label = ASSERTION_LABEL_HASH_DATA := rfl
  rw [extractHashData, assertionBoxes_manifest, hashDataIn, hparse]
  dsimp only
  rw [if_pos hlabel, hread]
  rfl

/-- What a built store says: the manifest, its binding, and no structural errors. -/
theorem decodeJumbf_of_buildJumbf (hC : C.Faithful) {signer : Signer} {now : String} {jumbf : Bytes}
    (h : b.buildJumbf C signer now = .ok jumbf) :
    jumbf.length < 2 ^ 32 ∧ ∃ m, decodeJumbf C jumbf = .ok m
      ∧ extractHashData C m = some b.hashDataAssertion := by
  obtain ⟨-, signature, -, hsize, rfl⟩ := buildJumbf_eq_ok.mp h
  exact ⟨hsize, _, b.decodeJumbf_manifest hC hsize, extractHashData_manifest hC hsize⟩

end C2paManifestBuilder

/-! ## Verification -/

section Valid

variable {C : Crates}

theorem verifyText_isValid {text : List Char} {m : C2paManifest}
    (hm : textManifest C text = .ok m) :
    (∃ v, verifyText C text = .ok v ∧ v.isValid = true) ↔
      verifyManifestSignature C m = .ok true
        ∧ contentHashValid C text (extractHashData C m) = true
        ∧ ((validateManifest C m).errors.filter fun e => contains e "COSE_Sign1" = false) = [] := by
  unfold verifyText
  rw [hm, res_ok_bind]
  constructor
  · rintro ⟨v, hv, hvalid⟩
    obtain ⟨signatureValid, hsignature, hv⟩ := res_bind_eq_ok.mp hv
    cases hv
    simp only [TextVerification.isValid, Bool.and_eq_true, List.isEmpty_iff] at hvalid
    exact ⟨(orFalse_eq_ok hsignature).mp hvalid.1.1, hvalid.1.2, hvalid.2⟩
  · rintro ⟨hsignature, hcontent, herrors⟩
    rw [hsignature]
    refine ⟨_, rfl, ?_⟩
    simp only [TextVerification.isValid, hcontent, herrors]
    rfl

theorem contentHash_eq {front : Bytes} {length : Nat} (hpos : 0 < length)
    (hmax : front.length + length < 2 ^ 64) :
    contentHash C front length = C.sha256 (front ++ List.replicate length 0) := by
  have hzeroed := zeroed_append front (List.replicate length 0)
  rw [List.length_replicate] at hzeroed
  rw [contentHash, hashWithExclusions_singleton, hzeroed hpos hmax]

theorem contentHashValid_bound {b : C2paManifestBuilder} {hash : FixedBytes 32}
    {start length : UInt64} {text : List Char} :
    contentHashValid C text (some (b.bound hash start length).hashDataAssertion) = true ↔
      C.sha256 (zeroed (bytes text) [⟨start.toNat, length.toNat⟩]) = hash := by
  rw [contentHashValid, Bool.and_eq_true, decide_eq_true_iff, decide_eq_true_iff]
  constructor
  · rintro ⟨-, hhash⟩
    exact FixedBytes.ext_val hhash
  · rintro rfl
    exact ⟨rfl, rfl⟩

end Valid

/-! ## Edits -/

/-- What is hashed of data without a range has the hash of the front with zeros only if it is
that. -/
def NoCollision (C : Crates) (front data : Bytes) (length : Nat) : Prop :=
  C.sha256 (zeroed data [⟨front.length, length⟩]) = C.sha256 (front ++ List.replicate length 0) →
    zeroed data [⟨front.length, length⟩] = front ++ List.replicate length 0

section Edited

variable {C : Crates} {b : C2paManifestBuilder} {signer : Signer} {now : String}
  {nfc : List Char → List Char} {text attested edited : List Char}

theorem textManifest_attested (hC : C.Faithful) (hnfc : KeepsInvisible nfc)
    (hclean : decodeTextManifest text = .error NO_WRAPPER)
    (hattest : attestText C b signer now nfc text = .ok attested)
    (hsame : decodeTextManifest edited = decodeTextManifest attested) :
    ∃ exclLen m, textManifest C edited = .ok m
      ∧ extractHashData C m
        = some ((b.forText now).bound (contentHash C (bytes (nfc text)) exclLen.toNat)
          (UInt64.ofNat (bytes (nfc text)).length) exclLen).hashDataAssertion
      ∧ 0 < exclLen.toNat ∧ (bytes (nfc text)).length + exclLen.toNat < 2 ^ 64
      ∧ (bytes attested).length = (bytes (nfc text)).length + exclLen.toNat := by
  obtain ⟨exclLen, jumbf, -, hmax, hbuild, htarget, rfl⟩ := attestText_eq_ok.mp hattest
  obtain ⟨hsize, m, hdecode, hextract⟩ := decodeJumbf_of_buildJumbf hC hbuild
  refine ⟨exclLen, m, ?_, hextract, ?_, hmax, ?_⟩
  · have hnormal : decodeTextManifest (nfc text) = .error NO_WRAPPER :=
      (decodeTextManifest_nfc hnfc text).trans hclean
    rw [textManifest, hsame, decodeTextManifest_wrapper hnormal hsize]
    exact hdecode
  · rw [← htarget, encodeTextManifest, deterministicExclusionLength]
    exact Nat.succ_pos _
  · rw [bytes_append, List.length_append, length_encodeTextManifest, htarget]

end Edited

/-! ## The exclusion length -/

/-- A length that depends on itself by the width of its argument only settles: the first
iterate has two bytes of argument at least, and a few more bytes widen it once at most. -/
theorem width_settles {base : Nat} (hbase : 232 ≤ base) {f : Nat → Nat}
    (hf : ∀ n, f n = 4 * (base + width n) + 61) : f (f (f (f 0))) = f (f (f 0)) := by
  have h2 : ∀ n, 2 ^ 8 ≤ n → n < 2 ^ 16 → width n = 2 := by
    intro n hle hlt
    rw [width, if_neg (by omega), if_neg (by omega), if_pos hlt]
  have h4 : ∀ n, 2 ^ 16 ≤ n → n < 2 ^ 32 → width n = 4 := by
    intro n hle hlt
    rw [width, if_neg (by omega), if_neg (by omega), if_neg (by omega), if_pos hlt]
  have h8 : ∀ n, 2 ^ 32 ≤ n → width n = 8 := by
    intro n hle
    rw [width, if_neg (by omega), if_neg (by omega), if_neg (by omega), if_neg (by omega)]
  have h0 : width 0 = 0 := rfl
  have hfirst := hf 0
  rw [h0] at hfirst
  have hsecond := hf (f 0)
  have hthird := hf (f (f 0))
  have hfourth := hf (f (f (f 0)))
  rcases Nat.lt_or_ge (f 0) (2 ^ 16) with hlt | hge
  · rw [h2 _ (by omega) hlt] at hsecond
    rcases Nat.lt_or_ge (f (f 0)) (2 ^ 16) with hlt' | hge'
    · rw [h2 _ (by omega) hlt'] at hthird
      rw [h2 _ (by omega) (by omega)] at hfourth
      omega
    · rw [h4 _ hge' (by omega)] at hthird
      rw [h4 _ (by omega) (by omega)] at hfourth
      omega
  rcases Nat.lt_or_ge (f 0) (2 ^ 32) with hlt | hge
  · rw [h4 _ hge hlt] at hsecond
    rcases Nat.lt_or_ge (f (f 0)) (2 ^ 32) with hlt' | hge'
    · rw [h4 _ (by omega) hlt'] at hthird
      rw [h4 _ (by omega) (by omega)] at hfourth
      omega
    · rw [h8 _ hge'] at hthird
      rw [h8 _ (by omega)] at hfourth
      omega
  · rw [h8 _ hge] at hsecond
    rw [h8 _ (by omega)] at hthird
    rw [h8 _ (by omega)] at hfourth
    omega

/-- The loop stops at the first length that is the one of its own wrapper. -/
theorem resolveExclusion_converges {C : Crates} {b : C2paManifestBuilder} {signer : Signer}
    {now : String} {start : UInt64} {g : UInt64 → UInt64}
    (hbuild : ∀ x, ∃ jumbf, (b.bound placeholderHash start x).buildJumbf C signer now = .ok jumbf
      ∧ UInt64.ofNat (encodeTextManifest jumbf).2 = g x) :
    ∀ {rounds k : Nat} {x : UInt64}, k < rounds → g (g^[k] x) = g^[k] x →
      ∃ exclLen, resolveExclusion C b signer now start rounds x = .ok (some exclLen) := by
  intro rounds
  induction rounds with
  | zero => exact fun hk => absurd hk (Nat.not_lt_zero _)
  | succ rounds ih =>
    intro k x hk hfix
    obtain ⟨jumbf, hjumbf, htarget⟩ := hbuild x
    rw [resolveExclusion, hjumbf, res_ok_bind]
    dsimp only
    rw [htarget]
    by_cases hx : g x = x
    · exact ⟨x, if_pos hx⟩
    · rw [if_neg hx]
      cases k with
      | zero => exact absurd hfix hx
      | succ k =>
        rw [Function.iterate_succ_apply] at hfix
        exact ih (Nat.lt_of_succ_lt_succ hk) hfix

/-! ## Attested texts verify -/

section Ed25519

variable {C : Crates} {b : C2paManifestBuilder} {seed : FixedBytes 32} {now : String}

theorem length_val_sign (message : Bytes) : (C.ed25519.sign seed message).val.length = 64 :=
  (C.ed25519.sign seed message).size_eq

/-- What the store of a binding takes besides the argument of its length -/
def baseLength (C : Crates) (b : C2paManifestBuilder) (seed : FixedBytes 32) (time : String)
    (start : UInt64) : Nat :=
  (storeBox ((b.bound placeholderHash start 0).signedManifest C seed time)).length

variable (hash : FixedBytes 32) (start length : UInt64)

theorem length_bound (time : String) :
    (storeBox ((b.bound hash start length).signedManifest C seed time)).length
      = baseLength C b seed time start + width length.toNat := by
  have hlength := b.length_signedBy (C := C) (rfl : (ed25519Signer C seed).algorithm = _) rfl hash
    placeholderHash start length 0 time time
  have hsignature : ((b.bound hash start length).signatureAt C (ed25519Signer C seed) time).length
      = ((b.bound placeholderHash start 0).signatureAt C (ed25519Signer C seed) time).length :=
    (length_val_sign _).trans (length_val_sign _).symm
  have h0 : width (0 : UInt64).toNat = 0 := rfl
  rw [hsignature, h0] at hlength
  unfold baseLength signedManifest
  omega

@[simp] theorem chainBytes_bound (signer : Signer) :
    (b.bound hash start length).chainBytes signer = b.chainBytes signer := rfl

@[simp] theorem time_bound (now : String) : (b.bound hash start length).time now = b.time now := rfl

@[simp] theorem serializes_bound : (b.bound hash start length).Serializes ↔ b.Serializes := Iff.rfl

theorem target_bound (hash : FixedBytes 32) (start length : UInt64) (time : String) :
    (encodeTextManifest (storeBox ((b.bound hash start length).signedManifest C seed time))).2
      = 4 * (baseLength C b seed time start + width length.toNat) + 61 := by
  rw [encodeTextManifest, deterministicExclusionLength, length_bound, HEADER_SIZE]
  omega

/-- A store for an exclusion of the greatest length can be built. -/
def Buildable (C : Crates) (b : C2paManifestBuilder) (seed : FixedBytes 32) (now : String)
    (start : UInt64) : Prop :=
  ∃ jumbf, (b.bound placeholderHash start (-1)).buildJumbf C (ed25519Signer C seed) now = .ok jumbf

variable {start : UInt64}

section Bound

variable (hC : C.Faithful) (hkey : (b.chainBytes (ed25519Signer C seed)).length < 2 ^ 63)

include hC hkey

theorem buildJumbf_bound {hash : FixedBytes 32} {length : UInt64} {jumbf : Bytes} :
    (b.bound hash start length).buildJumbf C (ed25519Signer C seed) now = .ok jumbf ↔
      b.Serializes ∧ baseLength C b seed (b.time now) start + width length.toNat < 2 ^ 32
        ∧ jumbf = storeBox ((b.bound hash start length).signedManifest C seed (b.time now)) := by
  have hkey' : ((b.bound hash start length).chainBytes (ed25519Signer C seed)).length < 2 ^ 63 := by
    rw [chainBytes_bound]
    exact hkey
  rw [buildJumbf_of_works hC (works_ed25519Signer C seed) hkey', time_bound,
    serializes_bound, ← length_bound hash start length]
  rfl

theorem buildable_iff :
    Buildable C b seed now start ↔
      b.Serializes ∧ baseLength C b seed (b.time now) start + 8 < 2 ^ 32 := by
  have hwidth : width (-1 : UInt64).toNat = 8 := rfl
  unfold Buildable
  simp only [buildJumbf_bound hC hkey, hwidth]
  constructor
  · rintro ⟨jumbf, hserializes, hsize, -⟩
    exact ⟨hserializes, hsize⟩
  · rintro ⟨hserializes, hsize⟩
    exact ⟨_, hserializes, hsize, rfl⟩

theorem Buildable.bound (h : Buildable C b seed now start) (hash : FixedBytes 32)
    (length : UInt64) :
    (b.bound hash start length).buildJumbf C (ed25519Signer C seed) now
      = .ok (storeBox ((b.bound hash start length).signedManifest C seed (b.time now))) := by
  obtain ⟨hserializes, hsize⟩ := (buildable_iff hC hkey).mp h
  have hwidth := width_le length.toNat
  exact (buildJumbf_bound hC hkey).mpr ⟨hserializes, by omega, rfl⟩

theorem Buildable.length_lt (h : Buildable C b seed now start) (hash : FixedBytes 32)
    (length : UInt64) :
    (storeBox ((b.bound hash start length).signedManifest C seed (b.time now))).length
      < 2 ^ 32 := by
  have hsize := ((buildable_iff hC hkey).mp h).2
  have hwidth := width_le length.toNat
  rw [length_bound]
  omega

/-- The exclusion length is found within the iteration cap. -/
theorem Buildable.resolveExclusion (h : Buildable C b seed now start) :
    ∃ exclLen, C2pa.resolveExclusion C b (ed25519Signer C seed) now start MAX_FIXPOINT_ITERS 0
      = .ok (some exclLen) := by
  have hbase : 232 ≤ baseLength C b seed (b.time now) start := by
    rw [baseLength, length_storeBox]
    omega
  have hsmall := ((buildable_iff hC hkey).mp h).2
  let f : Nat → Nat := fun n => 4 * (baseLength C b seed (b.time now) start + width n) + 61
  have hlt : ∀ n, f n < 2 ^ 64 := by
    intro n
    have hwidth := width_le n
    show 4 * _ + 61 < _
    omega
  have hiterate : ∀ n, (UInt64.ofNat (f n)).toNat = f n :=
    fun n => UInt64.toNat_ofNat_of_lt' (hlt n)
  apply resolveExclusion_converges (g := fun x => UInt64.ofNat (f x.toNat)) _ (k := 3) (by decide)
  · have h0 : (0 : UInt64).toNat = 0 := rfl
    show UInt64.ofNat
        (f (UInt64.ofNat (f (UInt64.ofNat (f (UInt64.ofNat (f _)).toNat)).toNat)).toNat)
      = UInt64.ofNat (f (UInt64.ofNat (f (UInt64.ofNat (f _)).toNat)).toNat)
    simp only [hiterate, h0]
    exact congrArg _ (width_settles hbase fun _ => rfl)
  · intro x
    have hjumbf := h.bound hC hkey placeholderHash x
    exact ⟨_, hjumbf, congrArg _ (target_bound _ _ _ _)⟩

end Bound

variable {time : String} {front range : List Char}

theorem verifyManifestSignature_signedManifest (hC : C.Faithful) (hexclusive : C.ed25519.Exclusive)
    (hsize : (storeBox (b.signedManifest C seed time)).length < 2 ^ 32) :
    verifyManifestSignature C (b.signedManifest C seed time) = .ok true ↔
      x5chainKey C (b.chainBytes (ed25519Signer C seed)) = .ok (C.ed25519.publicKey seed).val := by
  have hlength := length_storeBox (b.signedManifest C seed time)
  exact verifyManifestSignature_envelope hC hexclusive rfl (by omega)

/-- Then the validation has nothing to report. -/
theorem errors_signedManifest
    (hvalid : verifyManifestSignature C (b.signedManifest C seed time) = .ok true) :
    (validateManifest C (b.signedManifest C seed time)).errors = [] := by
  have hne : (b.signedManifest C seed time).signature ≠ [] :=
    List.ne_nil_of_length_pos (length_encode_pos _)
  have hstructure : structureErrors C (b.signedManifest C seed time) = [] :=
    b.structureErrors_manifest C time _
  rw [validateManifest, hstructure, signatureResult, if_neg hne, hvalid]
  rfl

/-! ## Attested texts verify -/

/-- A text is attested, the result verifies, and its exclusion is the appended wrapper. -/
def AttestsAndVerifies (C : Crates) (b : C2paManifestBuilder) (seed : FixedBytes 32) (now : String)
    (nfc : List Char → List Char) (text : List Char) : Prop :=
  ∃ wrapper, attestText C b (ed25519Signer C seed) now nfc text = .ok (nfc text ++ wrapper)
    ∧ (∃ v, verifyText C (nfc text ++ wrapper) = .ok v ∧ v.isValid = true)
    ∧ ∃ m hd, textManifest C (nfc text ++ wrapper) = .ok m ∧ extractHashData C m = some hd
      ∧ hd.exclusions = [{ start := UInt64.ofNat (bytes (nfc text)).length
                           length := UInt64.ofNat (bytes wrapper).length }]

/-- A text contains a manifest with the hash of that very text. -/
def SelfBound (C : Crates) (text : List Char) : Prop :=
  ∃ m hd length, textManifest C text = .ok m ∧ extractHashData C m = some hd
    ∧ hd.hash = (C.sha256 (bytes text ++ List.replicate length 0)).val

variable {nfc : List Char → List Char} {text : List Char}

theorem decodeJumbf_signedManifest (hC : C.Faithful)
    (hsize : (storeBox (b.signedManifest C seed time)).length < 2 ^ 32) :
    decodeJumbf C (storeBox (b.signedManifest C seed time)) = .ok (b.signedManifest C seed time)
      ∧ extractHashData C (b.signedManifest C seed time) = some b.hashDataAssertion := by
  unfold signedManifest signedBy at hsize ⊢
  exact ⟨b.decodeJumbf_manifest hC hsize, extractHashData_manifest hC hsize⟩

/-- The hash of a binding is that of the text with the wrapper behind it, whatever the wrapper
is. -/
theorem contentHashValid_append {length : UInt64} (hpos : 0 < length.toNat)
    (hlength : (bytes range).length = length.toNat)
    (hmax : (bytes front).length + length.toNat < 2 ^ 64) :
    contentHashValid C (front ++ range)
      (some (b.bound (contentHash C (bytes front) length.toNat)
        (UInt64.ofNat (bytes front).length) length).hashDataAssertion) = true := by
  rw [contentHashValid_bound, contentHash_eq hpos hmax, UInt64.toNat_ofNat_of_lt'
    (Nat.lt_of_le_of_lt (Nat.le_add_right _ _) hmax), bytes_append, ← hlength,
    zeroed_append _ _ (by omega) (by omega)]

def attestedManifest (C : Crates) (b : C2paManifestBuilder) (seed : FixedBytes 32) (now : String)
    (front : List Char) (exclLen : UInt64) : C2paManifest :=
  ((b.forText now).bound (contentHash C (bytes front) exclLen.toNat)
    (UInt64.ofNat (bytes front).length) exclLen).signedManifest C seed
      ((b.forText now).time now)

/-- The loop converges, and the wrapper of the final manifest is as long as that of the last
one with a placeholder. -/
theorem attestText_of_buildable (hC : C.Faithful)
    (hkey : (b.chainBytes (ed25519Signer C seed)).length < 2 ^ 63)
    (hmem : (bytes (nfc text)).length < 2 ^ 63)
    (hbuildable : Buildable C (b.forText now) seed now
      (UInt64.ofNat (bytes (nfc text)).length)) :
    ∃ exclLen,
      attestText C b (ed25519Signer C seed) now nfc text = .ok (nfc text
          ++ (encodeTextManifest (storeBox (attestedManifest C b seed now (nfc text) exclLen))).1)
        ∧ (encodeTextManifest (storeBox (attestedManifest C b seed now (nfc text) exclLen))).2
          = exclLen.toNat
        ∧ 0 < exclLen.toNat ∧ (bytes (nfc text)).length + exclLen.toNat < 2 ^ 64
        ∧ (storeBox (attestedManifest C b seed now (nfc text) exclLen)).length < 2 ^ 32 := by
  have hkey' : ((b.forText now).chainBytes (ed25519Signer C seed)).length < 2 ^ 63 := hkey
  obtain ⟨exclLen, hresolve⟩ := hbuildable.resolveExclusion hC hkey'
  have hbase := ((buildable_iff hC hkey').mp hbuildable).2
  have hwidth := width_le exclLen.toNat
  obtain ⟨placed, hplaced, htarget⟩ := build_of_resolveExclusion hresolve
  obtain ⟨-, -, rfl⟩ := (buildJumbf_bound hC hkey').mp hplaced
  have hlength : exclLen.toNat = 4 * (baseLength C (b.forText now) seed ((b.forText now).time now)
      (UInt64.ofNat (bytes (nfc text)).length) + width exclLen.toNat) + 61 := by
    have hlt : 4 * (baseLength C (b.forText now) seed ((b.forText now).time now)
        (UInt64.ofNat (bytes (nfc text)).length) + width exclLen.toNat) + 61
          < 2 ^ 64 := by
      omega
    rw [target_bound] at htarget
    rw [← UInt64.toNat_ofNat_of_lt' hlt, htarget]
  have htotal : (bytes (nfc text)).length + exclLen.toNat < 2 ^ 64 := by omega
  have hfinal :=
    hbuildable.bound hC hkey' (contentHash C (bytes (nfc text)) exclLen.toNat) exclLen
  have htarget' := @target_bound C (b.forText now) seed
    (contentHash C (bytes (nfc text)) exclLen.toNat)
    (UInt64.ofNat (bytes (nfc text)).length) exclLen ((b.forText now).time now)
  rw [← hlength] at htarget'
  exact ⟨exclLen, attestText_eq_ok.mpr ⟨exclLen, _, hresolve, htotal, hfinal, htarget', rfl⟩,
    htarget', by omega, htotal, hbuildable.length_lt hC hkey' _ exclLen⟩

/-- Whatever stands behind the text verifies, if the manifest is read from it and it is as long
as the wrapper. -/
theorem verifyText_range (hC : C.Faithful) (hexclusive : C.ed25519.Exclusive)
    (hchain : x5chainKey C (b.chainBytes (ed25519Signer C seed))
      = .ok (C.ed25519.publicKey seed).val)
    {exclLen : UInt64}
    (hdecode : decodeTextManifest (front ++ range)
      = .ok (storeBox (attestedManifest C b seed now front exclLen)))
    (hsize : (storeBox (attestedManifest C b seed now front exclLen)).length < 2 ^ 32)
    (hpos : 0 < exclLen.toNat) (hlength : (bytes range).length = exclLen.toNat)
    (hmax : (bytes front).length + exclLen.toNat < 2 ^ 64) :
    ∃ v, verifyText C (front ++ range) = .ok v ∧ v.isValid = true := by
  obtain ⟨hread, hextract⟩ := decodeJumbf_signedManifest hC hsize
  have hm := textManifest_eq_ok.mpr ⟨_, hdecode, hread⟩
  have hsignature := (verifyManifestSignature_signedManifest hC hexclusive hsize).mpr hchain
  refine (verifyText_isValid hm).mpr ⟨hsignature, ?_, ?_⟩
  · rw [hextract]
    exact contentHashValid_append hpos hlength hmax
  · rw [errors_signedManifest hsignature]
    rfl

section Clean

variable (hC : C.Faithful) (hexclusive : C.ed25519.Exclusive) (hnfc : KeepsInvisible nfc)
  (hkey : (b.chainBytes (ed25519Signer C seed)).length < 2 ^ 63)
  (hmem : (bytes (nfc text)).length < 2 ^ 63)
  (hbuildable : Buildable C (b.forText now) seed now (UInt64.ofNat (bytes (nfc text)).length))
  (hchain : x5chainKey C (b.chainBytes (ed25519Signer C seed)) = .ok (C.ed25519.publicKey seed).val)
  (hclean : decodeTextManifest text = .error NO_WRAPPER)
include hC hexclusive hnfc hkey hmem hbuildable hchain hclean

theorem attestsAndVerifies_of_clean :
    AttestsAndVerifies C b seed now nfc text := by
  obtain ⟨exclLen, hattest, htarget, hpos, hmax, hsize⟩ :=
    attestText_of_buildable hC hkey hmem hbuildable
  have hlen := (length_encodeTextManifest _).trans htarget
  have hdecode := decodeTextManifest_wrapper ((decodeTextManifest_nfc hnfc text).trans hclean) hsize
  obtain ⟨hread, hextract⟩ := decodeJumbf_signedManifest hC hsize
  refine ⟨_, hattest, verifyText_range hC hexclusive hchain hdecode hsize hpos hlen hmax, _, _,
    textManifest_eq_ok.mpr ⟨_, hdecode, hread⟩, hextract, ?_⟩
  rw [hlen, UInt64.ofNat_toNat]
  rfl

/-- So does the text with a wrapper that has another padding of the same length. -/
theorem exists_wrapperWith_of_clean :
    ∃ jumbf, attestText C b (ed25519Signer C seed) now nfc text
        = .ok (nfc text ++ (encodeTextManifest jumbf).1)
      ∧ ∀ padding, (bytes padding).length = gap jumbf →
        decodeTextManifest (nfc text ++ wrapperWith jumbf padding) = .ok jumbf
          ∧ ∃ v, verifyText C (nfc text ++ wrapperWith jumbf padding) = .ok v
            ∧ v.isValid = true := by
  obtain ⟨exclLen, hattest, htarget, hpos, hmax, hsize⟩ :=
    attestText_of_buildable hC hkey hmem hbuildable
  refine ⟨_, hattest, fun padding hpadding => ?_⟩
  have hdecode : decodeTextManifest (nfc text
      ++ wrapperWith (storeBox (attestedManifest C b seed now (nfc text) exclLen)) padding)
        = .ok _ :=
    (decodeTextManifest_append ((decodeTextManifest_nfc hnfc text).trans hclean) _).trans
      (decodeTextManifest_encode _ _ hsize)
  exact ⟨hdecode, verifyText_range hC hexclusive hchain hdecode hsize hpos
    ((length_wrapperWith hpadding).trans htarget) hmax⟩

end Clean

/-- An attested text can be attested: stores with its exclusions can be built. -/
theorem buildable_of_attestText (hC : C.Faithful)
    (hkey : (b.chainBytes (ed25519Signer C seed)).length < 2 ^ 63) {attested : List Char}
    (h : attestText C b (ed25519Signer C seed) now nfc text = .ok attested) :
    Buildable C (b.forText now) seed now (UInt64.ofNat (bytes (nfc text)).length) := by
  have hkey' : ((b.forText now).chainBytes (ed25519Signer C seed)).length < 2 ^ 63 := hkey
  obtain ⟨exclLen, jumbf, -, -, hbuild, htarget, -⟩ := attestText_eq_ok.mp h
  obtain ⟨hserializes, hsize, rfl⟩ := (buildJumbf_bound hC hkey').mp hbuild
  rw [target_bound] at htarget
  refine (buildable_iff hC hkey').mpr ⟨hserializes, ?_⟩
  -- A store that is close to the limit has a wrapper with a length of the widest kind.
  by_cases hlong : 2 ^ 32 ≤ exclLen.toNat
  · have hwidth : width exclLen.toNat = 8 := by
      rw [width, if_neg (by omega), if_neg (by omega), if_neg (by omega), if_neg (by omega)]
    omega
  · omega

/-- A binding whose exclusion is all that follows a text has the hash of that text. -/
theorem hash_of_contentHashValid {front range : List Char} {hd : HashDataAssertion}
    (hexclusions : hd.exclusions = [{ start := UInt64.ofNat (bytes front).length
                                      length := UInt64.ofNat (bytes range).length }])
    (hpos : 0 < (bytes range).length)
    (hmax : (bytes front).length + (bytes range).length < 2 ^ 64)
    (hvalid : contentHashValid C (front ++ range) (some hd) = true) :
    hd.hash = (C.sha256 (bytes front ++ List.replicate (bytes range).length 0)).val := by
  have hfront : (bytes front).length < 2 ^ 64 := by omega
  have hrange : (bytes range).length < 2 ^ 64 := by omega
  rw [contentHashValid, Bool.and_eq_true, decide_eq_true_iff, decide_eq_true_iff, hexclusions,
    List.map_singleton, UInt64.toNat_ofNat_of_lt' hfront, UInt64.toNat_ofNat_of_lt' hrange,
    bytes_append, hashWithExclusions_singleton, zeroed_append _ _ hpos hmax] at hvalid
  exact hvalid.2.symm

theorem clean_of_attestsAndVerifies (hnfc : KeepsInvisible nfc) (hself : ¬ SelfBound C (nfc text))
    (h : AttestsAndVerifies C b seed now nfc text) :
    decodeTextManifest text = .error NO_WRAPPER := by
  obtain ⟨wrapper, hattest, hvalid, m, hd, hm, hextract, hexclusions⟩ := h
  obtain ⟨exclLen, jumbf, -, hmax, -, htarget, happend⟩ := attestText_eq_ok.mp hattest
  cases List.append_cancel_left happend
  have hlen := (length_encodeTextManifest jumbf).trans htarget
  have hpos : 0 < exclLen.toNat := by
    rw [← htarget, encodeTextManifest, deterministicExclusionLength]
    exact Nat.succ_pos _
  by_contra hne
  rw [← decodeTextManifest_nfc hnfc] at hne
  -- The first wrapper is in the text itself, and binds it.
  obtain ⟨inner, hinner, hdecode⟩ := textManifest_eq_ok.mp hm
  rw [encodeTextManifest, decodeTextManifest_append_of_ne hne] at hinner
  obtain ⟨-, hcontent, -⟩ := (verifyText_isValid hm).mp hvalid
  rw [hextract] at hcontent
  exact hself ⟨m, hd, _, textManifest_eq_ok.mpr ⟨inner, hinner, hdecode⟩, hextract,
    hash_of_contentHashValid hexclusions (by omega) (by omega) hcontent⟩

/-- An attested text can be attested again, but that does not verify: the first manifest is
found, which knows nothing of the second one. -/
theorem not_attestsAndVerifies_attested (hC : C.Faithful) (hnfc : KeepsInvisible nfc)
    {signer : Signer} {b' : C2paManifestBuilder} {now' : String} {attested : List Char}
    (hclean : decodeTextManifest text = .error NO_WRAPPER)
    (hattest : attestText C b' signer now' nfc text = .ok attested)
    (hnormal : nfc attested = attested) : ¬ AttestsAndVerifies C b seed now nfc attested := by
  rintro ⟨wrapper, hagain, -, m, hd, hm, hextract, hexclusions⟩
  obtain ⟨exclLen, first, hfirst, hextractFirst, hpos, hmax, hlength⟩ :=
    textManifest_attested hC hnfc hclean hattest rfl
  obtain ⟨exclLen', jumbf, -, -, -, -, happend⟩ := attestText_eq_ok.mp hagain
  cases List.append_cancel_left happend
  obtain ⟨inner, hinner, hdecode⟩ := textManifest_eq_ok.mp hm
  obtain ⟨inner', hinner', hdecode'⟩ := textManifest_eq_ok.mp hfirst
  have hne : decodeTextManifest attested ≠ .error NO_WRAPPER := by
    rw [hinner']
    exact nofun
  rw [hnormal, encodeTextManifest, decodeTextManifest_append_of_ne hne, hinner'] at hinner
  cases hinner
  cases hdecode.symm.trans hdecode'
  cases hextract.symm.trans hextractFirst
  -- The exclusion starts behind the first text, not behind the attested one.
  have hstart := congrArg (fun ranges => (ranges.map fun e => e.start.toNat)) hexclusions
  have hfront : (bytes (nfc text)).length < 2 ^ 64 := by omega
  have hwhole : (bytes attested).length < 2 ^ 64 := by omega
  rw [hnormal] at hstart
  have hstarts : (UInt64.ofNat (bytes (nfc text)).length).toNat
      = (UInt64.ofNat (bytes attested).length).toNat := (List.cons.inj hstart).1
  rw [UInt64.toNat_ofNat_of_lt' hfront, UInt64.toNat_ofNat_of_lt' hwhole] at hstarts
  omega

end Ed25519

/-! ## A short text -/

def plainBuilder : C2paManifestBuilder where
  documentHash := placeholderHash
  documentFilename := none
  packetId := [0xAA]
  processProof := [0xA0]
  evidenceChain := [0xA0]
  keystrokeCadence := none
  cognitiveMarkers := none
  vcEmbedded := none
  title := none
  format := none
  externalReference := none
  aiDisclosure := none
  ingredients := []
  cawgIdentity := none
  cawgTdm := none
  vcReference := none
  localTimestamp := none
  certDer := none
  certChain := []
  exclusions := []
  timestampToken := none
  createdAt := none

def plainSeed : FixedBytes 32 := FixedBytes.filled 32 9

def plainText : List Char := "hi".toList

def plainTime : String := "2026-01-01T00:00:00+00:00"

theorem keepsInvisible_id : KeepsInvisible id where
  split _ _ _ _ := rfl
  visible _ h := h
  empty _ := Iff.rfl

theorem plainText_clean : decodeTextManifest plainText = .error NO_WRAPPER := by decide

theorem plainBuilder_buildable : Buildable readingCrates (plainBuilder.forText plainTime) plainSeed
    plainTime (UInt64.ofNat (bytes (id plainText)).length) := by
  rw [buildable_iff readingCrates_faithful (by decide +kernel)]
  refine ⟨?_, by decide +kernel⟩
  -- The proof, the chain and the format of the text
  intro a ha
  simp only [furtherAssertions, forText, plainBuilder,
    assertionOf, Option.map_none, Option.toList_none, Option.isSome_none, Option.isSome_some,
    Bool.false_or, if_true, List.zipIdx_nil, List.map_nil, List.append_nil, List.cons_append,
    List.nil_append, List.mem_cons, List.not_mem_nil, or_false] at ha
  rcases ha with rfl | rfl | rfl
  · exact ⟨_, rfl⟩
  · exact ⟨_, rfl⟩
  · exact ⟨_, rfl⟩

theorem plainText_chain : x5chainKey readingCrates
    (plainBuilder.chainBytes (ed25519Signer readingCrates plainSeed))
      = .ok (readingCrates.ed25519.publicKey plainSeed).val := x5chainKey_val _

theorem plainText_key : (plainBuilder.chainBytes
    (ed25519Signer readingCrates plainSeed)).length < 2 ^ 63 := by decide +kernel

theorem plainText_memory : (bytes (id plainText)).length < 2 ^ 63 := by decide +kernel

theorem plainText_notSelfBound : ¬ SelfBound readingCrates (id plainText) := by
  rintro ⟨m, hd, length, hm, -⟩
  obtain ⟨jumbf, hjumbf, -⟩ := textManifest_eq_ok.mp hm
  cases plainText_clean.symm.trans hjumbf

/-! ## Attested texts verify -/

section Verifies

variable {C : Crates} {b : C2paManifestBuilder} {seed : FixedBytes 32} {now : String}
  {nfc : List Char → List Char} {text : List Char}

/-- Attesting a text and verifying it succeeds exactly if the builder can build a store, its
certificate is one of the signer, and the text has no wrapper yet. -/
theorem attestsAndVerifies_iff (hC : C.Faithful) (hexclusive : C.ed25519.Exclusive)
    (hnfc : KeepsInvisible nfc) (hkey : (b.chainBytes (ed25519Signer C seed)).length < 2 ^ 63)
    (hmem : (bytes (nfc text)).length < 2 ^ 63) (hself : ¬ SelfBound C (nfc text)) :
    AttestsAndVerifies C b seed now nfc text ↔
      Buildable C (b.forText now) seed now (UInt64.ofNat (bytes (nfc text)).length)
        ∧ x5chainKey C (b.chainBytes (ed25519Signer C seed)) = .ok (C.ed25519.publicKey seed).val
        ∧ decodeTextManifest text = .error NO_WRAPPER := by
  constructor
  · intro h
    have hclean := clean_of_attestsAndVerifies hnfc hself h
    obtain ⟨wrapper, hattest, hvalid, m, hd, hm, -⟩ := h
    have hbuildable := buildable_of_attestText hC hkey hattest
    have hkey' : ((b.forText now).chainBytes (ed25519Signer C seed)).length < 2 ^ 63 := hkey
    refine ⟨hbuildable, ?_, hclean⟩
    obtain ⟨exclLen, jumbf, -, -, hbuild, -, happend⟩ := attestText_eq_ok.mp hattest
    cases List.append_cancel_left happend
    obtain ⟨-, -, rfl⟩ := (buildJumbf_bound hC hkey').mp hbuild
    have hsize :=
      hbuildable.length_lt hC hkey' (contentHash C (bytes (nfc text)) exclLen.toNat)
      exclLen
    have hdecode :=
      decodeTextManifest_wrapper ((decodeTextManifest_nfc hnfc text).trans hclean) hsize
    obtain ⟨hread, -⟩ := decodeJumbf_signedManifest hC hsize
    obtain ⟨hsignature, -, -⟩ :=
      (verifyText_isValid (textManifest_eq_ok.mpr ⟨_, hdecode, hread⟩)).mp hvalid
    exact (verifyManifestSignature_signedManifest hC hexclusive hsize).mp hsignature
  · rintro ⟨hbuildable, hchain, hclean⟩
    exact attestsAndVerifies_of_clean hC hexclusive hnfc hkey hmem hbuildable hchain hclean

end Verifies

theorem attestsAndVerifies_plainText :
    AttestsAndVerifies readingCrates plainBuilder plainSeed plainTime id plainText :=
  (attestsAndVerifies_iff readingCrates_faithful readingCrates_exclusive keepsInvisible_id
    plainText_key plainText_memory plainText_notSelfBound).mpr
    ⟨plainBuilder_buildable, plainText_chain, plainText_clean⟩

/-- The same text, attested twice -/
theorem not_attestsAndVerifies_twice :
    ∃ attested,
      attestText readingCrates plainBuilder (ed25519Signer readingCrates plainSeed) plainTime
        id plainText = .ok attested
      ∧ ¬ AttestsAndVerifies readingCrates plainBuilder plainSeed plainTime id attested := by
  obtain ⟨exclLen, hattest, -⟩ := attestText_of_buildable readingCrates_faithful plainText_key
    plainText_memory plainBuilder_buildable
  exact ⟨_, hattest, not_attestsAndVerifies_attested readingCrates_faithful keepsInvisible_id
    plainText_clean hattest rfl⟩

/-! ## Verified texts are the attested ones, as far as the hash goes -/

section Verified

variable {C : Crates} {b : C2paManifestBuilder} {signer : Signer} {now : String}
  {nfc : List Char → List Char} {text attested edited : List Char}

/-- A text that verifies with the manifest of an attested one starts with the same text and
is as long; nothing visible has changed exactly when what follows is invisible. -/
theorem visible_eq_iff_of_verifyText (hC : C.Faithful) (hnfc : KeepsInvisible nfc)
    (hclean : decodeTextManifest text = .error NO_WRAPPER)
    (hattest : attestText C b signer now nfc text = .ok attested)
    (hsame : decodeTextManifest edited = decodeTextManifest attested)
    (hsha : NoCollision C (bytes (nfc text)) (bytes edited)
      ((bytes attested).length - (bytes (nfc text)).length))
    (hvalid : ∃ v, verifyText C edited = .ok v ∧ v.isValid = true) :
    nfc text <+: edited ∧ (bytes edited).length = (bytes attested).length
      ∧ (visible edited = visible (nfc text)
        ↔ ∀ c ∈ edited.drop (nfc text).length, Invisible c) := by
  obtain ⟨exclLen, m, hm, hextract, hpos, hmax, hlength⟩ :=
    textManifest_attested hC hnfc hclean hattest hsame
  obtain ⟨-, hcontent, -⟩ := (verifyText_isValid hm).mp hvalid
  rw [hextract, contentHashValid_bound, contentHash_eq hpos hmax, UInt64.toNat_ofNat_of_lt'
    (Nat.lt_of_le_of_lt (Nat.le_add_right _ _) hmax)] at hcontent
  rw [hlength, Nat.add_sub_cancel_left] at hsha
  obtain ⟨range, hrange, hlen⟩ := eq_append_of_zeroed hpos hmax (hsha hcontent)
  obtain ⟨after, rfl, rfl⟩ := exists_of_bytes hrange.symm
  refine ⟨List.prefix_append _ _, ?_, ?_⟩
  · rw [hlength, bytes_append, List.length_append, hlen]
  · rw [visible_append, List.drop_left, List.append_right_eq_self, visible_eq_nil]

end Verified

theorem exists_wrapperWith_plainText :
    ∃ jumbf, attestText readingCrates plainBuilder (ed25519Signer readingCrates plainSeed) plainTime
        id plainText = .ok (plainText ++ (encodeTextManifest jumbf).1)
      ∧ ∀ padding, (bytes padding).length = gap jumbf →
        decodeTextManifest (plainText ++ wrapperWith jumbf padding) = .ok jumbf
          ∧ ∃ v, verifyText readingCrates (plainText ++ wrapperWith jumbf padding) = .ok v
            ∧ v.isValid = true :=
  exists_wrapperWith_of_clean readingCrates_faithful readingCrates_exclusive keepsInvisible_id
    plainText_key
    plainText_memory plainBuilder_buildable plainText_chain plainText_clean

/-- The padding of a wrapper, replaced by other selectors -/
theorem visible_eq_iff_of_verifyText_shifted :
    ∃ attested edited, attestText readingCrates plainBuilder (ed25519Signer readingCrates plainSeed)
        plainTime id plainText = .ok attested ∧ edited ≠ attested
      ∧ plainText <+: edited ∧ (bytes edited).length = (bytes attested).length
      ∧ (visible edited = visible plainText ↔ ∀ c ∈ edited.drop plainText.length, Invisible c) := by
  obtain ⟨jumbf, hattest, hpadded⟩ := exists_wrapperWith_plainText
  have hlen := length_shiftedPadding (eight_le_gap jumbf)
  obtain ⟨hdecode, hvalid⟩ := hpadded _ hlen
  obtain ⟨hattested, -⟩ := hpadded _ (length_padding (eight_le_gap jumbf))
  have hwrapper := (length_wrapperWith hlen).trans (length_encodeTextManifest jumbf).symm
  obtain ⟨exclLen, m, -, -, hpos, hmax, hlength⟩ := textManifest_attested readingCrates_faithful
    keepsInvisible_id plainText_clean hattest rfl
  rw [bytes_append, List.length_append, id, Nat.add_right_inj] at hlength
  rw [id] at hmax
  -- What is hashed is that without any collision.
  have hsha : NoCollision readingCrates (bytes (id plainText))
      (bytes (plainText ++ wrapperWith jumbf (shiftedPadding (gap jumbf))))
      ((bytes (plainText ++ (encodeTextManifest jumbf).1)).length
        - (bytes (id plainText)).length) := by
    rw [bytes_append, bytes_append, List.length_append, id, Nat.add_sub_cancel_left,
      ← hwrapper]
    exact fun _ => zeroed_append _ _ (by omega) (by omega)
  refine ⟨_, _, hattest, ?_,
    @visible_eq_iff_of_verifyText readingCrates plainBuilder _ _ id plainText
    _ _ readingCrates_faithful keepsInvisible_id plainText_clean hattest
    (hdecode.trans hattested.symm) hsha hvalid⟩
  intro heq
  exact shiftedPadding_ne (eight_le_gap jumbf)
    (List.append_cancel_left (List.cons.inj (List.append_cancel_left heq)).2)

/-- The padding of a wrapper, replaced by letters -/
theorem visible_ne_of_verifyText :
    ∃ attested jumbf edited,
      attestText readingCrates plainBuilder (ed25519Signer readingCrates plainSeed) plainTime id
          plainText = .ok attested
        ∧ decodeTextManifest attested = .ok jumbf ∧ decodeTextManifest edited = .ok jumbf
        ∧ (∃ v, verifyText readingCrates edited = .ok v ∧ v.isValid = true)
        ∧ visible edited ≠ visible plainText := by
  obtain ⟨jumbf, hattest, hpadded⟩ := exists_wrapperWith_plainText
  obtain ⟨hdecode, hvalid⟩ := hpadded _ (length_visiblePadding _)
  refine ⟨_, jumbf, _, hattest, (hpadded _ (length_padding (eight_le_gap jumbf))).1,
    hdecode, hvalid, ?_⟩
  have hgap := eight_le_gap jumbf
  rw [visible_append, visible_wrapperWith, ne_eq, List.append_right_eq_self,
    visiblePadding, visible, List.filter_replicate_of_pos (by decide), List.replicate_eq_nil_iff]
  omega

end WritersProof.C2pa
