/-
  WritersProof.C2pa.Built

  What a builder builds: a manifest that depends on the clock only by the time of its
  action and on the signer only by the signature, in a store that is read back.
-/
import WritersProof.C2pa.Builder
import WritersProof.C2pa.Store
import WritersProof.C2pa.Binding

namespace WritersProof.C2pa

open Rust Protocol Bytes Cbor

/-! ## Assertion boxes -/

namespace Assertion

variable (a : Assertion)

def bytes : Bytes :=
  superbox (if a.isCbor then JUMBF_CBOR_UUID else JUMBF_JSON_UUID) a.label
    (box (if a.isCbor then CBOR else JSON) (a.content.toOption.getD []))

def Serializes : Prop := ∃ content, a.content = .ok content

theorem bytes_eq_box : a.bytes = box JUMB
    (box JUMD (descriptionBody (if a.isCbor then JUMBF_CBOR_UUID else JUMBF_JSON_UUID) a.label)
      ++ box (if a.isCbor then CBOR else JSON) (a.content.toOption.getD [])) := rfl

theorem eight_le_length_bytes : 8 ≤ a.bytes.length := by
  rw [bytes, length_superbox]
  omega

theorem length_bytes :
    a.bytes.length = 42 + (utf8 a.label).length + (a.content.toOption.getD []).length := by
  have huuid : (if a.isCbor then JUMBF_CBOR_UUID else JUMBF_JSON_UUID).length = 16 := by
    cases a.isCbor <;> rfl
  have htype : (if a.isCbor then CBOR else JSON).length = 4 := by cases a.isCbor <;> rfl
  rw [bytes, length_superbox, length_descriptionBody huuid, length_box htype]
  omega

end Assertion

/-- Descriptions and contents are written as long as the whole box is. -/
theorem buildAssertionJumbf_eq_ok {label : String} {uuid content bytes : Bytes} {isCbor : Bool} :
    buildAssertionJumbf label uuid content isCbor = .ok bytes ↔
      (superbox uuid label (box (if isCbor then CBOR else JSON) content)).length < 2 ^ 32
        ∧ bytes = superbox uuid label (box (if isCbor then CBOR else JSON) content) := by
  have hsuper := fun content => @writeSuperbox_eq_ok uuid content bytes label
  have htype : (if isCbor then CBOR else JSON).length = 4 := by cases isCbor <;> rfl
  unfold writeSuperbox at hsuper
  unfold buildAssertionJumbf
  simp only [res_bind_eq_ok, writeBox_eq_ok] at hsuper ⊢
  constructor
  · rintro ⟨description, hdescription, _, ⟨-, rfl⟩, hwritten⟩
    exact (hsuper _).mp ⟨description, hdescription, hwritten⟩
  · rintro ⟨hsize, hbytes⟩
    obtain ⟨description, hdescription, hwritten⟩ := (hsuper _).mpr ⟨hsize, hbytes⟩
    refine ⟨description, hdescription, _, ⟨?_, rfl⟩, hwritten⟩
    rw [length_superbox, length_box htype] at hsize
    omega

/-! ## References of one size -/

theorem HashedUri.length_toCbor (url : String) (alg : Option String) {hash hash' : Bytes}
    (h : hash.length = hash'.length) :
    (HashedUri.toCbor { url, hash, alg }).encode.length
      = (HashedUri.toCbor { url, hash := hash', alg }).encode.length := by
  simp only [HashedUri.toCbor, List.cons_append, List.nil_append, encode, encodeEntries,
    encodeEntry, List.length_append, List.length_cons, h]

theorem C2paClaim.length_toCbor (claim : C2paClaim) {refs : List HashedUri}
    (hcount : claim.createdAssertions.length = refs.length)
    (hitems : (encodeItems (claim.createdAssertions.map HashedUri.toCbor)).length
      = (encodeItems (refs.map HashedUri.toCbor)).length) :
    claim.toCbor.encode.length
      = (C2paClaim.toCbor { claim with createdAssertions := refs }).encode.length := by
  have hentries : ∀ xs ys : List (Cbor × Cbor), (encodeEntries (xs ++ ys)).length
      = (encodeEntries xs).length + (encodeEntries ys).length := by
    intro xs ys
    induction xs with
    | nil => simp [encodeEntries]
    | cons x xs ih =>
      simp only [List.cons_append, encodeEntries, List.length_append, ih, Nat.add_assoc]
  simp only [C2paClaim.toCbor, encode, hentries, encodeEntries, encodeEntry,
    List.length_append, List.length_cons, List.length_map, hcount, hitems]

/-- A binding of one range depends on the length of the range by the width of its argument. -/
theorem HashDataAssertion.length_toCbor (a : HashDataAssertion) {hash : Bytes}
    (h : a.hash.length = hash.length) (start length length' : UInt64) :
    (HashDataAssertion.toCbor { a with exclusions := [{ start, length }] }).encode.length
        + width length'.toNat
      = (HashDataAssertion.toCbor
          { a with hash := hash, exclusions := [{ start, length := length' }] }).encode.length
        + width length.toNat := by
  simp only [HashDataAssertion.toCbor, ExclusionRange.toCbor, if_neg (List.cons_ne_nil _ _),
    List.map_cons, List.map_nil, List.cons_append, List.nil_append, encode, encodeItems,
    encodeEntries, encodeEntry, List.length_append, List.length_cons, List.length_nil,
    length_header, h]
  omega

namespace C2paManifestBuilder

variable {a : Assertion}

theorem assertionJumbf_eq_ok {bytes : Bytes} :
    assertionJumbf a = .ok bytes ↔ a.Serializes ∧ a.bytes.length < 2 ^ 32 ∧ bytes = a.bytes := by
  have hwrite : ∀ content, (if a.isCbor then buildAssertionJumbfCbor a.label content
      else buildAssertionJumbfJson a.label content)
        = buildAssertionJumbf a.label
          (if a.isCbor then JUMBF_CBOR_UUID else JUMBF_JSON_UUID) content
          a.isCbor := by
    intro content
    cases a.isCbor <;> rfl
  unfold assertionJumbf Assertion.Serializes Assertion.bytes
  simp only [res_bind_eq_ok, hwrite, buildAssertionJumbf_eq_ok]
  constructor
  · rintro ⟨content, hcontent, hsize, rfl⟩
    rw [hcontent]
    exact ⟨⟨content, rfl⟩, hsize, rfl⟩
  · rintro ⟨⟨content, hcontent⟩, hsize, rfl⟩
    rw [hcontent] at hsize ⊢
    exact ⟨content, rfl, hsize, rfl⟩

theorem buildBoxes_eq_ok {as : List Assertion} {boxes : List (String × Bytes)} :
    buildBoxes as = .ok boxes ↔ (∀ a ∈ as, a.Serializes ∧ a.bytes.length < 2 ^ 32)
      ∧ boxes = as.map fun a => (a.label, a.bytes) := by
  induction as generalizing boxes with
  | nil =>
    rw [buildBoxes, Except.ok.injEq, eq_comm]
    exact ⟨fun h => ⟨fun a ha => absurd ha List.not_mem_nil, h⟩, fun h => h.2⟩
  | cons a as ih =>
    rw [buildBoxes]
    simp only [res_bind_eq_ok, assertionJumbf_eq_ok, ih, Except.ok.injEq, List.forall_mem_cons]
    constructor
    · rintro ⟨_, ⟨hserializes, hsize, rfl⟩, _, ⟨hrest, rfl⟩, rfl⟩
      exact ⟨⟨⟨hserializes, hsize⟩, hrest⟩, rfl⟩
    · rintro ⟨⟨⟨hserializes, hsize⟩, hrest⟩, rfl⟩
      exact ⟨_, ⟨hserializes, hsize, rfl⟩, _, ⟨hrest, rfl⟩, rfl⟩

variable (b : C2paManifestBuilder)

/-! ## The manifest -/

def boxes (time : String) : List (String × Bytes) :=
  (b.assertions time).map fun a => (a.label, a.bytes)

def claimAt (C : Crates) (time : String) : C2paClaim := b.claimOver C (b.boxes time)

def manifest (C : Crates) (time : String) (signature : Bytes) : C2paManifest where
  claim := b.claimAt C time
  claimCbor := (b.claimAt C time).toCbor.encode
  manifestLabel := b.manifestLabel
  assertionBoxes := (b.boxes time).map Prod.snd
  signature := signature

/-- The time of the action: what the caller has set, or the clock. -/
def time (now : String) : String := b.createdAt.getD now

def Serializes : Prop := ∀ a ∈ b.furtherAssertions, a.Serializes

theorem serializes_assertions {b : C2paManifestBuilder} {time : String} :
    (∀ a ∈ b.assertions time, a.Serializes) ↔ b.Serializes := by
  rw [assertions, List.forall_mem_append]
  constructor
  · exact fun h => h.2
  · intro h
    refine ⟨?_, h⟩
    intro a ha
    rcases List.mem_cons.mp ha with rfl | ha
    · exact ⟨_, rfl⟩
    · rw [List.mem_singleton.mp ha]
      exact ⟨_, rfl⟩

theorem filter_boxes (time : String) :
    ((b.boxes time).filter fun entry => 8 ≤ entry.2.length) = b.boxes time := by
  rw [List.filter_eq_self]
  intro entry hentry
  obtain ⟨a, -, rfl⟩ := List.mem_map.mp hentry
  exact decide_eq_true a.eight_le_length_bytes

variable {time label : String} {b b' : C2paManifestBuilder} (C : Crates)

theorem length_le_of_mem_boxes (signature : Bytes) (ha : a ∈ b.assertions time) :
    a.bytes.length ≤ (storeBox (b.manifest C time signature)).length := by
  have hmem : a.bytes ∈ (b.manifest C time signature).assertionBoxes :=
    List.mem_map.mpr ⟨(a.label, a.bytes), List.mem_map.mpr ⟨a, ha, rfl⟩, rfl⟩
  have hflatten := (List.sublist_flatten_of_mem hmem).length_le
  have hassertions : (assertionsBox (b.manifest C time signature)).length = _ :=
    length_superbox _ _ _
  have hmanifest : (manifestBox (b.manifest C time signature)).length = _ := length_superbox _ _ _
  have hstore : (storeBox (b.manifest C time signature)).length = _ := length_superbox _ _ _
  rw [List.length_append, List.length_append] at hmanifest
  omega

/-- A store is built if everything serializes, the signer signs and the store does not
outgrow a `u32`. -/
theorem buildJumbf_eq_ok {C : Crates} {signer : Signer} {now : String} {data : Bytes} :
    b.buildJumbf C signer now = .ok data ↔
      b.Serializes ∧ ∃ signature,
        b.signClaim C signer (b.claimAt C (b.time now)).toCbor.encode = .ok signature
        ∧ (storeBox (b.manifest C (b.time now) signature)).length < 2 ^ 32
        ∧ data = storeBox (b.manifest C (b.time now) signature) := by
  have hfilter := b.filter_boxes (b.time now)
  rw [boxes, time] at hfilter
  unfold buildJumbf buildManifest
  simp only [res_bind_eq_ok, buildBoxes_eq_ok, Except.ok.injEq, encodeJumbf_eq_ok]
  rw [← @serializes_assertions b (b.time now)]
  constructor
  · rintro ⟨_, ⟨_, ⟨hfits, rfl⟩, signature, hsign, rfl⟩, hsize, rfl⟩
    rw [hfilter] at hsign hsize ⊢
    exact ⟨fun a ha => (hfits a ha).1, signature, hsign, hsize, rfl⟩
  · rintro ⟨hserializes, signature, hsign, hsize, rfl⟩
    refine ⟨_, ⟨_, ⟨?_, rfl⟩, signature, ?_, rfl⟩, ?_⟩
    · intro a ha
      exact ⟨hserializes a ha, (length_le_of_mem_boxes C signature ha).trans_lt hsize⟩
    · rw [hfilter]
      exact hsign
    · rw [hfilter]
      exact ⟨hsize, rfl⟩

/-! ## Labels -/

theorem label_of_mem_furtherAssertions (ha : a ∈ b.furtherAssertions) :
    a.label ∈ FURTHER_LABELS ∨ ∃ i : Nat, a.label = s!"{ASSERTION_LABEL_INGREDIENT}.{i}" := by
  have hof : ∀ {label : String} {isCbor : Bool} {content : Option Bytes},
      a ∈ assertionOf label isCbor content → a.label = label := by
    intro label isCbor content h
    obtain ⟨bytes, -, rfl⟩ := Option.map_eq_some_iff.mp (Option.mem_toList.mp h)
    rfl
  simp only [furtherAssertions, List.mem_append, List.mem_cons, List.not_mem_nil, or_false] at ha
  unfold FURTHER_LABELS
  rcases ha with ((((((((((((rfl | rfl) | h) | h) | h) | h) | h) | h) | h) | h) | h) | h) | h)
  · simp
  · simp
  · simp [hof h]
  · simp [hof h]
  · obtain ⟨json, -, rfl⟩ := Option.map_eq_some_iff.mp (Option.mem_toList.mp h)
    simp
  · split at h
    · rw [List.mem_singleton.mp h]
      simp
    · exact absurd h List.not_mem_nil
  · obtain ⟨reference, -, rfl⟩ := Option.map_eq_some_iff.mp (Option.mem_toList.mp h)
    simp
  · simp [hof h]
  · obtain ⟨entry, -, rfl⟩ := List.mem_map.mp h
    exact .inr ⟨_, rfl⟩
  · simp [hof h]
  · simp [hof h]
  · simp [hof h]
  · simp [hof h]

theorem slash_notMem_label (ha : a ∈ b.assertions time) : (0x2F : UInt8) ∉ utf8 a.label := by
  rw [assertions, List.mem_append] at ha
  rcases ha with ha | ha
  · have hlabel : a.label ∈ [ASSERTION_LABEL_HASH_DATA, ASSERTION_LABEL_ACTIONS] :=
      List.mem_map_of_mem (f := Assertion.label) ha
    exact slash_notMem_of_mem (List.mem_append_left _ hlabel)
  · rcases label_of_mem_furtherAssertions ha with hlabel | ⟨i, hlabel⟩
    · exact slash_notMem_of_mem (List.mem_append_right _ hlabel)
    · have hbytes : utf8 a.label
          = utf8 (ASSERTION_LABEL_INGREDIENT ++ ".") ++ utf8 (toString i) := by
        rw [hlabel, ← Text.utf8_append]
        rfl
      rw [hbytes, List.mem_append]
      rintro (h | h)
      · exact ingredient_bytes.1 h
      · exact absurd (Text.mem_utf8_toString h).1 (by decide)

theorem label_ne_of_mem_furtherAssertions (ha : a ∈ b.furtherAssertions) :
    a.label ≠ ASSERTION_LABEL_HASH_DATA ∧ a.label ≠ ASSERTION_LABEL_ACTIONS := by
  rcases label_of_mem_furtherAssertions ha with hlabel | ⟨i, hlabel⟩
  · exact label_ne_of_mem hlabel
  · -- The sixth letter differs.
    have hbytes : utf8 a.label
        = utf8 (ASSERTION_LABEL_INGREDIENT ++ ".") ++ utf8 (toString i) := by
      rw [hlabel, ← Text.utf8_append]
      rfl
    have hsixth : (utf8 a.label)[5]? = some 0x69 := by
      obtain ⟨hlt, hletter⟩ := List.getElem?_eq_some_iff.mp ingredient_bytes.2
      rw [hbytes, List.getElem?_append_left hlt]
      exact ingredient_bytes.2
    constructor
    · intro h
      rw [h] at hsixth
      exact document_bytes.1 hsixth
    · intro h
      rw [h] at hsixth
      exact document_bytes.2 hsixth

/-! ## Structure -/

theorem utf8_url (manifestLabel label : String) (box : Bytes) :
    utf8 (hashedUri C manifestLabel label box).url
      = utf8 ("self#jumbf=/c2pa/" ++ manifestLabel ++ "/c2pa.assertions")
        ++ 0x2F :: utf8 label := by
  have hurl : (hashedUri C manifestLabel label box).url
      = "self#jumbf=/c2pa/" ++ manifestLabel ++ "/c2pa.assertions/" ++ label := rfl
  rw [hurl, Text.utf8_append, Text.utf8_append _ "/c2pa.assertions/", utf8_assertionsPath,
    Text.utf8_append _ "/c2pa.assertions"]
  simp only [List.append_assoc, List.singleton_append]

theorem contains_append (front part after : String) :
    contains (front ++ part ++ after) part = true := by
  apply decide_eq_true
  rw [Text.utf8_append, Text.utf8_append]
  exact List.infix_append _ _ _

theorem append_ne_empty {s : String} (hs : s ≠ "") (t : String) : s ++ t ≠ "" :=
  fun h => hs (String.append_eq_empty_iff.mp h).1

theorem urlHasLabel_hashedUri (manifestLabel : String) {other : String} (box : Bytes)
    (hlabel : (0x2F : UInt8) ∉ utf8 label) (hother : (0x2F : UInt8) ∉ utf8 other) :
    urlHasLabel (hashedUri C manifestLabel label box).url other = decide (label = other) := by
  have hslash : utf8 ("/" ++ other) = 0x2F :: utf8 other := by
    rw [Text.utf8_append]
    rfl
  rw [urlHasLabel, utf8_url, hslash]
  apply decide_eq_decide.mpr
  rw [Text.suffix_cons_iff hlabel hother]
  exact ⟨fun h => (utf8_injective h).symm, fun h => h ▸ rfl⟩

theorem createdAssertions_claimAt (time : String) :
    (b.claimAt C time).createdAssertions
      = (b.assertions time).map fun a => hashedUri C b.manifestLabel a.label a.bytes := by
  show (List.map _ (List.map _ _)) = _
  rw [List.map_map]
  rfl

/-- One reference is to the assertion on the document, and one to that on the actions. -/
theorem countErrors_manifest (time : String) (signature : Bytes) (what : String)
    (hlabel : label = ASSERTION_LABEL_HASH_DATA ∨ label = ASSERTION_LABEL_ACTIONS) :
    countErrors (b.manifest C time signature) label what = [] := by
  have hslash : (0x2F : UInt8) ∉ utf8 label := by
    apply slash_notMem_of_mem
    apply List.mem_append_left
    rcases hlabel with rfl | rfl
    · exact List.mem_cons_self
    · exact List.mem_cons_of_mem _ List.mem_cons_self
  have hcount : (b.manifest C time signature).claim.createdAssertions.countP
      (fun a => urlHasLabel a.url label) = 1 := by
    show (b.claimAt C time).createdAssertions.countP _ = 1
    have hlabels : (b.assertions time).countP
          ((fun a : HashedUri => urlHasLabel a.url label)
            ∘ fun a => hashedUri C b.manifestLabel a.label a.bytes)
        = (b.assertions time).countP fun a => decide (a.label = label) := by
      apply List.countP_congr
      intro a ha
      rw [Function.comp_apply, urlHasLabel_hashedUri C _ _ (slash_notMem_label ha) hslash]
    have hfurther : b.furtherAssertions.countP (fun a => decide (a.label = label)) = 0 := by
      rw [List.countP_eq_zero]
      intro a ha
      have hne := label_ne_of_mem_furtherAssertions ha
      rcases hlabel with rfl | rfl
      · exact fun h => hne.1 (of_decide_eq_true h)
      · exact fun h => hne.2 (of_decide_eq_true h)
    rw [createdAssertions_claimAt, List.countP_map, hlabels, assertions, List.countP_append,
      hfurther]
    rcases hlabel with rfl | rfl
    · rfl
    · rfl
  rw [countErrors, hcount]
  rfl

/-- Its structure has no errors. -/
theorem structureErrors_manifest (time : String) (signature : Bytes) :
    structureErrors C (b.manifest C time signature) = [] := by
  have hcreated : (b.manifest C time signature).claim.createdAssertions = _ :=
    b.createdAssertions_claimAt C time
  have hboxes : (b.manifest C time signature).assertionBoxes
      = (b.assertions time).map Assertion.bytes := List.map_map
  have hmem : ∀ {i : Nat} {a : HashedUri},
      (a, i) ∈ (b.manifest C time signature).claim.createdAssertions.zipIdx →
        ∃ assertion ∈ b.assertions time,
          a = hashedUri C b.manifestLabel assertion.label assertion.bytes := by
    intro i a h
    rw [List.mem_zipIdx_iff_getElem?] at h
    obtain ⟨assertion, hassertion, rfl⟩ := List.mem_map.mp (hcreated ▸ List.mem_of_getElem? h)
    exact ⟨assertion, hassertion, rfl⟩
  unfold structureErrors
  simp only [List.append_eq_nil_iff, List.flatMap_eq_nil_iff, errorIf_eq_nil]
  refine ⟨⟨⟨⟨⟨⟨⟨⟨⟨?_, ?_⟩, ?_⟩, ?_⟩, ?_⟩, ?_⟩, ?_⟩, ?_⟩, ?_⟩, ?_⟩
  · exact b.countErrors_manifest C time signature _ (.inl rfl)
  · exact b.countErrors_manifest C time signature _ (.inr rfl)
  · rintro ⟨a, i⟩ h
    obtain ⟨assertion, -, rfl⟩ := hmem h
    have hcontains := contains_append "self#jumbf=/c2pa/" b.manifestLabel
      ("/c2pa.assertions/" ++ assertion.label)
    rw [← String.append_assoc] at hcontains
    exact fun h => Bool.false_ne_true (h.symm.trans hcontains)
  · have hcontains := contains_append "self#jumbf=/c2pa/" b.manifestLabel "/c2pa.signature"
    exact fun h => Bool.false_ne_true (h.symm.trans hcontains)
  · exact (by decide : "CPoE/authorproof_protocol" ≠ "")
  · exact append_ne_empty (by decide) _
  · exact append_ne_empty (append_ne_empty (by decide) _) _
  · rintro ⟨a, i⟩ h
    obtain ⟨assertion, -, rfl⟩ := hmem h
    have hlength : (hashedUri C b.manifestLabel assertion.label assertion.bytes).hash.length
        = expectedHashLen (b.manifest C time signature).claim.alg :=
      (C.sha256 (assertion.bytes.drop 8)).size_eq
    dsimp only
    rw [referenceErrors, if_neg (not_not.mpr hlength), errorIf_eq_nil]
    exact append_ne_empty (append_ne_empty (append_ne_empty (by decide) _) _) _
  · rw [hcreated, hboxes, List.length_map, List.length_map]
    exact not_not.mpr rfl
  · rintro ⟨⟨a, box⟩, i⟩ h
    rw [hcreated, hboxes, List.zip_map', List.mem_zipIdx_iff_getElem?] at h
    obtain ⟨assertion, -, hpair⟩ := List.mem_map.mp (List.mem_of_getElem? h)
    obtain ⟨rfl, rfl⟩ := Prod.mk.inj hpair
    dsimp only
    rw [boxErrors, if_neg (Nat.not_lt.mpr assertion.eight_le_length_bytes), errorIf_eq_nil]
    exact not_not.mpr rfl

/-! ## Sizes -/

theorem length_hashedUri (manifestLabel label : String) (box box' : Bytes) :
    (hashedUri C manifestLabel label box).toCbor.encode.length
      = (hashedUri C manifestLabel label box').toCbor.encode.length :=
  HashedUri.length_toCbor _ _
    ((C.sha256 (box.drop 8)).size_eq.trans (C.sha256 (box'.drop 8)).size_eq.symm)

theorem length_encodeItems_references (manifestLabel : String) :
    ∀ {as as' : List Assertion}, as.map Assertion.label = as'.map Assertion.label →
      (encodeItems ((as.map fun a => hashedUri C manifestLabel a.label a.bytes).map
          HashedUri.toCbor)).length
        = (encodeItems ((as'.map fun a => hashedUri C manifestLabel a.label a.bytes).map
          HashedUri.toCbor)).length := by
  intro as
  induction as with
  | nil =>
    intro as' h
    rw [List.map_eq_nil_iff.mp h.symm]
  | cons a as ih =>
    intro as' h
    cases as' with
    | nil => cases h
    | cons a' as' =>
      obtain ⟨hlabel, hrest⟩ := List.cons.inj h
      simp only [List.map_cons, encodeItems, List.length_append, ih hrest, hlabel]
      rw [length_hashedUri C manifestLabel a'.label a.bytes a'.bytes]

/-- Claims over assertions of the same labels are equally long. -/
theorem length_claimAt (hid : b.packetId = b'.packetId) {time' : String}
    (hlabels : (b.assertions time).map Assertion.label
      = (b'.assertions time').map Assertion.label) :
    (b.claimAt C time).toCbor.encode.length = (b'.claimAt C time').toCbor.encode.length := by
  have hlabel : b.manifestLabel = b'.manifestLabel := by rw [manifestLabel, manifestLabel, hid]
  have hcount : (b.assertions time).length = (b'.assertions time').length := by
    simpa using congrArg List.length hlabels
  have hclaim : b'.claimAt C time'
      = { b.claimAt C time with createdAssertions := (b'.claimAt C time').createdAssertions } := by
    rw [claimAt, claimAt, claimOver, claimOver, hid, hlabel]
  rw [hclaim]
  apply C2paClaim.length_toCbor
  · rw [createdAssertions_claimAt, createdAssertions_claimAt, List.length_map,
      List.length_map, hcount]
  · rw [createdAssertions_claimAt, createdAssertions_claimAt, hlabel]
    exact length_encodeItems_references C b'.manifestLabel hlabels

theorem length_store (hid : b.packetId = b'.packetId)
    (hfurther : b.furtherAssertions = b'.furtherAssertions) (time time' : String)
    (signature signature' : Bytes) :
    (storeBox (b.manifest C time signature)).length + b'.hashDataAssertion.toCbor.encode.length
        + (actionsAssertion time').encode.length + signature'.length
      = (storeBox (b'.manifest C time' signature')).length
        + b.hashDataAssertion.toCbor.encode.length
        + (actionsAssertion time).encode.length + signature.length := by
  have hlabels : (b.assertions time).map Assertion.label
      = (b'.assertions time').map Assertion.label := by
    rw [assertions, assertions, hfurther]
    rfl
  have hclaim := length_claimAt C hid hlabels
  have hboxes : ∀ (c : C2paManifestBuilder) (t : String),
      c.furtherAssertions = b'.furtherAssertions →
      ((c.boxes t).map Prod.snd).flatten.length
        = 42 + (utf8 ASSERTION_LABEL_HASH_DATA).length
          + c.hashDataAssertion.toCbor.encode.length
          + (42 + (utf8 ASSERTION_LABEL_ACTIONS).length + (actionsAssertion t).encode.length)
          + (b'.furtherAssertions.map Assertion.bytes).flatten.length := by
    intro c t hc
    rw [boxes, List.map_map, assertions, List.map_append, List.flatten_append,
      List.length_append, hc, List.map_cons, List.map_cons, List.map_nil, List.flatten_cons,
      List.flatten_cons,
      List.flatten_nil, List.append_nil, List.length_append, Function.comp_apply,
      Function.comp_apply, Assertion.length_bytes, Assertion.length_bytes]
    rfl
  have hlabel : b.manifestLabel = b'.manifestLabel := by rw [manifestLabel, manifestLabel, hid]
  have hstore := length_storeBox (b.manifest C time signature)
  have hstore' := length_storeBox (b'.manifest C time' signature')
  rw [show (b.manifest C time signature).assertionBoxes = (b.boxes time).map Prod.snd from rfl,
    hboxes b time hfurther] at hstore
  rw [show (b'.manifest C time' signature').assertionBoxes = (b'.boxes time').map Prod.snd from rfl,
    hboxes b' time' rfl] at hstore'
  have hml : (b.manifest C time signature).manifestLabel
      = (b'.manifest C time' signature').manifestLabel := hlabel
  have hcbor : (b.manifest C time signature).claimCbor.length
      = (b'.manifest C time' signature').claimCbor.length := hclaim
  have hsig : (b.manifest C time signature).signature = signature := rfl
  have hsig' : (b'.manifest C time' signature').signature = signature' := rfl
  rw [hml, hcbor, hsig] at hstore
  rw [hsig'] at hstore'
  omega

end C2paManifestBuilder

end WritersProof.C2pa
