/-
  WritersProof.C2pa.Store

  A manifest store that was written is read back (`decodeJumbf_storeBox`).
-/
import WritersProof.C2pa.Jumbf

namespace WritersProof.C2pa

open Rust Protocol Bytes

/-! ## Boxes -/

def box (boxType body : Bytes) : Bytes := toBE 4 (8 + body.length) ++ boxType ++ body

variable {boxType body rest data content : Bytes} {label : String} {manifestEnd mpos : Nat}

theorem length_box (htype : boxType.length = 4) (body : Bytes) :
    (box boxType body).length = 8 + body.length := by
  simp only [box, List.length_append, length_toBE, htype]

theorem writeBox_eq_ok {bytes : Bytes} :
    writeBox boxType body = .ok bytes ↔ 8 + body.length < 2 ^ 32 ∧ bytes = box boxType body := by
  rw [writeBox, reject_bind_eq_ok, Except.ok.injEq, not_le, box, eq_comm]

theorem beInt_box (boxType : Bytes) (hsize : 8 + body.length < 2 ^ 32) (rest : Bytes) :
    beInt 4 (box boxType body ++ rest) = 8 + body.length := by
  rw [beInt, box, List.append_assoc, List.append_assoc, List.take_left' (length_toBE _ _),
    ofBE_toBE_of_lt hsize]

section

variable (htype : boxType.length = 4)

include htype

theorem typeOf_box (body : Bytes) :
    typeOf (box boxType body) = boxType := by
  rw [typeOf, box, List.append_assoc, List.drop_left' (length_toBE _ _),
    List.take_left' htype]

theorem drop_box (body rest : Bytes) :
    (box boxType body ++ rest).drop 8 = body ++ rest := by
  have hheader : (toBE 4 (8 + body.length) ++ boxType).length = 8 := by
    rw [List.length_append, length_toBE, htype]
  rw [box, List.append_assoc, List.drop_left' hheader]

theorem framed_box (hsize : 8 + body.length < 2 ^ 32) :
    Framed (box boxType body) := by
  have hint := beInt_box boxType hsize []
  rw [List.append_nil] at hint
  rw [Framed, length_box htype]
  exact ⟨Nat.le_add_right 8 _, hint⟩

theorem readBox_of_drop {offset : Nat} (hsize : 8 + body.length < 2 ^ 32)
    (hmax : data.length < 2 ^ 64) (h : data.drop offset = box boxType body ++ rest) :
    readBox data offset = .ok { len := 8 + body.length, boxType, body } := by
  have hlen : data.length - offset = 8 + body.length + rest.length := by
    rw [← List.length_drop, h, List.length_append, length_box htype]
  have hcompact : beInt 4 (data.drop offset) = 8 + body.length := by rw [h, beInt_box _ hsize]
  have hne : 8 + body.length ≠ 1 := by omega
  have htypeOf : (data.drop (offset + 4)).take 4 = boxType := by
    rw [← List.drop_drop, h, box, List.append_assoc, List.append_assoc,
      List.drop_left' (length_toBE _ _), List.take_left' htype]
  have hbody : (data.take (offset + (8 + body.length))).drop (offset + 8) = body := by
    have hdrop : data.drop (offset + 8) = body ++ rest := by
      rw [← List.drop_drop, h, drop_box htype]
    rw [List.drop_take, hdrop]
    have hsub : offset + (8 + body.length) - (offset + 8) = body.length := by omega
    rw [hsub, List.take_left]
  rw [readBox]
  simp only [hcompact, if_neg hne, htypeOf]
  rw [reject_bind_eq_ok]
  refine ⟨by omega, ?_⟩
  rw [reject_bind_eq_ok]
  refine ⟨fun hone => hne hone.1, ?_⟩
  rw [reject_bind_eq_ok]
  refine ⟨by omega, ?_⟩
  rw [checkedAdd_eq_some (by omega), unwrap_some, res_ok_bind, reject_bind_eq_ok, hbody]
  exact ⟨by omega, rfl⟩

end

theorem boxesIn_flatten (boxes : List Bytes) (hboxes : ∀ b ∈ boxes, Framed b) :
    ∀ {fuel : Nat}, boxes.flatten.length ≤ fuel → boxesIn fuel boxes.flatten = boxes := by
  induction boxes with
  | nil =>
    intro fuel _
    cases fuel with
    | zero => rfl
    | succ fuel => rfl
  | cons b boxes ih =>
    intro fuel hfuel
    obtain ⟨hb, hrest⟩ := List.forall_mem_cons.mp hboxes
    obtain ⟨hlen, hint⟩ := hb
    rw [List.flatten_cons, List.length_append] at hfuel
    cases fuel with
    | zero => omega
    | succ fuel =>
      have hbe : beInt 4 (b ++ boxes.flatten) = b.length := by
        rw [← hint, beInt, beInt, List.take_append_of_le_length (by omega)]
      rw [List.flatten_cons, boxesIn]
      simp only [hbe]
      rw [if_neg (by rw [List.length_append]; omega), List.take_left, List.drop_left,
        ih hrest (by omega)]

/-! ## Superboxes -/

def descriptionBody (uuid : Bytes) (label : String) : Bytes :=
  uuid ++ [0x03] ++ (utf8 label ++ [0])

def superbox (uuid : Bytes) (label : String) (content : Bytes) : Bytes :=
  box JUMB (box JUMD (descriptionBody uuid label) ++ content)

theorem writeSuperbox_eq_ok {uuid content bytes : Bytes} {label : String} :
    writeSuperbox uuid label content = .ok bytes ↔
      (superbox uuid label content).length < 2 ^ 32 ∧ bytes = superbox uuid label content := by
  have hjumd : JUMD.length = 4 := rfl
  have hlength : (superbox uuid label content).length
      = 8 + (box JUMD (descriptionBody uuid label) ++ content).length := length_box rfl _
  unfold writeSuperbox writeDescription
  simp only [Option.map_some, Option.getD_some, res_bind_eq_ok, writeBox_eq_ok]
  rw [hlength]
  constructor
  · rintro ⟨_, ⟨-, rfl⟩, hsize, rfl⟩
    exact ⟨hsize, rfl⟩
  · rintro ⟨hsize, rfl⟩
    refine ⟨_, ⟨?_, rfl⟩, hsize, rfl⟩
    rw [List.length_append, length_box hjumd, descriptionBody] at hsize
    omega

theorem length_superbox (uuid : Bytes) (label : String) (content : Bytes) :
    (superbox uuid label content).length
      = 8 + (8 + (descriptionBody uuid label).length + content.length) := by
  rw [superbox, length_box rfl, List.length_append, length_box rfl]

variable {uuid : Bytes} {m : C2paManifest}

theorem length_descriptionBody (huuid : uuid.length = 16) (label : String) :
    (descriptionBody uuid label).length = 18 + (utf8 label).length := by
  simp only [descriptionBody, List.length_append, List.length_cons, List.length_nil, huuid]
  omega

/-- The content of the first box of a type behind the description -/
theorem findContent_superbox (hsize : 8 + (descriptionBody uuid label).length < 2 ^ 32)
    (hcontent : 8 + content.length < 2 ^ 32) :
    findContentInSuperbox (box JUMD (descriptionBody uuid label) ++ box CBOR content) CBOR
      = some content := by
  have hflatten : box JUMD (descriptionBody uuid label) ++ box CBOR content
      = [box JUMD (descriptionBody uuid label), box CBOR content].flatten := by
    simp
  have hframed : ∀ b ∈ [box JUMD (descriptionBody uuid label), box CBOR content], Framed b := by
    intro b hb
    rcases List.mem_cons.mp hb with rfl | hb
    · exact framed_box rfl hsize
    · rw [List.mem_singleton.mp hb]
      exact framed_box rfl hcontent
  have hboxes := boxesIn_flatten _ hframed (Nat.le_refl _)
  have hcbor : CBOR.length = 4 := rfl
  have hdrop := drop_box hcbor content []
  rw [List.append_nil, List.append_nil] at hdrop
  rw [findContentInSuperbox, hflatten, hboxes, List.find?_cons_of_neg, List.find?_cons_of_pos,
    Option.map_some, hdrop]
  · rw [typeOf_box rfl]
    decide
  · rw [typeOf_box rfl]
    decide

def descriptionRead (uuid : Bytes) (label : String) : JumbfBox where
  len := 8 + (descriptionBody uuid label).length
  boxType := JUMD
  body := descriptionBody uuid label

/-- A superbox among the children of the manifest box counts by its identifier. -/
theorem child_superbox (huuid : uuid.length = 16) (label : String) (found : Found)
    (childBody : Bytes) :
    found.child childBody (descriptionRead uuid label)
      = found.identified childBody (descriptionRead uuid label).len uuid := by
  have hextract : extractUuidFromJumd (descriptionRead uuid label).body = some uuid := by
    rw [descriptionRead, extractUuidFromJumd, if_neg]
    · rw [descriptionBody, List.append_assoc, List.take_left' huuid]
    · simp only [descriptionBody, List.length_append, huuid, List.length_cons, List.length_nil]
      omega
  have htype : (descriptionRead uuid label).boxType = JUMD := rfl
  rw [Found.child, if_neg (not_not.mpr htype), hextract]

theorem extractLabel_descriptionBody (huuid : uuid.length = 16) (hne : utf8 label ≠ [])
    (hnul : (0 : UInt8) ∉ utf8 label) :
    extractLabelFromJumd (descriptionBody uuid label) = some label := by
  have hlen : (uuid ++ [(0x03 : UInt8)]).length = 17 := by
    rw [List.length_append, huuid]
    rfl
  have hdrop : (descriptionBody uuid label).drop 17 = utf8 label ++ [0] := by
    rw [descriptionBody, List.drop_left' hlen]
  have huntil : untilNul (utf8 label ++ [0]) = utf8 label := by
    have hall : ∀ b ∈ utf8 label, decide (b ≠ 0) = true := by
      intro b hb
      exact decide_eq_true fun hzero => hnul (hzero ▸ hb)
    rw [untilNul, List.takeWhile_append_of_pos hall]
    exact List.append_nil _
  rw [extractLabelFromJumd, if_neg]
  · simp only [hdrop, huntil, if_neg hne, Text.fromUtf8_eq_some.mpr rfl]
  · rw [descriptionBody, List.length_append, hlen, List.length_append]
    simp only [List.length_cons, List.length_nil]
    omega

theorem readChildren_superbox {uuid : Bytes} (huuid : uuid.length = 16)
    (hsize : (superbox uuid label content).length < 2 ^ 32) (hmax : data.length < 2 ^ 64)
    (hdrop : data.drop mpos = superbox uuid label content ++ rest)
    (hend : mpos + (superbox uuid label content).length ≤ manifestEnd) (rounds : Nat)
    (found : Found) :
    readChildren data manifestEnd (rounds + 1) mpos found
      = readChildren data manifestEnd rounds (mpos + (superbox uuid label content).length)
          (found.identified (box JUMD (descriptionBody uuid label) ++ content)
            (descriptionRead uuid label).len uuid) := by
  have hjumb : JUMB.length = 4 := rfl
  have hjumd : JUMD.length = 4 := rfl
  have hlength := length_superbox uuid label content
  have hbody : (box JUMD (descriptionBody uuid label) ++ content).length
      = 8 + (descriptionBody uuid label).length + content.length := by
    rw [List.length_append, length_box hjumd]
  have hchild := readBox_of_drop hjumb (by omega) hmax hdrop
  have hinner : data.drop (mpos + 8)
      = box JUMD (descriptionBody uuid label) ++ (content ++ rest) := by
    rw [← List.drop_drop, hdrop, superbox, drop_box hjumb, List.append_assoc]
  have hdescription := readBox_of_drop hjumd (by omega) hmax hinner
  rw [readChildren, if_neg (by omega), hchild, res_ok_bind, if_pos ⟨rfl, hbody ▸ by omega⟩,
    hdescription, res_ok_bind, hlength, ← hbody]
  exact congrArg _ (child_superbox huuid label found _)

theorem readChildren_end (h : manifestEnd < mpos + 8) (rounds : Nat) (found : Found) :
    readChildren data manifestEnd rounds mpos found = .ok found := by
  cases rounds with
  | zero => rfl
  | succ rounds => rw [readChildren, if_pos h]

/-! ## The store -/

def claimBox (m : C2paManifest) : Bytes :=
  superbox C2PA_CLAIM_UUID "c2pa.claim.v2" (box CBOR m.claimCbor)

def assertionsBox (m : C2paManifest) : Bytes :=
  superbox C2PA_ASSERTION_STORE_UUID "c2pa.assertions" m.assertionBoxes.flatten

def signatureBox (m : C2paManifest) : Bytes :=
  superbox C2PA_SIGNATURE_UUID "c2pa.signature" (box CBOR m.signature)

def manifestBox (m : C2paManifest) : Bytes :=
  superbox C2PA_MANIFEST_UUID m.manifestLabel (claimBox m ++ assertionsBox m ++ signatureBox m)

def storeBox (m : C2paManifest) : Bytes :=
  superbox C2PA_MANIFEST_STORE_UUID "c2pa" (manifestBox m)

theorem lengths_lt (hsize : (storeBox m).length < 2 ^ 32) :
    8 + m.claimCbor.length < 2 ^ 32 ∧ 8 + m.signature.length < 2 ^ 32
      ∧ (claimBox m).length < 2 ^ 32 ∧ (assertionsBox m).length < 2 ^ 32
      ∧ (signatureBox m).length < 2 ^ 32 ∧ (manifestBox m).length < 2 ^ 32 := by
  have hstore : (storeBox m).length = _ := length_superbox _ _ _
  have hmanifest : (manifestBox m).length = _ := length_superbox _ _ _
  have hclaim : (claimBox m).length = _ := length_superbox _ _ _
  have hsignature : (signatureBox m).length = _ := length_superbox _ _ _
  rw [length_box rfl] at hclaim hsignature
  rw [List.length_append, List.length_append] at hmanifest
  omega

theorem length_storeBox (m : C2paManifest) :
    (storeBox m).length = 232 + (utf8 m.manifestLabel).length + m.claimCbor.length
      + m.assertionBoxes.flatten.length + m.signature.length := by
  have hstore := length_descriptionBody (show C2PA_MANIFEST_STORE_UUID.length = 16 from rfl) "c2pa"
  have hmanifest := length_descriptionBody (show C2PA_MANIFEST_UUID.length = 16 from rfl)
    m.manifestLabel
  have hclaim := length_descriptionBody (show C2PA_CLAIM_UUID.length = 16 from rfl) "c2pa.claim.v2"
  have hassertions := length_descriptionBody (show C2PA_ASSERTION_STORE_UUID.length = 16 from rfl)
    "c2pa.assertions"
  have hsignature := length_descriptionBody (show C2PA_SIGNATURE_UUID.length = 16 from rfl)
    "c2pa.signature"
  have h4 : (utf8 "c2pa").length = 4 := by decide
  have h13 : (utf8 "c2pa.claim.v2").length = 13 := by decide
  have h15 : (utf8 "c2pa.assertions").length = 15 := by decide
  have h14 : (utf8 "c2pa.signature").length = 14 := by decide
  rw [storeBox, length_superbox, manifestBox, length_superbox, List.length_append,
    List.length_append, claimBox, length_superbox, assertionsBox, length_superbox, signatureBox,
    length_superbox,
    length_box rfl, length_box rfl]
  omega

/-- Writing succeeds as long as the store does not outgrow a `u32`. -/
theorem encodeJumbf_eq_ok :
    encodeJumbf m = .ok data ↔ (storeBox m).length < 2 ^ 32 ∧ data = storeBox m := by
  unfold encodeJumbf
  simp only [res_bind_eq_ok, writeBox_eq_ok, writeSuperbox_eq_ok]
  constructor
  · rintro ⟨_, ⟨-, rfl⟩, _, ⟨-, rfl⟩, _, ⟨-, rfl⟩, _, ⟨-, rfl⟩, _, ⟨-, rfl⟩, _, ⟨-, rfl⟩,
        hsize, rfl⟩
    exact ⟨hsize, rfl⟩
  · rintro ⟨hsize, rfl⟩
    obtain ⟨hclaimCbor, hsignatureBytes, hclaim, hassertions, hsignature, hmanifest⟩ :=
      lengths_lt hsize
    exact ⟨_, ⟨hclaimCbor, rfl⟩, claimBox m, ⟨hclaim, rfl⟩, assertionsBox m, ⟨hassertions, rfl⟩, _,
      ⟨hsignatureBytes, rfl⟩, signatureBox m, ⟨hsignature, rfl⟩, manifestBox m, ⟨hmanifest, rfl⟩,
      hsize, rfl⟩

theorem readChildren_manifest (hsize : (storeBox m).length < 2 ^ 32) (hmax : data.length < 2 ^ 64)
    (hboxes : ∀ b ∈ m.assertionBoxes, Framed b)
    (hdrop : data.drop mpos = claimBox m ++ (assertionsBox m ++ signatureBox m))
    (hend : manifestEnd
      = mpos + (claimBox m).length + (assertionsBox m).length + (signatureBox m).length)
    (rounds : Nat) :
    readChildren data manifestEnd (rounds + 3) mpos
        { claimCbor := none, assertionBoxes := [], signature := none }
      = .ok { claimCbor := some m.claimCbor, assertionBoxes := m.assertionBoxes
              signature := some m.signature } := by
  obtain ⟨hclaimCbor, hsignatureBytes, hclaim, hassertions, hsignature, -⟩ := lengths_lt hsize
  have hjumd : JUMD.length = 4 := rfl
  have hdrop2 : data.drop (mpos + (claimBox m).length) = assertionsBox m ++ signatureBox m := by
    rw [← List.drop_drop, hdrop, List.drop_left]
  have hdrop3 : data.drop (mpos + (claimBox m).length + (assertionsBox m).length)
      = signatureBox m ++ [] := by
    rw [← List.drop_drop, hdrop2, List.drop_left, List.append_nil]
  have hfirst := readChildren_superbox rfl hclaim hmax hdrop
    (show mpos + (claimBox m).length ≤ manifestEnd by omega) (rounds + 2)
    { claimCbor := none, assertionBoxes := [], signature := none }
  rw [Found.identified, if_pos rfl, findContent_superbox (by decide +kernel) hclaimCbor] at hfirst
  have hsecond := readChildren_superbox rfl hassertions hmax hdrop2
    (show _ + (assertionsBox m).length ≤ manifestEnd by omega) (rounds + 1)
    { claimCbor := some m.claimCbor, assertionBoxes := [], signature := none }
  rw [Found.identified, if_neg (by decide), if_pos rfl] at hsecond
  have hthird := readChildren_superbox rfl hsignature hmax hdrop3
    (show _ + (signatureBox m).length ≤ manifestEnd by omega) rounds
    { claimCbor := some m.claimCbor, assertionBoxes := m.assertionBoxes, signature := none }
  rw [Found.identified, if_neg (by decide), if_neg (by decide), if_pos rfl,
    findContent_superbox (by decide +kernel) hsignatureBytes] at hthird
  -- The assertion boxes stand behind the description.
  have hinner : boxesIn (box JUMD (descriptionBody C2PA_ASSERTION_STORE_UUID "c2pa.assertions")
        ++ m.assertionBoxes.flatten).length
      ((box JUMD (descriptionBody C2PA_ASSERTION_STORE_UUID "c2pa.assertions")
        ++ m.assertionBoxes.flatten).drop
          (descriptionRead C2PA_ASSERTION_STORE_UUID "c2pa.assertions").len)
      = m.assertionBoxes := by
    rw [descriptionRead, List.drop_left' (length_box hjumd _)]
    apply boxesIn_flatten _ hboxes
    rw [List.length_append]
    omega
  rw [hinner] at hsecond
  calc _ = _ := hfirst
    _ = _ := hsecond
    _ = _ := hthird
    _ = _ := readChildren_end (show manifestEnd < _ + (signatureBox m).length + 8 by omega) _ _

/-- A manifest with a label to be read back is read back from its store. -/
theorem decodeJumbf_storeBox {C : Crates} (hsize : (storeBox m).length < 2 ^ 32)
    (hclaim : C.claimReader m.claimCbor = .ok m.claim) (hboxes : ∀ b ∈ m.assertionBoxes, Framed b)
    (hne : utf8 m.manifestLabel ≠ []) (hnul : (0 : UInt8) ∉ utf8 m.manifestLabel) :
    decodeJumbf C (storeBox m) = .ok m := by
  let body := descriptionBody C2PA_MANIFEST_STORE_UUID "c2pa"
  let body' := descriptionBody C2PA_MANIFEST_UUID m.manifestLabel
  have hjumb : JUMB.length = 4 := rfl
  have hjumd : JUMD.length = 4 := rfl
  have hmanifest := (lengths_lt hsize).2.2.2.2.2
  have hmax : (storeBox m).length < 2 ^ 64 := by omega
  have hlen : (storeBox m).length = 8 + (8 + body.length + (manifestBox m).length) :=
    length_superbox _ _ _
  have hmlen : (manifestBox m).length = 8 + (8 + body'.length + _) := length_superbox _ _ _
  -- Where the boxes stand in the store
  have hstore : (storeBox m).drop 0 = storeBox m ++ [] := by rw [List.drop_zero, List.append_nil]
  have hinner : (storeBox m).drop 8 = box JUMD body ++ manifestBox m := by
    have h := drop_box hjumb (box JUMD body ++ manifestBox m) []
    rwa [List.append_nil, List.append_nil] at h
  have hpos : (storeBox m).drop (8 + (8 + body.length)) = manifestBox m ++ [] := by
    rw [← List.drop_drop, hinner, List.drop_left' (length_box hjumd _), List.append_nil]
  have hmjumd : (storeBox m).drop (8 + (8 + body.length) + 8)
      = box JUMD body' ++ (claimBox m ++ assertionsBox m ++ signatureBox m) := by
    rw [← List.drop_drop, hpos, manifestBox, superbox, drop_box hjumb, List.append_nil]
  have hchildren : (storeBox m).drop (8 + (8 + body.length) + 8 + (8 + body'.length))
      = claimBox m ++ (assertionsBox m ++ signatureBox m) := by
    rw [← List.drop_drop, hmjumd, List.drop_left' (length_box hjumd _), List.append_assoc]
  -- The boxes, one after the other
  have hstoreSize : 8 + (box JUMD body ++ manifestBox m).length < 2 ^ 32 := by
    rw [List.length_append, length_box hjumd]
    omega
  have hmanifestSize :
      8 + (box JUMD body' ++ (claimBox m ++ assertionsBox m ++ signatureBox m)).length
        < 2 ^ 32 := by
    rw [List.length_append, length_box hjumd]
    omega
  have hreadStore := readBox_of_drop hjumb hstoreSize hmax hstore
  have hreadJumd := readBox_of_drop hjumd (by omega) hmax hinner
  have hreadManifest := readBox_of_drop hjumb hmanifestSize hmax hpos
  have hreadMjumd := readBox_of_drop hjumd (by omega) hmax hmjumd
  have hrounds : 3 ≤ (storeBox m).length := by omega
  have hfound := readChildren_manifest hsize hmax hboxes hchildren rfl ((storeBox m).length - 3)
  rw [Nat.sub_add_cancel hrounds] at hfound
  have hend : 8 + (8 + body.length)
      + (8 + (box JUMD body' ++ (claimBox m ++ assertionsBox m ++ signatureBox m)).length)
      = 8 + (8 + body.length) + 8 + (8 + body'.length)
        + (claimBox m).length + (assertionsBox m).length + (signatureBox m).length := by
    rw [List.length_append, length_box hjumd, List.length_append, List.length_append]
    omega
  unfold decodeJumbf
  rw [hreadStore, res_ok_bind, reject_bind_eq_ok]
  refine ⟨not_not.mpr rfl, ?_⟩
  rw [hreadJumd, res_ok_bind, reject_bind_eq_ok]
  refine ⟨not_not.mpr rfl, ?_⟩
  dsimp only
  rw [hreadManifest, res_ok_bind, reject_bind_eq_ok]
  refine ⟨not_not.mpr rfl, ?_⟩
  rw [hreadMjumd, res_ok_bind, reject_bind_eq_ok]
  refine ⟨not_not.mpr rfl, ?_⟩
  dsimp only
  rw [hend, hfound, res_ok_bind, okOr_some, res_ok_bind, okOr_some, res_ok_bind, hclaim]
  rw [extractLabel_descriptionBody rfl hne hnul]
  rfl

end WritersProof.C2pa
