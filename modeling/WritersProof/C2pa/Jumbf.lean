/-
  WritersProof.C2pa.Jumbf

  The JUMBF boxes of a manifest store
  (crates/authorproof-protocol/src/c2pa/jumbf.rs): a box is its length, its type and
  its content; a superbox contains a description and further boxes.
-/
import WritersProof.C2pa.Types
import WritersProof.Lib.Text

namespace WritersProof.C2pa

open Rust Protocol

/-! ## Box types and identifiers -/

/-- The last twelve bytes of the identifiers of ISO 19566-5. -/
def uuidTail : Bytes := [0x00, 0x11, 0x00, 0x10, 0x80, 0x00, 0x00, 0xAA, 0x00, 0x38, 0x9B, 0x71]

def C2PA_MANIFEST_STORE_UUID : Bytes := [0x63, 0x32, 0x70, 0x61] ++ uuidTail

def C2PA_MANIFEST_UUID : Bytes := [0x63, 0x32, 0x6D, 0x61] ++ uuidTail

def C2PA_CLAIM_UUID : Bytes := [0x63, 0x32, 0x63, 0x6C] ++ uuidTail

def C2PA_ASSERTION_STORE_UUID : Bytes := [0x63, 0x32, 0x61, 0x73] ++ uuidTail

def C2PA_SIGNATURE_UUID : Bytes := [0x63, 0x32, 0x63, 0x73] ++ uuidTail

def JUMBF_CBOR_UUID : Bytes := [0x63, 0x62, 0x6F, 0x72] ++ uuidTail

def JUMBF_JSON_UUID : Bytes := [0x6A, 0x73, 0x6F, 0x6E] ++ uuidTail

def JUMB : Bytes := [0x6A, 0x75, 0x6D, 0x62]

def JUMD : Bytes := [0x6A, 0x75, 0x6D, 0x64]

def CBOR : Bytes := [0x63, 0x62, 0x6F, 0x72]

def JSON : Bytes := [0x6A, 0x73, 0x6F, 0x6E]

/-! ## Writing boxes -/

/-- A box with its header; the length is a `u32`. -/
def writeBox (boxType body : Bytes) : Res Error Bytes := do
  reject (2 ^ 32 ≤ 8 + body.length) (.validation "JUMBF box too large")
  .ok (Bytes.toBE 4 (8 + body.length) ++ boxType ++ body)

def writeDescription (uuid : Bytes) (label : Option String) (toggles : UInt8) : Res Error Bytes :=
  writeBox JUMD (uuid ++ [toggles] ++ (label.map fun l => Bytes.utf8 l ++ [0]).getD [])

def buildAssertionJumbf (label : String) (uuid content : Bytes) (isCbor : Bool) :
    Res Error Bytes := do
  let description ← writeDescription uuid (some label) 0x03
  let content ← writeBox (if isCbor then CBOR else JSON) content
  writeBox JUMB (description ++ content)

def buildAssertionJumbfJson (label : String) (content : Bytes) : Res Error Bytes :=
  buildAssertionJumbf label JUMBF_JSON_UUID content false

def buildAssertionJumbfCbor (label : String) (content : Bytes) : Res Error Bytes :=
  buildAssertionJumbf label JUMBF_CBOR_UUID content true

def writeSuperbox (uuid : Bytes) (label : String) (content : Bytes) : Res Error Bytes := do
  let description ← writeDescription uuid (some label) 0x03
  writeBox JUMB (description ++ content)

/-- The claim bytes are those that were signed. -/
def encodeJumbf (manifest : C2paManifest) : Res Error Bytes := do
  let claimContent ← writeBox CBOR manifest.claimCbor
  let claim ← writeSuperbox C2PA_CLAIM_UUID "c2pa.claim.v2" claimContent
  let assertions ← writeSuperbox C2PA_ASSERTION_STORE_UUID "c2pa.assertions"
    manifest.assertionBoxes.flatten
  let signatureContent ← writeBox CBOR manifest.signature
  let signature ← writeSuperbox C2PA_SIGNATURE_UUID "c2pa.signature" signatureContent
  let manifest ← writeSuperbox C2PA_MANIFEST_UUID manifest.manifestLabel
    (claim ++ assertions ++ signature)
  writeSuperbox C2PA_MANIFEST_STORE_UUID "c2pa" manifest

/-! ## Reading boxes -/

/-- The big-endian integer in the first `w` bytes -/
def beInt (w : Nat) (data : Bytes) : Nat := Bytes.ofBE (data.take w)

/-- Length of a box with its header, type and content. -/
structure JumbfBox where
  len : Nat
  boxType : Bytes
  body : Bytes

/-- `read_box`; a length that overflows the address space aborts. -/
def readBox (data : Bytes) (offset : Nat) : Res Error JumbfBox := do
  reject (data.length < offset + 8) (.validation "Truncated JUMBF box header")
  let compact := beInt 4 (data.drop offset)
  reject (compact = 1 ∧ data.length < offset + 16) (.validation "Truncated extended-size box")
  let boxLen := if compact = 1 then beInt 8 (data.drop (offset + 8)) else compact
  let hdr := if compact = 1 then 16 else 8
  reject (boxLen < hdr) (.validation s!"Invalid box length {boxLen} at offset {offset}")
  let boxEnd ← unwrap (checkedAdd offset boxLen)
  reject (data.length < boxEnd) (.validation s!"Invalid box length {boxLen} at offset {offset}")
  .ok { len := boxLen, boxType := (data.drop (offset + 4)).take 4
        body := (data.take boxEnd).drop (offset + hdr) }

def extractUuidFromJumd (body : Bytes) : Option Bytes :=
  if body.length < 17 then none else some (body.take 16)

def untilNul (bytes : Bytes) : Bytes := bytes.takeWhile (· ≠ 0)

def extractLabelFromJumd (body : Bytes) : Option String :=
  if body.length ≤ 17 then none
  else
    let label := untilNul (body.drop 17)
    if label = [] then none else Text.fromUtf8 label

/-- The boxes side by side in `body`, as far as their lengths make sense. -/
def boxesIn : Nat → Bytes → List Bytes
  | 0, _ => []
  | fuel + 1, body =>
    let len := beInt 4 body
    if body.length < 8 ∨ len < 8 ∨ body.length < len then []
    else body.take len :: boxesIn fuel (body.drop len)

def typeOf (box : Bytes) : Bytes := (box.drop 4).take 4

def findContentInSuperbox (body contentType : Bytes) : Option Bytes :=
  ((boxesIn body.length body).find? fun box => typeOf box = contentType).map (List.drop 8)

/-! ## Reading a manifest -/

/-- What the children of the manifest box have shown so far. -/
structure Found where
  claimCbor : Option Bytes
  assertionBoxes : List Bytes
  signature : Option Bytes

def Found.identified (found : Found) (childBody : Bytes) (jumdLen : Nat) (uuid : Bytes) : Found :=
  if uuid = C2PA_CLAIM_UUID then
    match findContentInSuperbox childBody CBOR with
    | some content => { found with claimCbor := some content }
    | none => found
  else if uuid = C2PA_ASSERTION_STORE_UUID then
    { found with assertionBoxes :=
        found.assertionBoxes ++ boxesIn childBody.length (childBody.drop jumdLen) }
  else if uuid = C2PA_SIGNATURE_UUID then
    match findContentInSuperbox childBody CBOR with
    | some content => { found with signature := some content }
    | none => found
  else found

def Found.child (found : Found) (childBody : Bytes) (jumd : JumbfBox) : Found :=
  if jumd.boxType ≠ JUMD then found
  else
    match extractUuidFromJumd jumd.body with
    | none => found
    | some uuid => found.identified childBody jumd.len uuid

/-- `while mpos + 8 <= manifest_end`: a child takes 8 bytes at least, so `data.len()` rounds
do. -/
def readChildren (data : Bytes) (manifestEnd : Nat) : Nat → Nat → Found → Res Error Found
  | 0, _, found => .ok found
  | rounds + 1, mpos, found =>
    if manifestEnd < mpos + 8 then .ok found
    else do
      let child ← readBox data mpos
      if child.boxType = JUMB ∧ 8 ≤ child.body.length then
        let jumd ← readBox data (mpos + 8)
        readChildren data manifestEnd rounds (mpos + child.len) (found.child child.body jumd)
      else readChildren data manifestEnd rounds (mpos + child.len) found

def decodeJumbf (C : Crates) (data : Bytes) : Res Error C2paManifest := do
  let store ← readBox data 0
  reject (store.boxType ≠ JUMB) (.validation "Expected JUMBF superbox at start")
  let jumd ← readBox data 8
  reject (jumd.boxType ≠ JUMD) (.validation "Store missing description box")
  let pos := 8 + jumd.len
  let manifest ← readBox data pos
  reject (manifest.boxType ≠ JUMB) (.validation "Expected manifest superbox")
  let mjumd ← readBox data (pos + 8)
  reject (mjumd.boxType ≠ JUMD) (.validation "Manifest missing description box")
  let manifestLabel :=
    (extractLabelFromJumd mjumd.body).getD "self#jumbf=c2pa/urn:uuid:unknown"
  let found ← readChildren data (pos + manifest.len) data.length (pos + 8 + mjumd.len)
    { claimCbor := none, assertionBoxes := [], signature := none }
  let claimCbor ← okOr found.claimCbor (.validation "Missing claim box")
  let signature ← okOr found.signature (.validation "Missing signature box")
  let claim ← mapErr (C.claimReader claimCbor)
    fun e => .serialization ("Failed to decode claim CBOR: " ++ e)
  .ok { claim, claimCbor, manifestLabel, assertionBoxes := found.assertionBoxes, signature }

/-! ## What reading a manifest shows -/

/-- A box as the reader cuts it out: its first four bytes are its length. -/
def Framed (box : Bytes) : Prop := 8 ≤ box.length ∧ beInt 4 box = box.length

instance (box : Bytes) : Decidable (Framed box) := inferInstanceAs (Decidable (_ ∧ _))

theorem framed_of_mem_boxesIn : ∀ {fuel : Nat} {body box : Bytes}, box ∈ boxesIn fuel body →
    Framed box := by
  intro fuel
  induction fuel with
  | zero => exact fun h => absurd h List.not_mem_nil
  | succ fuel ih =>
    intro body box h
    rw [boxesIn] at h
    split at h
    next => exact absurd h List.not_mem_nil
    next hguard =>
      simp only [not_or, not_lt] at hguard
      obtain ⟨-, hlen, hle⟩ := hguard
      rcases List.mem_cons.mp h with rfl | h
      · have hlength : (body.take (beInt 4 body)).length = beInt 4 body := by
          rw [List.length_take]
          omega
        refine ⟨by rwa [hlength], ?_⟩
        rw [hlength, beInt, List.take_take, Nat.min_eq_left (by omega)]
        rfl
      · exact ih h

theorem Found.framed_child {found : Found} (h : ∀ box ∈ found.assertionBoxes, Framed box)
    (childBody : Bytes) (jumd : JumbfBox) :
    ∀ box ∈ (found.child childBody jumd).assertionBoxes, Framed box := by
  unfold Found.child
  split
  · exact h
  split
  · exact h
  unfold Found.identified
  split
  · split <;> exact h
  split
  · intro box hbox
    rcases List.mem_append.mp hbox with hbox | hbox
    · exact h box hbox
    · exact framed_of_mem_boxesIn hbox
  split
  · split <;> exact h
  · exact h

theorem framed_readChildren {data : Bytes} {manifestEnd : Nat} :
    ∀ {rounds mpos : Nat} {found found' : Found}, (∀ box ∈ found.assertionBoxes, Framed box) →
      readChildren data manifestEnd rounds mpos found = .ok found' →
        ∀ box ∈ found'.assertionBoxes, Framed box := by
  intro rounds
  induction rounds with
  | zero =>
    intro mpos found found' h hrun
    cases hrun
    exact h
  | succ rounds ih =>
    intro mpos found found' h hrun
    rw [readChildren] at hrun
    split at hrun
    · cases hrun
      exact h
    obtain ⟨child, -, hrun⟩ := res_bind_eq_ok.mp hrun
    split at hrun
    · obtain ⟨jumd, -, hrun⟩ := res_bind_eq_ok.mp hrun
      exact ih (found.framed_child h _ _) hrun
    · exact ih h hrun

/-- A manifest that was read says what its claim bytes say, and its boxes are as long as
they claim to be. -/
theorem decodeJumbf_eq_ok {C : Crates} {data : Bytes} {m : C2paManifest}
    (h : decodeJumbf C data = .ok m) :
    C.claimReader m.claimCbor = .ok m.claim ∧ ∀ box ∈ m.assertionBoxes, Framed box := by
  unfold decodeJumbf at h
  obtain ⟨store, -, h⟩ := res_bind_eq_ok.mp h
  obtain ⟨-, h⟩ := reject_bind_eq_ok.mp h
  obtain ⟨jumd, -, h⟩ := res_bind_eq_ok.mp h
  obtain ⟨-, h⟩ := reject_bind_eq_ok.mp h
  obtain ⟨manifest, -, h⟩ := res_bind_eq_ok.mp h
  obtain ⟨-, h⟩ := reject_bind_eq_ok.mp h
  obtain ⟨mjumd, -, h⟩ := res_bind_eq_ok.mp h
  obtain ⟨-, h⟩ := reject_bind_eq_ok.mp h
  obtain ⟨found, hfound, h⟩ := res_bind_eq_ok.mp h
  obtain ⟨claimCbor, -, h⟩ := res_bind_eq_ok.mp h
  obtain ⟨signature, -, h⟩ := res_bind_eq_ok.mp h
  obtain ⟨claim, hclaim, h⟩ := res_bind_eq_ok.mp h
  cases h
  exact ⟨mapErr_eq_ok.mp hclaim, framed_readChildren (fun _ h => absurd h List.not_mem_nil) hfound⟩

end WritersProof.C2pa
