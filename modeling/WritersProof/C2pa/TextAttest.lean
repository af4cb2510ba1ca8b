/-
  WritersProof.C2pa.TextAttest

  Attesting and verifying plain text
  (crates/authorproof-protocol/src/c2pa/text_attest.rs): the manifest hangs on the text
  as invisible characters, and its hash leaves out as many bytes as these take.

  Texts are lists of characters; the normalization form is a parameter.
-/
import WritersProof.C2pa.Signed
import WritersProof.C2pa.TextEmbed

namespace WritersProof.C2pa

open Rust Protocol

/-- Maximum fixpoint iterations for resolving the exclusion length. -/
def MAX_FIXPOINT_ITERS : Nat := 6

section Attest

variable (C : Crates) (b : C2paManifestBuilder) (signer : Signer) (now : String)

/-- The format is set, and the time if it is unset. -/
def C2paManifestBuilder.forText : C2paManifestBuilder :=
  { b with format := some "text/plain", createdAt := some (b.createdAt.getD now) }

/-- `for _ in 0..MAX_FIXPOINT_ITERS`: the exclusion length, once the wrapper is as long -/
def resolveExclusion (start : UInt64) : Nat → UInt64 → Res Error (Option UInt64)
  | 0, _ => .ok none
  | rounds + 1, exclLen => do
    let jumbf ← (b.bound placeholderHash start exclLen).buildJumbf C signer now
    let target := UInt64.ofNat (encodeTextManifest jumbf).2
    if target = exclLen then .ok (some exclLen) else resolveExclusion start rounds target

def contentHash (text : Bytes) (eTarget : Nat) : FixedBytes 32 :=
  hashWithExclusions C (text ++ List.replicate eTarget 0)
    [{ start := text.length, length := eTarget }]

def attestText (nfc : List Char → List Char) (text : List Char) : Res Error (List Char) := do
  let text := nfc text
  let origLen := UInt64.ofNat (Text.bytes text).length
  let b := b.forText now
  let converged ← resolveExclusion C b signer now origLen MAX_FIXPOINT_ITERS 0
  let exclLen ← okOr converged (.protocol "attest_text: exclusion length did not converge")
  let eTarget := exclLen.toNat
  let _ ← unwrap (checkedAdd (Text.bytes text).length eTarget)
  let hash := contentHash C (Text.bytes text) eTarget
  let finalJumbf ← (b.bound hash origLen exclLen).buildJumbf C signer now
  let (wrapper, finalTarget) := encodeTextManifest finalJumbf
  reject (finalTarget ≠ eTarget)
    (.protocol s!"attest_text: wrapper length unstable ({eTarget} vs {finalTarget})")
  .ok (text ++ wrapper)

end Attest

/-! ## Verification -/

/-- Outcome of verifying a text-embedded C2PA manifest. -/
structure TextVerification where
  signatureValid : Bool
  contentHashValid : Bool
  structuralErrors : List String

def TextVerification.isValid (v : TextVerification) : Bool :=
  v.signatureValid && v.contentHashValid && v.structuralErrors.isEmpty

/-- Label and content, as far as the boxes inside an assertion box have shown them -/
def readPart (found : Option String × Option Bytes) (box : Bytes) : Option String × Option Bytes :=
  let body := box.drop 8
  if typeOf box = JUMD ∧ 17 < body.length then (Text.fromUtf8 (untilNul (body.drop 17)), found.2)
  else if typeOf box = CBOR then (found.1, some body)
  else found

/-- Walk an assertion JUMBF superbox, returning its label and CBOR content. -/
def parseAssertionBox (boxBytes : Bytes) : Option (String × Bytes) :=
  if boxBytes.length < 8 ∨ typeOf boxBytes ≠ JUMB then none
  else
    match (boxesIn boxBytes.length (boxBytes.drop 8)).foldl readPart (none, none) with
    | (some label, some cbor) => some (label, cbor)
    | _ => none

section Verify

variable (C : Crates)

/-- The hash binding in the first box under its label -/
def hashDataIn : List Bytes → Option HashDataAssertion
  | [] => none
  | box :: boxes =>
    match parseAssertionBox box with
    | some (label, cbor) =>
      if label = ASSERTION_LABEL_HASH_DATA then (C.hashDataReader cbor).toOption
      else hashDataIn boxes
    | none => hashDataIn boxes

def extractHashData (m : C2paManifest) : Option HashDataAssertion := hashDataIn C m.assertionBoxes

/-- `unwrap_or(false)` -/
def orFalse (answer : Res Error Bool) : Res Error Bool :=
  match answer with
  | .error (.err _) => .ok false
  | answer => answer

def textManifest (text : List Char) : Res Error C2paManifest := do
  let jumbf ← mapErr (decodeTextManifest text)
    fun e => .validation ("text manifest decode: " ++ e)
  decodeJumbf C jumbf

def contentHashValid (text : List Char) : Option HashDataAssertion → Bool
  | some hd =>
    hd.algorithm = "sha256"
      && (hashWithExclusions C (Text.bytes text)
        (hd.exclusions.map fun e => ⟨e.start.toNat, e.length.toNat⟩)).val = hd.hash
  | none => false

def verifyText (text : List Char) : Res Error TextVerification := do
  let manifest ← textManifest C text
  let signatureValid ← orFalse (verifyManifestSignature C manifest)
  .ok { signatureValid
        contentHashValid := contentHashValid C text (extractHashData C manifest)
        structuralErrors :=
          (validateManifest C manifest).errors.filter fun e => contains e "COSE_Sign1" = false }

end Verify

/-! ## What was attested -/

section Attested

variable {C : Crates} {b : C2paManifestBuilder} {signer : Signer} {now : String}

theorem orFalse_eq_ok {answer : Res Error Bool} {valid : Bool} (h : orFalse answer = .ok valid) :
    valid = true ↔ answer = .ok true := by
  rcases answer with (e | _) | valid'
  · cases h
    exact ⟨nofun, nofun⟩
  · cases h
  · cases h
    exact ⟨fun h => h ▸ rfl, Except.ok.inj⟩

theorem textManifest_eq_ok {text : List Char} {m : C2paManifest} :
    textManifest C text = .ok m ↔
      ∃ jumbf, decodeTextManifest text = .ok jumbf ∧ decodeJumbf C jumbf = .ok m :=
        mapErr_bind_eq_ok

/-- The loop ends with a length that the wrapper has. -/
theorem build_of_resolveExclusion {start : UInt64} {exclLen : UInt64} :
    ∀ {rounds : Nat} {from' : UInt64},
      resolveExclusion C b signer now start rounds from' = .ok (some exclLen) →
        ∃ jumbf, (b.bound placeholderHash start exclLen).buildJumbf C signer now = .ok jumbf
          ∧ UInt64.ofNat (encodeTextManifest jumbf).2 = exclLen := by
  intro rounds
  induction rounds with
  | zero => exact fun h => nomatch Except.ok.inj h
  | succ rounds ih =>
    intro from' h
    rw [resolveExclusion] at h
    obtain ⟨jumbf, hjumbf, h⟩ := res_bind_eq_ok.mp h
    dsimp only at h
    split at h
    next htarget =>
      cases h
      exact ⟨jumbf, hjumbf, htarget⟩
    next => exact ih h

/-- What attesting a text returns: the normalized text with the wrapper of a manifest that
is bound to it. -/
theorem attestText_eq_ok {nfc : List Char → List Char} {text attested : List Char} :
    attestText C b signer now nfc text = .ok attested ↔
      ∃ exclLen jumbf,
        resolveExclusion C (b.forText now) signer now
            (UInt64.ofNat (Text.bytes (nfc text)).length) MAX_FIXPOINT_ITERS 0 = .ok (some exclLen)
          ∧ (Text.bytes (nfc text)).length + exclLen.toNat < 2 ^ 64
          ∧ ((b.forText now).bound (contentHash C (Text.bytes (nfc text)) exclLen.toNat)
            (UInt64.ofNat (Text.bytes (nfc text)).length) exclLen).buildJumbf C signer now
              = .ok jumbf
          ∧ (encodeTextManifest jumbf).2 = exclLen.toNat
          ∧ attested = nfc text ++ (encodeTextManifest jumbf).1 := by
  unfold attestText
  simp only [res_bind_eq_ok, okOr_eq_ok, unwrap_checkedAdd_eq_ok, Except.ok.injEq]
  constructor
  · rintro ⟨_, hresolve, exclLen, rfl, _, ⟨hmax, -⟩, jumbf, hjumbf, ⟨⟩, hstable, rfl⟩
    exact ⟨exclLen, jumbf, hresolve, hmax, hjumbf, not_not.mp (reject_eq_ok.mp hstable), rfl⟩
  · rintro ⟨exclLen, jumbf, hresolve, hmax, hjumbf, hstable, rfl⟩
    exact ⟨_, hresolve, exclLen, rfl, _, ⟨hmax, rfl⟩, jumbf, hjumbf, (),
      reject_eq_ok.mpr (not_not.mpr hstable), rfl⟩

end Attested

end WritersProof.C2pa
