/-
  WritersProof.Declaration.Payload

  The bytes that are signed for a declaration say what was declared
  (`signing_payload`, crates/cpoe/src/declaration/verification.rs).

  Every text, list and optional part of the payload shows where it ends, so two
  declarations with one payload are the same but for the signature and the time.  The time
  is hashed as its milliseconds since the epoch, in which a leap second is the second after it.
-/
import WritersProof.Declaration.Signing
import WritersProof.Lib.Reader

namespace WritersProof.Declaration

open Rust PrefixCode Bytes
open Checkpoint (Digest F64)

/-! ## What fits in memory -/

def FitsText (text : String) : Prop := (utf8 text).length < 2 ^ 64

def InputModality.Fits (modality : InputModality) : Prop := ∀ text ∈ modality.note, FitsText text

structure AiToolUsage.Fits (usage : AiToolUsage) : Prop where
  tool : FitsText usage.tool
  version : ∀ text ∈ usage.version, FitsText text
  interaction : ∀ text ∈ usage.interaction, FitsText text
  sections : usage.sections.length < 2 ^ 64 ∧ ∀ text ∈ usage.sections, FitsText text

structure Collaborator.Fits (collaborator : Collaborator) : Prop where
  name : FitsText collaborator.name
  sections : collaborator.sections.length < 2 ^ 64 ∧ ∀ text ∈ collaborator.sections, FitsText text
  publicKey : ∀ bytes ∈ collaborator.publicKey, bytes.length < 2 ^ 64

structure DeclarationJitter.Fits (jitter : DeclarationJitter) : Prop where
  keystrokeCount : jitter.keystrokeCount < 2 ^ 64
  durationMs : jitter.durationMs < 2 ^ 64

/-- The numbers of a declaration are in the range of their machine types, and so are the lengths
    of its texts and lists. -/
structure Fits (d : Declaration) : Prop where
  title : FitsText d.title
  inputModalities : d.inputModalities.length < 2 ^ 64 ∧ ∀ m ∈ d.inputModalities, m.Fits
  aiTools : d.aiTools.length < 2 ^ 64 ∧ ∀ t ∈ d.aiTools, t.Fits
  collaborators : d.collaborators.length < 2 ^ 64 ∧ ∀ c ∈ d.collaborators, c.Fits
  statement : FitsText d.statement
  /-- `timestamp_millis` is an `i64`. -/
  createdAt : i64Min ≤ d.createdAt.timestampMillis ∧ d.createdAt.timestampMillis ≤ i64Max
  version : d.version < 2 ^ 64
  authorPublicKey : d.authorPublicKey.length < 2 ^ 64
  jitterSealed : ∀ jitter ∈ d.jitterSealed, jitter.Fits

/-! ## Parts of the payload -/

theorem separates_hashStr : Separates FitsText hashStr :=
  (separates_prefixed 8).comap fun _ _ => utf8_injective

theorem separates_hashOptStr :
    Separates (fun o : Option String => ∀ text ∈ o, FitsText text) hashOptStr := by
  intro o o' ho ho' r s h
  refine separates_hashStr.option 0 1 (by decide) o o' ho ho' r s ?_
  cases o <;> cases o' <;> exact h

theorem separates_hashOptBytes :
    Separates (fun o : Option Bytes => ∀ bytes ∈ o, bytes.length < 2 ^ 64) hashOptBytes := by
  intro o o' ho ho' r s h
  refine (separates_prefixed 8).option 0 1 (by decide) o o' ho ho' r s ?_
  cases o <;> cases o' <;> exact h

theorem separates_hashList {α : Type} {P : α → Prop} {item : α → Bytes} (h : Separates P item) :
    Separates (fun xs : List α => xs.length < 2 ^ 64 ∧ ∀ x ∈ xs, P x) (hashList item) :=
  h.list 8

theorem separates_name {α : Type} {name : α → String} (hinj : Function.Injective name)
    (hfits : ∀ a, FitsText (name a)) : Separates (fun _ => True) fun a => hashStr (name a) := by
  intro a b _ _ r s h
  exact separates_hashStr.comap hinj a b (hfits a) (hfits b) r s h

theorem separates_modalityType : Separates (fun _ => True) fun t : ModalityType => hashStr t.text :=
  separates_name (fun a b => by cases a <;> cases b <;> decide) fun a => by
    cases a <;> unfold FitsText <;> decide

theorem separates_aiPurpose : Separates (fun _ => True) fun p : AiPurpose => hashStr p.text :=
  separates_name (fun a b => by cases a <;> cases b <;> decide) fun a => by
    cases a <;> unfold FitsText <;> decide

theorem separates_aiExtent : Separates (fun _ => True) fun e : AiExtent => hashStr e.text :=
  separates_name (fun a b => by cases a <;> cases b <;> decide) fun a => by
    cases a <;> unfold FitsText <;> decide

theorem separates_collaboratorRole :
    Separates (fun _ => True) fun r : CollaboratorRole => hashStr r.text :=
  separates_name (fun a b => by cases a <;> cases b <;> decide) fun a => by
    cases a <;> unfold FitsText <;> decide

theorem separates_f64 : Separates (fun _ => True) fun x : F64 => x.be.val :=
  separates_fixedBytes.comap fun a b h => by
    cases a
    cases b
    cases h
    rfl

/-! ## Records of the payload -/

theorem separates_inputModality : Separates InputModality.Fits InputModality.hashed := by
  rintro ⟨type, percentage, note⟩ ⟨type', percentage', note'⟩ hfits hfits' r s h
  simp only [InputModality.hashed, List.append_assoc] at h
  obtain ⟨rfl, h1⟩ := separates_modalityType _ _ trivial trivial _ _ h
  obtain ⟨rfl, h2⟩ := separates_f64 _ _ trivial trivial _ _ h1
  obtain ⟨rfl, h3⟩ := separates_hashOptStr _ _ hfits hfits' _ _ h2
  exact ⟨rfl, h3⟩

theorem separates_aiToolUsage : Separates AiToolUsage.Fits AiToolUsage.hashed := by
  rintro ⟨tool, version, purpose, interaction, extent, sections⟩
    ⟨tool', version', purpose', interaction', extent', sections'⟩ hfits hfits' r s h
  simp only [AiToolUsage.hashed, List.append_assoc] at h
  obtain ⟨rfl, h1⟩ := separates_hashStr _ _ hfits.tool hfits'.tool _ _ h
  obtain ⟨rfl, h2⟩ := separates_hashOptStr _ _ hfits.version hfits'.version _ _ h1
  obtain ⟨rfl, h3⟩ := separates_aiPurpose _ _ trivial trivial _ _ h2
  obtain ⟨rfl, h4⟩ := separates_hashOptStr _ _ hfits.interaction hfits'.interaction _ _ h3
  obtain ⟨rfl, h5⟩ := separates_aiExtent _ _ trivial trivial _ _ h4
  obtain ⟨rfl, h6⟩ :=
    separates_hashList separates_hashStr _ _ hfits.sections hfits'.sections _ _ h5
  exact ⟨rfl, h6⟩

theorem separates_collaborator : Separates Collaborator.Fits Collaborator.hashed := by
  rintro ⟨name, role, sections, publicKey⟩ ⟨name', role', sections', publicKey'⟩ hfits hfits' r s h
  simp only [Collaborator.hashed, List.append_assoc] at h
  obtain ⟨rfl, h1⟩ := separates_hashStr _ _ hfits.name hfits'.name _ _ h
  obtain ⟨rfl, h2⟩ := separates_collaboratorRole _ _ trivial trivial _ _ h1
  obtain ⟨rfl, h3⟩ :=
    separates_hashList separates_hashStr _ _ hfits.sections hfits'.sections _ _ h2
  obtain ⟨rfl, h4⟩ := separates_hashOptBytes _ _ hfits.publicKey hfits'.publicKey _ _ h3
  exact ⟨rfl, h4⟩

theorem separates_flag : Separates (fun _ => True) fun b : Bool => [if b then (1 : UInt8) else 0] :=
  separates_fixed (w := 1) (fun _ _ => rfl) fun a b _ _ h => by
    cases a <;> cases b <;> first | rfl | cases h

theorem separates_declarationJitter :
    Separates DeclarationJitter.Fits DeclarationJitter.hashed := by
  rintro ⟨jitterHash, count, duration, interval, entropy, hardware⟩
    ⟨jitterHash', count', duration', interval', entropy', hardware'⟩ hfits hfits' r s h
  simp only [DeclarationJitter.hashed, List.append_assoc] at h
  have hfields := List.append_cancel_left h
  obtain ⟨rfl, h1⟩ := separates_fixedBytes _ _ trivial trivial _ _ hfields
  obtain ⟨rfl, h2⟩ := separates_toBE 8 _ _ hfits.keystrokeCount hfits'.keystrokeCount _ _ h1
  obtain ⟨rfl, h3⟩ := separates_toBE 8 _ _ hfits.durationMs hfits'.durationMs _ _ h2
  obtain ⟨rfl, h4⟩ := separates_f64 _ _ trivial trivial _ _ h3
  obtain ⟨rfl, h5⟩ := separates_f64 _ _ trivial trivial _ _ h4
  obtain ⟨rfl, h6⟩ := separates_flag _ _ trivial trivial _ _ h5
  exact ⟨rfl, h6⟩

/-! ## The payload -/

/-- The payload, part after part -/
theorem signedBytes_eq (d : Declaration) : d.signedBytes
    = utf8 "cpoe-declaration-v3" ++ (d.documentHash.val ++ (d.chainHash.val
      ++ (hashStr d.title ++ (hashList InputModality.hashed d.inputModalities
        ++ (hashList AiToolUsage.hashed d.aiTools ++ (hashList Collaborator.hashed d.collaborators
          ++ (hashStr d.statement ++ (toBE 8 (ofInt 8 d.createdAt.timestampMillis)
            ++ (toBE 8 d.version
              ++ ((toBE 8 d.authorPublicKey.length ++ d.authorPublicKey)
                ++ d.jitterSealed.elim [0] fun jitter => 1 :: jitter.hashed)))))))))) := by
  unfold signedBytes
  simp only [List.append_assoc]
  cases d.jitterSealed <;> rfl

/-- Milliseconds in the range of an `i64` are told apart by its bit pattern. -/
theorem millis_injective {t t' : Int} (ht : i64Min ≤ t ∧ t ≤ i64Max)
    (ht' : i64Min ≤ t' ∧ t' ≤ i64Max) (h : ofInt 8 t = ofInt 8 t') : t = t' := by
  unfold i64Min i64Max at ht ht'
  rw [← toInt_ofInt (w := 8) (t := t) (by omega) (by omega), h,
    toInt_ofInt (by omega) (by omega)]

/-- Times with the same second and millisecond -/
def SameMillis (s t : DateTime) : Prop := s.secs = t.secs ∧ s.frac / 1000000 = t.frac / 1000000

/-- `s` is in a leap second, and `t` in the second after it at the same millisecond. -/
def LeapMillis (s t : DateTime) : Prop :=
  t.secs = s.secs + 1 ∧ s.frac / 1000000 = t.frac / 1000000 + 1000

theorem timestampMillis_eq {s t : DateTime} (h : s.timestampMillis = t.timestampMillis) :
    SameMillis s t ∨ LeapMillis s t ∨ LeapMillis t s := by
  have hs := s.frac_lt
  have ht := t.frac_lt
  unfold DateTime.timestampMillis DateTime.nanos at h
  unfold SameMillis LeapMillis
  omega

/-- Declarations with one payload agree in all that was declared: in every field but the
    signature, and in the time as far as its milliseconds, in which the leap second is left out. -/
theorem signedBytes_injective (d e : Declaration) (hd : d.Fits) (he : e.Fits)
    (h : d.signedBytes = e.signedBytes) :
    d = { e with signature := d.signature, createdAt := d.createdAt }
      ∧ (SameMillis d.createdAt e.createdAt ∨ LeapMillis d.createdAt e.createdAt
        ∨ LeapMillis e.createdAt d.createdAt) := by
  rw [signedBytes_eq, signedBytes_eq] at h
  obtain ⟨hdocument, h1⟩ :=
    separates_fixedBytes _ _ trivial trivial _ _ (List.append_cancel_left h)
  obtain ⟨hchain, h2⟩ := separates_fixedBytes _ _ trivial trivial _ _ h1
  obtain ⟨htitle, h3⟩ := separates_hashStr _ _ hd.title he.title _ _ h2
  obtain ⟨hmodalities, h4⟩ := separates_hashList separates_inputModality _ _ hd.inputModalities
    he.inputModalities _ _ h3
  obtain ⟨htools, h5⟩ :=
    separates_hashList separates_aiToolUsage _ _ hd.aiTools he.aiTools _ _ h4
  obtain ⟨hcollaborators, h6⟩ := separates_hashList separates_collaborator _ _ hd.collaborators
    he.collaborators _ _ h5
  obtain ⟨hstatement, h7⟩ := separates_hashStr _ _ hd.statement he.statement _ _ h6
  obtain ⟨hmillis, h8⟩ :=
    separates_toBE 8 _ _ (ofInt_lt 8 _) (ofInt_lt 8 _) _ _ h7
  obtain ⟨hversion, h9⟩ := separates_toBE 8 _ _ hd.version he.version _ _ h8
  obtain ⟨hkey, h10⟩ :=
    separates_prefixed 8 _ _ hd.authorPublicKey he.authorPublicKey _ _ h9
  have hjitter := (separates_declarationJitter.option 0 1 (by decide)).injOn hd.jitterSealed
    he.jitterSealed h10
  refine ⟨?_, timestampMillis_eq (millis_injective hd.createdAt he.createdAt hmillis)⟩
  cases d
  cases e
  simp only [mk.injEq] at *
  exact ⟨hdocument, hchain, htitle, hmodalities, htools, hcollaborators, hstatement, trivial,
    hversion, hkey, trivial, hjitter⟩

/-- A declaration without AI use, at a time -/
def draftDeclaration (createdAt : DateTime) (signature : Bytes) : Declaration :=
  { noAiDeclaration 0 (FixedBytes.filled 32 1) (FixedBytes.filled 32 7) "Draft" "I wrote this."
      with createdAt, signature }

theorem fits_draftDeclaration {createdAt : DateTime} (signature : Bytes)
    (h : i64Min ≤ createdAt.timestampMillis ∧ createdAt.timestampMillis ≤ i64Max) :
    (draftDeclaration createdAt signature).Fits where
  title := show FitsText "Draft" by
    unfold FitsText
    decide
  inputModalities := by
    refine ⟨show 1 < 2 ^ 64 by decide, ?_⟩
    intro m hm text htext
    cases List.mem_singleton.mp hm
    cases htext
  aiTools := ⟨show 0 < 2 ^ 64 by decide, nofun⟩
  collaborators := ⟨show 0 < 2 ^ 64 by decide, nofun⟩
  statement := show FitsText "I wrote this." by
    unfold FitsText
    decide
  createdAt := h
  version := show 2 < 2 ^ 64 by decide
  authorPublicKey := show 0 < 2 ^ 64 by decide
  jitterSealed := nofun

/-- 2017-01-01T00:00:00.500000999Z, half a second after the leap second -/
def startOf2017 : DateTime := .ofNanos 1483228800500000999

theorem signedBytes_endOf2016 : (draftDeclaration .endOf2016 []).signedBytes
    = (draftDeclaration startOf2017 [1]).signedBytes := rfl

/-- Two signatures, and two times a second apart -/
theorem signedBytes_injective_draft :
    draftDeclaration .endOf2016 []
        = { draftDeclaration startOf2017 [1] with signature := [], createdAt := .endOf2016 }
      ∧ (SameMillis .endOf2016 startOf2017 ∨ LeapMillis .endOf2016 startOf2017
        ∨ LeapMillis startOf2017 .endOf2016) :=
  signedBytes_injective _ _ (fits_draftDeclaration [] (by decide))
    (fits_draftDeclaration [1] (by decide)) signedBytes_endOf2016

/-- The payload does not tell a time in a leap second from one a second later. -/
theorem not_signedBytes_injective : ¬ ∀ d e : Declaration, d.Fits → e.Fits →
    d.signedBytes = e.signedBytes →
      d = { e with signature := d.signature, createdAt := d.createdAt }
        ∧ SameMillis d.createdAt e.createdAt := by
  intro h
  have hsame := (h _ _ (fits_draftDeclaration [] (by decide))
    (fits_draftDeclaration [1] (by decide)) signedBytes_endOf2016).2
  exact absurd hsame.1 (by decide)

end WritersProof.Declaration
