/-
  WritersProof.C2pa.PdfBinding

  Manifests in PDF documents (`embed_manifest_in_pdf`,
  crates/authorproof-protocol/src/c2pa/embed.rs).

  The store is built three times: with an estimate of the exclusion, with the length
  that the estimate leads to, and with the hash.  What is stored is right as long as
  the three stores have one size, and only the first two are compared.  Their sizes
  differ by the width of the exclusion length, the text of the time and the signature.
-/
import WritersProof.C2pa.Attested
import WritersProof.C2pa.PdfEmbed

namespace WritersProof.C2pa

open Rust Protocol C2paManifestBuilder

section Embed

variable (C : Crates) (doc : Bytes) (b : C2paManifestBuilder) (signer : Nat → Signer)
  (now : Nat → String)

def embedManifestInPdf : Res Error Bytes := do
  let start := UInt64.ofNat doc.length
  let jumbfEst ← (b.bound placeholderHash start 4096).buildJumbf C (signer 0) (now 0)
  let embeddedEst ← embedInPdf doc jumbfEst
  let appendedLen := embeddedEst.length - doc.length
  let exclLen := UInt64.ofNat appendedLen
  let jumbfPass2 ← (b.bound placeholderHash start exclLen).buildJumbf C (signer 1) (now 1)
  let embeddedPass2 ← embedInPdf doc jumbfPass2
  let appendedLen2 := embeddedPass2.length - doc.length
  reject (appendedLen ≠ appendedLen2)
    (.protocol s!"PDF append size unstable ({appendedLen} vs {appendedLen2})")
  let realHash :=
    hashWithExclusions C embeddedPass2 [{ start := doc.length, length := appendedLen }]
  let jumbfFinal ← (b.bound realHash start exclLen).buildJumbf C (signer 2) (now 2)
  embedInPdf doc jumbfFinal

/-- The document is embedded, and the binding in it excludes all that was appended and has the
hash of the rest. -/
def EmbedsBound : Prop :=
  ∃ out jumbf m hd, embedManifestInPdf C doc b signer now = .ok out
    ∧ embedInPdf doc jumbf = .ok out ∧ decodeJumbf C jumbf = .ok m ∧ extractHashData C m = some hd
    ∧ hd.exclusions = [{ start := UInt64.ofNat doc.length
                         length := UInt64.ofNat (out.length - doc.length) }]
    ∧ (hashWithExclusions C out
      [{ start := doc.length, length := out.length - doc.length }]).val = hd.hash

/-! ## The passes -/

variable (f : PdfFrame)

def firstStore : Bytes :=
  storeBox ((b.bound placeholderHash (UInt64.ofNat doc.length) 4096).signedBy C (signer 0)
    (b.time (now 0)))

def appendedLength : Nat := (update f doc.length (firstStore C doc b signer now)).length

def secondBuilder : C2paManifestBuilder :=
  b.bound placeholderHash (UInt64.ofNat doc.length)
    (UInt64.ofNat (appendedLength C doc b signer now f))

def secondStore : Bytes :=
  storeBox ((secondBuilder C doc b signer now f).signedBy C (signer 1) (b.time (now 1)))

def finalBuilder : C2paManifestBuilder :=
  b.bound (C.sha256 (doc ++ List.replicate (appendedLength C doc b signer now f) 0))
    (UInt64.ofNat doc.length) (UInt64.ofNat (appendedLength C doc b signer now f))

def finalStore : Bytes :=
  storeBox ((finalBuilder C doc b signer now f).signedBy C (signer 2) (b.time (now 2)))

/-- What the time and the signature take of the store of a pass -/
def passLength (bound : C2paManifestBuilder) (i : Nat) : Nat :=
  sized (Bytes.utf8 (b.time (now i))).length
    + sized (bound.signatureAt C (signer i) (b.time (now i))).length

end Embed

structure OneSigner (signer : Nat → Signer) : Prop where
  works : ∀ i, (signer i).Works
  algorithm : ∀ i, (signer i).algorithm = (signer 0).algorithm
  publicKey : ∀ i, (signer i).publicKey = (signer 0).publicKey

section Passes

variable {C : Crates} {doc : Bytes} {b : C2paManifestBuilder} {signer : Nat → Signer}
  {now : Nat → String} {f : PdfFrame} {jumbf out : Bytes}

theorem update_injective {c2paOffset : Nat} {jumbf' : Bytes}
    (h : update f c2paOffset jumbf = update f c2paOffset jumbf') : jumbf = jumbf' := by
  have hlen := (length_update_eq_iff f c2paOffset).mp (congrArg List.length h)
  have hheader : streamHeader f jumbf = streamHeader f jumbf' := by
    rw [streamHeader, streamHeader, hlen]
  simp only [update, List.append_assoc, hheader] at h
  exact (List.append_inj (List.append_cancel_left h) hlen).1

theorem buildJumbf_pass (hC : C.Faithful) (hsigner : OneSigner signer)
    (hkey : (b.chainBytes (signer 0)).length < 2 ^ 63) (i : Nat) {hash : FixedBytes 32}
    {start length : UInt64} {time : String} {data : Bytes} :
    (b.bound hash start length).buildJumbf C (signer i) time = .ok data ↔
      b.Serializes ∧ (storeBox ((b.bound hash start length).signedBy C (signer i)
          (b.time time))).length < 2 ^ 32
        ∧ data = storeBox ((b.bound hash start length).signedBy C (signer i) (b.time time)) := by
  have hchain : (b.bound hash start length).chainBytes (signer i) = b.chainBytes (signer 0) := by
    rw [chainBytes_bound, chainBytes, hsigner.publicKey i]
    rfl
  have hkey' : ((b.bound hash start length).chainBytes (signer i)).length < 2 ^ 63 := by
    rw [hchain]
    exact hkey
  rw [buildJumbf_of_works hC (hsigner.works i) hkey', time_bound,
    serializes_bound]

theorem embedInPdf_of_frame (hf : pdfFrame doc = .ok f) :
    embedInPdf doc jumbf = .ok out ↔ out = doc ++ update f doc.length jumbf := by
  rw [embedInPdf_eq_ok]
  constructor
  · rintro ⟨f', hf', rfl⟩
    cases hf.symm.trans hf'
    rfl
  · exact fun h => ⟨f, hf, h⟩

theorem length_update_pos (f : PdfFrame) (c2paOffset : Nat) (jumbf : Bytes) :
    0 < (update f c2paOffset jumbf).length := by
  have hfooter : 0 < streamFooter.length := by decide
  simp only [update, List.length_append]
  omega

/-- A store as long as the first one is hashed as zeros. -/
theorem hashWithExclusions_update (hdoc : doc.length < 2 ^ 62) (hf : pdfFrame doc = .ok f)
    (hsize : (firstStore C doc b signer now).length < 2 ^ 32)
    (hlen : jumbf.length = (firstStore C doc b signer now).length) :
    hashWithExclusions C (doc ++ update f doc.length jumbf)
        [{ start := doc.length, length := appendedLength C doc b signer now f }]
      = C.sha256 (doc ++ List.replicate (appendedLength C doc b signer now f) 0) := by
  have hupdate := (length_update_eq_iff f doc.length).mpr hlen
  have hmax := (fits_of_pdfFrame hf).length_update_lt hdoc hsize
  have hzeroed := zeroed_append doc (update f doc.length jumbf) (length_update_pos _ _ _) (by omega)
  rw [hashWithExclusions_singleton, appendedLength, ← hupdate, hzeroed]

/-- The embedding succeeds if the stores can be built and the first two are equally long; the
last one is not compared. -/
theorem embedManifestInPdf_eq_ok (hC : C.Faithful) (hsigner : OneSigner signer)
    (hkey : (b.chainBytes (signer 0)).length < 2 ^ 63) (hdoc : doc.length < 2 ^ 62)
    (hf : pdfFrame doc = .ok f) :
    embedManifestInPdf C doc b signer now = .ok out ↔
      b.Serializes ∧ (firstStore C doc b signer now).length < 2 ^ 32
        ∧ (secondStore C doc b signer now f).length = (firstStore C doc b signer now).length
        ∧ (finalStore C doc b signer now f).length < 2 ^ 32
        ∧ out = doc ++ update f doc.length (finalStore C doc b signer now f) := by
  have hsub : ∀ rest : Bytes, (doc ++ rest).length - doc.length = rest.length := by
    intro rest
    rw [List.length_append, Nat.add_sub_cancel_left]
  -- The hash over the second embedding is that of the document and zeros.
  have hhash := fun (hsize : (firstStore C doc b signer now).length < 2 ^ 32)
    (hlen : (secondStore C doc b signer now f).length = (firstStore C doc b signer now).length) =>
    hashWithExclusions_update hdoc hf hsize hlen
  have hupdate : ∀ jumbf : Bytes, jumbf.length = (firstStore C doc b signer now).length →
      (update f doc.length jumbf).length = appendedLength C doc b signer now f := fun jumbf h =>
    (length_update_eq_iff f doc.length).mpr h
  let bindingOf (hash : FixedBytes 32) := (b.bound hash (UInt64.ofNat doc.length)
    (UInt64.ofNat (appendedLength C doc b signer now f))).buildJumbf C (signer 2) (now 2)
  unfold embedManifestInPdf
  constructor
  · intro h
    obtain ⟨first, hfirst, h⟩ := res_bind_eq_ok.mp h
    obtain ⟨hserializes, hsize, rfl⟩ := (buildJumbf_pass hC hsigner hkey 0).mp hfirst
    obtain ⟨_, hembedded, h⟩ := res_bind_eq_ok.mp h
    cases (embedInPdf_of_frame hf).mp hembedded
    dsimp only at h
    rw [hsub] at h
    obtain ⟨second, hsecond, h⟩ := res_bind_eq_ok.mp h
    obtain ⟨-, -, rfl⟩ := (buildJumbf_pass hC hsigner hkey 1).mp hsecond
    obtain ⟨_, hembedded', h⟩ := res_bind_eq_ok.mp h
    cases (embedInPdf_of_frame hf).mp hembedded'
    rw [hsub] at h
    obtain ⟨hstable, h⟩ := reject_bind_eq_ok.mp h
    have hlen : (secondStore C doc b signer now f).length
        = (firstStore C doc b signer now).length :=
      ((length_update_eq_iff f doc.length).mp (not_not.mp hstable)).symm
    obtain ⟨final, hfinal, h⟩ := res_bind_eq_ok.mp h
    have hfinal' := (congrArg bindingOf (hhash hsize hlen)).symm.trans hfinal
    obtain ⟨-, hsize', rfl⟩ := (buildJumbf_pass hC hsigner hkey 2).mp hfinal'
    exact ⟨hserializes, hsize, hlen, hsize', (embedInPdf_of_frame hf).mp h⟩
  · rintro ⟨hserializes, hsize, hlen, hsize', rfl⟩
    refine res_bind_eq_ok.mpr ⟨_, (buildJumbf_pass hC hsigner hkey 0).mpr ⟨hserializes, hsize, rfl⟩,
      ?_⟩
    refine res_bind_eq_ok.mpr ⟨_, (embedInPdf_of_frame hf).mpr rfl, ?_⟩
    dsimp only
    rw [hsub]
    refine res_bind_eq_ok.mpr ⟨_, (buildJumbf_pass hC hsigner hkey 1).mpr
      ⟨hserializes, hlen.trans_lt hsize, rfl⟩, ?_⟩
    refine res_bind_eq_ok.mpr ⟨_, (embedInPdf_of_frame hf).mpr rfl, ?_⟩
    rw [hsub]
    refine reject_bind_eq_ok.mpr ⟨not_not.mpr (hupdate _ hlen).symm, ?_⟩
    refine res_bind_eq_ok.mpr
      ⟨finalStore C doc b signer now f, ?_, (embedInPdf_of_frame hf).mpr rfl⟩
    exact (congrArg bindingOf (hhash hsize hlen)).trans
      ((buildJumbf_pass hC hsigner hkey 2).mpr ⟨hserializes, hsize', rfl⟩)

theorem decodeJumbf_finalStore (hC : C.Faithful)
    (hsize : (finalStore C doc b signer now f).length < 2 ^ 32) :
    ∃ m, decodeJumbf C (finalStore C doc b signer now f) = .ok m
      ∧ extractHashData C m = some (finalBuilder C doc b signer now f).hashDataAssertion := by
  unfold finalStore signedBy at hsize ⊢
  exact ⟨_, decodeJumbf_manifest hC hsize,
    extractHashData_manifest hC hsize⟩

/-- The embedding succeeds with a right binding if all three stores are equally long. -/
theorem embedsBound_iff_length (hC : C.Faithful) (hsigner : OneSigner signer)
    (hkey : (b.chainBytes (signer 0)).length < 2 ^ 63) (hdoc : doc.length < 2 ^ 62)
    (hf : pdfFrame doc = .ok f) :
    EmbedsBound C doc b signer now ↔
      b.Serializes ∧ (firstStore C doc b signer now).length < 2 ^ 32
        ∧ (secondStore C doc b signer now f).length = (firstStore C doc b signer now).length
        ∧ (finalStore C doc b signer now f).length = (secondStore C doc b signer now f).length := by
  have hsub : (doc ++ update f doc.length (finalStore C doc b signer now f)).length - doc.length
      = (update f doc.length (finalStore C doc b signer now f)).length := by
    rw [List.length_append, Nat.add_sub_cancel_left]
  constructor
  · rintro ⟨out, jumbf, m, hd, hout, hjumbf, hm, hhd, hexclusions, -⟩
    obtain ⟨hserializes, hsize, hlen, hsize', rfl⟩ :=
      (embedManifestInPdf_eq_ok hC hsigner hkey hdoc hf).mp hout
    refine ⟨hserializes, hsize, hlen, ?_⟩
    -- The store in the output is the last one; its exclusion is what the first one appended.
    cases update_injective (List.append_cancel_left ((embedInPdf_of_frame hf).mp hjumbf)).symm
    obtain ⟨m', hdecode, hbinding⟩ := decodeJumbf_finalStore hC hsize'
    cases hdecode.symm.trans hm
    cases hbinding.symm.trans hhd
    rw [hsub] at hexclusions
    have hlength : UInt64.ofNat (appendedLength C doc b signer now f)
        = UInt64.ofNat (update f doc.length (finalStore C doc b signer now f)).length :=
      (ExclusionRange.mk.inj (List.singleton_inj.mp hexclusions)).2
    have hmax := (fits_of_pdfFrame hf).length_update_lt hdoc hsize
    have hmax' := (fits_of_pdfFrame hf).length_update_lt hdoc hsize'
    have hequal : appendedLength C doc b signer now f
        = (update f doc.length (finalStore C doc b signer now f)).length := by
      have htoNat := congrArg UInt64.toNat hlength
      rw [UInt64.toNat_ofNat_of_lt' (show appendedLength C doc b signer now f < 2 ^ 64 by
          unfold appendedLength; omega),
        UInt64.toNat_ofNat_of_lt' (show _ < 2 ^ 64 by omega)] at htoNat
      exact htoNat
    unfold appendedLength at hequal
    rw [hlen]
    exact ((length_update_eq_iff f doc.length).mp hequal).symm
  · rintro ⟨hserializes, hsize, hlen, hlen'⟩
    have hequal := hlen'.trans hlen
    obtain ⟨m, hdecode, hbinding⟩ := decodeJumbf_finalStore hC (hequal.trans_lt hsize)
    have hupdate : (update f doc.length (finalStore C doc b signer now f)).length
        = appendedLength C doc b signer now f := (length_update_eq_iff f doc.length).mpr hequal
    refine ⟨_, _, m, _, (embedManifestInPdf_eq_ok hC hsigner hkey hdoc hf).mpr
      ⟨hserializes, hsize, hlen, hequal.trans_lt hsize, rfl⟩, (embedInPdf_of_frame hf).mpr rfl,
      hdecode, hbinding, ?_, ?_⟩
    · rw [hsub, hupdate]
      rfl
    · rw [hsub, hupdate, hashWithExclusions_update hdoc hf hsize hequal]
      rfl

/-- The second store is as long as the first one if width, time and signature make up for the
estimated width and the first time and signature. -/
theorem length_secondStore_eq_iff (hsigner : OneSigner signer) (hdoc : doc.length < 2 ^ 62)
    (hf : pdfFrame doc = .ok f) (hsize : (firstStore C doc b signer now).length < 2 ^ 32) :
    (secondStore C doc b signer now f).length = (firstStore C doc b signer now).length ↔
      Cbor.width (appendedLength C doc b signer now f)
          + passLength C b signer now (secondBuilder C doc b signer now f) 1
        = 2 + passLength C b signer now (b.bound placeholderHash (UInt64.ofNat doc.length) 4096)
          0 := by
  have hwidth : Cbor.width (4096 : UInt64).toNat = 2 := by decide
  have hsecond := b.length_signedBy (C := C) (hsigner.algorithm 1) (hsigner.publicKey 1)
    placeholderHash placeholderHash (UInt64.ofNat doc.length)
    (UInt64.ofNat (appendedLength C doc b signer now f)) 4096 (b.time (now 1)) (b.time (now 0))
  have hmax := (fits_of_pdfFrame hf).length_update_lt hdoc hsize
  have htoNat : (UInt64.ofNat (appendedLength C doc b signer now f)).toNat
      = appendedLength C doc b signer now f :=
    UInt64.toNat_ofNat_of_lt' (show appendedLength C doc b signer now f < 2 ^ 64 by
      unfold appendedLength; omega)
  rw [htoNat, hwidth] at hsecond
  unfold passLength secondStore firstStore secondBuilder
  omega

end Passes

/-! ## A short document -/

def plainPdf : Bytes :=
  Bytes.utf8 ("%PDF-1.4\n1 0 obj\n<< /Type /Catalog >>\nendobj\ntrailer\n"
    ++ "<< /Root 1 0 R /Size 2 >>\nstartxref\n0\n%%EOF\n")

def plainFrame : PdfFrame where
  rootNum := 1
  rootGen := 0
  c2paNum := 2
  prevStartxref := 0
  newCatalog := Bytes.utf8 "1 0 obj\n<< /Type /Catalog  /C2PA 2 0 R >>\nendobj"

/-- The same key at every pass -/
noncomputable def plainSigner : Nat → Signer := fun _ => ed25519Signer readingCrates plainSeed

theorem plainSigner_one : OneSigner plainSigner where
  works _ := works_ed25519Signer _ _
  algorithm _ := rfl
  publicKey _ := rfl

theorem plainBuilder_serializes : plainBuilder.Serializes := by
  intro a ha
  simp only [furtherAssertions, plainBuilder, assertionOf, Option.map_none,
    Option.toList_none, Option.isSome_none, Bool.false_or, Bool.false_eq_true, if_false,
    List.zipIdx_nil, List.map_nil, List.append_nil, List.mem_cons, List.not_mem_nil, or_false] at ha
  rcases ha with rfl | rfl
  · exact ⟨_, rfl⟩
  · exact ⟨_, rfl⟩

theorem plainPdf_frame : pdfFrame plainPdf = .ok plainFrame := by rfl

/-! ## The binding is right -/

section Bound

variable {C : Crates} {doc : Bytes} {b : C2paManifestBuilder} {signer : Nat → Signer}
  {now : Nat → String} {f : PdfFrame}

/-- Embedding succeeds with a right binding exactly if the builder can build the first store, the
CBOR width of the appended length and the time and signature of the second pass make up for those
of the first, and time and signature of the last pass are as long as those of the second. -/
theorem embedsBound_iff (hC : C.Faithful) (hsigner : OneSigner signer)
    (hkey : (b.chainBytes (signer 0)).length < 2 ^ 63) (hdoc : doc.length < 2 ^ 62)
    (hf : pdfFrame doc = .ok f) :
    EmbedsBound C doc b signer now ↔
      b.Serializes ∧ (firstStore C doc b signer now).length < 2 ^ 32
        ∧ Cbor.width (appendedLength C doc b signer now f)
            + passLength C b signer now (secondBuilder C doc b signer now f) 1
          = 2 + passLength C b signer now (b.bound placeholderHash (UInt64.ofNat doc.length) 4096) 0
        ∧ passLength C b signer now (finalBuilder C doc b signer now f) 2
          = passLength C b signer now (secondBuilder C doc b signer now f) 1 := by
  rw [embedsBound_iff_length hC hsigner hkey hdoc hf]
  have halg := (hsigner.algorithm 2).trans (hsigner.algorithm 1).symm
  have hkeys := (hsigner.publicKey 2).trans (hsigner.publicKey 1).symm
  have hfinal := b.length_signedBy (C := C) halg hkeys
    (C.sha256 (doc ++ List.replicate (appendedLength C doc b signer now f) 0)) placeholderHash
    (UInt64.ofNat doc.length) (UInt64.ofNat (appendedLength C doc b signer now f))
    (UInt64.ofNat (appendedLength C doc b signer now f)) (b.time (now 2)) (b.time (now 1))
  refine and_congr_right fun _ => and_congr_right fun hsize => ?_
  rw [length_secondStore_eq_iff hsigner hdoc hf hsize]
  unfold passLength finalStore secondStore secondBuilder finalBuilder
  omega

end Bound

theorem length_plainPdf : plainPdf.length < 2 ^ 62 := by decide +kernel

theorem length_firstStore_plain {now : Nat → String} (h : now 0 = plainTime) :
    (firstStore readingCrates plainPdf plainBuilder plainSigner now).length = 1605 := by
  have hplain : (firstStore readingCrates plainPdf plainBuilder plainSigner
      fun _ => plainTime).length = 1605 := by decide +kernel
  rw [firstStore, h]
  exact hplain

theorem width_plain {now : Nat → String} (h : now 0 = plainTime) :
    Cbor.width (appendedLength readingCrates plainPdf plainBuilder plainSigner now plainFrame)
      = 2 := by
  have hlen : (firstStore readingCrates plainPdf plainBuilder plainSigner now).length
      = (List.replicate 1605 (0 : UInt8)).length := by
    rw [length_firstStore_plain h, List.length_replicate]
  rw [appendedLength, (length_update_eq_iff plainFrame plainPdf.length).mpr hlen]
  decide +kernel

/-- All signatures have 64 bytes. -/
theorem passLength_plain (now : Nat → String) (bound : C2paManifestBuilder) (i : Nat) :
    passLength readingCrates plainBuilder plainSigner now bound i
      = sized (Bytes.utf8 (plainBuilder.time (now i))).length
        + sized 64 := by
  have hsignature : (bound.signatureAt readingCrates (plainSigner i)
      (plainBuilder.time (now i))).length = 64 := FixedBytes.length_val _
  rw [passLength, hsignature]

/-- With one time for all the passes the bytes are bound. -/
theorem embedsBound_plainPdf :
    EmbedsBound readingCrates plainPdf plainBuilder plainSigner fun _ => plainTime := by
  apply (embedsBound_iff readingCrates_faithful plainSigner_one plainText_key length_plainPdf
    plainPdf_frame).mpr
  refine ⟨plainBuilder_serializes, ?_, ?_, ?_⟩
  · rw [length_firstStore_plain rfl]
    decide
  · rw [width_plain rfl, passLength_plain, passLength_plain]
  · rw [passLength_plain, passLength_plain]

/-- The clock shows a whole second at the first pass and a fraction at the later ones. -/
def laterTimes (pass : Nat) : String :=
  if pass = 0 then plainTime else "2026-01-01T00:00:00.500+00:00"

/-- The later passes write a longer time than the one that was measured. -/
theorem not_embedsBound_laterTimes :
    ¬ EmbedsBound readingCrates plainPdf plainBuilder plainSigner laterTimes := by
  have hsize : (firstStore readingCrates plainPdf plainBuilder plainSigner laterTimes).length
      < 2 ^ 32 := by
    rw [length_firstStore_plain rfl]
    decide
  rw [embedsBound_iff_length readingCrates_faithful plainSigner_one plainText_key length_plainPdf
    plainPdf_frame]
  rintro ⟨-, -, hlen, -⟩
  rw [length_secondStore_eq_iff plainSigner_one length_plainPdf plainPdf_frame hsize,
    width_plain rfl, passLength_plain, passLength_plain] at hlen
  revert hlen
  decide +kernel

end WritersProof.C2pa
