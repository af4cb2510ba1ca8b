/-
  WritersProof.War.Certified

  What a valid report says of a block that carries its evidence.

  Every check has passed, and the owner of the seal's key has signed the hashes of this
  evidence; two such blocks with one last hash carry the same declaration and the same
  sealed contents.  The copies in the header (document id, statement, nonce) and the key
  of the declaration are compared with nothing.

  What the hashes of a seal bind (`compute_seal`, crates/cpoe/src/war/verification.rs).

  Document hash, chain hash and delay output go into the hashes without their lengths.
  A byte can move from the end of the document hash to the front of the chain hash, if
  the delay output ends with it: the hashes stay the same (`Shifted`).  Nothing else
  escapes them, so document hashes of one length are bound with all the rest.
-/
import WritersProof.War.Verification
import WritersProof.Evidence.Verification

namespace WritersProof.War

open Rust FixedBytes SealContents
open Checkpoint (Digest)
open Evidence (Packet Crates sumCrates)

/-- The evidence is what the owner of the seal's key has sealed. -/
structure Certified (C : Crates) (Signed : Digest → Bytes → Prop) (b : Block) (key : Option Bytes)
    (report : VerificationReport) (evidence : Packet) (declaration : Declaration)
    (contents : SealContents) : Prop where
  checks : ∀ c ∈ report.checks, c.passed = true
  trusted : ∀ trusted ∈ key, trusted = b.warSeal.publicKey.val
  declared : evidence.declaration = some declaration
  signedDeclaration : declaration.verify C.sha256 C.ed25519 = .ok ()
  sealed : Sealed C evidence declaration contents
  h1 : contents.h1 C = b.warSeal.h1
  h2 : contents.h2 C = b.warSeal.h2
  h3 : contents.h3 C = b.warSeal.h3
  signedSeal : Signed b.warSeal.publicKey (sealSigDst ++ (contents.h3 C).val)

variable {C : Crates}

/-- With evidence, `all_passed` says what it is called. -/
theorem sealChecks_of_evidence {b : Block} {evidence : Packet} (h : b.evidence = some evidence) :
    (b.sealChecks C).1 = (b.sealChecks C).2.all CheckResult.passed := by
  unfold Block.sealChecks
  rw [h]

/-- A valid report on a block with evidence certifies it, whatever the key and the fields;
    and what is certified twice under one last hash is the same. -/
theorem certified_of_valid (C : Crates) (Signed : Digest → Bytes → Prop)
    (hunforgeable : ∀ key message signature,
      C.ed25519.verifyStrict key message signature = true → Signed key message) :
    (∀ (b : Block) (key : Option Bytes) (report : VerificationReport) (evidence : Packet),
        b.evidence = some evidence → b.verify C key = .ok report → report.valid = true →
          ∃ declaration contents, Certified C Signed b key report evidence declaration contents)
      ∧ ∀ (b b' : Block) (key key' : Option Bytes) (report report' : VerificationReport)
          (evidence evidence' : Packet) (declaration declaration' : Declaration)
          (contents contents' : SealContents),
        Certified C Signed b key report evidence declaration contents →
        Certified C Signed b' key' report' evidence' declaration' contents' →
        NoCollision C contents contents' → b.warSeal.h3 = b'.warSeal.h3 →
          SameSealed contents contents'
            ∧ (contents.docHash.length = contents'.docHash.length → contents = contents') := by
  constructor
  · intro b key report evidence hevidence hverify hvalid
    obtain ⟨hiff, hchecks⟩ := verify_valid hverify
    obtain ⟨hkeys, hall⟩ := hiff.mp hvalid
    rw [sealChecks_of_evidence hevidence] at hall
    have hpassed : ∀ c ∈ (b.sealChecks C).2, c.passed = true := List.all_eq_true.mp hall
    have hlist : (b.sealChecks C).2 = b.verifySignature C :: evidenceChecks C b evidence := by
      unfold Block.sealChecks
      rw [hevidence]
    rw [hlist] at hpassed
    -- the signature, the hashes and the declaration, each by its own check
    obtain ⟨-, -, hsignature⟩ := verifySignature_passed.mp (hpassed _ List.mem_cons_self)
    have hchain : (verifyHashChain C b.warSeal evidence b.version).passed = true :=
      hpassed _ (by simp [evidenceChecks])
    have hdecl : (verifyDeclaration C evidence).passed = true :=
      hpassed _ (by simp [evidenceChecks])
    obtain ⟨declaration, contents, hdeclaration, hsealed, h1, h2, h3⟩ :=
      verifyHashChain_passed.mp hchain
    obtain ⟨decl, hsome, hdeclVerify⟩ := verifyDeclaration_passed.mp hdecl
    obtain rfl := Option.some.inj (hdeclaration.symm.trans hsome)
    refine ⟨declaration, contents, ?_, hkeys, hdeclaration, hdeclVerify, hsealed, h1, h2, h3, ?_⟩
    · intro c hc
      rw [hchecks hvalid, List.mem_append] at hc
      rcases hc with hc | hc
      · obtain ⟨trusted, htrusted, rfl⟩ := Option.map_eq_some_iff.mp (Option.mem_toList.mp hc)
        exact decide_eq_true (hkeys trusted htrusted)
      · exact List.all_eq_true.mp hall c hc
    · rw [h3]
      exact hunforgeable _ _ _ hsignature
  · intro b b' key key' report report' evidence evidence' declaration declaration' contents
      contents' hb hb' hfree heq
    have hsame : SameSealed contents contents' := by
      apply sameSealed_of_h3 hfree
      rw [hb.h3, hb'.h3, heq]
    exact ⟨hsame, hsame.eq⟩

/-! ## A block whose header is of something else -/

def authorSeed : Digest := filled 32 5

def otherSeed : Digest := filled 32 6

def authorDeclaration : Declaration :=
  let unsigned := { Declaration.noAiDeclaration 0 (filled 32 1) (filled 32 7)
      "Draft" "I wrote this." with authorPublicKey := authorSeed.val }
  { unsigned with
    signature :=
      (sumCrates.ed25519.sign authorSeed (unsigned.signingPayload sumCrates.sha256).val).val }

/-- Evidence with that declaration, one checkpoint and the hash of none. -/
def authorPacket : Packet :=
  { Evidence.historyPacket 1 30 0 with
    checkpoints := (Evidence.history 1 30 0).take 1
    chainHash := Hex.encode (filled 32 9).val
    declaration := some authorDeclaration }

def authorContents : SealContents :=
  { docHash := (filled 32 2).val, checkpointRoot := (filled 32 9).val
    declarationJson := Bytes.utf8 "I wrote this.", jitterHash := filled 32 0
    authorPublicKey := authorSeed, beaconSig := [], vdfOutput := List.replicate 32 0 }

/-- That evidence, sealed with the other key under a header of its own. -/
def otherBlock : Block :=
  let hashes := sealOf sumCrates authorContents
  { version := .v1_0, author := "key:0606060606060606", documentId := filled 32 99
    timestamp := .ofNanos 0, statement := "All of it is mine."
    warSeal := { hashes with
      publicKey := otherSeed
      signature := sumCrates.ed25519.sign otherSeed hashes.signedMessage }
    tool := none, tier := none, score := none, checkpoints := none, durationSecs := none
    evidence := some authorPacket, signed := true, verifierNonce := some (filled 32 1) }

/-- The same under another statement -/
def relabelledBlock : Block := { otherBlock with statement := "None of it is." }

theorem verify_otherBlock {b : Block} (hb : b = otherBlock ∨ b = relabelledBlock) : ∃ report,
    b.verify sumCrates (some otherSeed.val) = .ok report ∧ report.valid = true := by
  have h : (b.verify sumCrates (some otherSeed.val)).toOption.map VerificationReport.valid
      = some true := by
    rcases hb with rfl | rfl <;> decide +kernel
  obtain ⟨report, hok, hvalid⟩ := exists_ok_of_toOption h
  exact ⟨report, hok, hvalid⟩

/-- Somebody has made a signature. -/
def SumSigned (key : Digest) (message : Bytes) : Prop :=
  ∃ signature, sumCrates.ed25519.verifyStrict key message signature = true

theorem sealContents_authorPacket :
    sealContents sumCrates authorPacket authorDeclaration = .ok authorContents := by
  decide +kernel

/-- The evidence is certified in both blocks all the same, with the same contents. -/
theorem certified_of_valid_otherBlock : ∃ report report' contents,
    otherBlock.verify sumCrates (some otherSeed.val) = .ok report
      ∧ relabelledBlock.verify sumCrates (some otherSeed.val) = .ok report'
      ∧ Certified sumCrates SumSigned otherBlock (some otherSeed.val) report authorPacket
        authorDeclaration contents
      ∧ Certified sumCrates SumSigned relabelledBlock (some otherSeed.val) report' authorPacket
        authorDeclaration contents := by
  obtain ⟨hcertified, hsame⟩ :=
    certified_of_valid sumCrates SumSigned fun _ _ signature hverify => ⟨signature, hverify⟩
  obtain ⟨report, hok, hvalid⟩ := verify_otherBlock (.inl rfl)
  obtain ⟨report', hok', hvalid'⟩ := verify_otherBlock (.inr rfl)
  obtain ⟨declaration, contents, h⟩ := hcertified otherBlock _ _ authorPacket rfl hok hvalid
  obtain ⟨declaration', contents', h'⟩ :=
    hcertified relabelledBlock _ _ authorPacket rfl hok' hvalid'
  obtain rfl : authorDeclaration = declaration := Option.some.inj h.declared
  obtain rfl : authorDeclaration = declaration' := Option.some.inj h'.declared
  -- what is sealed is all that the evidence holds
  have honly : ∀ {c}, Sealed sumCrates authorPacket authorDeclaration c → authorContents = c :=
    fun hc => Except.ok.inj (sealContents_authorPacket.symm.trans (sealContents_eq_ok.mpr hc))
  have hfree : NoCollision sumCrates contents contents' := by
    rw [← honly h.sealed, ← honly h'.sealed]
    unfold NoCollision
    decide +kernel
  obtain rfl := (hsame _ _ _ _ _ _ _ _ _ _ _ _ h h' hfree rfl).2
    (congrArg (·.docHash.length) ((honly h.sealed).symm.trans (honly h'.sealed)))
  exact ⟨report, report', contents, hok, hok', h, h'⟩

/-- The report on it is valid, although key, document, statement and nonce are not those
    of the evidence, and the chain hash is not that of the last checkpoint. -/
theorem not_bound_otherBlock : ∃ report,
    otherBlock.verify sumCrates (some otherSeed.val) = .ok report ∧ report.valid = true
      ∧ otherBlock.evidence = some authorPacket
      ∧ authorPacket.declaration = some authorDeclaration
      ∧ otherBlock.warSeal.publicKey.val ≠ authorDeclaration.authorPublicKey
      ∧ Hex.decode authorPacket.document.finalHash ≠ some otherBlock.documentId.val
      ∧ otherBlock.documentId ≠ authorDeclaration.documentHash
      ∧ otherBlock.statement ≠ authorDeclaration.statement
      ∧ otherBlock.verifierNonce ≠ authorPacket.verifierNonce
      ∧ ∀ last ∈ authorPacket.checkpoints.getLast?, authorPacket.chainHash ≠ last.hash := by
  obtain ⟨report, hok, hvalid⟩ := verify_otherBlock (.inl rfl)
  refine ⟨report, hok, hvalid, rfl, rfl, by decide +kernel, by decide +kernel, by decide +kernel,
    by decide +kernel, by decide +kernel, ?_⟩
  rintro last ⟨⟩
  decide +kernel

def jitterHashOf (declaration : Declaration) : Digest :=
  (declaration.jitterSealed.map fun j => j.jitterHash).getD (filled 32 0)

structure SameInputs (C : Crates) (p q : Packet) (d e : Declaration) : Prop where
  documentHash : Hex.decode p.document.finalHash = Hex.decode q.document.finalHash
  chainHash : Hex.decode p.chainHash = Hex.decode q.chainHash
  declaration : C.declarationJson d = C.declarationJson e
  jitterHash : jitterHashOf d = jitterHashOf e
  authorPublicKey : d.authorPublicKey = e.authorPublicKey
  beacon : (p.beaconAttestation.map fun b => Hex.decode b.wpSignature)
    = q.beaconAttestation.map fun b => Hex.decode b.wpSignature
  vdfOutput : vdfOutputBytes C p = vdfOutputBytes C q

/-- The same bytes, cut elsewhere: the document hash is longer in one than in the other, and its
    neighbours in the two hashes make up for it. -/
structure Shifted (a b : SealContents) : Prop where
  length : a.docHash.length ≠ b.docHash.length
  documentChain : a.docHash ++ a.checkpointRoot = b.docHash ++ b.checkpointRoot
  vdfDocument : a.vdfOutput ++ a.docHash = b.vdfOutput ++ b.docHash
  declarationJson : a.declarationJson = b.declarationJson
  jitterHash : a.jitterHash = b.jitterHash
  authorPublicKey : a.authorPublicKey = b.authorPublicKey
  beaconSig : a.beaconSig = b.beaconSig

variable {p q : Packet} {d e : Declaration} {a b : SealContents}

/-- Bytes that were cut elsewhere are hashed alike. -/
theorem Shifted.sealOf_eq (h : Shifted a b) : sealOf C a = sealOf C b := by
  have h1 : a.h1 C = b.h1 C := by
    unfold h1 h1Input
    rw [List.append_assoc (Bytes.utf8 _), h.documentChain, h.declarationJson,
      ← List.append_assoc (Bytes.utf8 _)]
  have h2 : a.h2 C = b.h2 C := by
    unfold h2 h2Input
    rw [h1, h.jitterHash, h.authorPublicKey, h.beaconSig]
  have h3 : a.h3 C = b.h3 C := by
    unfold h3 h3Input
    rw [h2, List.append_assoc, h.vdfDocument, ← List.append_assoc]
  unfold sealOf
  rw [h1, h2, h3, h.authorPublicKey]

theorem eq_or_shifted (h : SameSealed a b) : a = b ∨ Shifted a b := by
  by_cases hlength : a.docHash.length = b.docHash.length
  · exact .inl (h.eq hlength)
  · exact .inr ⟨hlength, h.documentChain, h.vdfDocument, h.declarationJson, h.jitterHash,
      h.authorPublicKey, h.beaconSig⟩

/-- An attestation that is there has a signature of some length. -/
theorem beacon_decode (h : Sealed C p d a) :
    (p.beaconAttestation.map fun b => Hex.decode b.wpSignature)
      = if a.beaconSig = [] then none else some (some a.beaconSig) := by
  have hbeacon := h.beaconSig
  cases hattestation : p.beaconAttestation with
  | none =>
    rw [hattestation, Option.elim_none] at hbeacon
    rw [if_pos hbeacon, Option.map_none]
  | some attestation =>
    rw [hattestation, Option.elim_some] at hbeacon
    rw [if_neg hbeacon.2, Option.map_some, hbeacon.1]

theorem sameInputs_iff (ha : Sealed C p d a) (hb : Sealed C q e b) :
    SameInputs C p q d e ↔ a = b := by
  have hjitter : jitterHashOf d = a.jitterHash := ha.jitterHash.symm
  have hjitter' : jitterHashOf e = b.jitterHash := hb.jitterHash.symm
  have hvdf := (vdfOutputBytes_eq_ok (C := C)).mpr ha.vdfOutput
  have hvdf' := (vdfOutputBytes_eq_ok (C := C)).mpr hb.vdfOutput
  constructor
  · intro h
    obtain ⟨hdoc, hchain, hdecl, hjit, hkey, hbeacon, hout⟩ := h
    rw [ha.docHash, hb.docHash, Option.some.injEq] at hdoc
    rw [ha.checkpointRoot, hb.checkpointRoot, Option.some.injEq] at hchain
    rw [ha.declarationJson, hb.declarationJson, Except.ok.injEq] at hdecl
    rw [hjitter, hjitter'] at hjit
    rw [ha.authorPublicKey, hb.authorPublicKey] at hkey
    rw [hvdf, hvdf', Except.ok.injEq] at hout
    rw [beacon_decode ha, beacon_decode hb] at hbeacon
    have hsig : a.beaconSig = b.beaconSig := by
      by_cases hnone : a.beaconSig = []
      · by_cases hnone' : b.beaconSig = []
        · rw [hnone, hnone']
        · rw [if_pos hnone, if_neg hnone'] at hbeacon
          cases hbeacon
      · by_cases hnone' : b.beaconSig = []
        · rw [if_neg hnone, if_pos hnone'] at hbeacon
          cases hbeacon
        · rw [if_neg hnone, if_neg hnone'] at hbeacon
          exact Option.some.inj (Option.some.inj hbeacon)
    cases a
    cases b
    congr 1
    exact ext_val hkey
  · rintro rfl
    exact ⟨ha.docHash.trans hb.docHash.symm, ha.checkpointRoot.trans hb.checkpointRoot.symm,
      ha.declarationJson.trans hb.declarationJson.symm, hjitter.trans hjitter'.symm,
      ha.authorPublicKey.trans hb.authorPublicKey.symm,
      (beacon_decode ha).trans (beacon_decode hb).symm, hvdf.trans hvdf'.symm⟩

/-- Where nothing that is hashed collides, equal hashes mean equal inputs exactly if the bytes of
    the one are not those of the other, cut elsewhere. -/
theorem seal_binds_iff (C : Crates) (p q : Packet) (d e : Declaration) (a b : SealContents)
    (ha : sealContents C p d = .ok a) (hb : sealContents C q e = .ok b)
    (hfree : NoCollision C a b) :
    (∀ s t, computeSeal C p d = .ok s → computeSeal C q e = .ok t →
        s.h1 = t.h1 → s.h2 = t.h2 → s.h3 = t.h3 → SameInputs C p q d e)
      ↔ ¬ Shifted a b := by
  have hp := sealContents_eq_ok.mp ha
  have hq := sealContents_eq_ok.mp hb
  rw [sameInputs_iff hp hq]
  constructor
  · intro h hshifted
    have hsame := hshifted.sealOf_eq (C := C)
    obtain rfl := h _ _ (computeSeal_eq_ok.mpr ⟨a, hp, rfl⟩) (computeSeal_eq_ok.mpr ⟨b, hq, rfl⟩)
      (congrArg Seal.h1 hsame) (congrArg Seal.h2 hsame) (congrArg Seal.h3 hsame)
    exact hshifted.length rfl
  · intro h s t hs ht _ _ h3
    unfold computeSeal at hs ht
    rw [ha, res_ok_bind, Except.ok.injEq] at hs
    rw [hb, res_ok_bind, Except.ok.injEq] at ht
    subst hs ht
    exact (eq_or_shifted (sameSealed_of_h3 hfree h3)).resolve_right h

/-! ## A byte that moves -/

/-- Evidence of the author with a delay output -/
def delayedPacket : Packet :=
  { authorPacket with
    checkpoints := authorPacket.checkpoints.map fun cp =>
      { cp with vdfOutput := some (Hex.encode [1]) } }

def delayedContents : SealContents := { authorContents with vdfOutput := [1] }

theorem seal_binds_delayedPacket :
    ¬ Shifted authorContents delayedContents
      ∧ ∀ s t, computeSeal sumCrates authorPacket authorDeclaration = .ok s →
        computeSeal sumCrates delayedPacket authorDeclaration = .ok t →
          s.h1 = t.h1 → s.h2 = t.h2 → s.h3 = t.h3 →
            SameInputs sumCrates authorPacket delayedPacket authorDeclaration
              authorDeclaration := by
  have hnot : ¬ Shifted authorContents delayedContents := fun h => h.length rfl
  refine ⟨hnot, ?_⟩
  exact (seal_binds_iff sumCrates authorPacket delayedPacket authorDeclaration authorDeclaration
    authorContents delayedContents sealContents_authorPacket (by decide +kernel)
    (by unfold NoCollision; decide +kernel)).mpr hnot

/-- The last byte of the document hash has moved: it is the first one of the chain hash now, and
    the last one of a delay output. -/
def movedPacket : Packet :=
  { authorPacket with
    document := { authorPacket.document with finalHash := Hex.encode (filled 31 2).val }
    chainHash := Hex.encode ([2] ++ (filled 32 9).val)
    checkpoints := authorPacket.checkpoints.map fun cp =>
      { cp with vdfOutput := some (Hex.encode (List.replicate 32 0 ++ [2])) } }

def movedContents : SealContents :=
  { authorContents with
    docHash := (filled 31 2).val
    checkpointRoot := [2] ++ (filled 32 9).val
    vdfOutput := List.replicate 32 0 ++ [2] }

/-- The three hashes are those of a packet for another document. -/
theorem seal_not_binds_movedPacket :
    NoCollision sumCrates authorContents movedContents
      ∧ ∃ s t, computeSeal sumCrates authorPacket authorDeclaration = .ok s
        ∧ computeSeal sumCrates movedPacket authorDeclaration = .ok t
        ∧ s.h1 = t.h1 ∧ s.h2 = t.h2 ∧ s.h3 = t.h3
        ∧ Hex.decode authorPacket.document.finalHash
          ≠ Hex.decode movedPacket.document.finalHash := by
  have hmoved : sealContents sumCrates movedPacket authorDeclaration = .ok movedContents := by
    decide +kernel
  have hshifted : Shifted authorContents movedContents :=
    ⟨by decide, by decide, by decide, rfl, rfl, rfl, rfl⟩
  have hsame := hshifted.sealOf_eq (C := sumCrates)
  refine ⟨by unfold NoCollision; decide +kernel, _, _,
    computeSeal_eq_ok.mpr ⟨_, sealContents_eq_ok.mp sealContents_authorPacket, rfl⟩,
    computeSeal_eq_ok.mpr ⟨_, sealContents_eq_ok.mp hmoved, rfl⟩,
    congrArg Seal.h1 hsame, congrArg Seal.h2 hsame, congrArg Seal.h3 hsame, ?_⟩
  rw [(sealContents_eq_ok.mp sealContents_authorPacket).docHash,
    (sealContents_eq_ok.mp hmoved).docHash]
  decide

end WritersProof.War
