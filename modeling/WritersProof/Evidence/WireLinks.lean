/-
  WritersProof.Evidence.WireLinks

  The links of an exported chain.

  An exported checkpoint has the hash that its wire format gives it (`Exports.computeHash_eq`).
  The link to it is the hash that the chain gives it, of other bytes: no link of a packet
  points to the checkpoint before it (`links_broken`).
-/
import WritersProof.Checkpoint.Verified
import WritersProof.Evidence.WireConversion

namespace WritersProof.Evidence

open Rust FixedBytes Checkpoint
open Checkpoint (Chain ChainCrates Digest AllPass VdfProof)
open Wire

def WireCrates.chain {Argon2 : Type} (C : WireCrates) (argon2 : Swf.Prims Argon2)
    (documentRefCbor : Checkpoint.DocumentRef → Except String Bytes)
    (dateText : DateTime → String) :
    ChainCrates Argon2 :=
  { sha256 := C.sha256, documentRefCbor, argon2, dateText }

/-- What a verifier that holds only the packet looks for -/
structure WellLinked (sha256 : Bytes → Digest) (p : EvidencePacketWire) : Prop where
  valid : p.validate sha256 = .ok ()
  hash : ∀ w ∈ p.checkpoints, w.computeHash sha256 = .ok w.checkpointHash
  linked : ∀ i a b, p.checkpoints[i]? = some a → p.checkpoints[i + 1]? = some b →
    b.prevHash = a.checkpointHash

def NoCollision (sha256 : Bytes → Digest) (chain : Chain) (p : EvidencePacketWire) : Prop :=
  ∀ c ∈ chain.checkpoints, ∀ w ∈ p.checkpoints, ∀ input, w.hashInput = .ok input →
    sha256 c.hashInput = sha256 input → c.hashInput = input

/-! ## Checkpoints -/

structure Exports (sha256 : Bytes → Digest) (c : Checkpoint) (w : CheckpointWire) : Prop where
  prevHash : w.prevHash = { algorithm := .sha256, digest := c.previousHash.val }
  checkpointHash : ∃ input, w.hashInput = .ok input
    ∧ w.checkpointHash = { algorithm := .sha256, digest := (sha256 input).val }

theorem trySha256_val (digest : Digest) :
    HashValue.trySha256 digest.val = .ok { algorithm := .sha256, digest := digest.val } := by
  have hlen : ¬ digest.val.length ≠ 32 := not_not.mpr digest.length_val
  rw [HashValue.trySha256, if_neg hlen]

theorem sha256Value_eq (digest : Digest) :
    sha256Value digest = .ok { algorithm := .sha256, digest := digest.val } := by
  rw [sha256Value, trySha256_val]
  rfl

variable {w : CheckpointWire} {sha256 : Bytes → Digest} {c : Checkpoint} {C : WireCrates}

theorem computeHash_eq_ok {h : HashValue} :
    w.computeHash sha256 = .ok h ↔ ∃ input, w.hashInput = .ok input
      ∧ h = { algorithm := .sha256, digest := (sha256 input).val } := by
  unfold CheckpointWire.computeHash
  simp only [res_bind_eq_ok, trySha256_val, mapFault_eq_ok, Except.ok.injEq]
  exact exists_congr fun input => and_congr_right fun _ => eq_comm

theorem Exports.computeHash_eq (h : Exports sha256 c w) :
    w.computeHash sha256 = .ok w.checkpointHash :=
  computeHash_eq_ok.mpr h.checkpointHash

theorem exports_of_checkpointToWire {useEntangled : Bool} {nonce : FixedBytes 8}
    {lamport : Option KeyHierarchy.CheckpointSignature}
    (h : checkpointToWire C useEntangled nonce lamport c = .ok w) : Exports C.sha256 c w := by
  simp only [checkpointToWire, sha256Value_eq, res_ok_bind, res_bind_eq_ok, mapFault_eq_ok] at h
  obtain ⟨bindings, -, mac, -, hash, hhash, hw⟩ := h
  obtain rfl := Except.ok.inj hw
  exact ⟨rfl, computeHash_eq_ok.mp hhash⟩

theorem exports_of_chainToWire {env : Surroundings} {chain : Chain}
    {sigs : List KeyHierarchy.CheckpointSignature} {p : EvidencePacketWire}
    (h : chainToWireWithSignatures C env chain sigs = .ok p) :
    List.Forall₂ (Exports C.sha256) chain.checkpoints p.checkpoints := by
  simp only [chainToWireWithSignatures, sha256Value_eq, res_ok_bind, res_bind_eq_ok] at h
  obtain ⟨ws, hws, hp⟩ := h
  obtain rfl := Except.ok.inj hp
  exact (mapM_forall₂ hws).imp fun c w hw => exports_of_checkpointToWire hw

/-! ## Links -/

/-- The two formats hash under different domains. -/
theorem hashInput_ne {input : Bytes} (h : w.hashInput = .ok input) : c.hashInput ≠ input := by
  intro heq
  have hchain : c.hashInput.head? = some 99 := by
    simp only [hashInput, hashParts, List.flatten_cons]
    cases c.hashDomainVersion <;> rfl
  have hwire : input.head? = some 80 := by
    rw [(CheckpointWire.hashInput_eq_ok.mp h).2]
    rfl
  rw [heq, hwire] at hchain
  exact absurd hchain (by decide)

section Links

variable {Argon2 : Type} {K : ChainCrates Argon2} {chain : Chain} {p : EvidencePacketWire}
  {metadata : Checkpoint.ChainMetadata} {prev : Option Checkpoint} {n : Nat}

variable (hpass : AllPass K metadata n prev chain.checkpoints)
  (hexports : List.Forall₂ (Exports K.sha256) chain.checkpoints p.checkpoints)
  (hfree : NoCollision K.sha256 chain p)

include hpass hexports hfree

theorem links_broken {i : Nat} {a b : CheckpointWire} (ha : p.checkpoints[i]? = some a)
    (hb : p.checkpoints[i + 1]? = some b) :
    b.prevHash ≠ a.checkpointHash := by
  intro hlink
  obtain ⟨hi, ha⟩ := List.getElem?_eq_some_iff.mp ha
  obtain ⟨hi', hb⟩ := List.getElem?_eq_some_iff.mp hb
  have hlen := hexports.length_eq
  have hea := List.forall₂_iff_get.mp hexports |>.2 i (hlen ▸ hi) hi
  have heb := List.forall₂_iff_get.mp hexports |>.2 (i + 1) (hlen ▸ hi') hi'
  rw [List.get_eq_getElem, List.get_eq_getElem] at hea heb
  rw [ha] at hea
  rw [hb] at heb
  obtain ⟨input, hinput, hhash⟩ := hea.checkpointHash
  -- the chain has the same link, to the hash that it has verified itself
  have hprev := List.isChain_iff_getElem.mp hpass.isChain i (hlen ▸ hi')
  have hself := hpass.computeHash_eq (List.getElem_mem (hlen ▸ hi))
  rw [heb.prevHash, hhash, hprev, ← hself] at hlink
  have hsame : K.sha256 chain.checkpoints[i].hashInput = K.sha256 input :=
    ext_val (HashValue.mk.inj hlink).2
  exact hashInput_ne hinput (hfree _ (List.getElem_mem _) a (ha ▸ List.getElem_mem hi) input
    hinput hsame)

theorem not_wellLinked (hlen : 2 ≤ chain.checkpoints.length) :
    ¬ WellLinked K.sha256 p := by
  intro hlinked
  have hlen : 2 ≤ p.checkpoints.length := hexports.length_eq ▸ hlen
  have hfirst := List.getElem?_eq_getElem (l := p.checkpoints) (i := 0) (by omega)
  have hsecond := List.getElem?_eq_getElem (l := p.checkpoints) (i := 0 + 1) (by omega)
  exact links_broken hpass hexports hfree hfirst hsecond (hlinked.linked 0 _ _ hfirst hsecond)

end Links

/-- A packet of a valid chain of at least two checkpoints is not linked, whatever proofs and
bindings the checkpoints have: each checkpoint has the hash of its wire format, and no link
is one of these hashes. -/
theorem not_wellLinked_of_chainToWire {Argon2 : Type} (C : WireCrates) (argon2 : Swf.Prims Argon2)
    (documentRefCbor : Checkpoint.DocumentRef → Except String Bytes) (dateText : DateTime → String)
    (env : Surroundings) (chain : Chain) (report : Checkpoint.VerificationReport)
    (p : EvidencePacketWire)
    (hreport : chain.verifyDetailed (ε := Error) (C.chain argon2 documentRefCbor dateText)
      = .ok report)
    (hvalid : report.valid = true) (hlen : 2 ≤ chain.checkpoints.length)
    (hok : chainToWire C env chain = .ok p) (hfree : NoCollision C.sha256 chain p) :
    ¬ WellLinked C.sha256 p
      ∧ (∀ w ∈ p.checkpoints, w.computeHash C.sha256 = .ok w.checkpointHash)
      ∧ ∀ i a b, p.checkpoints[i]? = some a → p.checkpoints[i + 1]? = some b →
        b.prevHash ≠ a.checkpointHash := by
  have hpass := (valid_iff.mp ⟨report, hreport, hvalid⟩).2
  have hexports := exports_of_chainToWire hok
  refine ⟨not_wellLinked hpass hexports hfree hlen, fun w hw => ?_, fun i a b ha hb => ?_⟩
  · obtain ⟨c, -, hc⟩ := exists_of_mem_right hexports hw
    exact hc.computeHash_eq
  · exact links_broken hpass hexports hfree ha hb

/-! ## A chain of three checkpoints -/

def sumWire : WireCrates :=
  { sha256 := fun bytes => filled 32 bytes.sum
    hkdf := fun salt ikm info => filled 32 (salt.sum + ikm.sum + info.sum)
    hmac := fun key message => filled 32 (key.sum + message.sum)
    posmeAlgorithm := none }

def sumChain : ChainCrates Unit :=
  sumWire.chain (.idle sumWire.sha256) (fun _ => .ok []) fun _ => ""

def provenCheckpoint (ordinal : Nat) (previousHash : Digest) : Checkpoint :=
  let contentHash : Digest := filled 32 (UInt8.ofNat (ordinal + 1))
  let input := chainInput sumWire.sha256 contentHash previousHash ordinal
  let unhashed : Checkpoint :=
    { newBase ordinal previousHash contentHash 40
        (.ofNanos (1700000000000000000 + 60000000000 * ordinal)) with
      vdf := some
        { input, output := sumWire.sha256 input.val, iterations := 1, duration := 60000000000 } }
  { unhashed with hash := unhashed.computeHash sumWire.sha256 }

def firstCheckpoint : Checkpoint := provenCheckpoint 0 (filled 32 0)

def secondCheckpoint : Checkpoint := provenCheckpoint 1 firstCheckpoint.hash

def thirdCheckpoint : Checkpoint := provenCheckpoint 2 secondCheckpoint.hash

def shortChain : Chain :=
  { metadata :=
      { documentPath := "essay.txt", vdfParams := defaultParameters
        entanglementMode := .legacy, signaturePolicy := .optional }
    checkpoints := [firstCheckpoint, secondCheckpoint, thirdCheckpoint] }

def sampleSurroundings : Surroundings :=
  { exportNonce := filled 8 1, nowMillis := 1700000200000, activeDid := none }

theorem valid_shortChain : ∃ report, shortChain.verifyDetailed (ε := Error) sumChain = .ok report
    ∧ report.valid = true :=
  exists_ok_of_toOption (by decide +kernel)

def sumsDiffer (p : EvidencePacketWire) : Bool :=
  shortChain.checkpoints.all fun c => p.checkpoints.all fun w =>
    w.hashInput.toOption.all fun input => sumWire.sha256 c.hashInput ≠ sumWire.sha256 input

theorem noCollision_of_sumsDiffer {p : EvidencePacketWire} (h : sumsDiffer p = true) :
    NoCollision sumWire.sha256 shortChain p := by
  intro c hc w hw input hinput hsame
  have hdiffer := List.all_eq_true.mp (List.all_eq_true.mp h c hc) w hw
  rw [hinput] at hdiffer
  simp [Except.toOption, hsame] at hdiffer

/-- Nothing else is wrong with the packet. -/
theorem chainToWire_shortChain : ∃ p, chainToWire sumWire sampleSurroundings shortChain = .ok p
    ∧ (sumsDiffer p, p.validate sumWire.sha256) = (true, .ok ()) :=
  exists_ok_of_toOption (by decide +kernel)

theorem not_wellLinked_of_chainToWire_short :
    ∃ p, chainToWire sumWire sampleSurroundings shortChain = .ok p
      ∧ ¬ WellLinked sumWire.sha256 p
      ∧ (∀ w ∈ p.checkpoints, w.computeHash sumWire.sha256 = .ok w.checkpointHash)
      ∧ ∀ i a b, p.checkpoints[i]? = some a → p.checkpoints[i + 1]? = some b →
        b.prevHash ≠ a.checkpointHash := by
  obtain ⟨report, hreport, hvalid⟩ := valid_shortChain
  obtain ⟨p, hp, hshown⟩ := chainToWire_shortChain
  exact ⟨p, hp,
    not_wellLinked_of_chainToWire sumWire (.idle sumWire.sha256) (fun _ => .ok []) (fun _ => "")
    sampleSurroundings shortChain report p hreport hvalid (by decide) hp
    (noCollision_of_sumsDiffer (Prod.mk.inj hshown).1)⟩

/-- Three checkpoints that the chain verifies, in a packet that is valid and not linked -/
theorem not_wellLinked_shortChain :
    (∃ report, shortChain.verifyDetailed (ε := Error) sumChain = .ok report
        ∧ report.valid = true)
      ∧ shortChain.checkpoints.length = 3 ∧ (∀ c ∈ shortChain.checkpoints, 0 < c.timestamp.nanos)
      ∧ ∃ p, chainToWire sumWire sampleSurroundings shortChain = .ok p
        ∧ p.validate sumWire.sha256 = .ok () ∧ ¬ WellLinked sumWire.sha256 p := by
  obtain ⟨report, hreport, hvalid⟩ := valid_shortChain
  obtain ⟨p, hp, hshown⟩ := chainToWire_shortChain
  have hpass := (valid_iff.mp ⟨report, hreport, hvalid⟩).2
  exact ⟨⟨report, hreport, hvalid⟩, rfl, by decide, p, hp, (Prod.mk.inj hshown).2,
    not_wellLinked hpass (exports_of_chainToWire hp)
      (noCollision_of_sumsDiffer (Prod.mk.inj hshown).1) (by decide)⟩

end WritersProof.Evidence
