/-
  WritersProof.Protocol.Finalized

  Which finalized packets the verifier takes.

  A builder chains its checkpoints as the verifier expects them (`Builder.Sound`), but
  `finalize` checks nothing else than their number.  The verifier also limits the
  filename and the size of the envelope, and wants a document hash that is one.
-/
import WritersProof.Protocol.Evidence

namespace WritersProof.Protocol

open Rust Cbor Checkpoint FixedBytes

variable {C : Crates}

/-! ## The chain of locks -/

section Locks

variable (C) in
/-- From `lastHash` on, each checkpoint carries its number, the lock before it and its own
lock, the last of which is `tip`. -/
def Chained (packetId : Bytes) : Nat → HashValue → List Checkpoint → HashValue → Prop
  | _, lastHash, [], tip => tip = lastHash
  | i, lastHash, c :: cs, tip =>
    c.sequence = UInt64.ofNat i ∧ c.prevHash = lastHash
      ∧ expectedLock C packetId lastHash c = .ok c.checkpointHash
      ∧ Chained packetId (i + 1) c.checkpointHash cs tip

theorem chained_concat {packetId : Bytes} {c : Checkpoint} :
    ∀ {cs : List Checkpoint} {i : Nat} {lastHash tip : HashValue},
      Chained C packetId i lastHash cs tip → c.sequence = UInt64.ofNat (i + cs.length) →
        c.prevHash = tip →
        expectedLock C packetId tip c = .ok c.checkpointHash →
        Chained C packetId i lastHash (cs ++ [c]) c.checkpointHash := by
  intro cs
  induction cs with
  | nil =>
    rintro i lastHash tip rfl hseq hprev hlock
    exact ⟨hseq, hprev, hlock, rfl⟩
  | cons d cs ih =>
    rintro i lastHash tip ⟨hdseq, hdprev, hdlock, hrest⟩ hseq hprev hlock
    refine ⟨hdseq, hdprev, hdlock, ih hrest ?_ hprev hlock⟩
    rw [hseq, List.length_cons, Nat.add_right_comm, Nat.add_assoc]

theorem verifyLocks_of_chained {packetId : Bytes} :
    ∀ {cs : List Checkpoint} {i : Nat} {lastHash tip : HashValue},
      Chained C packetId i lastHash cs tip → verifyLocks C packetId i lastHash cs = .ok () := by
  intro cs
  induction cs with
  | nil =>
    intros
    rfl
  | cons c cs ih =>
    rintro i lastHash tip ⟨hseq, hprev, hlock, hrest⟩
    rw [verifyLocks, reject_bind_eq_ok, not_not]
    refine ⟨hseq, reject_bind_eq_ok.mpr ⟨not_not.mpr hprev, ?_⟩⟩
    rw [hlock, res_ok_bind, reject_bind_eq_ok]
    exact ⟨not_not.mpr rfl, ih hrest⟩

end Locks

/-! ## Builders -/

namespace Builder

variable (b : Builder C)

/-- What holds of every builder. -/
structure Sound : Prop where
  version : b.version = 1
  profileUri : b.profileUri = CPOE_EVIDENCE_PROFILE
  chained : Chained C b.packetId.val 0 (hashDocumentRef C b.document) b.checkpoints
    b.lastCheckpointHash
  ids : ∀ c ∈ b.checkpoints, c.checkpointId.length = 16

variable {b}

theorem new_sound {packetId : FixedBytes 16} {now : Except String UInt64} {document : DocumentRef}
    (h : Builder.new packetId now document = .ok b) : b.Sound := by
  obtain ⟨_, -, hb⟩ := res_bind_eq_ok.mp h
  cases hb
  exact ⟨rfl, rfl, rfl, by simp⟩

theorem addCheckpoint_eq_ok {a : Added} {b' : Builder C} (h : b.addCheckpoint a = .ok b') :
    ∃ now c, a.now = .ok now ∧ c.timestamp = now ∧ c.sequence = UInt64.ofNat b.checkpoints.length
      ∧ c.checkpointId = a.checkpointId.val ∧ c.prevHash = b.lastCheckpointHash
      ∧ expectedLock C b.packetId.val b.lastCheckpointHash c = .ok c.checkpointHash
      ∧ b' = { b with
          lastCheckpointHash := c.checkpointHash, checkpoints := b.checkpoints ++ [c] } := by
  unfold addCheckpoint at h
  obtain ⟨now, hnow, h⟩ := res_bind_eq_ok.mp h
  obtain ⟨entropy, -, h⟩ := res_bind_eq_ok.mp h
  obtain ⟨-, h⟩ := reject_bind_eq_ok.mp h
  obtain ⟨lock, hlock, h⟩ := res_bind_eq_ok.mp h
  cases h
  refine ⟨now, ⟨UInt64.ofNat b.checkpoints.length, a.checkpointId.val, now,
    hashSha256 C a.content, a.charCount, b.lastCheckpointHash, lock,
    some (.ofSha256 entropy.hash)⟩, mapErr_eq_ok.mp hnow, rfl, rfl, rfl, rfl, ?_, rfl⟩
  exact hlock

theorem Sound.addCheckpoint (hb : b.Sound) {a : Added} {b' : Builder C}
    (h : b.addCheckpoint a = .ok b') : b'.Sound := by
  obtain ⟨_, c, -, -, hseq, hid, hprev, hlock, rfl⟩ := addCheckpoint_eq_ok h
  refine ⟨hb.version, hb.profileUri, ?_, ?_⟩
  · exact chained_concat hb.chained (by rw [hseq, Nat.zero_add]) hprev hlock
  · intro d hd
    rcases List.mem_append.mp hd with hd | hd
    · exact hb.ids d hd
    · rw [List.mem_singleton.mp hd, hid, length_val]

theorem Sound.added (hb : b.Sound) (a : Added) : (b.added a).Sound := by
  unfold Builder.added
  split
  next b' h => exact hb.addCheckpoint h
  next => exact hb

/-- The readings of the clock, as far as there were any. -/
def readings (calls : List Added) : List UInt64 := calls.filterMap fun a => a.now.toOption

/-- A call records a reading of the clock or none. -/
theorem timestamps_added (b : Builder C) (a : Added) :
    ∃ new, (b.added a).checkpoints.map timestamp
        = b.checkpoints.map timestamp ++ new
      ∧ new.Sublist (readings [a]) := by
  unfold Builder.added
  split
  next b' h =>
    obtain ⟨now, c, hnow, rfl, -, -, -, -, rfl⟩ := addCheckpoint_eq_ok h
    refine ⟨[c.timestamp], by rw [List.map_append]; rfl, ?_⟩
    simp only [readings, List.filterMap_cons, hnow]
    exact List.Sublist.refl _
  next => exact ⟨[], by rw [List.append_nil], List.nil_sublist _⟩

theorem created_added (b : Builder C) (a : Added) : (b.added a).created = b.created := by
  unfold Builder.added
  split
  next b' h =>
    obtain ⟨_, _, -, -, -, -, -, -, rfl⟩ := addCheckpoint_eq_ok h
    rfl
  next => rfl

def addedAll (b : Builder C) (calls : List Added) : Builder C := calls.foldl added b

theorem Sound.addedAll (hb : b.Sound) (calls : List Added) : (b.addedAll calls).Sound := by
  induction calls generalizing b with
  | nil => exact hb
  | cons a calls ih => exact ih (hb.added a)

theorem created_addedAll (b : Builder C) (calls : List Added) :
    (b.addedAll calls).created = b.created := by
  induction calls generalizing b with
  | nil => rfl
  | cons a calls ih => exact (ih (b.added a)).trans (created_added b a)

theorem timestamps_addedAll (b : Builder C) (calls : List Added) :
    ∃ new, (b.addedAll calls).checkpoints.map timestamp
        = b.checkpoints.map timestamp ++ new
      ∧ new.Sublist (readings calls) := by
  induction calls generalizing b with
  | nil => exact ⟨[], by rw [List.append_nil]; rfl, List.nil_sublist _⟩
  | cons a calls ih =>
    obtain ⟨first, hfirst, hsub⟩ := timestamps_added b a
    obtain ⟨rest, hrest, hsubs⟩ := ih (b.added a)
    refine ⟨first ++ rest, ?_, ?_⟩
    · rw [← List.append_assoc, ← hfirst]
      exact hrest
    · have happ : readings (a :: calls) = readings [a] ++ readings calls := by
        rw [readings, readings, readings, ← List.filterMap_append]
        rfl
      rw [happ]
      exact hsub.append hsubs

end Builder

theorem validateTimes_of_isChain : ∀ {cs : List Checkpoint} {lastTs : UInt64},
    List.IsChain (· ≤ ·) (lastTs :: cs.map timestamp) →
      validateTimes lastTs cs = .ok () := by
  intro cs
  induction cs with
  | nil =>
    intros
    rfl
  | cons c cs ih =>
    intro lastTs h
    rw [List.map_cons, List.isChain_cons_cons] at h
    rw [validateTimes, reject_bind_eq_ok]
    exact ⟨UInt64.not_lt.mpr h.1, ih h.2⟩

/-! ## Structure -/

/-- None of the checkpoint's hashes has a wrong length or is all zeros. -/
def Checkpoint.HashesValid (c : Checkpoint) : Prop :=
  c.contentHash.validate = true ∧ c.prevHash.validate = true ∧ c.checkpointHash.validate = true
    ∧ ∀ jitter ∈ c.jitterHash, jitter.validate = true

instance (c : Checkpoint) : Decidable c.HashesValid :=
  inferInstanceAs (Decidable (_ ∧ _ ∧ _ ∧ _))

variable {seen : List Bytes} {key : FixedBytes 32}

theorem validateCheckpoint_eq_ok {c : Checkpoint} :
    validateCheckpoint seen c = .ok () ↔
      c.checkpointId.length = 16 ∧ c.checkpointId ∉ seen ∧ c.HashesValid := by
  unfold validateCheckpoint Checkpoint.HashesValid
  simp only [reject_bind_eq_ok, reject_eq_ok, not_not, Bool.not_eq_false, not_exists, not_and]

theorem validateCheckpoints_eq_ok {cs : List Checkpoint} :
    validateCheckpoints seen cs = .ok () ↔
      (∀ c ∈ cs, c.checkpointId.length = 16 ∧ c.HashesValid)
        ∧ (cs.map checkpointId).Nodup ∧ ∀ c ∈ cs, c.checkpointId ∉ seen := by
  induction cs generalizing seen with
  | nil => simp [validateCheckpoints]
  | cons c cs ih =>
    rw [validateCheckpoints, unit_bind_eq_ok, validateCheckpoint_eq_ok, ih, List.map_cons,
      List.nodup_cons, List.forall_mem_cons, List.forall_mem_cons]
    have hmem : c.checkpointId ∉ cs.map checkpointId ↔
        ∀ d ∈ cs, d.checkpointId ≠ c.checkpointId := by
      simp only [List.mem_map, not_exists, not_and]
    simp only [hmem, List.mem_cons, not_or]
    constructor
    · rintro ⟨⟨hlen, hseen, hvalid⟩, hrest, hnodup, hnew⟩
      exact ⟨⟨⟨hlen, hvalid⟩, hrest⟩, ⟨fun d hd => (hnew d hd).1, hnodup⟩, hseen,
        fun d hd => (hnew d hd).2⟩
    · rintro ⟨⟨⟨hlen, hvalid⟩, hrest⟩, ⟨hne, hnodup⟩, hseen, hnew⟩
      exact ⟨⟨hlen, hseen, hvalid⟩, hrest, hnodup, fun d hd => ⟨hne d hd, hnew d hd⟩⟩

/-- The filename is not longer than the verifier allows. -/
def DocumentRef.NameFits (d : DocumentRef) : Prop :=
  ∀ filename ∈ d.filename, (Bytes.utf8 filename).length ≤ MAX_FILENAME_LEN

instance (d : DocumentRef) : Decidable d.NameFits :=
  inferInstanceAs (Decidable (∀ filename ∈ d.filename, _))

theorem validateFilename_eq_ok {filename : Option String} :
    validateFilename filename = .ok () ↔
      ∀ f ∈ filename, (Bytes.utf8 f).length ≤ MAX_FILENAME_LEN := by
  cases filename with
  | none => exact ⟨fun _ _ h => (Option.not_mem_none _ h).elim, fun _ => rfl⟩
  | some f =>
    rw [validateFilename, reject_eq_ok, not_lt]
    simp only [Option.mem_some_iff, forall_eq']

theorem validateStructure_eq_ok {Baseline : Type} {p : EvidencePacket Baseline} :
    validateStructure p = .ok () ↔
      p.version = 1 ∧ (p.profileUri ≠ CPOE_EVIDENCE_PROFILE → p.profileUri = POP_EAR_PROFILE)
        ∧ p.packetId.length = 16 ∧ (∃ byte ∈ p.packetId, byte ≠ 0)
        ∧ p.document.contentHash.validate = true ∧ p.document.NameFits
        ∧ Builder.MIN_CHECKPOINTS ≤ p.checkpoints.length ∧ p.checkpoints.length ≤ MAX_CHECKPOINTS
        ∧ validateCheckpoints [] p.checkpoints = .ok () := by
  unfold validateStructure DocumentRef.NameFits
  simp only [unit_bind_eq_ok, reject_eq_ok, not_not, not_and, not_lt, validateFilename_eq_ok,
    Bool.not_eq_false, List.all_eq_true, decide_eq_true_eq, not_forall, exists_prop]

/-! ## Size -/

/-- Every checkpoint takes more than 14 bytes. -/
theorem length_checkpoint_toCbor (c : Checkpoint) : 15 ≤ c.toCbor.encode.length := by
  have hentries : ∀ entries : List (Cbor × Cbor), 7 ≤ entries.length →
      15 ≤ (map entries).encode.length := by
    intro entries hlen
    have hheader := length_header_pos 5 entries.length
    have hle := length_le_encodeEntries entries
    rw [encode, List.length_append]
    omega
  apply hentries
  rw [List.length_append]
  exact Nat.le_add_right 7 _

theorem length_checkpoints_toCbor (cs : List Checkpoint) :
    15 * cs.length ≤ (encodeItems (cs.map toCbor)).length := by
  induction cs with
  | nil => exact Nat.le_refl 0
  | cons c cs ih =>
    have hc := length_checkpoint_toCbor c
    rw [List.map_cons, encodeItems, List.length_append, List.length_cons]
    omega

/-- A packet is longer than 14 bytes for each of its checkpoints. -/
theorem length_packet_toCbor {Baseline : Type} (baselineCbor : Baseline → Cbor)
    (p : EvidencePacket Baseline) :
    15 * p.checkpoints.length ≤ (p.toCbor baselineCbor).encode.length := by
  have hmem : (text "6", array (p.checkpoints.map toCbor)) ∈
      [(text "1", uint p.version.toUInt64), (.text "2", .text p.profileUri),
        (.text "3", .bytes p.packetId), (.text "4", .uint p.created),
        (.text "5", p.document.toCbor), (.text "6", .array (p.checkpoints.map toCbor))]
      ++ (p.attestationTier.map fun tier => (text "7", text tier.name)).toList
      ++ (p.baselineVerification.map fun b => (text "19", baselineCbor b)).toList := by
    rw [List.append_assoc]
    apply List.mem_append_left
    simp
  have hentry := length_le_of_mem_entries hmem
  have hitems := length_checkpoints_toCbor p.checkpoints
  rw [encode, List.length_append] at hentry
  rw [EvidencePacket.toCbor]
  omega

/-! ## Depth -/

theorem depth_document (d : DocumentRef) : d.toCbor.depth = 2 := by
  rw [DocumentRef.toCbor, depth, depthEntries_append, depthEntries_append]
  cases d.filename <;> rfl

theorem depth_checkpoint (c : Checkpoint) : c.toCbor.depth = 2 := by
  rw [toCbor, depth, depthEntries_append]
  cases c.jitterHash <;> rfl

theorem depth_checkpoints (cs : List Checkpoint) :
    depthItems (cs.map toCbor) ≤ 2 := by
  induction cs with
  | nil => exact Nat.zero_le 2
  | cons c cs ih =>
    rw [List.map_cons, depthItems, depth_checkpoint]
    exact max_le (Nat.le_refl 2) ih

/-- Packets are nested four deep. -/
theorem depth_packet (hC : C.Faithful) (p : EvidencePacket C.Baseline) :
    (p.toCbor C.baselineCbor).depth ≤ 4 := by
  have hdocument := depth_document p.document
  have hcheckpoints := depth_checkpoints p.checkpoints
  have htier : depthEntries (p.attestationTier.map fun tier =>
      (text "7", text tier.name)).toList = 0 := by
    cases p.attestationTier <;> rfl
  have hbaseline : depthEntries (p.baselineVerification.map fun b =>
      (text "19", C.baselineCbor b)).toList ≤ 3 := by
    cases hp : p.baselineVerification with
    | none => exact Nat.zero_le 3
    | some b =>
      have hb := hC.baseline b
      simp only [Option.map_some, Option.toList_some, depthEntries, depthEntry,
        depth]
      omega
  rw [EvidencePacket.toCbor, depth, depthEntries_append, depthEntries_append, htier]
  simp only [depthEntries, depthEntry, depth, hdocument]
  omega

/-! ## Finalized packets -/

/-- The largest packet that fits into an envelope of `MAX_COSE_INPUT_SIZE`. -/
def MAX_PACKET_SIZE : Nat := 1048499

/-- What the verifier wants of a packet, and the builder does not see to. -/
structure Builder.Fits (key : FixedBytes 32) (b : Builder C) : Prop where
  documentHash : b.document.contentHash.validate = true
  filename : b.document.NameFits
  size : (encodeEvidence C b.packet).length ≤ MAX_PACKET_SIZE
  packetId : ∃ byte ∈ b.packetId.val, byte ≠ 0
  ids : (b.checkpoints.map checkpointId).Nodup
  hashes : ∀ c ∈ b.checkpoints, c.HashesValid
  baseline : ∀ bv ∈ b.baselineVerification, C.validateBaseline key bv = .ok ()

theorem envelope_size (seed : FixedBytes 32) (payload : Bytes) :
    (signedEnvelope C seed payload).toCbor.encode.length ≤ MAX_COSE_INPUT_SIZE ↔
      payload.length ≤ MAX_PACKET_SIZE := by
  rw [length_signedEnvelope, MAX_COSE_INPUT_SIZE, MAX_PACKET_SIZE, argument, Bytes.length_toBE]
  by_cases h24 : payload.length < 24
  · rw [width, if_pos h24]
    omega
  · rcases width_cases (Nat.not_lt.mp h24) with
      ⟨hw, -, hlt⟩ | ⟨hw, -, hlt⟩ | ⟨hw, -, hlt⟩ | ⟨hw, -, hle⟩
    all_goals omega

theorem decodeEvidence_encodeEvidence (hC : C.Faithful) (p : EvidencePacket C.Baseline)
    (hsize : (encodeEvidence C p).length ≤ MAX_PACKET_SIZE) :
    decodeEvidence C (encodeEvidence C p) = .ok p := by
  have hmax : MAX_PACKET_SIZE ≤ MAX_CBOR_PAYLOAD := by decide
  have hdepth : (p.toCbor C.baselineCbor).depth ≤ MAX_CBOR_DEPTH :=
    (depth_packet hC p).trans (by decide)
  have hread : C.packetReader (p.toCbor C.baselineCbor).encode = .ok p := by
    apply hC.packet
    rw [encodeEvidence, List.length_append, MAX_PACKET_SIZE] at hsize
    omega
  exact mapErr_eq_ok.mpr (decodeTagged_encode hread (by decide) (hsize.trans hmax) hdepth)

/-- Builders that no checkpoint has been added to. -/
inductive Builder.Created (packetId : FixedBytes 16) (now : Except String UInt64)
    (document : DocumentRef) : Builder C → Prop where
  | new {b} : Builder.new packetId now document = .ok b → Created packetId now document b
  | withAttestationTier {b} (tier) : Created packetId now document b →
      Created packetId now document (b.withAttestationTier tier)
  | withMinEntropyBits {b} (bits) : Created packetId now document b →
      Created packetId now document (b.withMinEntropyBits bits)
  | withBaselineVerification {b} (bv) : Created packetId now document b →
      Created packetId now document (b.withBaselineVerification bv)

theorem Builder.Created.sound {packetId : FixedBytes 16} {now : Except String UInt64}
    {document : DocumentRef} {b : Builder C} (h : Builder.Created packetId now document b) :
    b.Sound ∧ b.checkpoints = [] := by
  induction h with
  | new h =>
    refine ⟨Builder.new_sound h, ?_⟩
    obtain ⟨_, -, hb⟩ := res_bind_eq_ok.mp h
    cases hb
    rfl
  | withAttestationTier _ _ ih =>
    exact ⟨⟨ih.1.version, ih.1.profileUri, ih.1.chained, ih.1.ids⟩, ih.2⟩
  | withMinEntropyBits _ _ ih =>
    exact ⟨⟨ih.1.version, ih.1.profileUri, ih.1.chained, ih.1.ids⟩, ih.2⟩
  | withBaselineVerification _ _ ih =>
    exact ⟨⟨ih.1.version, ih.1.profileUri, ih.1.chained, ih.1.ids⟩, ih.2⟩

theorem validateStructure_packet {b : Builder C} (hb : b.Sound)
    (hmin : Builder.MIN_CHECKPOINTS ≤ b.checkpoints.length)
    (hmax : b.checkpoints.length ≤ MAX_CHECKPOINTS) :
    validateStructure b.packet = .ok () ↔
      (∃ byte ∈ b.packetId.val, byte ≠ 0) ∧ b.document.contentHash.validate = true
        ∧ b.document.NameFits ∧ (b.checkpoints.map checkpointId).Nodup
        ∧ ∀ c ∈ b.checkpoints, c.HashesValid := by
  rw [validateStructure_eq_ok, validateCheckpoints_eq_ok]
  constructor
  · rintro ⟨-, -, -, hid, hhash, hname, -, -, hall, hnodup, -⟩
    exact ⟨hid, hhash, hname, hnodup, fun c hc => (hall c hc).2⟩
  · rintro ⟨hid, hhash, hname, hnodup, hall⟩
    exact ⟨hb.version, fun h => absurd hb.profileUri h, b.packetId.size_eq, hid, hhash, hname, hmin,
      hmax, fun c hc => ⟨hb.ids c hc, hall c hc⟩, hnodup, fun _ _ => List.not_mem_nil⟩

theorem verifyBaseline_eq_ok {baseline : Option C.Baseline} :
    verifyBaseline C key baseline = .ok () ↔
      ∀ bv ∈ baseline, C.validateBaseline key bv = .ok () := by
  cases baseline with
  | none => exact ⟨fun _ _ h => (Option.not_mem_none _ h).elim, fun _ => rfl⟩
  | some bv =>
    rw [verifyBaseline, mapErr_eq_ok]
    simp only [Option.mem_some_iff, forall_eq']

/-- The checks of the verifier, one after the other. -/
theorem verify_eq_ok {data : Bytes} {p : EvidencePacket C.Baseline} :
    verify C key data = .ok p ↔
      ∃ payload, verifyEvidenceCose C data key = .ok payload ∧ decodeEvidence C payload = .ok p
        ∧ validateStructure p = .ok ()
        ∧ verifyLocks C p.packetId 0 (hashDocumentRef C p.document) p.checkpoints = .ok ()
        ∧ validateTemporalConsistency p = .ok ()
        ∧ verifyBaseline C key p.baselineVerification = .ok () := by
  unfold verify
  constructor
  · intro h
    obtain ⟨payload, hpayload, h⟩ := res_bind_eq_ok.mp h
    obtain ⟨packet, hpacket, h⟩ := res_bind_eq_ok.mp h
    simp only [unit_bind_eq_ok, Except.ok.injEq] at h
    obtain ⟨hstructure, hlocks, htimes, hbaseline, rfl⟩ := h
    exact ⟨payload, hpayload, hpacket, hstructure, hlocks, htimes, hbaseline⟩
  · rintro ⟨payload, hpayload, hpacket, hstructure, hlocks, htimes, hbaseline⟩
    rw [hpayload, res_ok_bind, hpacket, res_ok_bind]
    simp only [unit_bind_eq_ok]
    exact ⟨hstructure, hlocks, htimes, hbaseline, trivial⟩

theorem finalize_eq_ok {b : Builder C} {seed : FixedBytes 32} {bytes : Bytes} :
    b.finalize (signingKey C seed) = .ok bytes ↔
      Builder.MIN_CHECKPOINTS ≤ b.checkpoints.length
        ∧ (signedEnvelope C seed (encodeEvidence C b.packet)).toCbor.encode = bytes := by
  unfold Builder.finalize
  rw [reject_bind_eq_ok, not_lt, signEvidenceCose_signingKey, Except.ok.injEq]

/-- A finalized packet verifies under the key of its signer, as the packet that was built,
exactly when it fits. -/
theorem verify_finalize_iff (hC : C.Faithful) {packetId : FixedBytes 16}
    {now : Except String UInt64} {document : DocumentRef} {b : Builder C}
    (hb : b.Created packetId now document) (calls : List Builder.Added)
    (hclock : (b.created :: Builder.readings calls).Pairwise (· ≤ ·)) (seed : FixedBytes 32)
    {bytes : Bytes} (hfinal : (b.addedAll calls).finalize (signingKey C seed) = .ok bytes) :
    verify C (C.ed25519.publicKey seed) bytes = .ok (b.addedAll calls).packet ↔
      (b.addedAll calls).Fits (C.ed25519.publicKey seed) := by
  obtain ⟨hmin, rfl⟩ := finalize_eq_ok.mp hfinal
  have hsound := hb.sound.1.addedAll calls
  -- The clock carries over to the timestamps.
  have htimes : validateTemporalConsistency (b.addedAll calls).packet = .ok () := by
    apply validateTimes_of_isChain
    obtain ⟨new, hnew, hsub⟩ := Builder.timestamps_addedAll b calls
    rw [hb.sound.2, List.map_nil, List.nil_append] at hnew
    have hcreated := Builder.created_addedAll b calls
    show List.IsChain _ ((b.addedAll calls).created :: List.map _ (b.addedAll calls).checkpoints)
    rw [hnew, hcreated]
    exact (hclock.sublist (hsub.cons_cons b.created)).isChain
  have hlocks := verifyLocks_of_chained hsound.chained
  generalize b.addedAll calls = b at *
  have hmax : (encodeEvidence C b.packet).length ≤ MAX_PACKET_SIZE →
      b.checkpoints.length ≤ MAX_CHECKPOINTS := by
    intro hsize
    have hpacket := length_packet_toCbor C.baselineCbor b.packet
    rw [encodeEvidence, List.length_append, MAX_PACKET_SIZE] at hsize
    change 15 * b.checkpoints.length ≤ _ at hpacket
    rw [MAX_CHECKPOINTS]
    omega
  rw [verify_eq_ok]
  constructor
  · rintro ⟨payload, hpayload, -, hstructure, -, -, hbaseline⟩
    obtain ⟨hsize, -⟩ := (verifyEvidenceCose_signedEnvelope seed _ hC payload).mp hpayload
    have hsize := (envelope_size seed _).mp hsize
    obtain ⟨hid, hhash, hname, hids, hhashes⟩ :=
      (validateStructure_packet hsound hmin (hmax hsize)).mp hstructure
    exact ⟨hhash, hname, hsize, hid, hids, hhashes, verifyBaseline_eq_ok.mp hbaseline⟩
  · intro hfits
    refine ⟨_, (verifyEvidenceCose_signedEnvelope seed _ hC _).mpr
      ⟨(envelope_size seed _).mpr hfits.size, rfl⟩, decodeEvidence_encodeEvidence hC _ hfits.size,
      ?_, hlocks, htimes, verifyBaseline_eq_ok.mpr hfits.baseline⟩
    exact (validateStructure_packet hsound hmin (hmax hfits.size)).mpr
      ⟨hfits.packetId, hfits.documentHash, hfits.filename, hfits.ids, hfits.hashes⟩

/-- Three checkpoints, a reading of the clock apart. -/
def typed : List Builder.Added :=
  [1, 2, 3].map fun n =>
    { now := .ok (UInt64.ofNat n), checkpointId := filled 16 (UInt8.ofNat n)
      timing := .ok { samples := [n], entropyBits := 8 }, content := [UInt8.ofNat n]
      charCount := UInt64.ofNat n }

def named (filename : String) : DocumentRef where
  contentHash := .ofSha256 (filled 32 7)
  filename := some filename
  byteLength := 3
  charCount := 3

/-- A builder with a random id of ones, at a clock of 1. -/
noncomputable def started (document : DocumentRef) : Builder summingCrates where
  version := 1
  profileUri := CPOE_EVIDENCE_PROFILE
  packetId := filled 16 1
  created := 1
  document
  checkpoints := []
  lastCheckpointHash := hashDocumentRef summingCrates document
  jitterMinEntropyBits := 1
  minCausalityEntropyBits := DEFAULT_MIN_CAUSALITY_ENTROPY_BITS
  attestationTier := .softwareOnly
  baselineVerification := none

theorem started_created (document : DocumentRef) :
    (started document).Created (filled 16 1) (.ok 1) document :=
  .new rfl

/-- A packet with a short filename verifies. -/
theorem verify_finalize_iff_typed :
    verify summingCrates (filled 32 9)
      (signedEnvelope summingCrates (filled 32 9)
        (encodeEvidence summingCrates
          ((started (named "a.txt")).addedAll typed).packet)).toCbor.encode
      = .ok ((started (named "a.txt")).addedAll typed).packet := by
  apply (verify_finalize_iff summingCrates_faithful (started_created _) typed (by decide)
    (filled 32 9) (finalize_eq_ok.mpr ⟨by decide +kernel, rfl⟩)).mpr
  exact {
    documentHash := by decide
    filename := by decide +kernel
    size := by decide +kernel
    packetId := ⟨1, by decide, by decide⟩
    ids := by decide +kernel
    hashes := by decide +kernel
    baseline := nofun }

/-- A filename of 300 characters. -/
def longName : String := String.ofList (List.replicate 300 'a')

/-- The builder finalizes a packet with it, and the verifier does not take that. -/
theorem not_verify_of_longName :
    (started (named longName)).Created (filled 16 1) (.ok 1) (named longName)
      ∧ ((1 : UInt64) :: Builder.readings typed).Pairwise (· ≤ ·)
      ∧ ∃ bytes, ((started (named longName)).addedAll typed).finalize
            (signingKey summingCrates (filled 32 9)) = .ok bytes
          ∧ ∀ p, verify summingCrates (summingCrates.ed25519.publicKey (filled 32 9))
              bytes ≠ .ok p := by
  refine ⟨started_created _, by decide, _, finalize_eq_ok.mpr ⟨by decide +kernel, rfl⟩, ?_⟩
  intro p hp
  obtain ⟨payload, hpayload, hdecode, hstructure, -⟩ := verify_eq_ok.mp hp
  obtain ⟨-, rfl⟩ := (verifyEvidenceCose_signedEnvelope _ _ summingCrates_faithful _).mp hpayload
  rw [decodeEvidence_encodeEvidence summingCrates_faithful _ (by decide +kernel)] at hdecode
  cases hdecode
  obtain ⟨-, -, -, -, -, hname, -⟩ := validateStructure_eq_ok.mp hstructure
  exact absurd (hname longName rfl) (by decide +kernel)

end WritersProof.Protocol
