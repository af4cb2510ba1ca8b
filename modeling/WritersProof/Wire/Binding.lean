/-
  WritersProof.Wire.Binding

  What the hash of a wire-format checkpoint says about it.

  The hashed parts carry no tags or lengths.  The digests are as long as their algorithms
  say, the root has any length up to 64, and a map does not tell of which type it is: where
  two checkpoints agree on these three things, their bytes tell everything else
  (`hashInput_determines_iff`).
-/
import WritersProof.Wire.Checkpoint

namespace WritersProof.Wire

open Rust Cbor HashValue

namespace CheckpointWire

/-- Two checkpoints agree on everything that the hash covers. -/
structure SameHashed (a b : CheckpointWire) : Prop where
  prevDigest : a.prevHash.digest = b.prevHash.digest
  contentDigest : a.contentHash.digest = b.contentHash.digest
  delta : a.delta = b.delta
  jitterBinding : a.jitterBinding = b.jitterBinding
  physicalState : a.physicalState = b.physicalState
  merkleRoot : a.processProof.merkleRoot = b.processProof.merkleRoot

/-- `a` has a jitter binding only, `b` a physical state only, and they are the same map. -/
def Mixed (a b : CheckpointWire) : Prop :=
  ∃ jb ps, (a.jitterBinding = some jb ∧ a.physicalState = none)
    ∧ (b.jitterBinding = none ∧ b.physicalState = some ps) ∧ SameMap jb ps

/-- What the bytes do not tell -/
structure SameShape (a b : CheckpointWire) : Prop where
  prevAlgorithm : a.prevHash.algorithm = b.prevHash.algorithm
  contentAlgorithm : a.contentHash.algorithm = b.contentHash.algorithm
  rootLength : a.processProof.merkleRoot.length = b.processProof.merkleRoot.length
  notMixed : ¬ Mixed a b ∧ ¬ Mixed b a

/-! ## Digests -/

theorem digests_of_valid {cp : CheckpointWire} (h : cp.validate = .ok ()) :
    cp.contentHash.digest.length = digestLen cp.contentHash.algorithm
      ∧ cp.prevHash.digest.length = digestLen cp.prevHash.algorithm := by
  simp only [validate, unit_bind_eq_ok] at h
  obtain ⟨-, -, hcontent, hprev, -⟩ := h
  exact ⟨length_of_valid hcontent, length_of_valid hprev⟩

theorem digestLen_injective {s t : Protocol.HashAlgorithm}
    (h : digestLen s = digestLen t) : s = t := by
  revert h
  cases s <;> cases t <;> decide

/-! ## Optional parts -/

def partBytes {α : Type} (toCbor : α → Cbor) (part : Option α) : Bytes :=
  (part.map fun x => (toCbor x).encode).getD []

section Parts

variable {α : Type} {toCbor : α → Cbor}

theorem encode_lt {item : Cbor} (h : item.encode.length ≤ isizeMax) : item.encode.length < 2 ^ 64 :=
  Nat.lt_of_le_of_lt h (by decide)

theorem partBytes_ne_nil (x : α) : partBytes toCbor (some x) ≠ [] :=
  List.ne_nil_of_length_pos (length_encode_pos (toCbor x))

theorem partBytes_inj {p q : Option α} (hp : ∀ x ∈ p, (toCbor x).encode.length ≤ isizeMax)
    (hinj : ∀ x y, toCbor x = toCbor y → x = y) (h : partBytes toCbor p = partBytes toCbor q) :
    p = q := by
  cases p with
  | none =>
    cases q with
    | none => rfl
    | some y => exact absurd h.symm (partBytes_ne_nil y)
  | some x =>
    cases q with
    | none => exact absurd h (partBytes_ne_nil x)
    | some y => rw [hinj x y (encode_injective (encode_lt (hp x rfl)) h)]

end Parts

/-- A jitter binding in one checkpoint and none in the other: the first one has nothing
else, and the second one a physical state with the same map. -/
theorem mixed_of_parts {jb : JitterBindingWire} {ps qs : Option PhysicalState}
    (hjb : jb.toCbor.encode.length ≤ isizeMax)
    (hqs : ∀ q ∈ qs, q.toCbor.encode.length ≤ isizeMax)
    (h : jb.toCbor.encode ++ partBytes PhysicalState.toCbor ps
      = partBytes PhysicalState.toCbor qs) :
    ps = none ∧ ∃ q, qs = some q ∧ SameMap jb q := by
  cases qs with
  | none =>
    have hnil := (List.append_eq_nil_iff.mp h).1
    exact absurd hnil (List.ne_nil_of_length_pos (length_encode_pos _))
  | some q =>
    have h : jb.toCbor.encode ++ partBytes PhysicalState.toCbor ps = q.toCbor.encode ++ [] := by
      rw [h, List.append_nil]
      rfl
    obtain ⟨hsame, hps⟩ :=
      encode_append_inj_of_lt (encode_lt hjb) (encode_lt (hqs q rfl)) h
    refine ⟨?_, q, rfl, toCbor_eq_toCbor_iff.mp hsame⟩
    cases ps with
    | none => rfl
    | some p => exact absurd hps (partBytes_ne_nil p)

/-! ## Binding -/

/-- Equal bytes between the digests and the root: the same parts, or one map that is a
jitter binding here and a physical state there. -/
theorem parts_of_encodedParts {a b : CheckpointWire} (ha : a.Encodable) (hb : b.Encodable)
    (h : a.encodedParts = b.encodedParts) :
    a.delta = b.delta ∧ (a.jitterBinding = b.jitterBinding ∧ a.physicalState = b.physicalState
      ∨ Mixed a b ∨ Mixed b a) := by
  obtain ⟨hdelta, hparts⟩ :=
    encode_append_inj_of_lt (encode_lt ha.delta) (encode_lt hb.delta) h
  refine ⟨EditDelta.toCbor_injective hdelta, ?_⟩
  have hjitter := ha.jitterBinding
  have hjitter' := hb.jitterBinding
  cases hja : a.jitterBinding with
  | none =>
    cases hjb : b.jitterBinding with
    | none =>
      rw [hja, hjb] at hparts
      exact .inl ⟨rfl, partBytes_inj ha.physicalState
        (fun _ _ => PhysicalState.toCbor_injective) hparts⟩
    | some j =>
      rw [hja, hjb] at hparts
      obtain ⟨hb', q, hq, hmap⟩ :=
        mixed_of_parts (hjitter' j hjb) ha.physicalState hparts.symm
      exact .inr (.inr ⟨j, q, ⟨hjb, hb'⟩, ⟨hja, hq⟩, hmap⟩)
  | some i =>
    cases hjb : b.jitterBinding with
    | none =>
      rw [hja, hjb] at hparts
      obtain ⟨ha', q, hq, hmap⟩ := mixed_of_parts (hjitter i hja) hb.physicalState hparts
      exact .inr (.inl ⟨i, q, ⟨hja, ha'⟩, ⟨hjb, hq⟩, hmap⟩)
    | some j =>
      rw [hja, hjb] at hparts
      obtain ⟨hsame, hphys⟩ := encode_append_inj_of_lt (encode_lt (hjitter i hja))
        (encode_lt (hjitter' j hjb)) hparts
      exact .inl ⟨by rw [JitterBindingWire.toCbor_injective hsame],
        partBytes_inj ha.physicalState (fun _ _ => PhysicalState.toCbor_injective) hphys⟩

/-- The hashed bytes of accepted checkpoints tell everything they cover, exactly where the
digests have the same algorithms, the roots the same length, and no jitter binding is in
the place of a physical state. -/
theorem hashInput_determines_iff {a b : CheckpointWire} {input : Bytes} (ha : a.validate = .ok ())
    (hb : b.validate = .ok ()) (hina : a.hashInput = .ok input) (hinb : b.hashInput = .ok input) :
    SameHashed a b ↔ SameShape a b := by
  obtain ⟨hca, hpa⟩ := digests_of_valid ha
  obtain ⟨hcb, hpb⟩ := digests_of_valid hb
  constructor
  · intro h
    refine ⟨digestLen_injective ?_, digestLen_injective ?_, by rw [h.merkleRoot], ?_, ?_⟩
    · rw [← hpa, ← hpb, h.prevDigest]
    · rw [← hca, ← hcb, h.contentDigest]
    · rintro ⟨jb, ps, ⟨hsome, -⟩, ⟨hnone, -⟩, -⟩
      exact nomatch hsome.symm.trans (h.jitterBinding.trans hnone)
    · rintro ⟨jb, ps, ⟨hsome, -⟩, ⟨hnone, -⟩, -⟩
      exact nomatch hsome.symm.trans (h.jitterBinding.symm.trans hnone)
  · intro h
    obtain ⟨hea, hina⟩ := hashInput_eq_ok.mp hina
    obtain ⟨heb, hinb⟩ := hashInput_eq_ok.mp hinb
    -- part by part: lengths from both ends, the maps in the middle by themselves
    obtain ⟨hprev, hrest⟩ := List.append_inj (List.append_cancel_left (hina.symm.trans hinb))
      (by rw [hpa, hpb, h.prevAlgorithm])
    obtain ⟨hcontent, hrest⟩ := List.append_inj hrest (by rw [hca, hcb, h.contentAlgorithm])
    obtain ⟨hparts, hroot⟩ := List.append_inj' hrest h.rootLength
    obtain ⟨hdelta, ⟨hjitter, hphys⟩ | hmixed | hmixed⟩ := parts_of_encodedParts hea heb hparts
    · exact ⟨hprev, hcontent, hdelta, hjitter, hphys, hroot⟩
    · exact absurd hmixed h.notMixed.1
    · exact absurd hmixed h.notMixed.2

end CheckpointWire

/-! ## Checkpoints with equal bytes -/

open CheckpointWire

def zeroHash (algorithm : Protocol.HashAlgorithm) : HashValue :=
  { algorithm, digest := List.replicate (digestLen algorithm) 0 }

/-- A checkpoint whose digests are all zero, with the given optional parts and root -/
def zeroCheckpoint (prev content : Protocol.HashAlgorithm) (jitter : Option JitterBindingWire)
    (phys : Option PhysicalState) (root : Bytes) : CheckpointWire :=
  { sequence := 0, checkpointId := FixedBytes.filled 16 1, timestamp := 1,
    contentHash := zeroHash content, charCount := 0, delta := noDelta, prevHash := zeroHash prev,
    checkpointHash := zeroHash .sha256,
    processProof :=
      { algorithm := .swfSha256,
        params :=
          { timeCost := 0, memoryCost := 0, parallelism := 0, steps := 0, waypointInterval := none,
            waypointMemory := none, readsPerStep := none, challenges := none,
            recursionDepth := none },
        input := [], merkleRoot := root, sampledProofs := [], claimedDuration := 0 },
    jitterBinding := jitter, physicalState := phys, entangledMac := none, receipts := none,
    activeProbes := none, lamportSignature := none, lamportPubkeyFingerprint := none,
    posmeProof := none }

def zeroPhysical (kernel : Option (FixedBytes 32)) : PhysicalState :=
  { thermal := [], entropyDelta := 0, kernelCommitment := kernel, inertialSamples := none }

def zeroJitter : JitterBindingWire :=
  { intervals := [], entropyEstimate := 0, jitterSeal := List.replicate 32 0 }

def CheckpointWire.input (cp : CheckpointWire) : Bytes := cp.hashInput.toOption.getD []

/-- The sequence number and the time are not hashed. -/
def later (cp : CheckpointWire) : CheckpointWire := { cp with sequence := 1, timestamp := 2 }

theorem hashInput_determines_iff_later :
    SameHashed (zeroCheckpoint .sha256 .sha384 (some zeroJitter) (some (zeroPhysical none)) [7])
        (later (zeroCheckpoint .sha256 .sha384 (some zeroJitter) (some (zeroPhysical none)) [7]))
      ↔ SameShape
        (zeroCheckpoint .sha256 .sha384 (some zeroJitter) (some (zeroPhysical none)) [7])
        (later (zeroCheckpoint .sha256 .sha384 (some zeroJitter) (some (zeroPhysical none)) [7])) :=
  @hashInput_determines_iff _ _
    (zeroCheckpoint .sha256 .sha384 (some zeroJitter) (some (zeroPhysical none)) [7]).input
    (by decide +kernel) (by decide +kernel) (by decide +kernel) (by decide +kernel)

/-- Where one digest ends and the other one starts is not in the bytes. -/
theorem not_hashInput_determines :
    ¬ ∀ a b input, a.validate = .ok () → b.validate = .ok () → a.hashInput = .ok input →
      b.hashInput = .ok input → SameHashed a b := by
  intro h
  have hsame := h (zeroCheckpoint .sha256 .sha512 none none [])
    (zeroCheckpoint .sha512 .sha256 none none [])
    (zeroCheckpoint .sha256 .sha512 none none []).input
    (by decide +kernel) (by decide +kernel) (by decide +kernel) (by decide +kernel)
  exact absurd (congrArg List.length hsame.prevDigest) (by decide)

end WritersProof.Wire
