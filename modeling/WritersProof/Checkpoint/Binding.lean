/-
  WritersProof.Checkpoint.Binding

  When equal hash inputs mean equal checkpoints.

  The parts of a hash input are concatenated without lengths, so they can only be
  told apart when the two checkpoints give each part the same number of bytes.
  Given that, every hashed field reads back; a timestamp does as long as its
  nanoseconds fit an `i64`, but for a leap second and the second after it.
-/
import WritersProof.Checkpoint.Types

namespace WritersProof.Checkpoint

open Rust FixedBytes RfcJitterBinding Bytes
open Bytes (toBE_injective)

/-! ## Hashed contents -/

/-- What the hash covers of a VDF proof: its duration only up to `u64::MAX`. -/
def VdfProof.content (proof : VdfProof) : Digest × Digest × Nat × Nat :=
  (proof.input, proof.output, proof.iterations, durationNanos proof.duration)

def RfcJitterBinding.content (jitter : RfcJitterBinding) :
    Digest × Nat × Option (FixedBytes 8) × Digest :=
  (jitter.entropyCommitment, jitter.sampleCount, jitter.hurstExponent.map hurstHashed,
    jitter.bindingMac)

/-- What the hash covers of an Argon2id proof: neither its samples nor the part
    of its duration below a millisecond. -/
def argonContent (swf : Swf.Argon2SwfProof) :
    Digest × Digest × Swf.Argon2SwfParams × Digest × Nat × Nat :=
  (swf.input, swf.merkleRoot, swf.params, swf.challenge, swf.proofAlgorithm,
    durationToMs swf.claimedDuration)

/-- Two checkpoints agree in every field that the hash reads. -/
structure SameHashed (a b : Checkpoint) : Prop where
  version : a.hashDomainVersion = b.hashDomainVersion
  ordinal : a.ordinal = b.ordinal
  previousHash : a.previousHash = b.previousHash
  contentHash : a.contentHash = b.contentHash
  contentSize : a.contentSize = b.contentSize
  timestamp : a.timestamp = b.timestamp
  vdf : a.vdf.map VdfProof.content = b.vdf.map VdfProof.content
  jitterBinding : a.jitterBinding = b.jitterBinding
  rfcVdf : a.rfcVdf = b.rfcVdf
  rfcJitter : a.rfcJitter.map content = b.rfcJitter.map content
  timeEvidence : a.timeEvidence = b.timeEvidence
  argon2Swf : a.argon2Swf.map argonContent = b.argon2Swf.map argonContent
  posmeSwf : a.posmeSwf = b.posmeSwf
  challengeNonce : a.challengeNonce = b.challengeNonce
  mmrRoot : a.mmrRoot = b.mmrRoot

/-- How many bytes each part of the hash input takes. -/
def partLengths (c : Checkpoint) : List Nat := c.hashParts.map List.length

/-- Two different timestamps are both in the range of `i64` nanoseconds, and neither is in the
    leap second before the other. -/
def TimestampsKept (a b : Checkpoint) : Prop :=
  a.timestamp ≠ b.timestamp → a.timestamp.nanos ≤ i64Max ∧ b.timestamp.nanos ≤ i64Max
    ∧ ¬ a.timestamp.LeapTwin b.timestamp ∧ ¬ b.timestamp.LeapTwin a.timestamp

/-! ## Encodings -/

theorem domainSeparator_injective {u v : HashDomainVersion}
    (h : u.domainSeparator = v.domainSeparator) : u = v := by
  revert h
  cases u <;> cases v <;> decide +kernel

theorem TimeBindingTier.toByte_injective {s t : TimeBindingTier} (h : s.toByte = t.toByte) :
    s = t := by
  revert h
  cases s <;> cases t <;> decide

/-- A part that is never empty when its field is present tells whether it is, and
    then reads back what the encoding tells. -/
theorem part_inj {α β : Type} {enc : α → Bytes} {view : α → β} {a b : Option α}
    (h : part a enc = part b enc) (hne : ∀ x, enc x ≠ [])
    (hinj : ∀ x ∈ a, ∀ y ∈ b, enc x = enc y → view x = view y) : a.map view = b.map view := by
  cases a with
  | none =>
    cases b with
    | none => rfl
    | some y => exact absurd h.symm (hne y)
  | some x =>
    cases b with
    | none => exact absurd h (hne x)
    | some y =>
      have hview : view x = view y := hinj x rfl y rfl h
      rw [Option.map_some, Option.map_some, hview]

theorem part_eq {α : Type} {enc : α → Bytes} {a b : Option α}
    (h : part a enc = part b enc) (hne : ∀ x, enc x ≠ [])
    (hinj : ∀ x ∈ a, ∀ y ∈ b, enc x = enc y → x = y) : a = b := by
  have hmap : a.map id = b.map id := part_inj h hne hinj
  rwa [Option.map_id, id, id] at hmap

theorem ne_nil_of_length {bs : Bytes} (h : 0 < bs.length) : bs ≠ [] :=
  List.ne_nil_of_length_pos h

theorem VdfProof.content_of_encode {p q : VdfProof} (hp : p.iterations < 2 ^ 64)
    (hq : q.iterations < 2 ^ 64) (h : p.encode = q.encode) : p.content = q.content := by
  unfold VdfProof.encode at h
  simp only [List.append_assoc] at h
  obtain ⟨hinput, h⟩ := List.append_inj h (by simp)
  obtain ⟨houtput, h⟩ := List.append_inj h (by simp)
  obtain ⟨hiterations, hduration⟩ := List.append_inj h (by simp)
  have hduration := toBE_injective (durationNanos_lt p.duration) (durationNanos_lt q.duration)
    hduration
  unfold VdfProof.content
  rw [ext_val hinput, ext_val houtput, toBE_injective hp hq hiterations,
    hduration]

theorem VdfProofRfc.eq_of_hashed {p q : VdfProofRfc} (hp : p.Fits) (hq : q.Fits)
    (h : p.hashed = q.hashed) : p = q := by
  unfold VdfProofRfc.hashed at h
  simp only [List.append_assoc] at h
  obtain ⟨hchallenge, h⟩ := List.append_inj h (by simp)
  obtain ⟨houtput, h⟩ := List.append_inj h (by simp)
  obtain ⟨hiterations, h⟩ := List.append_inj h (by simp)
  obtain ⟨hduration, h⟩ := List.append_inj h (by simp)
  obtain ⟨hrate, hclass⟩ := List.append_inj h (by simp)
  obtain ⟨_, _, _, _, _, _⟩ := p
  obtain ⟨_, _, _, _, _, _⟩ := q
  congr 1
  · exact ext_val hchallenge
  · exact ext_val houtput
  · exact toBE_injective hp.iterations hq.iterations hiterations
  · exact toBE_injective hp.durationMs hq.durationMs hduration
  · congr 1
    · exact toBE_injective hp.iterationsPerSecond hq.iterationsPerSecond hrate
    · exact utf8_injective hclass

theorem RfcJitterBinding.content_of_hashed {p q : RfcJitterBinding} (hp : p.sampleCount < 2 ^ 64)
    (hq : q.sampleCount < 2 ^ 64) (h : p.hashed = q.hashed) : p.content = q.content := by
  unfold hashed at h
  -- the exponent is the only part of variable length: what follows it is peeled from the end
  obtain ⟨h, hmac⟩ := List.append_inj' h (by simp)
  simp only [List.append_assoc] at h
  obtain ⟨hcommitment, h⟩ := List.append_inj h (by simp)
  obtain ⟨hcount, hhurst⟩ := List.append_inj h (by simp)
  have hhurst : p.hurstExponent.map hurstHashed = q.hurstExponent.map hurstHashed :=
    part_inj hhurst (fun x => ne_nil_of_length (by simp)) fun x _ y _ he => ext_val he
  unfold content
  rw [ext_val hcommitment, ext_val hmac, toBE_injective hp hq hcount, hhurst]

theorem TimeEvidence.eq_of_hashed {p q : TimeEvidence} (hp : p.timestampMs < 2 ^ 64)
    (hq : q.timestampMs < 2 ^ 64) (h : p.hashed = q.hashed) : p = q := by
  unfold TimeEvidence.hashed at h
  simp only [List.append_assoc] at h
  obtain ⟨htier, h⟩ := List.append_inj h (by simp)
  obtain ⟨htimestamp, hproof⟩ := List.append_inj h (by simp)
  obtain ⟨_, _, _⟩ := p
  obtain ⟨_, _, _⟩ := q
  congr 1
  · exact TimeBindingTier.toByte_injective (List.singleton_inj.mp htier)
  · exact ext_val hproof
  · exact toBE_injective hp hq htimestamp

theorem argonContent_of_hashed {p q : Swf.Argon2SwfProof} (hp : ArgonFits p) (hq : ArgonFits q)
    (h : argonHashed p = argonHashed q) : argonContent p = argonContent q := by
  unfold argonHashed at h
  simp only [List.append_assoc] at h
  obtain ⟨hinput, h⟩ := List.append_inj h (by simp)
  obtain ⟨hroot, h⟩ := List.append_inj h (by simp)
  obtain ⟨hiterations, h⟩ := List.append_inj h (by simp)
  obtain ⟨htime, h⟩ := List.append_inj h (by simp)
  obtain ⟨hmemory, h⟩ := List.append_inj h (by simp)
  obtain ⟨hparallelism, h⟩ := List.append_inj h (by simp)
  obtain ⟨hchallenge, h⟩ := List.append_inj h (by simp)
  obtain ⟨halgorithm, hduration⟩ := List.append_inj h (by simp)
  have hparams : p.params = q.params := by
    obtain ⟨hpi, hpt, hpm, hpp, -⟩ := hp
    obtain ⟨hqi, hqt, hqm, hqp, -⟩ := hq
    generalize p.params = s at *
    generalize q.params = t at *
    cases s
    cases t
    congr 1
    · exact toBE_injective hpt hqt htime
    · exact toBE_injective hpm hqm hmemory
    · exact toBE_injective hpp hqp hparallelism
    · exact toBE_injective hpi hqi hiterations
  unfold argonContent
  rw [ext_val hinput, ext_val hroot, hparams, ext_val hchallenge,
    toBE_injective hp.proofAlgorithm hq.proofAlgorithm halgorithm,
    toBE_injective (durationToMs_lt p.claimedDuration) (durationToMs_lt q.claimedDuration)
      hduration]

/-- A jitter binding makes four parts: its hash tells whether it is present. -/
theorem jitterBinding_eq {a b : Option JitterBinding}
    (ha : ∀ jitter ∈ a, jitter.keystrokeCount < 2 ^ 64)
    (hb : ∀ jitter ∈ b, jitter.keystrokeCount < 2 ^ 64)
    (hhash : part a (fun jitter => jitter.jitterHash.val)
      = part b (fun jitter => jitter.jitterHash.val))
    (hsession : part a (fun jitter => utf8 jitter.sessionId)
      = part b (fun jitter => utf8 jitter.sessionId))
    (hcount : part a (fun jitter => toBE 8 jitter.keystrokeCount)
      = part b (fun jitter => toBE 8 jitter.keystrokeCount))
    (hseed : part a (fun jitter => part jitter.physicsSeed val)
      = part b (fun jitter => part jitter.physicsSeed val)) : a = b := by
  refine part_eq hhash (fun x => ne_nil_of_length (by simp)) fun x hx y hy he => ?_
  obtain rfl : a = some x := hx
  obtain rfl : b = some y := hy
  have hx := ha x rfl
  have hy := hb y rfl
  obtain ⟨_, _, _, _⟩ := x
  obtain ⟨_, _, _, _⟩ := y
  congr 1
  · exact ext_val he
  · exact utf8_injective hsession
  · exact toBE_injective hx hy hcount
  · exact part_eq hseed (fun s => ne_nil_of_length (by simp)) fun s _ t _ => ext_val

/-! ## Timestamps -/

variable {a b : Checkpoint}

theorem timestamp_eq (ha : 0 ≤ a.timestamp.nanos) (hb : 0 ≤ b.timestamp.nanos)
    (hkept : TimestampsKept a b) (h : timestampNanos a.timestamp = timestampNanos b.timestamp) :
    a.timestamp = b.timestamp := by
  by_contra hne
  obtain ⟨hamax, hbmax, htwin, htwin'⟩ := hkept hne
  unfold timestampNanos at h
  rw [timestampNanosSafe_of_le ha hamax, timestampNanosSafe_of_le hb hbmax] at h
  have hnanos : a.timestamp.nanos = b.timestamp.nanos := by omega
  rcases DateTime.nanos_eq_iff.mp hnanos with heq | heq | heq
  · exact hne heq
  · exact htwin heq
  · exact htwin' heq

/-! ## Binding -/

theorem sameHashed_of_hashParts (ha : a.Fits) (hb : b.Fits) (hta : 0 ≤ a.timestamp.nanos)
    (htb : 0 ≤ b.timestamp.nanos) (hkept : TimestampsKept a b) (h : a.hashParts = b.hashParts) :
    SameHashed a b := by
  unfold hashParts at h
  simp only [List.cons.injEq, and_true] at h
  obtain ⟨hversion, hordinal, hprevious, hcontent, hsize, htime, hvdf, hjhash, hjsession, hjcount,
    hjseed, hrfcVdf, hrfcJitter, htimeEvidence, hargon, hposme, hnonce, hroot⟩ := h
  refine ⟨domainSeparator_injective hversion, toBE_injective ha.ordinal hb.ordinal hordinal,
    ext_val hprevious, ext_val hcontent,
    toBE_injective ha.contentSize hb.contentSize hsize, ?_, ?_,
    jitterBinding_eq ha.jitterBinding hb.jitterBinding hjhash hjsession hjcount hjseed,
    ?_, ?_, ?_, ?_, ?_, ?_, ?_⟩
  · apply timestamp_eq hta htb hkept
    exact toBE_injective (timestampNanos_lt _) (timestampNanos_lt _) htime
  · refine part_inj hvdf (fun x => ne_nil_of_length (by simp [VdfProof.encode])) ?_
    intro x hx y hy
    exact VdfProof.content_of_encode (ha.vdf x hx) (hb.vdf y hy)
  · refine part_eq hrfcVdf (fun x => ne_nil_of_length (by simp [VdfProofRfc.hashed])) ?_
    intro x hx y hy
    exact VdfProofRfc.eq_of_hashed (ha.rfcVdf x hx) (hb.rfcVdf y hy)
  · refine part_inj hrfcJitter (fun x => ne_nil_of_length (by simp [hashed])) ?_
    intro x hx y hy
    exact content_of_hashed (ha.rfcJitter x hx) (hb.rfcJitter y hy)
  · refine part_eq htimeEvidence (fun x => ne_nil_of_length (by simp [TimeEvidence.hashed])) ?_
    intro x hx y hy
    exact TimeEvidence.eq_of_hashed (ha.timeEvidence x hx) (hb.timeEvidence y hy)
  · refine part_inj hargon (fun x => ne_nil_of_length (by simp [argonHashed])) ?_
    intro x hx y hy
    exact argonContent_of_hashed (ha.argon2Swf x hx) (hb.argon2Swf y hy)
  · refine part_eq hposme (fun x => ?_) fun x _ y _ => List.append_cancel_left
    exact List.append_ne_nil_of_left_ne_nil (by decide +kernel) _
  · refine part_eq hnonce (fun x => ?_) fun x _ y _ he => ?_
    · exact List.append_ne_nil_of_left_ne_nil (by decide +kernel) _
    · exact utf8_injective (List.append_cancel_left he)
  · refine part_eq hroot (fun x => ?_) fun x _ y _ he => ?_
    · exact List.append_ne_nil_of_left_ne_nil (by decide +kernel) _
    · exact ext_val (List.append_cancel_left he)

/-- A part of which the hash covers only the content is the same for the same content. -/
theorem part_congr {α β : Type} {enc : α → Bytes} {view : α → β} (f : β → Bytes)
    (henc : ∀ x, enc x = f (view x)) {a b : Option α} (h : a.map view = b.map view) :
    part a enc = part b enc := by
  have hpart : ∀ o : Option α, part o enc = ((o.map view).map f).getD [] := by
    intro o
    cases o with
    | none => rfl
    | some x => exact henc x
  rw [hpart a, hpart b, h]

theorem SameHashed.hashParts (h : SameHashed a b) : a.hashParts = b.hashParts := by
  have hvdf : part a.vdf VdfProof.encode = part b.vdf VdfProof.encode :=
    part_congr (fun (input, output, iterations, duration) => input.val ++ output.val
      ++ toBE 8 iterations ++ toBE 8 duration) (fun _ => rfl) h.vdf
  have hjitter : part a.rfcJitter hashed
      = part b.rfcJitter hashed := by
    refine part_congr (fun (commitment, count, hurst, mac) => commitment.val
      ++ toBE 8 count ++ part hurst val ++ mac.val) (fun jitter => ?_) h.rfcJitter
    unfold hashed content
    cases jitter.hurstExponent <;> rfl
  have hargon : part a.argon2Swf argonHashed = part b.argon2Swf argonHashed :=
    part_congr (fun (input, root, params, challenge, algorithm, duration) => input.val ++ root.val
      ++ toBE 8 params.iterations ++ toBE 4 params.timeCost
      ++ toBE 4 params.memoryCost ++ toBE 4 params.parallelism ++ challenge.val
      ++ toBE 2 algorithm ++ toBE 8 duration) (fun _ => rfl) h.argon2Swf
  unfold Checkpoint.hashParts
  rw [h.version, h.ordinal, h.previousHash, h.contentHash, h.contentSize, h.timestamp, hvdf,
    h.jitterBinding, h.rfcVdf, hjitter, h.timeEvidence, hargon, h.posmeSwf, h.challengeNonce,
    h.mmrRoot]

/-- Equal hash inputs mean equal hashed fields exactly when the parts of the two
    checkpoints have the same lengths and their timestamps are kept. -/
theorem hashInput_binds_iff {a b : Checkpoint} (ha : a.Fits) (hb : b.Fits)
    (hta : 0 ≤ a.timestamp.nanos) (htb : 0 ≤ b.timestamp.nanos) (h : a.hashInput = b.hashInput) :
    SameHashed a b ↔ a.partLengths = b.partLengths ∧ TimestampsKept a b := by
  constructor
  · intro hsame
    refine ⟨?_, fun hne => absurd hsame.timestamp hne⟩
    rw [partLengths, partLengths, hsame.hashParts]
  · rintro ⟨hlengths, hkept⟩
    exact sameHashed_of_hashParts ha hb hta htb hkept (List.eq_iff_flatten_eq.mpr ⟨h, hlengths⟩)

/-! ## Two checkpoints with one hash -/

/-- A checkpoint with a jitter binding and nothing else that is optional. -/
def jitterOnly (sessionId : String) (physicsSeed : Option Digest) : Checkpoint :=
  { Checkpoint.newBase 0 default default 0 (.ofNanos 0) with
    jitterBinding := some { jitterHash := default, sessionId, keystrokeCount := 0, physicsSeed }
    explicitHashVersion := some .v2 }

theorem jitterOnly_fits (sessionId : String) (physicsSeed : Option Digest) :
    (jitterOnly sessionId physicsSeed).Fits := by
  constructor <;> simp [jitterOnly, Checkpoint.newBase]

def zeroEnded : String := "s" ++ String.ofList (List.replicate 32 (Char.ofNat 0))

theorem hashInput_binds_iff_jitterOnly :
    SameHashed (jitterOnly "s" (some default)) (jitterOnly zeroEnded none) ↔
      (jitterOnly "s" (some default)).partLengths = (jitterOnly zeroEnded none).partLengths
        ∧ TimestampsKept (jitterOnly "s" (some default)) (jitterOnly zeroEnded none) :=
  hashInput_binds_iff (jitterOnly_fits _ _) (jitterOnly_fits _ _) (by decide) (by decide)
    (by decide +kernel)

/-- A session id that ends in 32 zero bytes hashes like a shorter one with an
    all-zero physics seed. -/
theorem not_hashInput_binds :
    ¬ ∀ a b : Checkpoint, a.Fits → b.Fits → 0 ≤ a.timestamp.nanos →
      0 ≤ b.timestamp.nanos → a.hashInput = b.hashInput → SameHashed a b := by
  intro h
  have hsame := h (jitterOnly "s" (some default)) (jitterOnly zeroEnded none)
    (jitterOnly_fits _ _) (jitterOnly_fits _ _) (by decide) (by decide) (by decide +kernel)
  have hbinding := hsame.jitterBinding
  simp [jitterOnly, Checkpoint.newBase] at hbinding

end WritersProof.Checkpoint
