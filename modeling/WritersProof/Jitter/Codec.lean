/-
  WritersProof.Jitter.Codec

  The binary form of a jitter chain, and a chain that is verified in two parts
  (crates/cpoe/src/jitter/codec.rs).

  The encoder writes times that `i64` nanoseconds cannot hold as others, leap seconds among
  them, and more samples than the decoder takes.
-/
import WritersProof.Jitter.Recorded
import WritersProof.Lib.Reader

namespace WritersProof.Jitter

open Rust Bytes DateTime

/-! ## Samples -/

def encodeSampleBinary (sample : Sample) : Bytes :=
  toBE 8 (timestampNanos sample.timestamp) ++ toBE 8 sample.keystrokeCount
    ++ sample.documentHash.val ++ toBE 4 sample.jitterMicros ++ sample.hash.val
    ++ sample.previousHash.val

/-- The fields of a sample, the time last of all checked -/
def readSample : Reader String Sample := do
  let timestampNanos ← Reader.be 8
  let keystrokeCount ← Reader.be 8
  let documentHash ← Reader.fixed 32
  let jitterMicros ← Reader.be 4
  let hash ← Reader.fixed 32
  let previousHash ← Reader.fixed 32
  Reader.reject (2 ^ 63 - 1 < timestampNanos) s!"timestamp_nanos {timestampNanos} exceeds i64::MAX"
  pure {
    timestamp := .ofNanos timestampNanos, keystrokeCount, documentHash, jitterMicros, hash
    previousHash }

def decodeSampleBinary (data : Bytes) : Res String Sample := do
  reject (data.length ≠ 116) s!"invalid sample data length: expected 116, got {data.length}"
  Reader.run readSample data

/-! ## Chains -/

def chainHeaderSize : Nat := 18

def maxSampleCount : Nat := 10000000

def headerBytes (inject : UInt8) (params : Parameters) (sampleCount : Nat) : Bytes :=
  [1] ++ toBE 4 params.minJitterMicros ++ toBE 4 params.maxJitterMicros
    ++ toBE 4 params.sampleInterval ++ [inject] ++ toBE 4 sampleCount

/-- `if params.inject_enabled { 1 } else { 0 }` -/
def injectByte (enabled : Bool) : UInt8 := if enabled then 1 else 0

def encodeChainBinary (samples : List Sample) (params : Parameters) : Res String Bytes := do
  let samplesSize ← okOr (checkedMul samples.length 116) "sample count overflow in binary encoding"
  let _ ← unwrap (checkedAdd chainHeaderSize samplesSize)
  reject (2 ^ 32 ≤ params.sampleInterval)
    s!"sample_interval {params.sampleInterval} exceeds u32::MAX"
  reject (2 ^ 32 ≤ samples.length) s!"sample count {samples.length} exceeds u32::MAX"
  .ok (headerBytes (injectByte params.injectEnabled) params samples.length
    ++ samples.flatMap encodeSampleBinary)

def readHeader : Reader String (Parameters × Nat) := do
  let version ← Reader.byte
  Reader.reject (version ≠ 1) s!"unsupported chain version: {version}"
  let minJitterMicros ← Reader.be 4
  let maxJitterMicros ← Reader.be 4
  let sampleInterval ← Reader.be 4
  let inject ← Reader.byte
  let sampleCount ← Reader.be 4
  Reader.reject (maxSampleCount < sampleCount)
    s!"sample count {sampleCount} exceeds maximum ({maxSampleCount})"
  pure ({ minJitterMicros, maxJitterMicros, sampleInterval, injectEnabled := inject == 1 },
    sampleCount)

def decodeSamples (data : Bytes) : Nat → Nat → Res String (List Sample)
  | _, 0 => .ok []
  | i, n + 1 => do
    let start := chainHeaderSize + i * 116
    let bytes ← slice data start (start + 116)
    let sample ← mapFault (decodeSampleBinary bytes) fun e =>
      s!"failed to decode sample {i}: validation: {e}"
    let samples ← decodeSamples data (i + 1) n
    .ok (sample :: samples)

def decodeChainBinary (data : Bytes) : Res String (List Sample × Parameters) := do
  reject (data.length < chainHeaderSize) "data too short for chain header"
  let (params, sampleCount) ← Reader.run readHeader data
  let samplesSize ← okOr (checkedMul sampleCount 116) "sample count overflow in binary decoding"
  let expectedLen := chainHeaderSize + samplesSize
  reject (data.length ≠ expectedLen)
    s!"invalid data length: expected {expectedLen}, got {data.length}"
  let samples ← decodeSamples data 0 sampleCount
  .ok (samples, params)

/-! ## Continuation -/

def verifyChainContinuity (C : Crates) (existingSamples newSamples : List Sample) (seed : Bytes)
    (params : Parameters) : Res String Unit :=
  match newSamples with
  | [] => .ok ()
  | firstNew :: _ => do
    reject (seed = []) "seed is nil or empty"
    let lastExisting := existingSamples.getLast?
    match lastExisting with
    | none => .ok ()
    | some last => do
      reject (firstNew.previousHash ≠ last.hash) "new samples don't chain from existing"
      reject (firstNew.timestamp ≤ last.timestamp) "timestamp not monotonically increasing"
      reject (firstNew.keystrokeCount ≤ last.keystrokeCount)
        "keystroke count not monotonically increasing"
    forEachAfter (fun i prev sample =>
      mapFault (verifySample C sample prev seed params)
        fun e => s!"new sample {i}: validation: {e}") 0 lastExisting newSamples

/-! ## The bytes of a sample -/

/-- The integer fields have the widths of their types. -/
structure Sample.Typed (s : Sample) : Prop where
  keystrokeCount : s.keystrokeCount < 2 ^ 64
  jitterMicros : s.jitterMicros < 2 ^ 32

/-- `i64` nanoseconds hold the time, which is not before the epoch and in no leap second. -/
def Sample.Timed (s : Sample) : Prop :=
  0 ≤ s.timestamp.nanos ∧ s.timestamp.nanos ≤ i64Max ∧ s.timestamp.frac < 1000000000

instance (s : Sample) : Decidable s.Timed := inferInstanceAs (Decidable (_ ∧ _))

structure Parameters.Typed (params : Parameters) : Prop where
  minJitterMicros : params.minJitterMicros < 2 ^ 32
  maxJitterMicros : params.maxJitterMicros < 2 ^ 32

theorem length_encodeSampleBinary (s : Sample) : (encodeSampleBinary s).length = 116 := by
  simp [encodeSampleBinary]

variable {s : Sample} {bytes : Bytes} {sampleCount : Nat}

theorem timestampNanos_of_timed (h : s.Timed) :
    timestampNanos s.timestamp = s.timestamp.nanos.toNat := by
  rw [timestampNanos, timestampNanosSafe_of_le h.1 h.2.1]

theorem reads_readSample (ht : s.Typed) (hs : s.Timed) :
    Reader.Reads readSample (encodeSampleBinary s) s := by
  have hnanos := timestampNanos_of_timed hs
  have hrange : ¬ 2 ^ 63 - 1 < timestampNanos s.timestamp := by
    have hmax := hs.2.1
    rw [hnanos]
    unfold i64Max at hmax
    omega
  have hself : { s with timestamp := .ofNanos (timestampNanos s.timestamp) } = s := by
    rw [hnanos, Int.toNat_of_nonneg hs.1, ofNanos_nanos hs.2.2]
  have hbytes : encodeSampleBinary s = toBE 8 (timestampNanos s.timestamp)
      ++ (toBE 8 s.keystrokeCount ++ (s.documentHash.val ++ (toBE 4 s.jitterMicros
        ++ (s.hash.val ++ (s.previousHash.val ++ []))))) := by
    simp only [encodeSampleBinary, List.append_assoc, List.append_nil]
  rw [hbytes]
  refine (Reader.reads_be (timestampNanos_lt _)).bind ?_
  refine (Reader.reads_be ht.keystrokeCount).bind ?_
  refine (Reader.reads_fixed _).bind ?_
  refine (Reader.reads_be ht.jitterMicros).bind ?_
  refine (Reader.reads_fixed _).bind ((Reader.reads_fixed _).bind ?_)
  refine Reader.Reads.reject ?_ hrange
  rw [hself]
  exact Reader.reads_pure s

variable {data : Bytes} {samples : List Sample} {params : Parameters}

theorem meets_readSample (hlen : data.length = 116) :
    Reader.Meets readSample data 0 fun s next =>
      s.Typed ∧ s.Timed ∧ Reader.Spans data 0 next (encodeSampleBinary s) := by
  refine (Reader.meets_be (by omega)).bind fun nanos o₁ hnanos => ?_
  have h₁ := hnanos.2.next_eq
  rw [length_toBE] at h₁
  refine (Reader.meets_be (by omega)).bind fun count o₂ hcount => ?_
  have h₂ := hcount.2.next_eq
  rw [length_toBE] at h₂
  refine (Reader.meets_fixed (by omega)).bind fun docHash o₃ hdoc => ?_
  have h₃ := hdoc.next_eq
  rw [FixedBytes.length_val] at h₃
  refine (Reader.meets_be (by omega)).bind fun jitter o₄ hjitter => ?_
  have h₄ := hjitter.2.next_eq
  rw [length_toBE] at h₄
  refine (Reader.meets_fixed (by omega)).bind fun hash o₅ hhash => ?_
  have h₅ := hhash.next_eq
  rw [FixedBytes.length_val] at h₅
  refine (Reader.meets_fixed (by omega)).bind fun previous o₆ hprevious => ?_
  refine Reader.meets_reject.bind fun _ next hrange => ?_
  obtain ⟨rfl, hrange⟩ := hrange
  have htimed : 0 ≤ (ofNanos nanos).nanos ∧ (ofNanos nanos).nanos ≤ i64Max := by
    rw [nanos_ofNanos]
    unfold i64Max
    omega
  refine Reader.meets_pure
    ⟨⟨hcount.1, hjitter.1⟩, ⟨htimed.1, htimed.2, frac_ofNanos_lt _⟩, ?_⟩
  have hspan := ((((hnanos.2.append hcount.2).append hdoc).append hjitter.2).append hhash).append
    hprevious
  unfold encodeSampleBinary
  rw [timestampNanos, timestampNanosSafe_of_le htimed.1 htimed.2, nanos_ofNanos,
    Int.toNat_natCast]
  exact hspan

/-- The byte strings that decode to a sample: its encoding, where its time has one. -/
theorem decodeSampleBinary_eq_ok :
    decodeSampleBinary data = .ok s ↔ data = encodeSampleBinary s ∧ s.Typed ∧ s.Timed := by
  unfold decodeSampleBinary
  rw [reject_bind_eq_ok, not_not]
  constructor
  · rintro ⟨hlen, hrun⟩
    obtain ⟨next, ht, hs, hspan⟩ := (meets_readSample hlen).run.2 s hrun
    have hnext := hspan.next_eq
    have hdrop := hspan.drop_eq
    rw [length_encodeSampleBinary, Nat.zero_add] at hnext
    rw [hnext, ← hlen, List.drop_length, List.append_nil, List.drop_zero] at hdrop
    exact ⟨hdrop, ht, hs⟩
  · rintro ⟨rfl, ht, hs⟩
    exact ⟨length_encodeSampleBinary s, (reads_readSample ht hs).run_eq⟩

/-! ## The bytes of a chain -/

theorem encodeChainBinary_eq_ok :
    encodeChainBinary samples params = .ok bytes ↔
      params.sampleInterval < 2 ^ 32 ∧ samples.length < 2 ^ 32
        ∧ bytes = headerBytes (injectByte params.injectEnabled) params samples.length
          ++ samples.flatMap encodeSampleBinary := by
  unfold encodeChainBinary
  constructor
  · intro h
    obtain ⟨size, -, h⟩ := res_bind_eq_ok.mp h
    obtain ⟨total, -, h⟩ := res_bind_eq_ok.mp h
    obtain ⟨hinterval, h⟩ := reject_bind_eq_ok.mp h
    obtain ⟨hcount, h⟩ := reject_bind_eq_ok.mp h
    cases h
    exact ⟨Nat.lt_of_not_le hinterval, Nat.lt_of_not_le hcount, rfl⟩
  · rintro ⟨hinterval, hcount, rfl⟩
    -- The sizes of fewer than 2^32 samples do not overflow.
    have hsize : samples.length * 116 < 2 ^ 64 := by omega
    have htotal : chainHeaderSize + samples.length * 116 < 2 ^ 64 := by
      unfold chainHeaderSize
      omega
    rw [checkedMul_eq_some hsize, okOr_some, res_ok_bind, checkedAdd_eq_some htotal]
    exact reject_bind_eq_ok.mpr ⟨Nat.not_le_of_lt hinterval,
      reject_bind_eq_ok.mpr ⟨Nat.not_le_of_lt hcount, rfl⟩⟩

theorem length_headerBytes (inject : UInt8) (params : Parameters) (sampleCount : Nat) :
    (headerBytes inject params sampleCount).length = chainHeaderSize := by
  simp [headerBytes, chainHeaderSize]

/-- The parameters that a header can hold -/
structure Parameters.Held (params : Parameters) : Prop extends params.Typed where
  sampleInterval : params.sampleInterval < 2 ^ 32

theorem reads_readHeader {inject : UInt8} (hinject : params.injectEnabled = (inject == 1))
    (hparams : params.Held) (hcount : sampleCount ≤ maxSampleCount) :
    Reader.Reads readHeader (headerBytes inject params sampleCount) (params, sampleCount) := by
  have hbytes : headerBytes inject params sampleCount = [1] ++ (toBE 4 params.minJitterMicros
      ++ (toBE 4 params.maxJitterMicros ++ (toBE 4 params.sampleInterval
        ++ ([inject] ++ (toBE 4 sampleCount ++ []))))) := by
    simp only [headerBytes, List.append_assoc, List.append_nil]
  have hrange : sampleCount < 256 ^ 4 := by
    unfold maxSampleCount at hcount
    omega
  rw [hbytes]
  refine (Reader.reads_byte 1).bind (Reader.Reads.reject ?_ (not_not.mpr rfl))
  refine (Reader.reads_be hparams.minJitterMicros).bind ?_
  refine (Reader.reads_be hparams.maxJitterMicros).bind ?_
  refine (Reader.reads_be hparams.sampleInterval).bind ?_
  refine (Reader.reads_byte inject).bind ((Reader.reads_be hrange).bind ?_)
  refine Reader.Reads.reject ?_ (Nat.not_lt_of_le hcount)
  rw [← hinject]
  exact Reader.reads_pure _

theorem meets_readHeader (hlen : chainHeaderSize ≤ data.length) :
    Reader.Meets readHeader data 0 fun header next =>
      ∃ inject, header.1.injectEnabled = (inject == 1) ∧ header.1.Held ∧ header.2 ≤ maxSampleCount
        ∧ Reader.Spans data 0 next (headerBytes inject header.1 header.2) := by
  unfold chainHeaderSize at hlen
  refine (Reader.meets_byte (by omega)).bind fun version o₁ hversion => ?_
  have h₁ := hversion.next_eq
  rw [List.length_singleton] at h₁
  refine Reader.meets_reject.bind fun _ o hone => ?_
  obtain ⟨rfl, hone⟩ := hone
  cases not_not.mp hone
  refine (Reader.meets_be (by omega)).bind fun least o₂ hleast => ?_
  have h₂ := hleast.2.next_eq
  rw [length_toBE] at h₂
  refine (Reader.meets_be (by omega)).bind fun most o₃ hmost => ?_
  have h₃ := hmost.2.next_eq
  rw [length_toBE] at h₃
  refine (Reader.meets_be (by omega)).bind fun interval o₄ hinterval => ?_
  have h₄ := hinterval.2.next_eq
  rw [length_toBE] at h₄
  refine (Reader.meets_byte (by omega)).bind fun inject o₅ hinject => ?_
  have h₅ := hinject.next_eq
  rw [List.length_singleton] at h₅
  refine (Reader.meets_be (by omega)).bind fun count o₆ hcount => ?_
  refine Reader.meets_reject.bind fun _ next hmax => ?_
  obtain ⟨rfl, hmax⟩ := hmax
  refine Reader.meets_pure ⟨inject, rfl, ⟨⟨hleast.1, hmost.1⟩, hinterval.1⟩,
    Nat.le_of_not_lt hmax, ?_⟩
  exact ((((hversion.append hleast.2).append hmost.2).append hinterval.2).append hinject).append
    hcount.2

theorem readHeader_eq_ok (hlen : chainHeaderSize ≤ data.length) :
    Reader.run readHeader data = .ok (params, sampleCount) ↔
      ∃ inject, data.take chainHeaderSize = headerBytes inject params sampleCount
        ∧ params.injectEnabled = (inject == 1) ∧ params.Held ∧ sampleCount ≤ maxSampleCount := by
  constructor
  · intro hrun
    obtain ⟨next, inject, hinject, hparams, hcount, hspan⟩ := (meets_readHeader hlen).run.2 _ hrun
    have hnext := hspan.next_eq
    have hdrop := hspan.drop_eq
    rw [length_headerBytes, Nat.zero_add] at hnext
    rw [hnext, List.drop_zero] at hdrop
    refine ⟨inject, ?_, hinject, hparams, hcount⟩
    rw [hdrop, ← length_headerBytes inject params sampleCount, List.take_left]
  · rintro ⟨inject, htake, hinject, hparams, hcount⟩
    rw [← List.take_append_drop chainHeaderSize data, htake]
    exact (reads_readHeader hinject hparams hcount).run_append _

structure Sample.Kept (s : Sample) : Prop extends s.Typed where
  timed : s.Timed

theorem decodeSamples_eq_ok {n i : Nat} (hlen : data.length = chainHeaderSize + (i + n) * 116) :
    decodeSamples data i n = .ok samples ↔
      samples.length = n
        ∧ data.drop (chainHeaderSize + i * 116) = samples.flatMap encodeSampleBinary
        ∧ ∀ s ∈ samples, s.Kept := by
  induction n generalizing i samples with
  | zero =>
    rw [decodeSamples, List.drop_of_length_le (by omega)]
    constructor
    · intro h
      cases h
      exact ⟨rfl, rfl, fun _ h => nomatch h⟩
    · rintro ⟨hnil, -, -⟩
      rw [List.length_eq_zero_iff.mp hnil]
  | succ n ih =>
    have hstart : chainHeaderSize + i * 116 + 116 ≤ data.length := by omega
    have hrest : chainHeaderSize + (i + 1) * 116 = chainHeaderSize + i * 116 + 116 := by omega
    have hsplit : data.drop (chainHeaderSize + i * 116)
        = (data.drop (chainHeaderSize + i * 116)).take 116
          ++ data.drop (chainHeaderSize + (i + 1) * 116) := by
      rw [hrest, ← List.drop_drop (i := 116), List.take_append_drop]
    have hwidth : ((data.drop (chainHeaderSize + i * 116)).take 116).length = 116 := by
      rw [List.length_take, List.length_drop]
      omega
    rw [decodeSamples, slice_eq (Nat.le_add_right _ _) hstart, res_ok_bind,
      Nat.add_sub_cancel_left]
    generalize (data.drop (chainHeaderSize + i * 116)).take 116 = bytes at hsplit hwidth ⊢
    rw [hsplit]
    constructor
    · intro h
      obtain ⟨sample, hsample, h⟩ := res_bind_eq_ok.mp h
      obtain ⟨samples, hsamples, h⟩ := res_bind_eq_ok.mp h
      cases h
      obtain ⟨hbytes, ht, hs⟩ := decodeSampleBinary_eq_ok.mp (mapFault_eq_ok.mp hsample)
      obtain ⟨hcount, hdrop, hall⟩ := (ih (by omega)).mp hsamples
      refine ⟨congrArg (· + 1) hcount, ?_, List.forall_mem_cons.mpr ⟨⟨ht, hs⟩, hall⟩⟩
      rw [hbytes, hdrop, List.flatMap_cons]
    · rintro ⟨hcount, hbytes, hall⟩
      cases samples with
      | nil => cases hcount
      | cons sample samples =>
        rw [List.forall_mem_cons] at hall
        rw [List.flatMap_cons] at hbytes
        obtain ⟨hfirst, hdrop⟩ := List.append_inj hbytes
          (hwidth.trans (length_encodeSampleBinary sample).symm)
        have hsample := decodeSampleBinary_eq_ok.mpr ⟨hfirst, hall.1.toTyped, hall.1.timed⟩
        have hsamples := (ih (by omega)).mpr ⟨Nat.succ.inj hcount, hdrop, hall.2⟩
        rw [mapFault_eq_ok.mpr hsample, res_ok_bind, hsamples, res_ok_bind]

/-- The byte strings that decode: a header and the samples that it counts. -/
theorem decodeChainBinary_eq_ok :
    decodeChainBinary data = .ok (samples, params) ↔
      ∃ inject, data = headerBytes inject params samples.length
          ++ samples.flatMap encodeSampleBinary
        ∧ params.injectEnabled = (inject == 1) ∧ params.Held ∧ samples.length ≤ maxSampleCount
        ∧ ∀ s ∈ samples, s.Kept := by
  unfold decodeChainBinary
  constructor
  · intro h
    obtain ⟨hlen, h⟩ := reject_bind_eq_ok.mp h
    obtain ⟨⟨params', sampleCount⟩, hheader, h⟩ := res_bind_eq_ok.mp h
    obtain ⟨inject, htake, hinject, hparams, hcount⟩ :=
      (readHeader_eq_ok (Nat.le_of_not_lt hlen)).mp hheader
    have hsize : sampleCount * 116 < 2 ^ 64 := by
      unfold maxSampleCount at hcount
      omega
    dsimp only at h
    rw [checkedMul_eq_some hsize, okOr_some, res_ok_bind] at h
    obtain ⟨hexpected, h⟩ := reject_bind_eq_ok.mp h
    rw [not_not] at hexpected
    obtain ⟨samples', hsamples, h⟩ := res_bind_eq_ok.mp h
    cases h
    -- the samples take all the bytes behind the header
    obtain ⟨rfl, hdrop, hall⟩ := (decodeSamples_eq_ok (by rw [hexpected, Nat.zero_add])).mp hsamples
    refine ⟨inject, ?_, hinject, hparams, hcount, hall⟩
    rw [← List.take_append_drop chainHeaderSize data, htake]
    rw [Nat.zero_mul, Nat.add_zero] at hdrop
    rw [hdrop]
  · rintro ⟨inject, rfl, hinject, hparams, hcount, hall⟩
    have hsize : samples.length * 116 < 2 ^ 64 := by
      unfold maxSampleCount at hcount
      omega
    have hheader := length_headerBytes inject params samples.length
    have hlen : (headerBytes inject params samples.length
        ++ samples.flatMap encodeSampleBinary).length = chainHeaderSize + samples.length * 116 := by
      rw [List.length_append, hheader, length_flatMap_records length_encodeSampleBinary]
    refine reject_bind_eq_ok.mpr ⟨by omega, ?_⟩
    have htake : (headerBytes inject params samples.length
        ++ samples.flatMap encodeSampleBinary).take chainHeaderSize
          = headerBytes inject params samples.length := by
      rw [← hheader, List.take_left]
    rw [(readHeader_eq_ok (by omega)).mpr ⟨inject, htake, hinject, hparams, hcount⟩, res_ok_bind]
    dsimp only
    rw [checkedMul_eq_some hsize, okOr_some, res_ok_bind]
    refine reject_bind_eq_ok.mpr ⟨not_not.mpr hlen, ?_⟩
    have hdrop : (headerBytes inject params samples.length
        ++ samples.flatMap encodeSampleBinary).drop (chainHeaderSize + 0 * 116)
          = samples.flatMap encodeSampleBinary := by
      rw [Nat.zero_mul, Nat.add_zero, ← hheader, List.drop_left]
    rw [(decodeSamples_eq_ok (by rw [hlen, Nat.zero_add])).mpr ⟨rfl, hdrop, hall⟩, res_ok_bind]

/-- The same samples and parameters come back if there are few enough and their times are kept. -/
theorem decodeChain_encodeChain_iff (hsamples : ∀ s ∈ samples, s.Typed) (hparams : params.Typed)
    (h : encodeChainBinary samples params = .ok bytes) :
    decodeChainBinary bytes = .ok (samples, params) ↔
      samples.length ≤ maxSampleCount ∧ ∀ s ∈ samples, s.Timed := by
  obtain ⟨hinterval, -, rfl⟩ := encodeChainBinary_eq_ok.mp h
  rw [decodeChainBinary_eq_ok]
  constructor
  · rintro ⟨-, -, -, -, hcount, hkept⟩
    exact ⟨hcount, fun s hs => (hkept s hs).timed⟩
  · rintro ⟨hcount, htimed⟩
    refine ⟨injectByte params.injectEnabled, rfl, ?_, ⟨hparams, hinterval⟩, hcount,
      fun s hs => ⟨hsamples s hs, htimed s hs⟩⟩
    cases params.injectEnabled
    · rfl
    · rfl

/-- What decodes is encoded again: to the same bytes but for that of `inject_enabled`. -/
theorem encode_decode (h : decodeChainBinary data = .ok (samples, params)) :
    ∃ inject bytes, data[13]? = some inject ∧ encodeChainBinary samples params = .ok bytes
      ∧ (bytes = data ↔ inject = 0 ∨ inject = 1) := by
  obtain ⟨inject, rfl, hinject, hparams, hcount, -⟩ := decodeChainBinary_eq_ok.mp h
  have hlength : samples.length < 2 ^ 32 := by
    unfold maxSampleCount at hcount
    omega
  refine ⟨inject, _, ?_, encodeChainBinary_eq_ok.mpr ⟨hparams.sampleInterval, hlength, rfl⟩, ?_⟩
  · have hbefore : ([1] ++ toBE 4 params.minJitterMicros
        ++ toBE 4 params.maxJitterMicros
        ++ toBE 4 params.sampleInterval).length = 13 := by
      simp only [List.length_append, List.length_singleton, length_toBE]
    rw [headerBytes, List.append_assoc, List.append_assoc, List.getElem?_append_right (by omega),
      hbefore]
    rfl
  · rw [List.append_left_inj, headerBytes, headerBytes, List.append_left_inj, List.append_right_inj,
      List.singleton_inj, hinject]
    constructor
    · intro heq
      rw [← heq]
      cases inject == 1
      · exact .inl rfl
      · exact .inr rfl
    · rintro (rfl | rfl)
      · rfl
      · rfl

/-! ## Two parts of a chain -/

section Verified

variable {C : Crates} {seed : Bytes}

def VerifiedAfter (C : Crates) (seed : Bytes) (params : Parameters) (prev : Option Sample)
    (sample : Sample) : Prop :=
  (LinkedAfter C prev sample ∧ LaterThan prev sample) ∧ SeededAfter C seed params prev sample

/-- The checks in front of the loop are those of the first sample. -/
theorem verifyChainContinuity_eq_ok {existing new : List Sample} (hnew : new ≠ [])
    (hseed : seed ≠ []) :
    verifyChainContinuity C existing new seed params = .ok () ↔
      EachAfter (VerifiedAfter C seed params) existing.getLast? new := by
  have hloop : forEachAfter (fun i prev sample =>
      mapFault (verifySample C sample prev seed params)
        fun e => s!"new sample {i}: validation: {e}") 0 existing.getLast? new = .ok ()
      ↔ EachAfter (VerifiedAfter C seed params) existing.getLast? new := by
    apply forEachAfter_eq_ok
    intro i prev sample
    rw [mapFault_eq_ok, verifySample_eq_ok hseed]
    rfl
  cases new with
  | nil => exact absurd rfl hnew
  | cons first rest =>
    refine reject_bind_eq_ok.trans ((and_iff_right hseed).trans ?_)
    generalize existing.getLast? = last at hloop ⊢
    cases last with
    | none => exact unit_bind_eq_ok.trans ((and_iff_right rfl).trans hloop)
    | some last =>
      show (reject _ _ >>= fun _ => reject _ _ >>= fun _ => reject _ _ >>= fun _ => _) = _ ↔ _
      rw [reject_bind_eq_ok, reject_bind_eq_ok, reject_bind_eq_ok, not_not, not_le, not_le]
      refine Iff.trans ?_ hloop
      constructor
      · exact fun h => h.2.2.2
      · intro h
        obtain ⟨⟨hlinked, hlater⟩, -⟩ := (hloop.mp h).1
        obtain ⟨htime, hcount⟩ := hlater last rfl
        exact ⟨hlinked.2, htime, hcount, h⟩

/-- A chain continues a verified one exactly if the two together are verified. -/
theorem verifyChainContinuity_iff {a b : List Sample} (ha : a ≠ []) :
    verifyChainContinuity C a b seed params = .ok () ∧ verifyChain C a seed params = .ok () ↔
      verifyChain C (a ++ b) seed params = .ok () := by
  have hab : a ++ b ≠ [] := fun h => ha (List.append_eq_nil_iff.mp h).1
  by_cases hseed : seed = []
  · have hnone : ∀ samples, verifyChain C samples seed params ≠ .ok () := by
      intro samples h
      exact (reject_bind_eq_ok.mp (reject_bind_eq_ok.mp h).2).1 hseed
    exact iff_of_false (fun h => hnone a h.2) (hnone _)
  have hchain : ∀ {samples}, samples ≠ [] → (verifyChain C samples seed params = .ok ()
      ↔ EachAfter (VerifiedAfter C seed params) none samples) := by
    intro samples hsamples
    rw [verifyChain_eq_ok hsamples hseed, ← eachAfter_and, ← eachAfter_and]
    rfl
  by_cases hb : b = []
  · rw [hb, List.append_nil]
    exact and_iff_right rfl
  · rw [verifyChainContinuity_eq_ok hb hseed, hchain ha, hchain hab, eachAfter_append,
      Option.or_none]
    exact and_comm

end Verified

/-- The codec keeps a chain exactly if it has at most ten million samples, `i64` nanoseconds hold
its times, and none is in a leap second; what decodes is canonical exactly if the byte for
`inject_enabled` is 0 or 1; and a chain continues a verified one exactly if they are verified
together. -/
theorem chain_codec :
    (∀ samples params, (∀ s ∈ samples, s.Typed) → params.Typed →
      ∀ bytes, encodeChainBinary samples params = .ok bytes →
        (decodeChainBinary bytes = .ok (samples, params) ↔
          samples.length ≤ maxSampleCount ∧ ∀ s ∈ samples, s.Timed))
      ∧ (∀ data samples params, decodeChainBinary data = .ok (samples, params) →
        ∃ inject bytes, data[13]? = some inject ∧ encodeChainBinary samples params = .ok bytes
          ∧ (bytes = data ↔ inject = 0 ∨ inject = 1))
      ∧ ∀ C a b seed params, a ≠ [] →
        (verifyChainContinuity C a b seed params = .ok () ∧ verifyChain C a seed params = .ok () ↔
          verifyChain C (a ++ b) seed params = .ok ()) :=
  ⟨fun _ _ hsamples hparams _ h => decodeChain_encodeChain_iff hsamples hparams h,
    fun _ _ _ h => encode_decode h, fun _ _ _ _ _ ha => verifyChainContinuity_iff ha⟩

def plainSample (timestamp : DateTime) : Sample where
  timestamp := timestamp
  keystrokeCount := 1
  documentHash := FixedBytes.filled 32 3
  jitterMicros := 500
  hash := FixedBytes.filled 32 4
  previousHash := zeroHash

theorem plainSample_typed (timestamp : DateTime) : (plainSample timestamp).Typed :=
  ⟨show 1 < 2 ^ 64 by decide, show 500 < 2 ^ 32 by decide⟩

theorem plainParameters_typed : plainParameters.Typed := ⟨by decide, by decide⟩

theorem encode_plainSample (timestamp : DateTime) :
    encodeChainBinary [plainSample timestamp] plainParameters
      = .ok (headerBytes 1 plainParameters 1 ++ encodeSampleBinary (plainSample timestamp)) :=
  encodeChainBinary_eq_ok.mpr ⟨by decide, show 1 < 2 ^ 32 by decide, by
    rw [List.flatMap_singleton]
    rfl⟩

/-- One sample, and a chain of two -/
theorem chain_codec_one :
    decodeChainBinary
      (headerBytes 1 plainParameters 1 ++ encodeSampleBinary (plainSample (.ofNanos 1001)))
        = .ok ([plainSample (.ofNanos 1001)], plainParameters)
      ∧ (∃ inject bytes, (headerBytes 1 plainParameters 1
            ++ encodeSampleBinary (plainSample (.ofNanos 1001)))[13]? = some inject
          ∧ encodeChainBinary [plainSample (.ofNanos 1001)] plainParameters = .ok bytes
          ∧ (bytes
            = headerBytes 1 plainParameters 1 ++ encodeSampleBinary (plainSample (.ofNanos 1001))
            ↔ inject = 0 ∨ inject = 1))
      ∧ (verifyChainContinuity plainCrates [plainSample (.ofNanos 1001)]
        [plainSample (.ofNanos 1002)] [7] plainParameters
            = .ok ()
              ∧ verifyChain plainCrates [plainSample (.ofNanos 1001)] [7] plainParameters = .ok ()
          ↔ verifyChain plainCrates [plainSample (.ofNanos 1001), plainSample (.ofNanos 1002)] [7]
            plainParameters
            = .ok ()) := by
  have hdecode := (chain_codec.1 [plainSample (.ofNanos 1001)] plainParameters
    (fun s hs => List.mem_singleton.mp hs ▸ plainSample_typed _) plainParameters_typed _
    (encode_plainSample (.ofNanos 1001))).mpr
    ⟨by decide, fun s hs => List.mem_singleton.mp hs ▸ ⟨by decide, by decide, by decide⟩⟩
  exact ⟨hdecode, chain_codec.2.1 _ _ _ hdecode,
    chain_codec.2.2 plainCrates [plainSample (.ofNanos 1001)] [plainSample (.ofNanos 1002)] [7]
      plainParameters
      (List.cons_ne_nil _ _)⟩

/-- A byte that is neither 0 nor 1 is read as 0; a time past `i64` nanoseconds is written as
another, and one in a leap second as that of the second after it. -/
theorem chain_codec_loses :
    (decodeChainBinary (headerBytes 2 { plainParameters with injectEnabled := false } 0)
          = .ok ([], { plainParameters with injectEnabled := false })
        ∧ encodeChainBinary [] { plainParameters with injectEnabled := false }
          ≠ .ok (headerBytes 2 { plainParameters with injectEnabled := false } 0))
      ∧ ∀ t ∈ [.ofNanos (2 ^ 63), endOf2016], ∃ bytes,
        encodeChainBinary [plainSample t] plainParameters = .ok bytes
          ∧ decodeChainBinary bytes ≠ .ok ([plainSample t], plainParameters) := by
  refine ⟨⟨by decide, by decide⟩, fun t ht => ⟨_, encode_plainSample t, fun h => ?_⟩⟩
  have htimed := ((decodeChain_encodeChain_iff
    (fun s hs => List.mem_singleton.mp hs ▸ plainSample_typed t) plainParameters_typed
    (encode_plainSample t)).mp h).2 _ (List.mem_singleton_self _)
  revert htimed
  exact (show ∀ t ∈ [.ofNanos (2 ^ 63), endOf2016], ¬ (plainSample t).Timed by decide) t ht

end WritersProof.Jitter
