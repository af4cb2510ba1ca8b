/-
  WritersProof.Jitter.Session

  Recording sessions of the seeded jitter chain (crates/cpoe/src/jitter/session.rs,
  crates/cpoe/src/jitter/verification.rs).

  A session takes a sample at every `sample_interval`-th keystroke at which the document
  can be hashed.  Its samples are read by four loops with rules of their own;
  all but `Session.verifyChain` also check that times and counts go up, which the recorder does
  not see to.

  The clock is read in nanoseconds since the Unix epoch.
-/
import WritersProof.Lib.Binary64
import WritersProof.Lib.Hex
import WritersProof.Lib.Machine
import WritersProof.Lib.Time
import WritersProof.Lib.Vec

namespace WritersProof.Jitter

open Rust

abbrev Hash32 := FixedBytes 32

def zeroHash : Hash32 := FixedBytes.filled 32 0

structure Parameters where
  minJitterMicros : Nat
  maxJitterMicros : Nat
  sampleInterval : Nat
  injectEnabled : Bool
  deriving DecidableEq

structure Sample where
  timestamp : DateTime
  keystrokeCount : Nat
  documentHash : Hash32
  jitterMicros : Nat
  hash : Hash32
  previousHash : Hash32
  deriving DecidableEq

/-- What `save` writes -/
structure SessionData where
  id : String
  startedAt : DateTime
  endedAt : Option DateTime
  documentPath : String
  seed : String
  params : Parameters
  samples : List Sample
  keystrokeCount : Nat
  lastJitter : Nat

structure Crates where
  sha256 : Bytes → Hash32
  hmac : Bytes → Bytes → Hash32
  /-- `serde_json::to_vec_pretty` -/
  toJson : SessionData → Except String Bytes
  /-- `serde_json::from_slice` -/
  fromJson : Bytes → Except String SessionData
  /-- What `hex::decode` says of a text that it does not decode -/
  hexError : String → String

/-- JSON reads back what it has written. -/
def Crates.Faithful (C : Crates) : Prop :=
  ∀ data, ∃ bytes, C.toJson data = .ok bytes ∧ C.fromJson bytes = .ok data

structure Session where
  id : String
  startedAt : DateTime
  endedAt : Option DateTime
  documentPath : String
  seed : Hash32
  params : Parameters
  samples : List Sample
  keystrokeCount : Nat
  lastJitter : Nat
  -- The last hash of the document and what it was taken for; none of it is saved
  lastMtime : Option Int
  lastSize : Option Nat
  lastDocHash : Option Hash32

/-- What a call finds: the clock, and the document's metadata and content -/
structure Keystroke where
  now : Int
  /-- `fs::metadata`: the time of the last change, where it is known, and the size -/
  metadata : Except String (Option Int × Nat)
  content : Except String (Hash32 × Nat)

/-! ## Hashes -/

section Hashed

variable (C : Crates)

def Sample.computeHash (sample : Sample) : Hash32 :=
  C.sha256 (Bytes.utf8 "cpoe-jitter-sample-v1" ++ Bytes.toBE 8 (timestampNanos sample.timestamp)
    ++ Bytes.toBE 8 sample.keystrokeCount ++ sample.documentHash.val
    ++ Bytes.toBE 4 sample.jitterMicros ++ sample.previousHash.val)

def computeJitterValue (seed : Bytes) (docHash : Hash32) (keystrokeCount : Nat)
    (timestamp : DateTime) (prevJitter : Hash32) (params : Parameters) : Nat :=
  let hash := C.hmac seed (docHash.val ++ Bytes.toBE 8 keystrokeCount
    ++ Bytes.toBE 8 (timestampNanos timestamp) ++ prevJitter.val)
  let raw := Bytes.ofBE (hash.val.take 4)
  let jitterRange := params.maxJitterMicros - params.minJitterMicros
  if jitterRange = 0 then params.minJitterMicros
  else params.minJitterMicros + raw % jitterRange

end Hashed

/-! ## Recording -/

namespace Session

def newWithId (documentPath : Except String String) (params : Parameters) (sessionId : String)
    (seed : Hash32) (now : Int) : Res String Session := do
  reject (params.sampleInterval = 0) "sample_interval must be > 0"
  let documentPath ← mapErr documentPath fun e => s!"invalid document path: {e}"
  .ok {
    id := sessionId, startedAt := .ofNanos now, endedAt := none, documentPath, seed, params
    samples := []
    keystrokeCount := 0, lastJitter := 0, lastMtime := none, lastSize := none
    lastDocHash := none }

def new (documentPath : Except String String) (params : Parameters) (id : FixedBytes 8)
    (seed : Hash32) (now : Int) : Res String Session :=
  newWithId documentPath params (Hex.encode id.val) seed now

/-- The last hash if the document has the same time and size, else a new one -/
def hashDocument (k : Keystroke) : Call Session String Hash32 := fun s =>
  match k.metadata with
  | .error e => (fail e, s)
  | .ok (modified, size) =>
    let mtime := modified.getD 0
    let cached := s.lastDocHash.filter fun _ => s.lastMtime = some mtime ∧ s.lastSize = some size
    match cached, k.content with
    | some hash, _ => (.ok hash, s)
    | none, .error e => (fail e, s)
    | none, .ok (hash, actualSize) =>
      (.ok hash,
        { s with lastMtime := some mtime, lastSize := some actualSize, lastDocHash := some hash })

def lastHash (s : Session) : Hash32 := (s.samples.getLast?.map (·.hash)).getD zeroHash

variable (C : Crates) (s : Session)

def nextSample (docHash : Hash32) (now : Int) : Sample :=
  let sample : Sample := {
    timestamp := .ofNanos now
    keystrokeCount := s.keystrokeCount
    documentHash := docHash
    jitterMicros := computeJitterValue C s.seed.val docHash s.keystrokeCount (.ofNanos now)
      s.lastHash s.params
    hash := zeroHash
    previousHash := s.lastHash }
  { sample with hash := sample.computeHash C }

/-- `saturating_add(1)` -/
def bumpCount : Session :=
  { s with keystrokeCount := min (s.keystrokeCount + 1) (2 ^ 64 - 1) }

/-- `checked_rem` of the count by the interval is zero. -/
def Due : Prop :=
  s.params.sampleInterval ≠ 0 ∧ s.keystrokeCount % s.params.sampleInterval = 0

instance (s : Session) : Decidable s.Due := inferInstanceAs (Decidable (_ ∧ _))

/-- The jitter, and whether a sample was taken -/
def recordKeystroke (k : Keystroke) : Call Session String (Nat × Bool) := do
  Call.modify bumpCount
  let due ← Call.asks fun s => decide s.Due
  if !due then pure (0, false)
  else do
    let docHash ← hashDocument k
    let sample ← Call.asks fun s => s.nextSample C docHash k.now
    Call.modify fun s =>
      { s with samples := s.samples ++ [sample], lastJitter := sample.jitterMicros }
    pure (sample.jitterMicros, true)

/-! ## Checks on samples -/

/-- What all loops say first: the hash, and the link to the sample before. -/
def checkLink (i : Nat) (prev : Option Sample) (sample : Sample) : Res String Unit := do
  reject (sample.computeHash C ≠ sample.hash) s!"sample {i}: hash mismatch"
  match prev with
  | some prev => reject (sample.previousHash ≠ prev.hash) s!"sample {i}: broken chain link"
  | none => reject (sample.previousHash ≠ zeroHash) "sample 0: non-zero previous hash"

/-- Time and count go up. -/
def checkOrder (i : Nat) (prev : Option Sample) (sample : Sample) : Res String Unit :=
  match prev with
  | none => .ok ()
  | some prev => do
    reject (sample.timestamp ≤ prev.timestamp) s!"sample {i}: timestamp not monotonic"
    reject (sample.keystrokeCount ≤ prev.keystrokeCount)
      s!"sample {i}: keystroke count not monotonic"

/-- Hashes and links only; `chain_valid` reports it. -/
def verifyChain : Res String Unit :=
  forEachAfter (checkLink C) 0 none s.samples

/-! ## Saving and loading -/

def save : Res String Bytes :=
  mapErr (C.toJson {
    id := s.id, startedAt := s.startedAt, endedAt := s.endedAt, documentPath := s.documentPath
    seed := Hex.encode s.seed.val, params := s.params, samples := s.samples
    keystrokeCount := s.keystrokeCount, lastJitter := s.lastJitter }) fun e => e

/-- Five minutes ahead of the clock -/
def skewCeiling (now : Int) : DateTime := .ofNanos (now + 5 * 60 * 1000000000)

def verifyLoadedIntegrity (now : Int) (s : Session) : Res String Unit := do
  reject (s.params.sampleInterval = 0) "sample_interval must be > 0"
  s.verifyChain C
  reject (∃ ended ∈ s.endedAt, ended < s.startedAt) "ended_at precedes started_at"
  reject (skewCeiling now < s.startedAt) "started_at is in the future"
  reject (∃ ended ∈ s.endedAt, skewCeiling now < ended) "ended_at is in the future"
  forEachAfter (fun i prev sample => do
    checkOrder i prev sample
    reject (skewCeiling now < sample.timestamp) s!"sample {i}: timestamp is in the future")
    0 none s.samples
  reject (∃ last ∈ s.samples.getLast?, s.keystrokeCount < last.keystrokeCount)
    "keystroke_count is less than last sample's count"

def load (now : Int) (bytes : Bytes) : Res String Session := do
  let data ← mapErr (C.fromJson bytes) fun e => e
  let seed ← okOr (Hex.decode data.seed) (C.hexError data.seed)
  let seed ← okOr (FixedBytes.tryFrom 32 seed) "seed must be 32 bytes"
  let session : Session := {
    id := data.id, startedAt := data.startedAt, endedAt := data.endedAt
    documentPath := data.documentPath, seed, params := data.params, samples := data.samples
    keystrokeCount := data.keystrokeCount, lastJitter := data.lastJitter, lastMtime := none
    lastSize := none, lastDocHash := none }
  session.verifyLoadedIntegrity C now
  .ok session

end Session

/-! ## Evidence -/

structure Statistics where
  totalKeystrokes : Nat
  totalSamples : Nat
  /-- Nanoseconds -/
  duration : Nat
  keystrokesPerMin : Rat
  uniqueDocHashes : Nat
  chainValid : Bool

structure Evidence where
  sessionId : String
  startedAt : DateTime
  endedAt : DateTime
  documentPath : String
  params : Parameters
  samples : List Sample
  statistics : Statistics

def asSecs (duration : Nat) : Rat :=
  Binary64.round (Binary64.ofNat (duration / 1000000000)
    + Binary64.round (Binary64.ofNat (duration % 1000000000) / 1000000000))

def Session.computeStats (C : Crates) (s : Session) (now : Int) : Statistics :=
  -- A negative duration is none.
  let duration := ((s.endedAt.getD (.ofNanos now)).signedDurationSince s.startedAt).toNat
  let secs := asSecs duration
  { totalKeystrokes := s.keystrokeCount
    totalSamples := min s.samples.length (2 ^ 31 - 1)
    duration
    keystrokesPerMin :=
      if secs < 1 then 0
      else Binary64.round (Binary64.ofNat s.keystrokeCount / Binary64.round (secs / 60))
    uniqueDocHashes := min (s.samples.map (·.documentHash)).dedup.length (2 ^ 31 - 1)
    chainValid := s.verifyChain C matches .ok _ }

def Session.export (C : Crates) (s : Session) (now : Int) : Evidence where
  sessionId := s.id
  startedAt := s.startedAt
  endedAt := s.endedAt.getD (.ofNanos now)
  documentPath := s.documentPath
  params := s.params
  samples := s.samples
  statistics := s.computeStats C now

def Evidence.verify (C : Crates) (e : Evidence) : Res String Unit :=
  forEachAfter (fun i prev sample => do
    Session.checkLink C i prev sample
    Session.checkOrder i prev sample) 0 none e.samples

/-! ## The chain under its seed -/

def verifySample (C : Crates) (sample : Sample) (prevSample : Option Sample) (seed : Bytes)
    (params : Parameters) : Res String Unit := do
  reject (seed = []) "seed is nil or empty"
  reject (sample.computeHash C ≠ sample.hash) "sample hash mismatch"
  match prevSample with
  | some prev => do
    reject (sample.previousHash ≠ prev.hash) "chain link broken"
    reject (sample.timestamp ≤ prev.timestamp) "timestamp not monotonically increasing"
    reject (sample.keystrokeCount ≤ prev.keystrokeCount)
      "keystroke count not monotonically increasing"
  | none => reject (sample.previousHash ≠ zeroHash) "first sample has non-zero previous hash"
  let prevJitter := (prevSample.map (·.hash)).getD zeroHash
  reject (computeJitterValue C seed sample.documentHash sample.keystrokeCount sample.timestamp
    prevJitter params ≠ sample.jitterMicros) "jitter value mismatch"

def verifyChain (C : Crates) (samples : List Sample) (seed : Bytes) (params : Parameters) :
    Res String Unit := do
  reject (samples = []) "empty sample chain"
  reject (seed = []) "seed is nil or empty"
  forEachAfter (fun i prev sample =>
    mapFault (verifySample C sample prev seed params)
      fun e => s!"sample {i}: validation: {e}") 0 none samples

end WritersProof.Jitter
