/-
  WritersProof.Checkpoint.Timing

  When a checkpoint is due, from the keystrokes since the last one
  (crates/cpoe/src/checkpoint/timing.rs).

  An `Instant` is a number of nanoseconds.  The estimate is computed in `f64`;
  its operations are those of `Floats`, of which nothing is assumed.
-/
import WritersProof.Checkpoint.Types
import WritersProof.Lib.Checked
import WritersProof.Lib.Ring

namespace WritersProof.Checkpoint.Timing

open Rust Ring

/-- The operations on `f64` that the estimate is made of. -/
structure Floats (F : Type) where
  ofNat : Nat → F
  lt : F → F → Bool
  le : F → F → Bool
  add : F → F → F
  sub : F → F → F
  mul : F → F → F
  div : F → F → F
  max : F → F → F
  sqrt : F → F
  log2 : F → F
  isFinite : F → Bool
  /-- `Duration::from_secs_f64`, none where it panics -/
  durationFromSecs : F → Option Nat

/-- Number of recent jitter samples used for windowed entropy estimation. -/
def jitterWindowSize : Nat := 16

def windowMask : Nat := jitterWindowSize - 1

inductive TriggerReason where
  | maxKeystrokes
  | typingPause
  | entropyThreshold
  | sizeDelta
  | maxTimeInterval
  | manual
  | sessionEnd
  deriving DecidableEq

/-- Configuration for behavioral checkpoint timing. -/
structure Config (F : Type) where
  minKeystrokeInterval : Nat
  maxKeystrokeInterval : Nat
  pauseThresholdSecs : F
  entropyThresholdBits : F
  sizeDeltaThreshold : Int
  maxTimeIntervalSecs : F
  deriving DecidableEq

structure TriggerEvent (F : Type) where
  timestamp : Int
  reason : TriggerReason
  keystrokeCount : Nat
  entropyBits : F
  documentSize : Int
  elapsedSinceLast : Nat
  deriving DecidableEq

/-- Two counters, an entropy estimate, and a ring buffer of the last sixteen jitters with their sum
    and the sum of their squares. -/
structure CheckpointTrigger (F : Type) where
  config : Config F
  pauseThreshold : Nat
  maxTimeInterval : Nat
  keystrokesSinceCheckpoint : Nat
  totalKeystrokes : Nat
  accumulatedEntropy : F
  lastKeystroke : Option Nat
  lastCheckpoint : Nat
  lastCheckpointSize : Int
  entropyHash : Digest
  windowBuf : List UInt32
  windowIdx : Nat
  windowLen : Nat
  sumX : Nat
  sumX2 : Nat
  deriving DecidableEq

/-- The two clocks at a call: `Instant::now()` and `Utc::now()`. -/
structure Clock where
  instant : Nat
  utc : Int

/-! ## The trigger -/

section Defs

variable {F : Type} (floats : Floats F) (sha256 : Bytes → Digest)

def withConfig (config : Config F) (now : Nat) : Res Empty (CheckpointTrigger F) := do
  let pauseThreshold ← unwrap (floats.durationFromSecs config.pauseThresholdSecs)
  let maxTimeInterval ← unwrap (floats.durationFromSecs config.maxTimeIntervalSecs)
  .ok
    { config
      pauseThreshold
      maxTimeInterval
      keystrokesSinceCheckpoint := 0
      totalKeystrokes := 0
      accumulatedEntropy := floats.ofNat 0
      lastKeystroke := none
      lastCheckpoint := now
      lastCheckpointSize := 0
      entropyHash := .filled 32 0
      windowBuf := List.replicate jitterWindowSize 0
      windowIdx := 0
      windowLen := 0
      sumX := 0
      sumX2 := 0 }

variable (self : CheckpointTrigger F)

/-- `update_window_stats`, what makes room in the window -/
def dropOldest : Res Empty (CheckpointTrigger F) :=
  if self.windowLen = jitterWindowSize then do
    let old ← index self.windowBuf self.windowIdx
    let sumX ← unwrap (checkedSub self.sumX old.toNat)
    let square ← mulU128 old.toNat old.toNat
    let sumX2 ← unwrap (checkedSub self.sumX2 square)
    .ok { self with sumX, sumX2 }
  else do
    let windowLen ← unwrap (checkedAdd self.windowLen 1)
    .ok { self with windowLen }

def updateWindowStats (val : UInt32) :
    Res Empty (CheckpointTrigger F) := do
  let self ← dropOldest self
  let windowBuf ← assign self.windowBuf self.windowIdx val
  let sumX ← unwrap (checkedAdd self.sumX val.toNat)
  let square ← mulU128 val.toNat val.toNat
  let sumX2 ← addU128 self.sumX2 square
  let next ← unwrap (checkedAdd self.windowIdx 1)
  .ok { self with windowBuf, sumX, sumX2, windowIdx := next &&& windowMask }

/-- `Probability::clamp` -/
def clamp (value : F) : F :=
  if !floats.isFinite value then floats.ofNat 0
  else if floats.lt value (floats.ofNat 0) then floats.ofNat 0
  else if floats.lt (floats.ofNat 1) value then floats.ofNat 1
  else value

def windowedEntropyEstimate : F :=
  let n := floats.ofNat self.windowLen
  if floats.lt n (floats.ofNat 4) then floats.ofNat 0
  else
    let mean := floats.div (floats.ofNat self.sumX) n
    if floats.lt mean (floats.ofNat 1) then floats.ofNat 0
    else
      let var := floats.sub (floats.div (floats.ofNat self.sumX2) n) (floats.mul mean mean)
      let cv := floats.div (floats.sqrt (floats.max var (floats.ofNat 0))) mean
      clamp floats (floats.log2 (floats.add (floats.ofNat 1) cv))

def accumulateEntropy (jitterMicros : UInt32) :
    Res Empty (CheckpointTrigger F) := do
  let entropyHash := sha256 (self.entropyHash.val ++ Bytes.toBE 4 jitterMicros.toNat
    ++ Bytes.toBE 8 self.totalKeystrokes)
  let self ← updateWindowStats { self with entropyHash } jitterMicros
  .ok { self with
    accumulatedEntropy := floats.add self.accumulatedEntropy (windowedEntropyEstimate floats self) }

def ReachesSizeRule (now : Nat) (prevKeystroke : Option Nat) : Prop :=
  now - self.lastCheckpoint < self.maxTimeInterval
    ∧ self.keystrokesSinceCheckpoint < self.config.maxKeystrokeInterval
    ∧ self.config.minKeystrokeInterval ≤ self.keystrokesSinceCheckpoint
    ∧ (∀ last ∈ prevKeystroke, now - last < self.pauseThreshold)
    ∧ floats.le self.config.entropyThresholdBits self.accumulatedEntropy = false

def evaluateRules (now : Nat) (prevKeystroke : Option Nat) (currentDocSize : Int) :
    Res Empty (Option TriggerReason) :=
  if now - self.lastCheckpoint ≥ self.maxTimeInterval then .ok (some .maxTimeInterval)
  else if self.keystrokesSinceCheckpoint ≥ self.config.maxKeystrokeInterval then
    .ok (some .maxKeystrokes)
  else if self.keystrokesSinceCheckpoint ≥ self.config.minKeystrokeInterval then
    if prevKeystroke.any fun last => now - last ≥ self.pauseThreshold then .ok (some .typingPause)
    else if floats.le self.config.entropyThresholdBits self.accumulatedEntropy then
      .ok (some .entropyThreshold)
    else do
      let delta ← subI64 currentDocSize self.lastCheckpointSize
      let delta ← absI64 delta
      if (delta : Int) ≥ self.config.sizeDeltaThreshold then .ok (some .sizeDelta) else .ok none
  else .ok none

def resetForCheckpointInternal (docSize : Int) (now : Nat) :
    CheckpointTrigger F :=
  { self with
    keystrokesSinceCheckpoint := 0
    accumulatedEntropy := floats.ofNat 0
    lastCheckpoint := now
    lastCheckpointSize := docSize }

def createTrigger (reason : TriggerReason) (docSize : Int) (now : Clock) :
    TriggerEvent F × CheckpointTrigger F :=
  ({ timestamp := now.utc
     reason
     keystrokeCount := self.keystrokesSinceCheckpoint
     entropyBits := self.accumulatedEntropy
     documentSize := docSize
     elapsedSinceLast := now.instant - self.lastCheckpoint },
    resetForCheckpointInternal floats self docSize now.instant)

def countKeystroke (now : Nat) (jitterMicros : UInt32) :
    Res Empty (CheckpointTrigger F) := do
  let totalKeystrokes ← unwrap (checkedAdd self.totalKeystrokes 1)
  let keystrokesSinceCheckpoint ← unwrap (checkedAdd self.keystrokesSinceCheckpoint 1)
  let self ← accumulateEntropy floats sha256
    { self with totalKeystrokes, keystrokesSinceCheckpoint } jitterMicros
  .ok { self with lastKeystroke := some now }

def recordKeystroke (now : Clock) (jitterMicros : UInt32) (currentDocSize : Int) :
    Res Empty (Option (TriggerEvent F) × CheckpointTrigger F) := do
  let prevKeystroke := self.lastKeystroke
  let self ← countKeystroke floats sha256 self now.instant jitterMicros
  match ← evaluateRules floats self now.instant prevKeystroke currentDocSize with
  | some reason =>
    let (event, self) := createTrigger floats self reason currentDocSize now
    .ok (some event, self)
  | none => .ok (none, self)

def checkTimeTrigger (now : Clock) (currentDocSize : Int) :
    Option (TriggerEvent F) × CheckpointTrigger F :=
  if now.instant - self.lastCheckpoint ≥ self.maxTimeInterval
      ∧ self.keystrokesSinceCheckpoint > 0 then
    let (event, self) := createTrigger floats self .maxTimeInterval currentDocSize now
    (some event, self)
  else (none, self)

def manualTrigger (now : Clock) (currentDocSize : Int) : TriggerEvent F × CheckpointTrigger F :=
  createTrigger floats self .manual currentDocSize now

def sessionEndTrigger (now : Clock) (currentDocSize : Int) : TriggerEvent F × CheckpointTrigger F :=
  createTrigger floats self .sessionEnd currentDocSize now

def resetForCheckpoint (now : Clock) (docSize : Int) :
    CheckpointTrigger F :=
  resetForCheckpointInternal floats self docSize now.instant

/-! ## Runs -/

/-- The calls that change a trigger. -/
inductive Action where
  | recordKeystroke (now : Clock) (jitterMicros : UInt32) (currentDocSize : Int)
  | checkTimeTrigger (now : Clock) (currentDocSize : Int)
  | manualTrigger (now : Clock) (currentDocSize : Int)
  | sessionEndTrigger (now : Clock) (currentDocSize : Int)
  | resetForCheckpoint (now : Clock) (docSize : Int)

/-- What a call gives back.  At a reset, that is `keystrokes_since_checkpoint()`, which the
    caller can read before it. -/
inductive Reply (F : Type) where
  | event (event : Option (TriggerEvent F))
  | reset (keystrokeCount : Nat)
  deriving DecidableEq

def step (action : Action) (self : CheckpointTrigger F) :
    Res Empty (Reply F × CheckpointTrigger F) :=
  match action with
  | .recordKeystroke now jitterMicros size => do
    let (event, self) ← recordKeystroke floats sha256 self now jitterMicros size
    .ok (.event event, self)
  | .checkTimeTrigger now size =>
    let (event, self) := checkTimeTrigger floats self now size
    .ok (.event event, self)
  | .manualTrigger now size =>
    let (event, self) := manualTrigger floats self now size
    .ok (.event (some event), self)
  | .sessionEndTrigger now size =>
    let (event, self) := sessionEndTrigger floats self now size
    .ok (.event (some event), self)
  | .resetForCheckpoint now size =>
    .ok (.reset self.keystrokesSinceCheckpoint, resetForCheckpoint floats self now size)

/-- The calls in order, up to the first that aborts -/
def run : List Action → CheckpointTrigger F → Res Empty (List (Reply F) × CheckpointTrigger F)
  | [], self => .ok ([], self)
  | action :: actions, self => do
    let (reply, self) ← step floats sha256 action self
    let (replies, self) ← run actions self
    .ok (reply :: replies, self)

end Defs

/-! ## The window -/

variable {F : Type} {floats : Floats F} {sha256 : Bytes → Digest}
  {self after : CheckpointTrigger F} {xs : List UInt32}

def square (x : UInt32) : Nat := x.toNat * x.toNat

/-- The window holds the last sixteen jitters, and the sums are theirs. -/
structure Window (t : CheckpointTrigger F) (xs : List UInt32) : Prop where
  ring : Ring.Holds jitterWindowSize t.windowBuf t.windowIdx t.windowLen xs
  sumX : t.sumX = ((latest jitterWindowSize xs).map UInt32.toNat).sum
  sumX2 : t.sumX2 = ((latest jitterWindowSize xs).map square).sum

theorem toNat_le (x : UInt32) : x.toNat ≤ 2 ^ 32 - 1 := Nat.le_sub_one_of_lt x.toNat_lt

theorem square_le (x : UInt32) : square x ≤ (2 ^ 32 - 1) * (2 ^ 32 - 1) :=
  Nat.mul_le_mul (toNat_le x) (toNat_le x)

theorem sum_toNat_lt (xs : List UInt32) :
    ((latest jitterWindowSize xs).map UInt32.toNat).sum < 2 ^ 64 :=
  Nat.lt_of_le_of_lt (sum_latest_le toNat_le) (by decide)

/-- Sixteen squares of `u32` need no more than 68 bits. -/
theorem sum_square_lt (xs : List UInt32) :
    ((latest jitterWindowSize xs).map square).sum < 2 ^ 128 :=
  Nat.lt_of_le_of_lt (sum_latest_le square_le) (by decide)

theorem mulU128_square (x : UInt32) : mulU128 (ε := Empty) x.toNat x.toNat = .ok (square x) :=
  if_pos (Nat.lt_of_le_of_lt (square_le x) (by decide))

/-- What is left of the sums when room has been made: the new jitter completes them. -/
theorem dropOldest_spec (h : Window self xs) :
    ∃ sumX sumX2, dropOldest self = .ok { self with
        windowLen := if self.windowLen = jitterWindowSize then self.windowLen
          else self.windowLen + 1
        sumX, sumX2 }
      ∧ ∀ x, ((latest jitterWindowSize (xs ++ [x])).map UInt32.toNat).sum = sumX + x.toNat
        ∧ ((latest jitterWindowSize (xs ++ [x])).map square).sum = sumX2 + square x := by
  have hcount := h.ring.count_eq
  have hcap : 0 < jitterWindowSize := by decide
  rw [dropOldest]
  split
  next hfull =>
    have hlong : jitterWindowSize ≤ xs.length := by omega
    obtain ⟨old, hold⟩ : ∃ old, xs[xs.length - jitterWindowSize]? = some old :=
      ⟨_, List.getElem?_eq_getElem (by omega)⟩
    have hindex : index (ε := Empty) self.windowBuf self.windowIdx = .ok old :=
      index_eq_ok.mpr ((h.ring.oldest hcap hlong).trans hold)
    obtain ⟨hle, -⟩ := sum_latest_full hcap hlong hold UInt32.toNat 0
    obtain ⟨hle2, -⟩ := sum_latest_full hcap hlong hold square 0
    rw [← h.sumX] at hle
    rw [← h.sumX2] at hle2
    refine ⟨self.sumX - old.toNat, self.sumX2 - square old, ?_, fun x => ⟨?_, ?_⟩⟩
    · rw [hindex, res_ok_bind, checkedSub, if_pos hle, unwrap_some, res_ok_bind, mulU128_square,
        res_ok_bind, checkedSub, if_pos hle2, unwrap_some, res_ok_bind]
    · rw [h.sumX]
      exact (sum_latest_full hcap hlong hold UInt32.toNat x).2
    · rw [h.sumX2]
      exact (sum_latest_full hcap hlong hold square x).2
  next hpartial =>
    have hshort : xs.length < jitterWindowSize := by omega
    have hlen : self.windowLen + 1 < 2 ^ 64 := by
      have : jitterWindowSize = 16 := rfl
      omega
    refine ⟨self.sumX, self.sumX2, ?_, fun x => ⟨?_, ?_⟩⟩
    · rw [checkedAdd_eq_some hlen, unwrap_some, res_ok_bind]
    · rw [h.sumX]
      exact sum_latest_partial hshort UInt32.toNat x
    · rw [h.sumX2]
      exact sum_latest_partial hshort square x

/-- The window takes any jitter without an overflow, and nothing else changes. -/
theorem updateWindowStats_spec (h : Window self xs) (val : UInt32) :
    ∃ after, updateWindowStats self val = .ok after ∧ Window after (xs ++ [val])
      ∧ after = { self with
          windowBuf := after.windowBuf, windowIdx := after.windowIdx
          windowLen := after.windowLen, sumX := after.sumX, sumX2 := after.sumX2 } := by
  obtain ⟨sumX, sumX2, hdrop, hsums⟩ := dropOldest_spec h
  obtain ⟨hsum, hsum2⟩ := hsums val
  have hcap : 0 < jitterWindowSize := by decide
  have hnext : self.windowIdx < self.windowBuf.length := h.ring.next_lt hcap
  have hidx : self.windowIdx + 1 < 2 ^ 64 := by
    have hsize := h.ring.size
    have : jitterWindowSize = 16 := rfl
    omega
  have hadd : sumX + val.toNat < 2 ^ 64 := hsum ▸ sum_toNat_lt (xs ++ [val])
  have hadd2 : addU128 (ε := Empty) sumX2 (square val) = .ok (sumX2 + square val) :=
    if_pos (hsum2 ▸ sum_square_lt (xs ++ [val]))
  rw [updateWindowStats, hdrop, res_ok_bind, assign_of_lt hnext, res_ok_bind,
    checkedAdd_eq_some hadd, unwrap_some, res_ok_bind, mulU128_square, res_ok_bind, hadd2,
    res_ok_bind, checkedAdd_eq_some hidx, unwrap_some, res_ok_bind]
  refine ⟨_, rfl, ⟨?_, hsum.symm, hsum2.symm⟩, rfl⟩
  -- sixteen is a power of two, so the mask is the remainder
  have hmask : (self.windowIdx + 1) &&& windowMask = (self.windowIdx + 1) % jitterWindowSize :=
    Nat.and_two_pow_sub_one_eq_mod _ 4
  rw [hmask]
  exact h.ring.push hcap val

/-! ## The counters -/

def Action.jitters : Action → List UInt32
  | .recordKeystroke _ jitterMicros _ => [jitterMicros]
  | _ => []

def Reply.keystrokeCount : Reply F → Nat
  | .event (some e) => e.keystrokeCount
  | .event none => 0
  | .reset count => count

/-- A trigger that has recorded `xs`, of which `closed` were counted towards a checkpoint. -/
structure Tracks (t : CheckpointTrigger F) (xs : List UInt32) (closed : Nat) : Prop where
  window : Window t xs
  total : t.totalKeystrokes = xs.length
  fits : xs.length < 2 ^ 64
  counted : closed + t.keystrokesSinceCheckpoint = xs.length

variable {closed : Nat}

theorem tracks_withConfig {config : Config F} {now : Nat}
    (h : withConfig floats config now = .ok self) : Tracks self [] 0 := by
  obtain ⟨pause, -, h⟩ := res_bind_eq_ok.mp h
  obtain ⟨interval, -, h⟩ := res_bind_eq_ok.mp h
  cases h
  exact ⟨⟨Ring.Holds.empty (List.length_replicate), rfl, rfl⟩, rfl, by decide, rfl⟩

/-- Closing a checkpoint moves its keystrokes to those that are counted. -/
theorem Tracks.reset (h : Tracks self xs closed) (size : Int) (now : Nat) :
    Tracks (resetForCheckpointInternal floats self size now) xs
      (closed + self.keystrokesSinceCheckpoint) :=
  ⟨⟨h.window.ring, h.window.sumX, h.window.sumX2⟩, h.total, h.fits, h.counted⟩

/-- A jitter enters the window, and no other counter moves. -/
theorem accumulateEntropy_spec (h : Window self xs) (jitterMicros : UInt32) :
    ∃ after, accumulateEntropy floats sha256 self jitterMicros = .ok after
      ∧ Window after (xs ++ [jitterMicros])
      ∧ after.totalKeystrokes = self.totalKeystrokes
      ∧ after.keystrokesSinceCheckpoint = self.keystrokesSinceCheckpoint
      ∧ after.lastCheckpointSize = self.lastCheckpointSize := by
  have hwindow : Window { self with entropyHash := sha256 (self.entropyHash.val
      ++ Bytes.toBE 4 jitterMicros.toNat ++ Bytes.toBE 8 self.totalKeystrokes) } xs :=
    ⟨h.ring, h.sumX, h.sumX2⟩
  obtain ⟨mid, hmid, hw, hsame⟩ := updateWindowStats_spec hwindow jitterMicros
  rw [accumulateEntropy, hmid, res_ok_bind]
  refine ⟨_, rfl, ⟨hw.ring, hw.sumX, hw.sumX2⟩, ?_, ?_, ?_⟩
  · rw [hsame]
  · rw [hsame]
  · rw [hsame]

theorem countKeystroke_spec (h : Tracks self xs closed) (now : Nat) (jitterMicros : UInt32)
    (hroom : self.totalKeystrokes + 1 < 2 ^ 64) :
    ∃ after, countKeystroke floats sha256 self now jitterMicros = .ok after
      ∧ Tracks after (xs ++ [jitterMicros]) closed
      ∧ after.lastCheckpointSize = self.lastCheckpointSize := by
  have hcounted := h.counted
  have htotal := h.total
  have hsince : self.keystrokesSinceCheckpoint + 1 < 2 ^ 64 := by omega
  have hwindow : Window { self with
      totalKeystrokes := self.totalKeystrokes + 1
      keystrokesSinceCheckpoint := self.keystrokesSinceCheckpoint + 1 } xs :=
    ⟨h.window.ring, h.window.sumX, h.window.sumX2⟩
  obtain ⟨mid, hmid, hw, hmidTotal, hmidSince, hmidSize⟩ :=
    @accumulateEntropy_spec F floats sha256 _ xs hwindow jitterMicros
  rw [countKeystroke, checkedAdd_eq_some hroom, unwrap_some, res_ok_bind,
    checkedAdd_eq_some hsince, unwrap_some, res_ok_bind, hmid, res_ok_bind]
  have hlength : (xs ++ [jitterMicros]).length = xs.length + 1 := by
    rw [List.length_append, List.length_singleton]
  refine ⟨_, rfl, ⟨⟨hw.ring, hw.sumX, hw.sumX2⟩, ?_, ?_, ?_⟩, hmidSize⟩
  · rw [hlength, ← htotal]
    exact hmidTotal
  · omega
  · show closed + mid.keystrokesSinceCheckpoint = _
    rw [hmidSince, hlength, ← hcounted, Nat.add_assoc]

theorem countKeystroke_full (h : ¬self.totalKeystrokes + 1 < 2 ^ 64) (now : Nat)
    (jitterMicros : UInt32) : countKeystroke floats sha256 self now jitterMicros = abort := by
  rw [countKeystroke, checkedAdd, if_neg h, unwrap_none, res_abort_bind]

/-- The size of the document is far enough from that at the last checkpoint that `i64` does not
    hold the distance. -/
def SizeOverflows (self : CheckpointTrigger F) (currentDocSize : Int) : Prop :=
  currentDocSize - self.lastCheckpointSize ≤ i64Min
    ∨ i64Max < currentDocSize - self.lastCheckpointSize

/-- The rules abort just where the size rule is reached and its distance overflows. -/
theorem evaluateRules_spec (self : CheckpointTrigger F) (now : Nat) (prevKeystroke : Option Nat)
    (size : Int) :
    (ReachesSizeRule floats self now prevKeystroke ∧ SizeOverflows self size
        ∧ evaluateRules floats self now prevKeystroke size = abort)
      ∨ ¬(ReachesSizeRule floats self now prevKeystroke ∧ SizeOverflows self size)
        ∧ ∃ reason, evaluateRules floats self now prevKeystroke size = .ok reason := by
  rw [evaluateRules]
  split_ifs with htime hmax hmin hpause hentropy
  · exact .inr ⟨fun h => absurd h.1.1 (Nat.not_lt.mpr htime), _, rfl⟩
  · exact .inr ⟨fun h => absurd h.1.2.1 (Nat.not_lt.mpr hmax), _, rfl⟩
  · refine .inr ⟨fun h => ?_, _, rfl⟩
    obtain ⟨last, hlast, hle⟩ := (Option.any_eq_true _ _).mp hpause
    exact absurd (h.1.2.2.2.1 last hlast) (Nat.not_lt.mpr (of_decide_eq_true hle))
  · exact .inr ⟨fun h => absurd h.1.2.2.2.2 (by simp [hentropy]), _, rfl⟩
  · have hreaches : ReachesSizeRule floats self now prevKeystroke := by
      refine ⟨Nat.not_le.mp htime, Nat.not_le.mp hmax, hmin, fun last hlast => ?_, ?_⟩
      · apply Nat.not_le.mp
        intro hle
        exact hpause ((Option.any_eq_true _ _).mpr ⟨last, hlast, decide_eq_true hle⟩)
      · simpa using hentropy
    by_cases hfits : FitsI64 (size - self.lastCheckpointSize)
    · rw [subI64, if_pos hfits, res_ok_bind, absI64]
      by_cases hleast : size - self.lastCheckpointSize = i64Min
      · rw [if_pos hleast, res_abort_bind]
        exact .inl ⟨hreaches, .inl (Int.le_of_eq hleast), rfl⟩
      · rw [if_neg hleast, res_ok_bind]
        refine .inr ⟨?_, ?_⟩
        · rintro ⟨-, hlow | hhigh⟩
          · exact hleast (Int.le_antisymm hlow hfits.1)
          · exact absurd hfits.2 (Int.not_le.mpr hhigh)
        · split
          · exact ⟨_, rfl⟩
          · exact ⟨_, rfl⟩
    · rw [subI64, if_neg hfits, res_abort_bind]
      refine .inl ⟨hreaches, ?_, rfl⟩
      by_contra hover
      rw [SizeOverflows, not_or, Int.not_le, Int.not_lt] at hover
      exact hfits ⟨Int.le_of_lt hover.1, hover.2⟩
  · exact .inr ⟨fun h => hmin h.1.2.2.1, _, rfl⟩

/-! ## Runs -/

/-- The call is one at which a number leaves its type: the `2 ^ 64`-th keystroke, or a keystroke
    at which the size rule is reached and cannot be computed. -/
def Overflows (floats : Floats F) (sha256 : Bytes → Digest) (action : Action)
    (t : CheckpointTrigger F) : Prop :=
  match action with
  | .recordKeystroke now jitterMicros size => t.totalKeystrokes + 1 = 2 ^ 64
      ∨ ∃ counted, countKeystroke floats sha256 t now.instant jitterMicros = .ok counted
        ∧ ReachesSizeRule floats counted now.instant t.lastKeystroke ∧ SizeOverflows t size
  | _ => False

theorem recordKeystroke_spec (h : Tracks self xs closed) (now : Clock) (jitterMicros : UInt32)
    (size : Int) :
    (Overflows floats sha256 (.recordKeystroke now jitterMicros size) self
        ∧ recordKeystroke floats sha256 self now jitterMicros size = abort)
      ∨ ¬Overflows floats sha256 (.recordKeystroke now jitterMicros size) self
        ∧ ∃ event after, recordKeystroke floats sha256 self now jitterMicros size
            = .ok (event, after)
          ∧ Tracks after (xs ++ [jitterMicros]) (closed + (Reply.event event).keystrokeCount) := by
  by_cases hroom : self.totalKeystrokes + 1 < 2 ^ 64
  · obtain ⟨mid, hmid, htracks, hsize⟩ :=
      @countKeystroke_spec F floats sha256 self xs closed h now.instant jitterMicros hroom
    have hover : Overflows floats sha256 (.recordKeystroke now jitterMicros size) self
        ↔ ReachesSizeRule floats mid now.instant self.lastKeystroke ∧ SizeOverflows mid size := by
      have hsame : SizeOverflows mid size ↔ SizeOverflows self size := by
        rw [SizeOverflows, SizeOverflows, hsize]
      rw [Overflows, or_iff_right (Nat.ne_of_lt hroom), hsame]
      constructor
      · rintro ⟨counted, hcounted, hreaches⟩
        cases hmid.symm.trans hcounted
        exact hreaches
      · exact fun hreaches => ⟨mid, hmid, hreaches⟩
    rw [hover, recordKeystroke, hmid, res_ok_bind]
    rcases @evaluateRules_spec F floats mid now.instant self.lastKeystroke size with
      ⟨hreaches, hsizes, habort⟩ | ⟨hfits, reason, hreason⟩
    · rw [habort, res_abort_bind]
      exact .inl ⟨⟨hreaches, hsizes⟩, rfl⟩
    · rw [hreason, res_ok_bind]
      refine .inr ⟨hfits, ?_⟩
      cases reason with
      | none => exact ⟨_, _, rfl, htracks⟩
      | some reason => exact ⟨_, _, rfl, htracks.reset size now.instant⟩
  · have htotal := h.total
    have hfits := h.fits
    rw [recordKeystroke, countKeystroke_full hroom, res_abort_bind]
    exact .inl ⟨.inl (by omega), rfl⟩

/-- A call aborts where a number leaves its type; otherwise the trigger keeps track. -/
theorem step_spec (h : Tracks self xs closed) (action : Action) :
    (Overflows floats sha256 action self ∧ step floats sha256 action self = abort)
      ∨ ¬Overflows floats sha256 action self
        ∧ ∃ reply after, step floats sha256 action self = .ok (reply, after)
          ∧ Tracks after (xs ++ action.jitters) (closed + reply.keystrokeCount) := by
  cases action with
  | recordKeystroke now jitterMicros size =>
    rw [step]
    rcases @recordKeystroke_spec F floats sha256 self xs closed h now jitterMicros size with
      ⟨hover, habort⟩ | ⟨hfits, event, after, hok, htracks⟩
    · rw [habort, res_abort_bind]
      exact .inl ⟨hover, rfl⟩
    · rw [hok, res_ok_bind]
      exact .inr ⟨hfits, _, _, rfl, htracks⟩
  | checkTimeTrigger now size =>
    refine .inr ⟨id, ?_⟩
    show ∃ reply after, _ ∧ Tracks after (xs ++ []) _
    rw [List.append_nil, step, checkTimeTrigger]
    by_cases hdue : now.instant - self.lastCheckpoint ≥ self.maxTimeInterval
        ∧ self.keystrokesSinceCheckpoint > 0
    · rw [if_pos hdue]
      exact ⟨_, _, rfl, h.reset size now.instant⟩
    · rw [if_neg hdue]
      exact ⟨_, _, rfl, h⟩
  | manualTrigger now size =>
    refine .inr ⟨id, _, _, rfl, ?_⟩
    show Tracks _ (xs ++ []) _
    rw [List.append_nil]
    exact h.reset size now.instant
  | sessionEndTrigger now size =>
    refine .inr ⟨id, _, _, rfl, ?_⟩
    show Tracks _ (xs ++ []) _
    rw [List.append_nil]
    exact h.reset size now.instant
  | resetForCheckpoint now size =>
    refine .inr ⟨id, _, _, rfl, ?_⟩
    show Tracks _ (xs ++ []) _
    rw [List.append_nil]
    exact h.reset size now.instant

variable {actions : List Action}

theorem run_cons {action : Action} {reply : Reply F} {next : CheckpointTrigger F}
    (h : step floats sha256 action self = .ok (reply, next)) :
    run floats sha256 (action :: actions) self
      = run floats sha256 actions next >>= fun rest => .ok (reply :: rest.1, rest.2) := by
  rw [run, h]
  rfl

/-- A run tracks the jitters of all its actions. -/
theorem run_tracks {replies : List (Reply F)} (h : Tracks self xs closed)
    (hrun : run floats sha256 actions self = .ok (replies, after)) :
    Tracks after (xs ++ actions.flatMap Action.jitters)
      (closed + (replies.map Reply.keystrokeCount).sum) := by
  induction actions generalizing self xs closed replies with
  | nil =>
    cases hrun
    simpa using h
  | cons action actions ih =>
    rw [run, res_bind_eq_ok] at hrun
    obtain ⟨⟨reply, mid⟩, hstep, hrun⟩ := hrun
    obtain ⟨⟨rest, last⟩, hrest, hrun⟩ := res_bind_eq_ok.mp hrun
    cases hrun
    rcases @step_spec F floats sha256 self xs closed h action with
      ⟨-, habort⟩ | ⟨-, reply', mid', hok, htracks⟩
    · cases habort.symm.trans hstep
    · cases hok.symm.trans hstep
      have hlast := ih htracks hrest
      rwa [List.append_assoc, ← List.flatMap_cons, Nat.add_assoc, ← List.sum_cons,
        ← List.map_cons] at hlast

/-- A run aborts at the first action that overflows. -/
theorem run_eq_abort (h : Tracks self xs closed) :
    run floats sha256 actions self = abort
      ↔ ∃ before action later replies mid, actions = before ++ action :: later
        ∧ run floats sha256 before self = .ok (replies, mid)
        ∧ Overflows floats sha256 action mid := by
  induction actions generalizing self xs closed with
  | nil =>
    refine iff_of_false nofun ?_
    rintro ⟨before, action, later, replies, mid, hsplit, -⟩
    cases before <;> cases hsplit
  | cons action actions ih =>
    rcases @step_spec F floats sha256 self xs closed h action with
      ⟨hover, habort⟩ | ⟨hfits, reply, next, hok, htracks⟩
    · rw [run, habort, res_abort_bind]
      exact iff_of_true rfl ⟨[], action, actions, [], self, rfl, rfl, hover⟩
    · rw [run_cons hok, res_bind_eq_abort, or_iff_left (by rintro ⟨last, -, ⟨⟩⟩), ih htracks]
      constructor
      · rintro ⟨before, stop, later, replies, mid, rfl, hrun, hover⟩
        refine ⟨action :: before, stop, later, reply :: replies, mid, rfl, ?_, hover⟩
        rw [run_cons hok, hrun, res_ok_bind]
      · rintro ⟨before, stop, later, replies, mid, hsplit, hrun, hover⟩
        cases before with
        | nil =>
          -- the first call does not overflow
          cases hrun
          cases hsplit
          exact absurd hover hfits
        | cons first before =>
          cases hsplit
          rw [run_cons hok, res_bind_eq_ok] at hrun
          obtain ⟨⟨rest, last⟩, hrest, hrun⟩ := hrun
          cases hrun
          exact ⟨before, stop, later, rest, last, rfl, hrest, hover⟩

/-- The window and the counters are exact in every run, and a run that does not return stops at
    the `2 ^ 64`-th keystroke or at a size rule that cannot be computed. -/
theorem run_exact (floats : Floats F) (sha256 : Bytes → Digest) {config : Config F} {now : Nat}
    (h : withConfig floats config now = .ok self) (actions : List Action) :
    (∀ replies after, run floats sha256 actions self = .ok (replies, after) →
        let jitters := actions.flatMap Action.jitters
        let latest := jitters.drop (jitters.length - 16)
        after.windowLen = min jitters.length 16
          ∧ after.sumX = (latest.map fun x => x.toNat).sum
          ∧ after.sumX2 = (latest.map fun x => x.toNat * x.toNat).sum
          ∧ after.totalKeystrokes = jitters.length
          ∧ (replies.map Reply.keystrokeCount).sum + after.keystrokesSinceCheckpoint
              = jitters.length)
      ∧ (run floats sha256 actions self = abort
        ↔ ∃ before action later replies mid, actions = before ++ action :: later
          ∧ run floats sha256 before self = .ok (replies, mid)
          ∧ Overflows floats sha256 action mid) := by
  refine ⟨fun replies after hrun => ?_, run_eq_abort (tracks_withConfig h)⟩
  have htracks := run_tracks (tracks_withConfig h) hrun
  rw [List.nil_append, Nat.zero_add] at htracks
  exact ⟨htracks.window.ring.count_eq, htracks.window.sumX, htracks.window.sumX2, htracks.total,
    htracks.counted⟩

/-! ## Numbers that do not fit -/

/-- Whole numbers in place of `f64`: a window of fewer than four jitters asks for no others. -/
def wholeFloats : Floats Nat where
  ofNat n := n
  lt a b := a < b
  le a b := a ≤ b
  add a b := a + b
  sub a b := a - b
  mul a b := a * b
  div a b := a / b
  max a b := Nat.max a b
  sqrt a := a
  log2 a := a.log2
  isFinite _ := true
  durationFromSecs secs := some (secs * 1000000000)

/-- The defaults, with the rules in force from the first keystroke on -/
def eagerConfig : Config Nat where
  minKeystrokeInterval := 1
  maxKeystrokeInterval := 500
  pauseThresholdSecs := 5
  entropyThresholdBits := 3
  sizeDeltaThreshold := 256
  maxTimeIntervalSecs := 300

def eagerTrigger : CheckpointTrigger Nat where
  config := eagerConfig
  pauseThreshold := 5000000000
  maxTimeInterval := 300000000000
  keystrokesSinceCheckpoint := 0
  totalKeystrokes := 0
  accumulatedEntropy := 0
  lastKeystroke := none
  lastCheckpoint := 0
  lastCheckpointSize := 0
  entropyHash := .filled 32 0
  windowBuf := List.replicate 16 0
  windowIdx := 0
  windowLen := 0
  sumX := 0
  sumX2 := 0

theorem jitters_replicate (n : Nat) (now : Clock) (jitterMicros : UInt32) (size : Int) :
    (List.replicate n (Action.recordKeystroke now jitterMicros size)).flatMap Action.jitters
      = List.replicate n jitterMicros := by
  induction n with
  | zero => rfl
  | succ n ih =>
    rw [List.replicate_succ, List.flatMap_cons, ih, List.replicate_succ]
    rfl

theorem withConfig_eager : withConfig wholeFloats eagerConfig 0 = .ok eagerTrigger := rfl

theorem run_exact_eager :
    let actions := [.recordKeystroke ⟨1, 1⟩ 300 0, .manualTrigger ⟨2, 2⟩ 7]
    (∀ replies after, run wholeFloats (fun _ => .filled 32 0) actions eagerTrigger
          = .ok (replies, after) →
        let jitters := actions.flatMap Action.jitters
        let latest := jitters.drop (jitters.length - 16)
        after.windowLen = min jitters.length 16
          ∧ after.sumX = (latest.map fun x => x.toNat).sum
          ∧ after.sumX2 = (latest.map fun x => x.toNat * x.toNat).sum
          ∧ after.totalKeystrokes = jitters.length
          ∧ (replies.map Reply.keystrokeCount).sum + after.keystrokesSinceCheckpoint
              = jitters.length)
      ∧ (run wholeFloats (fun _ => .filled 32 0) actions eagerTrigger = abort
        ↔ ∃ before action later replies mid, actions = before ++ action :: later
          ∧ run wholeFloats (fun _ => .filled 32 0) before eagerTrigger = .ok (replies, mid)
          ∧ Overflows wholeFloats (fun _ => .filled 32 0) action mid) :=
  run_exact wholeFloats (fun _ => .filled 32 0) withConfig_eager _

/-- A difference of sizes below the least `i64`, and a keystroke past the largest `u64`. -/
theorem run_overflows :
    run wholeFloats (fun _ => .filled 32 0)
        [.resetForCheckpoint ⟨0, 0⟩ 1, .recordKeystroke ⟨1, 1⟩ 10 i64Min] eagerTrigger = abort
      ∧ ∀ out, run wholeFloats (fun _ => .filled 32 0)
          (List.replicate (2 ^ 64) (.recordKeystroke ⟨1, 1⟩ 10 0)) eagerTrigger ≠ .ok out := by
  refine ⟨by decide, ?_⟩
  rintro ⟨replies, after⟩ hrun
  have htracks := run_tracks (tracks_withConfig withConfig_eager) hrun
  have hfits := htracks.fits
  rw [List.nil_append, jitters_replicate, List.length_replicate] at hfits
  exact Nat.lt_irrefl _ hfits

end WritersProof.Checkpoint.Timing
