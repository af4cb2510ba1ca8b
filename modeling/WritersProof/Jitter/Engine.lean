/-
  WritersProof.Jitter.Engine

  The zone-committed jitter engine and the readers of its samples
  (crates/cpoe/src/jitter/engine.rs, content.rs, zones.rs, profile.rs, mod.rs).

  The engine takes its clock as it comes, so two keystrokes in one tick leave
  samples with one time.
-/
import WritersProof.Jitter.Session
import Mathlib.Data.List.Chain
import Mathlib.Data.List.Induction

namespace WritersProof.Jitter

open Rust

/-! ## Zones -/

def keycodeToZone (keyCode : UInt16) : Int :=
  match keyCode.toNat with
  | 0x0C | 0x00 | 0x06 => 0
  | 0x0D | 0x01 | 0x07 => 1
  | 0x0E | 0x02 | 0x08 => 2
  | 0x0F | 0x11 | 0x03 | 0x05 | 0x09 | 0x0B => 3
  | 0x10 | 0x20 | 0x04 | 0x26 | 0x2D | 0x2E => 4
  | 0x22 | 0x28 | 0x2B => 5
  | 0x1F | 0x25 | 0x2F => 6
  | 0x23 | 0x29 | 0x2C => 7
  | _ => -1

def encodeZoneTransition (start stop : Int) : UInt8 :=
  if ¬(0 ≤ start ∧ start ≤ 7) ∨ ¬(0 ≤ stop ∧ stop ≤ 7) then 0xFF
  else UInt8.ofNat (start.toNat <<< 3 ||| stop.toNat)

def decodeZoneTransition (encoded : UInt8) : Int × Int :=
  (((encoded >>> 3) &&& 0x07).toNat, (encoded &&& 0x07).toNat)

def isValidZoneTransition (encoded : UInt8) : Bool := encoded ≠ 0xFF && encoded >>> 3 < 8

structure ZoneTransition where
  start : Int
  stop : Int

def ZoneTransition.isSameFinger (self : ZoneTransition) : Bool := self.start = self.stop

def ZoneTransition.isSameHand (self : ZoneTransition) : Bool :=
  decide (self.start < 4) = decide (self.stop < 4)

def intervalToBucket (duration : Nat) : UInt8 :=
  let ms := min (duration / 1000000) (2 ^ 63 - 1)
  let bucket := ms / 50
  UInt8.ofNat (if bucket ≥ 10 then 10 - 1 else bucket)

/-! ## Profiles -/

/-- The `f32` of a profile: `0.0`, and the quotient of two counters. -/
structure Quotient32 (F : Type) where
  zero : F
  ratio : Nat → Nat → F

/-- `saturating_add(1)` of one counter of a histogram of `u32` -/
def bump (hist : List Nat) (idx : Nat) : List Nat :=
  hist.modify idx fun n => min (n + 1) (2 ^ 32 - 1)

/-- Accumulated typing behavior profile from zone transition statistics. -/
structure TypingProfile (F : Type) where
  sameFingerHist : List Nat
  sameHandHist : List Nat
  alternatingHist : List Nat
  handAlternation : F
  totalTransitions : Nat
  alternatingCount : Nat

section Profiles

variable {F : Type} (f32 : Quotient32 F)

/-- `TypingProfile::default` -/
def TypingProfile.empty : TypingProfile F where
  sameFingerHist := List.replicate 10 0
  sameHandHist := List.replicate 10 0
  alternatingHist := List.replicate 10 0
  handAlternation := f32.zero
  totalTransitions := 0
  alternatingCount := 0

def TypingProfile.count (self : TypingProfile F) (trans : ZoneTransition) (idx : Nat) :
    TypingProfile F :=
  let self :=
    if trans.isSameFinger then { self with sameFingerHist := bump self.sameFingerHist idx }
    else if trans.isSameHand then { self with sameHandHist := bump self.sameHandHist idx }
    else
      { self with
        alternatingHist := bump self.alternatingHist idx
        alternatingCount := min (self.alternatingCount + 1) (2 ^ 64 - 1) }
  { self with totalTransitions := min (self.totalTransitions + 1) (2 ^ 64 - 1) }

def TypingProfile.recordTransition (self : TypingProfile F) (fromZone toZone : Int)
    (bucket : UInt8) : TypingProfile F :=
  let self := self.count ⟨fromZone, toZone⟩ (min bucket.toNat 9)
  { self with handAlternation := f32.ratio self.alternatingCount self.totalTransitions }

end Profiles

/-! ## The engine -/

/-- Zone-committed jitter sample captured during real-time keystroke monitoring. -/
structure JitterSample where
  ordinal : Nat
  timestamp : DateTime
  docHash : Hash32
  zoneTransition : UInt8
  intervalBucket : UInt8
  jitterMicros : Nat
  clockSkew : Nat
  sampleHash : Hash32

structure JitterEngine (F : Type) where
  secret : Hash32
  ordinal : Nat
  prevJitter : Nat
  prevZone : Int
  prevTime : Int
  profile : TypingProfile F

/-- A keystroke, with what the clock and the CPU counter read at it. -/
structure KeyEvent where
  keyCode : UInt16
  docHash : Hash32
  now : Int
  clockSkew : Nat

section Engine

variable (C : Crates)

def computeJitterSampleHash (sample : JitterSample) : Hash32 :=
  C.sha256 (Bytes.utf8 "cpoe-jitter-sample-v2" ++ Bytes.toBE 8 sample.ordinal
    ++ Bytes.toBE 8 (timestampNanos sample.timestamp) ++ sample.docHash.val
    ++ [sample.zoneTransition, sample.intervalBucket] ++ Bytes.toBE 4 sample.jitterMicros
    ++ Bytes.toBE 8 sample.clockSkew)

def computeZoneJitter (secret : Hash32) (ordinal : Nat) (docHash : Hash32)
    (zoneTransition intervalBucket : UInt8) (timestamp : DateTime) (prevJitter : Nat) : Nat :=
  let hash := C.hmac secret.val (Bytes.toBE 8 ordinal ++ docHash.val
    ++ Bytes.toBE 8 (timestampNanos timestamp) ++ [zoneTransition] ++ [intervalBucket]
    ++ Bytes.toBE 4 prevJitter)
  let raw := Bytes.ofBE (hash.val.take 4)
  500 + raw % 2500

variable {F : Type} (f32 : Quotient32 F)

def JitterEngine.new (secret : Hash32) (now : Int) : JitterEngine F where
  secret
  ordinal := 0
  prevJitter := 0
  prevZone := -1
  prevTime := now
  profile := .empty f32

def JitterEngine.transition (self : JitterEngine F) (zone now : Int) :
    UInt8 × UInt8 × TypingProfile F :=
  if 0 ≤ self.prevZone then
    let intervalBucket := intervalToBucket (now - self.prevTime).toNat
    (encodeZoneTransition self.prevZone zone, intervalBucket,
      self.profile.recordTransition f32 self.prevZone zone intervalBucket)
  else (0xFF, 0, self.profile)

/-- One keystroke: a key on the letter block leaves a sample, any other key nothing. -/
def JitterEngine.onKeystroke (event : KeyEvent) (self : JitterEngine F) :
    (Nat × Option JitterSample) × JitterEngine F :=
  let zone := keycodeToZone event.keyCode
  if zone < 0 then ((0, none), self)
  else
    let (zoneTransition, intervalBucket, profile) := self.transition f32 zone event.now
    let jitter := computeZoneJitter C self.secret self.ordinal event.docHash zoneTransition
      intervalBucket (.ofNanos event.now) self.prevJitter
    let ordinal := min (self.ordinal + 1) (2 ^ 64 - 1)
    let sample : JitterSample :=
      { ordinal, timestamp := .ofNanos event.now, docHash := event.docHash, zoneTransition
        intervalBucket, jitterMicros := jitter, clockSkew := event.clockSkew
        sampleHash := zeroHash }
    let sample := { sample with sampleHash := computeJitterSampleHash C sample }
    ((jitter, some sample),
      { self with ordinal, profile, prevZone := zone, prevTime := event.now, prevJitter := jitter })

/-! ## The readers -/

/-- The loop of `verify_with_secret`, with the ordinal and the jitter of the sample before -/
def verifyFrom (secret : Hash32) : Nat → Nat → Nat → List JitterSample → Res String Unit
  | _, _, _, [] => .ok ()
  | i, ordinal, prevJitter, sample :: samples => do
    let expectedOrdinal ← unwrap (checkedAdd ordinal 1)
    reject (sample.ordinal ≠ expectedOrdinal)
      (s!"sample {i}: ordinal mismatch (expected {expectedOrdinal}, got {sample.ordinal})")
    let expected := computeZoneJitter C secret ordinal sample.docHash sample.zoneTransition
      sample.intervalBucket sample.timestamp prevJitter
    reject (expected ≠ sample.jitterMicros) s!"sample {i}: jitter value mismatch"
    reject (sample.sampleHash ≠ computeJitterSampleHash C sample) s!"sample {i}: hash mismatch"
    let next ← unwrap (checkedAdd ordinal 1)
    verifyFrom secret (i + 1) next sample.jitterMicros samples

/-- Recomputes ordinals, jitters and hashes. -/
def verifyWithSecret (samples : List JitterSample) (secret : Hash32) : Res String Unit := do
  reject (samples = []) "empty sample chain"
  verifyFrom C secret 0 0 0 samples

/-- One turn of the loop of `verify_jitter_chain` -/
def checkSample (i : Nat) (prev : Option JitterSample) (sample : JitterSample) :
    Res String Unit := do
  reject (sample.sampleHash ≠ computeJitterSampleHash C sample) s!"sample {i}: sample hash mismatch"
  match prev with
  | some prev => do
    reject (sample.timestamp ≤ prev.timestamp)
      s!"sample {i}: timestamp not monotonically increasing"
    reject (sample.ordinal ≤ prev.ordinal) s!"sample {i}: ordinal not increasing"
  | none => .ok ()

/-- Hashes, and times and ordinals that go up. -/
def verifyJitterChain (samples : List JitterSample) : Res String Unit := do
  reject (samples = []) "empty sample chain"
  forEachAfter (checkSample C) 0 none samples

end Engine

section Readers

variable {F : Type} (f32 : Quotient32 F)

def extractZone (profile : TypingProfile F) (sample : JitterSample) : TypingProfile F :=
  if sample.zoneTransition = 0xFF then profile
  else
    let (start, stop) := decodeZoneTransition sample.zoneTransition
    let bucket := if sample.intervalBucket ≥ 10 then 9 else sample.intervalBucket
    profile.count ⟨start, stop⟩ bucket.toNat

def extractRecordedZones (samples : List JitterSample) : TypingProfile F :=
  let profile := samples.foldl extractZone (.empty f32)
  if profile.totalTransitions > 0 then
    { profile with handAlternation := f32.ratio profile.alternatingCount profile.totalTransitions }
  else profile

def extractTransitionHistogram (samples : List JitterSample) : List Nat :=
  samples.foldl (fun hist sample =>
    if isValidZoneTransition sample.zoneTransition && sample.zoneTransition.toNat < hist.length then
      bump hist sample.zoneTransition.toNat
    else hist) (List.replicate 64 0)

end Readers

/-! ## Zones come back -/

theorem keycodeToZone_le (keyCode : UInt16) : keycodeToZone keyCode ≤ 7 := by
  unfold keycodeToZone
  split <;> decide

theorem intervalToBucket_lt (duration : Nat) : intervalToBucket duration < 10 := by
  rw [intervalToBucket, UInt8.lt_iff_toNat_lt]
  show (UInt8.ofNat (if _ ≥ 10 then _ else _)).toNat < 10
  split
  next => decide
  next h =>
    have hlt := Nat.not_le.mp h
    rw [UInt8.toNat_ofNat_of_lt' (Nat.lt_trans hlt (by decide))]
    exact hlt

variable {start stop : Int} {sample : JitterSample} {i : Nat}

/-- A transition between two zones is a valid byte, and is read back from it. -/
theorem encode_spec (hstart : 0 ≤ start ∧ start ≤ 7) (hstop : 0 ≤ stop ∧ stop ≤ 7) :
    isValidZoneTransition (encodeZoneTransition start stop) = true
      ∧ (encodeZoneTransition start stop).toNat < 64
      ∧ decodeZoneTransition (encodeZoneTransition start stop) = (start, stop) := by
  obtain ⟨i, rfl⟩ := Int.eq_ofNat_of_zero_le hstart.1
  obtain ⟨j, rfl⟩ := Int.eq_ofNat_of_zero_le hstop.1
  have hi : i < 8 := by omega
  have hj : j < 8 := by omega
  have htable : ∀ i < 8, ∀ j < 8,
      isValidZoneTransition (encodeZoneTransition (i : Nat) (j : Nat)) = true
        ∧ (encodeZoneTransition (i : Nat) (j : Nat)).toNat < 64
        ∧ decodeZoneTransition (encodeZoneTransition (i : Nat) (j : Nat))
          = ((i : Int), (j : Int)) := by
    decide +kernel
  exact htable i hi j hj

/-! ## What a run leaves -/

variable {C : Crates} {F : Type} {f32 : Quotient32 F} {secret : Hash32}

def ordinalOf (prev : Option JitterSample) : Nat := (prev.map JitterSample.ordinal).getD 0

def jitterOf (prev : Option JitterSample) : Nat := (prev.map JitterSample.jitterMicros).getD 0

structure MadeAfter (C : Crates) (secret : Hash32) (prev : Option JitterSample)
    (sample : JitterSample) : Prop where
  ordinal_eq : sample.ordinal = min (ordinalOf prev + 1) (2 ^ 64 - 1)
  jitter_eq : sample.jitterMicros = computeZoneJitter C secret (ordinalOf prev) sample.docHash
    sample.zoneTransition sample.intervalBucket sample.timestamp (jitterOf prev)
  hash_eq : sample.sampleHash = computeJitterSampleHash C sample
  transition : if prev = none then sample.zoneTransition = 0xFF
    else isValidZoneTransition sample.zoneTransition = true ∧ sample.zoneTransition.toNat < 64

structure Made (C : Crates) (f32 : Quotient32 F) (secret : Hash32) (e : JitterEngine F)
    (samples : List JitterSample) : Prop where
  secret_eq : e.secret = secret
  ordinal_eq : e.ordinal = ordinalOf samples.getLast?
  jitter_eq : e.prevJitter = jitterOf samples.getLast?
  zone : if samples = [] then e.prevZone < 0 else 0 ≤ e.prevZone ∧ e.prevZone ≤ 7
  profile_eq : e.profile = extractRecordedZones f32 samples
  made : EachAfter (MadeAfter C secret) none samples

theorem made_new (secret : Hash32) (now : Int) : Made C f32 secret (.new f32 secret now) [] :=
  ⟨rfl, rfl, rfl, (if_pos rfl).mpr (show (-1 : Int) < 0 by decide), rfl, trivial⟩

def TypingProfile.finish (f32 : Quotient32 F) (p : TypingProfile F) : TypingProfile F :=
  if p.totalTransitions > 0 then
    { p with handAlternation := f32.ratio p.alternatingCount p.totalTransitions }
  else p

theorem extractRecordedZones_eq (samples : List JitterSample) :
    extractRecordedZones f32 samples = (samples.foldl extractZone (.empty f32)).finish f32 := rfl

theorem totalTransitions_count (p : TypingProfile F) (trans : ZoneTransition) (idx : Nat) :
    (p.count trans idx).totalTransitions = min (p.totalTransitions + 1) (2 ^ 64 - 1) := by
  rw [TypingProfile.count]
  split
  · rfl
  · split <;> rfl

theorem count_handAlternation (p : TypingProfile F) (q : F) (trans : ZoneTransition) (idx : Nat) :
    TypingProfile.count { p with handAlternation := q } trans idx
      = { p.count trans idx with handAlternation := q } := by
  rw [TypingProfile.count, TypingProfile.count]
  split
  · rfl
  · split <;> rfl

/-- The quotient is that of the counters at the end, however often it was computed before. -/
theorem recordTransition_finish (p : TypingProfile F) (start stop : Int) (bucket : UInt8) :
    (p.finish f32).recordTransition f32 start stop bucket
      = (p.count ⟨start, stop⟩ (min bucket.toNat 9)).finish f32 := by
  have hpos : (p.count ⟨start, stop⟩ (min bucket.toNat 9)).totalTransitions > 0 := by
    rw [totalTransitions_count]
    omega
  rw [TypingProfile.finish.eq_def f32 (p.count _ _), if_pos hpos, TypingProfile.recordTransition,
    TypingProfile.finish]
  split
  next => rw [count_handAlternation]
  next => rfl

/-- A sample with a transition is read back as that transition. -/
theorem extractZone_encode {p : TypingProfile F} (hstart : 0 ≤ start ∧ start ≤ 7)
    (hstop : 0 ≤ stop ∧ stop ≤ 7)
    (htransition : sample.zoneTransition = encodeZoneTransition start stop)
    (hbucket : sample.intervalBucket < 10) :
    extractZone p sample = p.count ⟨start, stop⟩ (min sample.intervalBucket.toNat 9) := by
  obtain ⟨-, hlt, hdecode⟩ := encode_spec hstart hstop
  have hne : sample.zoneTransition ≠ 0xFF := by
    intro heq
    rw [← htransition, heq] at hlt
    exact absurd hlt (by decide)
  have hsmall : sample.intervalBucket.toNat < 10 := UInt8.lt_iff_toNat_lt.mp hbucket
  rw [extractZone, if_neg hne, htransition, hdecode, if_neg (UInt8.not_le.mpr hbucket),
    Nat.min_eq_left (Nat.le_of_lt_succ hsmall)]

theorem extractRecordedZones_concat (samples : List JitterSample) (sample : JitterSample) :
    extractRecordedZones f32 (samples ++ [sample])
      = (extractZone (samples.foldl extractZone (.empty f32)) sample).finish f32 := by
  rw [extractRecordedZones_eq, List.foldl_append]
  rfl

theorem transition_spec {e : JitterEngine F} {samples : List JitterSample}
    (h : Made C f32 secret e samples) {zone : Int} (hzone : 0 ≤ zone ∧ zone ≤ 7) (now : Int)
    {sample : JitterSample} (htransition : sample.zoneTransition = (e.transition f32 zone now).1)
    (hbucket : sample.intervalBucket = (e.transition f32 zone now).2.1) :
    (if samples.getLast? = none then sample.zoneTransition = 0xFF
        else isValidZoneTransition sample.zoneTransition = true ∧ sample.zoneTransition.toNat < 64)
      ∧ (e.transition f32 zone now).2.2 = extractRecordedZones f32 (samples ++ [sample]) := by
  have hprev := h.zone
  rw [extractRecordedZones_concat]
  by_cases hnil : samples = []
  · -- the first sample has no transition
    rw [if_pos hnil] at hprev
    have hfirst : e.transition f32 zone now = (0xFF, 0, e.profile) := if_neg (Int.not_le.mpr hprev)
    rw [hfirst] at htransition hbucket ⊢
    rw [if_pos (List.getLast?_eq_none_iff.mpr hnil), extractZone, if_pos htransition, h.profile_eq,
      hnil]
    exact ⟨htransition, rfl⟩
  · rw [if_neg hnil] at hprev
    have hnext : e.transition f32 zone now
        = (encodeZoneTransition e.prevZone zone, intervalToBucket (now - e.prevTime).toNat,
          e.profile.recordTransition f32 e.prevZone zone
            (intervalToBucket (now - e.prevTime).toNat)) := if_pos hprev.1
    rw [hnext] at htransition hbucket ⊢
    obtain ⟨hvalid, hlt, -⟩ := encode_spec hprev hzone
    have hsmall : sample.intervalBucket < 10 := hbucket ▸ intervalToBucket_lt _
    rw [if_neg (fun hlast => hnil (List.getLast?_eq_none_iff.mp hlast)), htransition,
      extractZone_encode hprev hzone htransition hsmall, hbucket, h.profile_eq,
      extractRecordedZones_eq, recordTransition_finish]
    exact ⟨⟨hvalid, hlt⟩, rfl⟩

variable {samples : List JitterSample} {prev : Option JitterSample}

theorem onKeystroke_spec {e : JitterEngine F} (h : Made C f32 secret e samples) (event : KeyEvent) :
    (keycodeToZone event.keyCode < 0 ∧ e.onKeystroke C f32 event = ((0, none), e))
      ∨ 0 ≤ keycodeToZone event.keyCode ∧ ∃ jitter sample e',
          e.onKeystroke C f32 event = ((jitter, some sample), e')
          ∧ sample.timestamp = .ofNanos event.now ∧ Made C f32 secret e' (samples ++ [sample]) := by
  by_cases hkey : keycodeToZone event.keyCode < 0
  · exact .inl ⟨hkey, if_pos hkey⟩
  have hzone : 0 ≤ keycodeToZone event.keyCode ∧ keycodeToZone event.keyCode ≤ 7 :=
    ⟨Int.not_lt.mp hkey, keycodeToZone_le event.keyCode⟩
  refine .inr ⟨hzone.1, ?_⟩
  rw [JitterEngine.onKeystroke]
  simp only [if_neg hkey]
  refine ⟨_, _, _, rfl, rfl, ?_⟩
  obtain ⟨htransition, hprofile⟩ := @transition_spec C F f32 secret e samples h _ hzone event.now
    ⟨_, _, _, _, _, _, _, _⟩ rfl rfl
  refine ⟨h.secret_eq, ?_, ?_, ?_, hprofile, eachAfter_concat.mpr ⟨h.made, ?_⟩⟩
  · rw [List.getLast?_concat]
    rfl
  · rw [List.getLast?_concat]
    rfl
  · rw [if_neg (List.append_ne_nil_of_right_ne_nil _ (List.cons_ne_nil _ _))]
    exact hzone
  · rw [Option.or_none]
    refine ⟨?_, ?_, rfl, htransition⟩
    · rw [← h.ordinal_eq]
    · rw [← h.ordinal_eq, ← h.jitter_eq, ← h.secret_eq]

/-! ## Runs -/

/-- The keystrokes on the letter block -/
def mapped (events : List KeyEvent) : List KeyEvent :=
  events.filter fun event => 0 ≤ keycodeToZone event.keyCode

def samplesOf (replies : List (Nat × Option JitterSample)) : List JitterSample :=
  replies.filterMap Prod.snd

/-- What a run adds to made samples is made as well. -/
theorem run_made {e : JitterEngine F} (h : Made C f32 secret e samples) (events : List KeyEvent) :
    let out := Machine.run (JitterEngine.onKeystroke C f32) events e
    Made C f32 secret out.2 (samples ++ samplesOf out.1)
      ∧ (samplesOf out.1).map JitterSample.timestamp = (mapped events).map fun e =>
        .ofNanos e.now := by
  induction events generalizing e samples with
  | nil =>
    refine ⟨?_, rfl⟩
    show Made C f32 secret e (samples ++ [])
    rw [List.append_nil]
    exact h
  | cons event events ih =>
    simp only [Machine.run_cons]
    rcases onKeystroke_spec h event
        with ⟨hkey, hstep⟩ | ⟨hkey, jitter, sample, e', hstep, htime, hnext⟩
    · rw [hstep]
      have hskip : mapped (event :: events) = mapped events :=
        List.filter_cons_of_neg (by simpa using hkey)
      rw [hskip]
      exact ih h
    · rw [hstep]
      have htake : mapped (event :: events) = event :: mapped events :=
        List.filter_cons_of_pos (by simpa using hkey)
      obtain ⟨hmade, htimes⟩ := ih hnext
      rw [List.append_assoc, List.singleton_append] at hmade
      refine ⟨hmade, ?_⟩
      rw [htake, List.map_cons, ← htimes, ← htime]
      rfl

/-- The secret reader follows the engine's ordinals as far as they go. -/
theorem verifyFrom_eq_ok (hlt : ordinalOf prev < 2 ^ 64)
    (h : EachAfter (MadeAfter C secret) prev samples) :
    verifyFrom C secret i (ordinalOf prev) (jitterOf prev) samples = .ok ()
      ↔ ordinalOf prev + samples.length < 2 ^ 64 := by
  induction samples generalizing prev i with
  | nil => exact iff_of_true rfl hlt
  | cons sample samples ih =>
    obtain ⟨hmade, hrest⟩ := h
    rw [verifyFrom, List.length_cons]
    by_cases hroom : ordinalOf prev + 1 < 2 ^ 64
    · have hordinal : sample.ordinal = ordinalOf prev + 1 := by
        rw [hmade.ordinal_eq]
        exact Nat.min_eq_left (by omega)
      have hnext : ordinalOf (some sample) = ordinalOf prev + 1 := hordinal
      have hrun := ih (i := i + 1) (hnext ▸ hroom) hrest
      rw [hnext] at hrun
      rw [checkedAdd_eq_some hroom, unwrap_some, res_ok_bind]
      dsimp only
      rw [reject_bind_eq_ok, and_iff_right (not_not.mpr hordinal), reject_bind_eq_ok,
        and_iff_right (not_not.mpr hmade.jitter_eq.symm), reject_bind_eq_ok,
        and_iff_right (not_not.mpr hmade.hash_eq), res_ok_bind]
      refine hrun.trans ?_
      omega
    · rw [checkedAdd, if_neg hroom, unwrap_none, res_abort_bind]
      refine iff_of_false (abort_ne_ok ()) ?_
      omega

theorem verifyWithSecret_eq_ok (hsome : samples ≠ [])
    (h : EachAfter (MadeAfter C secret) none samples) :
    verifyWithSecret C samples secret = .ok () ↔ samples.length < 2 ^ 64 := by
  rw [verifyWithSecret, reject, if_neg hsome, res_ok_bind]
  have hfrom := verifyFrom_eq_ok (i := 0) (by decide : ordinalOf none < 2 ^ 64) h
  rwa [show ordinalOf none = 0 from rfl, Nat.zero_add] at hfrom

def Later (prev : Option JitterSample) (sample : JitterSample) : Prop :=
  ∀ p ∈ prev, p.timestamp < sample.timestamp

theorem checkSample_eq_ok :
    checkSample C i prev sample = .ok () ↔ sample.sampleHash = computeJitterSampleHash C sample
      ∧ Later prev sample ∧ ∀ p ∈ prev, p.ordinal < sample.ordinal := by
  rw [Later]
  cases prev with
  | none =>
    rw [checkSample, reject_bind_eq_ok, not_not]
    exact and_congr_right' (iff_of_true rfl ⟨nofun, nofun⟩)
  | some p =>
    simp only [Option.mem_def, Option.some.injEq, forall_eq']
    rw [checkSample, reject_bind_eq_ok, not_not, reject_bind_eq_ok, reject_eq_ok, not_le, not_le]

/-- As long as the ordinals go up, the chain is fine when its times go up. -/
theorem forEachAfter_checkSample (hfits : ordinalOf prev + samples.length < 2 ^ 64)
    (h : EachAfter (MadeAfter C secret) prev samples) :
    forEachAfter (checkSample C) i prev samples = .ok () ↔ EachAfter Later prev samples := by
  induction samples generalizing prev i with
  | nil => exact iff_of_true rfl trivial
  | cons sample samples ih =>
    obtain ⟨hmade, hrest⟩ := h
    rw [List.length_cons] at hfits
    have hordinal : sample.ordinal = ordinalOf prev + 1 := by
      rw [hmade.ordinal_eq]
      exact Nat.min_eq_left (by omega)
    have hnext : ordinalOf (some sample) = ordinalOf prev + 1 := hordinal
    have hgrows : ∀ p ∈ prev, p.ordinal < sample.ordinal := by
      rintro p rfl
      rw [hordinal]
      exact Nat.lt_succ_self _
    rw [forEachAfter, unit_bind_eq_ok, checkSample_eq_ok, EachAfter, ih (by omega) hrest,
      and_iff_right hmade.hash_eq, and_iff_left hgrows]

theorem eachAfter_later_iff :
    EachAfter Later prev samples
      ↔ (prev.toList ++ samples).IsChain fun a b => a.timestamp < b.timestamp := by
  induction samples generalizing prev with
  | nil => cases prev <;> simp [EachAfter]
  | cons sample samples ih =>
    rw [EachAfter, ih, Later]
    cases prev with
    | none => simp
    | some p => simp

theorem verifyJitterChain_eq_ok (hsome : samples ≠ []) (hfits : samples.length < 2 ^ 64)
    (h : EachAfter (MadeAfter C secret) none samples) :
    verifyJitterChain C samples = .ok ()
      ↔ (samples.map JitterSample.timestamp).IsChain (· < ·) := by
  have hlength : ordinalOf none + samples.length < 2 ^ 64 := by
    rwa [show ordinalOf none = 0 from rfl, Nat.zero_add]
  rw [verifyJitterChain, reject, if_neg hsome, res_ok_bind, forEachAfter_checkSample hlength h,
    eachAfter_later_iff, List.isChain_map]
  rfl

/-! ## The histogram of transitions -/

/-- No counter of the readers reaches its end. -/
def Unsaturated (samples : List JitterSample) : Prop :=
  samples.length < 2 ^ 64
    ∧ ∀ encoded, (samples.map JitterSample.zoneTransition).count encoded < 2 ^ 32

theorem length_bump (hist : List Nat) (idx : Nat) : (bump hist idx).length = hist.length :=
  List.length_modify _ _ _

theorem sum_bump {hist : List Nat} {idx : Nat} (h : idx < hist.length)
    (hroom : ∀ n, hist[idx]? = some n → n + 1 < 2 ^ 32) : (bump hist idx).sum = hist.sum + 1 := by
  induction hist generalizing idx with
  | nil => exact absurd h (Nat.not_lt_zero _)
  | cons n hist ih =>
    cases idx with
    | zero =>
      have hn : n + 1 < 2 ^ 32 := hroom n rfl
      rw [bump, List.modify_zero_cons, List.sum_cons, List.sum_cons, Nat.min_eq_left (by omega)]
      omega
    | succ idx =>
      have hrest := ih (Nat.lt_of_succ_lt_succ h) hroom
      rw [bump] at hrest
      rw [bump, List.modify_succ_cons, List.sum_cons, List.sum_cons, hrest, Nat.add_assoc]

def hasEntry (sample : JitterSample) : Bool :=
  isValidZoneTransition sample.zoneTransition && sample.zoneTransition.toNat < 64

/-- No entry is above the number of samples that it counts, so as long as that fits no sample is
    lost. -/
theorem histogram_spec (samples : List JitterSample) :
    (extractTransitionHistogram samples).length = 64
      ∧ (∀ (encoded : UInt8) (n : Nat),
          (extractTransitionHistogram samples)[encoded.toNat]? = some n →
            n ≤ (samples.map JitterSample.zoneTransition).count encoded)
      ∧ (Unsaturated samples → (extractTransitionHistogram samples).sum
          = (samples.filter hasEntry).length) := by
  induction samples using List.reverseRecOn with
  | nil =>
    refine ⟨rfl, fun encoded n hn => ?_, fun _ => rfl⟩
    rw [extractTransitionHistogram, List.foldl_nil, List.getElem?_replicate] at hn
    split at hn
    next => cases hn; exact Nat.zero_le _
    next => cases hn
  | append_singleton samples sample ih =>
    obtain ⟨hlength, hcount, hsum⟩ := ih
    have hconcat : extractTransitionHistogram (samples ++ [sample])
        = if hasEntry sample then bump (extractTransitionHistogram samples)
            sample.zoneTransition.toNat
          else extractTransitionHistogram samples := by
      rw [extractTransitionHistogram, List.foldl_append, List.foldl_cons, List.foldl_nil,
        ← extractTransitionHistogram, hlength]
      rfl
    rw [hconcat, List.map_append, List.map_singleton, List.filter_append]
    by_cases hvalid : hasEntry sample = true
    · rw [if_pos hvalid, List.filter_cons_of_pos hvalid, List.filter_nil, List.length_append,
        List.length_singleton, length_bump]
      have hidx : sample.zoneTransition.toNat < (extractTransitionHistogram samples).length := by
        rw [hlength]
        exact of_decide_eq_true (Bool.and_eq_true_iff.mp hvalid).2
      refine ⟨hlength, fun encoded n hn => ?_, fun hunsaturated => ?_⟩
      · rw [List.count_append, List.count_singleton]
        by_cases hsame : sample.zoneTransition = encoded
        · -- the entry of the sample itself goes up by one at most
          rw [hsame, bump, List.getElem?_modify_eq, Option.map_eq_map, Option.map_eq_some_iff] at hn
          obtain ⟨old, hold, rfl⟩ := hn
          have hle := hcount encoded old hold
          rw [hsame, beq_self_eq_true, if_pos rfl]
          omega
        · have hne : sample.zoneTransition.toNat ≠ encoded.toNat :=
            fun heq => hsame (UInt8.toNat_inj.mp heq)
          rw [bump, List.getElem?_modify_ne _ _ hne] at hn
          exact Nat.le_trans (hcount encoded n hn) (Nat.le_add_right _ _)
      · obtain ⟨hfits, hcounts⟩ := hunsaturated
        have hbefore : Unsaturated samples := by
          refine ⟨?_, fun encoded => ?_⟩
          · rw [List.length_append] at hfits
            omega
          · have hafter := hcounts encoded
            rw [List.map_append, List.count_append] at hafter
            omega
        rw [sum_bump hidx, hsum hbefore]
        intro n hn
        have hle := hcount _ n hn
        have hafter := hcounts sample.zoneTransition
        rw [List.map_append, List.map_singleton, List.count_append, List.count_singleton_self]
          at hafter
        omega
    · rw [if_neg hvalid, List.filter_cons_of_neg hvalid, List.filter_nil, List.append_nil]
      refine ⟨hlength, fun encoded n hn => ?_, fun hunsaturated => hsum ⟨?_, fun encoded => ?_⟩⟩
      · rw [List.count_append]
        exact Nat.le_trans (hcount encoded n hn) (Nat.le_add_right _ _)
      · have hfits := hunsaturated.1
        rw [List.length_append] at hfits
        omega
      · have hafter := hunsaturated.2 encoded
        rw [List.map_append, List.count_append] at hafter
        omega

theorem totalTransitions_eq (samples : List JitterSample) :
    (extractRecordedZones f32 samples).totalTransitions
      = min (samples.filter fun sample => sample.zoneTransition ≠ 0xFF).length (2 ^ 64 - 1) := by
  have hfinish : ∀ p : TypingProfile F, (p.finish f32).totalTransitions = p.totalTransitions := by
    intro p
    rw [TypingProfile.finish]
    split <;> rfl
  rw [extractRecordedZones_eq, hfinish]
  induction samples using List.reverseRecOn with
  | nil => rfl
  | append_singleton samples sample ih =>
    rw [List.foldl_append, List.foldl_cons, List.foldl_nil, List.filter_append, extractZone]
    by_cases hnone : sample.zoneTransition = 0xFF
    · rw [if_pos hnone, ih, List.filter_cons_of_neg (by simpa using hnone), List.filter_nil,
        List.append_nil]
    · rw [if_neg hnone, List.filter_cons_of_pos (by simpa using hnone), List.filter_nil,
        List.length_append, List.length_singleton]
      show (TypingProfile.count _ _ _).totalTransitions = _
      rw [totalTransitions_count, ih]
      omega

theorem valid_of_made (h : EachAfter (MadeAfter C secret) prev samples) : ∀ sample ∈ samples,
      hasEntry sample = decide (sample.zoneTransition ≠ 0xFF) := by
  induction samples generalizing prev with
  | nil => exact nofun
  | cons sample samples ih =>
    obtain ⟨hmade, hrest⟩ := h
    rw [List.forall_mem_cons]
    refine ⟨?_, ih hrest⟩
    have htransition := hmade.transition
    split at htransition
    next =>
      rw [hasEntry, htransition]
      rfl
    next =>
      obtain ⟨hvalid, hlt⟩ := htransition
      have hne : sample.zoneTransition ≠ 0xFF := by
        intro heq
        rw [heq] at hlt
        exact absurd hlt (by decide)
      rw [hasEntry, hvalid, decide_eq_true hlt, decide_eq_true hne]
      rfl

theorem sum_histogram (hfits : Unsaturated samples)
    (h : EachAfter (MadeAfter C secret) none samples) :
    (extractTransitionHistogram samples).sum
      = (extractRecordedZones f32 samples).totalTransitions := by
  rw [(histogram_spec samples).2.2 hfits, totalTransitions_eq,
    List.filter_congr (valid_of_made h), Nat.min_eq_left]
  have hle :=
    List.length_filter_le (fun sample : JitterSample => decide (sample.zoneTransition ≠ 0xFF))
    samples
  have hlt := hfits.1
  omega

/-! ## What the readers accept -/

/-- The two verifiers accept the samples, and the other two readers find the profile in them. -/
structure Accepted (C : Crates) (f32 : Quotient32 F) (secret : Hash32)
    (samples : List JitterSample) (profile : TypingProfile F) : Prop where
  secret : verifyWithSecret C samples secret = .ok ()
  chain : verifyJitterChain C samples = .ok ()
  sameFinger : (extractRecordedZones f32 samples).sameFingerHist = profile.sameFingerHist
  sameHand : (extractRecordedZones f32 samples).sameHandHist = profile.sameHandHist
  alternating : (extractRecordedZones f32 samples).alternatingHist = profile.alternatingHist
  total : (extractRecordedZones f32 samples).totalTransitions = profile.totalTransitions
  histogram : Unsaturated samples →
    (extractTransitionHistogram samples).sum = profile.totalTransitions

/-- The samples of a run are accepted exactly if the clock goes up at every key on the letter
    block, and there are ordinals for all of them. -/
theorem zone_run_verifies_iff (C : Crates) (f32 : Quotient32 F) (secret : Hash32) (start : Int)
    (events : List KeyEvent) (hsome : mapped events ≠ []) :
    let out := Machine.run (JitterEngine.onKeystroke C f32) events (.new f32 secret start)
    Accepted C f32 secret (samplesOf out.1) out.2.profile
      ↔ (mapped events).length < 2 ^ 64 ∧ (mapped events).IsChain fun a b => a.now < b.now := by
  intro out
  obtain ⟨hmade, htimes⟩ := run_made (@made_new C F f32 secret start) events
  rw [List.nil_append] at hmade
  have hlength : (samplesOf out.1).length = (mapped events).length := by
    rw [← List.length_map JitterSample.timestamp, htimes, List.length_map]
  have hne : samplesOf out.1 ≠ [] := by
    intro hnil
    rw [hnil, List.length_nil] at hlength
    exact hsome (List.length_eq_zero_iff.mp hlength.symm)
  have hprofile : extractRecordedZones f32 (samplesOf out.1) = out.2.profile :=
    hmade.profile_eq.symm
  have hchain : ((samplesOf out.1).map JitterSample.timestamp).IsChain (· < ·)
      ↔ (mapped events).IsChain fun a b => a.now < b.now := by
    rw [htimes, List.isChain_map]
    simp only [DateTime.ofNanos_lt_ofNanos]
  rw [← hchain, ← hlength]
  constructor
  · intro h
    have hfits := (verifyWithSecret_eq_ok hne hmade.made).mp h.secret
    exact ⟨hfits, (verifyJitterChain_eq_ok hne hfits hmade.made).mp h.chain⟩
  · rintro ⟨hfits, hgrows⟩
    refine ⟨(verifyWithSecret_eq_ok hne hmade.made).mpr hfits,
      (verifyJitterChain_eq_ok hne hfits hmade.made).mpr hgrows, ?_, ?_, ?_, ?_, ?_⟩
    · rw [hprofile]
    · rw [hprofile]
    · rw [hprofile]
    · rw [hprofile]
    · intro hunsaturated
      rw [← hprofile]
      exact sum_histogram hunsaturated hmade.made

/-! ### One tick -/

/-- Hashes that keep the sum of the bytes -/
def summingCrates : Crates where
  sha256 bytes := .filled 32 bytes.sum
  hmac key bytes := .filled 32 (key.sum + bytes.sum)
  toJson _ := .error "no JSON"
  fromJson _ := .error "no JSON"
  hexError _ := "Odd number of digits"

def rationalQuotients : Quotient32 Rat := ⟨0, fun a b => a / b⟩

def leftKey (now : Int) : KeyEvent := ⟨0x00, zeroHash, now, 7⟩

theorem zone_run_verifies_two_ticks :
    let out := Machine.run (JitterEngine.onKeystroke summingCrates rationalQuotients)
      [leftKey 5, leftKey 6] (.new rationalQuotients zeroHash 0)
    Accepted summingCrates rationalQuotients zeroHash (samplesOf out.1) out.2.profile
      ↔ (mapped [leftKey 5, leftKey 6]).length < 2 ^ 64
        ∧ (mapped [leftKey 5, leftKey 6]).IsChain fun a b => a.now < b.now :=
  zone_run_verifies_iff summingCrates rationalQuotients zeroHash 0 [leftKey 5, leftKey 6]
    (by decide)

/-- Two keystrokes in one tick of the clock -/
theorem zone_run_fails_same_tick :
    let out := Machine.run (JitterEngine.onKeystroke summingCrates rationalQuotients)
      [leftKey 5, leftKey 5] (.new rationalQuotients zeroHash 0)
    (samplesOf out.1).length = 2
      ∧ verifyJitterChain summingCrates (samplesOf out.1)
        = fail "sample 1: timestamp not monotonically increasing" := by
  decide +kernel

end WritersProof.Jitter
