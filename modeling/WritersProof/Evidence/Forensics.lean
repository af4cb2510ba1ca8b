/-
  WritersProof.Evidence.Forensics

  `run_forensics` (crates/cpoe/src/verify/pipeline.rs), and the times that the forensic
  engine subtracts with a plain `-` (crates/cpoe/src/forensics/analysis.rs,
  forensics/likelihood_model.rs, analysis/error_topology.rs).

  The other times are subtracted saturating, and the statistics are doubles, whose
  operations do not abort: `Statistics` is what comes of them.
-/
import WritersProof.Evidence.KeyProvenance
import WritersProof.Lib.Checked

namespace WritersProof.Evidence

open Rust
open Checkpoint (Digest)

/-! ## Samples and events -/

/-- Lightweight jitter sample; a decoded one has no dwell and no flight time. -/
structure SimpleJitterSample where
  timestampNs : Int
  durationSinceLastNs : Nat
  zone : Nat

structure EventData where
  id : Int
  timestampNs : Int
  fileSize : Int
  sizeDelta : Int
  filePath : String

structure Binding where
  providerType : String
  deviceId : String
  timestamp : DateTime
  attestedHash : Bytes
  signature : Bytes
  monotonicCounter : Option Nat
  safeClock : Option Bool

/-- A packet, and what full verification finds in the layers that are kept as recorded. -/
structure LayeredPacket extends Packet where
  /-- of `hardware` -/
  bindings : List Binding
  /-- The hash of the `entropy_commitment`, when there is a `jitter_binding` -/
  entropyCommitment : Option Digest
  /-- The timestamps of the `samples` of `keystroke` -/
  sampleTimes : List DateTime
  typingSamples : List SimpleJitterSample
  /-- The length of the `edit_topology` of `behavioral` -/
  editRegions : Nat

/-- What the engine knows apart from samples and events. -/
structure AnalysisContext where
  documentLength : Int
  totalKeystrokes : Int
  checkpointCount : Nat

/-- What the statistics are taken of: with the samples, the times between corrections and
    those of the windows, which are subtracted first. -/
structure Analyzed where
  events : List EventData
  samples : List SimpleJitterSample
  context : AnalysisContext
  errorIntervals : Option (List Int)
  windowTimeline : List Int

structure PerCheckpointResult where
  pctFlagged : Rat
  suspicious : Bool

/-- What is computed in doubles, and how they are written. -/
structure Statistics (Metrics : Type) where
  metrics : Analyzed → Metrics
  verdict : Metrics → ForensicVerdict
  perCheckpointFlags : List EventData → List CheckpointProof → PerCheckpointResult
  /-- `{:.n}` -/
  fixed : Nat → Rat → String

def correctionZone : Nat := 255

/-- `n as i64` -/
def asI64 (n : Nat) : Int := Int.bmod n (2 ^ 64)

/-! ## The engine -/

def correctionTimes (samples : List SimpleJitterSample) : List Int :=
  (samples.filter fun s => s.zone = correctionZone).map SimpleJitterSample.timestampNs

def computeErrorHurst (times : List Int) : Res Empty (Option (List Int)) :=
  if times.length < 5 then .ok none
  else do
    let diffs ← differences times
    let intervals := diffs.filter (0 < ·)
    .ok (if intervals.length < 4 then none else some intervals)

def analyzeErrorTopology (samples : List SimpleJitterSample) : Res Empty (Option (List Int)) :=
  if samples.length < 20 ∨ (correctionTimes samples).length < 3 then .ok none
  else computeErrorHurst (correctionTimes samples)

/-- `WINDOW_SIZE` and `MIN_SAMPLES` -/
def windowSize : Nat := 200

def minSamples : Nat := 30

/-- How far apart windows start: half of them overlaps with the next. -/
def windowStep (len : Nat) : Nat := if windowSize < len then 100 else len

/-- `while start < samples.len()`, for so many rounds -/
def windowsFrom (len : Nat) : Nat → Nat → List (Nat × Nat)
  | 0, _ => []
  | rounds + 1, start =>
    let stop := min (start + windowSize) len
    if start < len ∧ minSamples ≤ stop - start then
      (start, stop) :: windowsFrom len rounds (start + windowStep len)
    else []

/-- The windows of `compute_window_llrs_with_priors`: where each starts and ends.  Every
    round moves on, so there are no more rounds than samples. -/
def windows (len : Nat) : List (Nat × Nat) :=
  if len < minSamples then [] else windowsFrom len len 0

def windowTimeline (times : List Int) : Res Empty (List Int) :=
  let sessionStartNs := times.head?.getD 0
  (windows times.length).mapM fun w =>
    subI64 (times[(w.1 + w.2) / 2]?.getD sessionStartNs) sessionStartNs

section Defs

variable {Metrics : Type} (S : Statistics Metrics)

/-- `analyze_forensics_ext`.  No text and no model are given to it, so that not more than one
    anomaly is counted before the errors are looked at, and no early exit is taken. -/
def analyzeForensicsExt (events : List EventData) (samples : List SimpleJitterSample)
    (context : AnalysisContext) : Res Empty Metrics := do
  let errorIntervals ← analyzeErrorTopology samples
  let windowTimeline ← windowTimeline (samples.map SimpleJitterSample.timestampNs)
  .ok (S.metrics { events, samples, context, errorIntervals, windowTimeline })

/-! ## The phase -/

variable (p : LayeredPacket)

/-- One event for each region of the edit topology, without a time. -/
def LayeredPacket.events : List EventData :=
  match p.behavioral with
  | some _ => (List.range p.editRegions).map fun i =>
    { id := asI64 i, timestampNs := 0, fileSize := asI64 p.document.finalSize, sizeDelta := 0
      filePath := p.document.path }
  | none => []

/-- `timestamp_nanos_opt().unwrap_or(0)` -/
def sampleNanos (timestamp : DateTime) : Int := (timestampNanosOpt timestamp).getD 0

/-- `if let Some(prev) = prev_ns` -/
def sinceLast (tsNs : Int) : Option Int → Res Empty Int
  | some prevNs => subI64 tsNs prevNs
  | none => .ok 0

/-- `for s in &ks.samples`, where `prev` is the time before -/
def simpleSamples : Option Int → List DateTime → Res Empty (List SimpleJitterSample)
  | _, [] => .ok []
  | prev, s :: rest => do
    let tsNs := sampleNanos s
    let duration ← sinceLast tsNs prev
    let samples ← simpleSamples (some tsNs) rest
    .ok ({ timestampNs := tsNs, durationSinceLastNs := (max duration 0).toNat, zone := 0 }
      :: samples)

def LayeredPacket.jitterSamples : Res Empty (List SimpleJitterSample) :=
  match p.keystroke with
  | some _ => if p.typingSamples = [] then simpleSamples none p.sampleTimes else .ok p.typingSamples
  | none => .ok []

def LayeredPacket.context : AnalysisContext :=
  { documentLength := asI64 p.document.finalSize
    totalKeystrokes := (p.keystroke.map fun k => asI64 k.totalKeystrokes).getD 0
    checkpointCount := p.checkpoints.length }

structure ForensicPhase (Metrics : Type) where
  metrics : Option Metrics
  perCheckpoint : Option PerCheckpointResult
  warnings : List String

/-- The flags of checkpoints, when there are times to tell the checkpoints apart by. -/
def perCheckpoint (events : List EventData) (checkpoints : List CheckpointProof) :
    Option PerCheckpointResult × List String :=
  if 2 ≤ checkpoints.length ∧ events.any fun e => 0 < e.timestampNs then
    let result := S.perCheckpointFlags events checkpoints
    (some result,
      if result.suspicious then
        ["Per-checkpoint analysis: " ++ S.fixed 0 (Binary64.mul result.pctFlagged 100)
          ++ "% of checkpoints flagged (threshold: 30%)"]
      else [])
  else (none, [])

/-- `run_forensics`.  No event has a time, so that sorting leaves them as they are. -/
def runForensics : Res Empty (ForensicPhase Metrics) := do
  let events := p.events
  let samples ← p.jitterSamples
  let allZero := !events.isEmpty && events.all fun e => e.timestampNs = 0
  if samples = [] ∧ events = [] then
    .ok { metrics := none, perCheckpoint := none
          warnings := ["No behavioral/keystroke data available for forensic analysis"] }
  else if allZero ∧ samples = [] then
    .ok { metrics := none, perCheckpoint := none
          warnings := ["All events have timestamp_ns=0 (synthetic); skipping forensic analysis"] }
  else do
    let metrics ← analyzeForensicsExt S events samples p.context
    let flags := perCheckpoint S events p.checkpoints
    .ok { metrics := some metrics, perCheckpoint := flags.1
          warnings := (if allZero then
            ["Forensic analysis used jitter samples only; edit topology timestamps were all zero."]
            else []) ++ flags.2 }

end Defs

/-! ## Times that fit -/

def windowCentre (len i : Nat) : Nat :=
  (i * windowStep len + min (i * windowStep len + windowSize) len) / 2

def LayeredPacket.times (p : LayeredPacket) : List Int :=
  if p.typingSamples = [] then p.sampleTimes.map sampleNanos
  else p.typingSamples.map SimpleJitterSample.timestampNs

/-- Each time less the one before it is an `i64`. -/
def StepsFit (times : List Int) : Prop := times.IsChain fun a b => FitsI64 (b - a)

/-- The times of corrections, where there are enough of them to be subtracted. -/
def CorrectionsFit (samples : List SimpleJitterSample) : Prop :=
  20 ≤ samples.length → 5 ≤ (correctionTimes samples).length → StepsFit (correctionTimes samples)

/-- The time in the middle of each window less the first one is an `i64`. -/
def WindowsFit (times : List Int) : Prop :=
  ∀ i, i * windowStep times.length + minSamples ≤ times.length →
    FitsI64 (times.getD (windowCentre times.length i) 0 - times.headD 0)

/-- The times of `keystroke` that are subtracted from each other. -/
structure TimesFit (p : LayeredPacket) : Prop where
  /-- a keystroke's from the next one's, where no typing samples were recorded -/
  steps : p.typingSamples = [] → StepsFit (p.sampleTimes.map sampleNanos)
  corrections : CorrectionsFit p.typingSamples
  windows : WindowsFit p.times

variable {times : List Int} {samples : List SimpleJitterSample} {p : LayeredPacket}

theorem exists_computeErrorHurst :
    (∃ intervals, computeErrorHurst times = .ok intervals) ↔
      (5 ≤ times.length → StepsFit times) := by
  unfold computeErrorHurst StepsFit
  split
  next h => simp [show ¬ 5 ≤ times.length by omega]
  next h =>
    rw [exists_bind_pure, exists_differences, forall_prop_of_true (by omega)]

theorem exists_analyzeErrorTopology :
    (∃ intervals, analyzeErrorTopology samples = .ok intervals) ↔ CorrectionsFit samples := by
  unfold analyzeErrorTopology CorrectionsFit
  split
  next h =>
    simp only [Except.ok.injEq, exists_eq', true_iff]
    intro hsamples hcorrections
    omega
  next h =>
    rw [exists_computeErrorHurst, forall_prop_of_true (show 20 ≤ samples.length by omega)]

/-! ### Windows -/

variable {len start : Nat} {w : Nat × Nat} {prev : Option Int}

theorem windowStep_pos (h : minSamples ≤ len) : 0 < windowStep len := by
  unfold windowStep minSamples at *
  split <;> omega

theorem window_iff :
    start < len ∧ minSamples ≤ min (start + windowSize) len - start ↔ start + minSamples ≤ len := by
  unfold minSamples windowSize
  omega

theorem mem_windowsFrom {rounds : Nat} :
    w ∈ windowsFrom len rounds start ↔ ∃ i < rounds,
      start + i * windowStep len + minSamples ≤ len
        ∧ w = (start + i * windowStep len, min (start + i * windowStep len + windowSize) len) := by
  induction rounds generalizing start with
  | zero => simp [windowsFrom]
  | succ rounds ih =>
    -- a round later every window has one number less
    have hnext : ∀ i, start + windowStep len + i * windowStep len
        = start + (i + 1) * windowStep len := by
      intro i
      rw [Nat.succ_mul]
      omega
    simp only [windowsFrom, window_iff]
    split
    next h =>
      rw [List.mem_cons, ih]
      simp only [hnext]
      constructor
      · rintro (rfl | ⟨i, hi, hfit, rfl⟩)
        · exact ⟨0, Nat.succ_pos rounds, by simpa using h, by simp⟩
        · exact ⟨i + 1, Nat.succ_lt_succ hi, hfit, rfl⟩
      · rintro ⟨i, hi, hfit, rfl⟩
        cases i with
        | zero => exact .inl (by simp)
        | succ i => exact .inr ⟨i, Nat.lt_of_succ_lt_succ hi, hfit, rfl⟩
    next h =>
      constructor
      · intro hmem
        cases hmem
      · rintro ⟨i, -, hfit, -⟩
        omega

/-- There is a window at every step that leaves it long enough. -/
theorem mem_windows :
    w ∈ windows len ↔ ∃ i, i * windowStep len + minSamples ≤ len
      ∧ w = (i * windowStep len, min (i * windowStep len + windowSize) len) := by
  unfold windows
  split
  next h =>
    constructor
    · intro hmem
      cases hmem
    · rintro ⟨i, hfit, -⟩
      omega
  next h =>
    rw [mem_windowsFrom]
    simp only [Nat.zero_add]
    constructor
    · rintro ⟨i, -, hw⟩
      exact ⟨i, hw⟩
    · rintro ⟨i, hfit, hw⟩
      -- the loop has not run out of rounds by then
      have hi : i ≤ i * windowStep len := Nat.le_mul_of_pos_right i (windowStep_pos (by omega))
      unfold minSamples at hfit
      exact ⟨i, by omega, hfit, hw⟩

theorem windowCentre_lt {i : Nat} (h : i * windowStep len + minSamples ≤ len) :
    windowCentre len i < len := by
  unfold windowCentre minSamples at *
  omega

theorem exists_windowTimeline :
    (∃ timeline, windowTimeline times = .ok timeline) ↔ WindowsFit times := by
  have hat : ∀ i, i * windowStep times.length + minSamples ≤ times.length →
      ∀ d, times[windowCentre times.length i]?.getD d
        = times.getD (windowCentre times.length i) 0 := by
    intro i hi d
    have hlt := windowCentre_lt hi
    rw [List.getD_eq_getElem?_getD, List.getElem?_eq_getElem hlt]
    rfl
  unfold windowTimeline WindowsFit
  dsimp only
  rw [exists_mapM_eq_ok]
  simp only [exists_subI64, mem_windows, List.headD_eq_head?_getD]
  constructor
  · intro h i hi
    have hfit := h _ ⟨i, hi, rfl⟩
    rwa [← windowCentre, hat i hi] at hfit
  · rintro h _ ⟨i, hi, rfl⟩
    rw [← windowCentre, hat i hi]
    exact h i hi

/-! ### The phase -/

variable {Metrics : Type} {S : Statistics Metrics}

theorem exists_analyzeForensicsExt {events : List EventData} {context : AnalysisContext} :
    (∃ metrics, analyzeForensicsExt S events samples context = .ok metrics) ↔
      CorrectionsFit samples ∧ WindowsFit (samples.map SimpleJitterSample.timestampNs) := by
  unfold analyzeForensicsExt
  rw [exists_bind_eq_ok, ← exists_analyzeErrorTopology, ← exists_windowTimeline]
  simp only [exists_bind_pure]
  constructor
  · rintro ⟨intervals, hintervals, htimeline⟩
    exact ⟨⟨intervals, hintervals⟩, htimeline⟩
  · rintro ⟨⟨intervals, hintervals⟩, htimeline⟩
    exact ⟨intervals, hintervals, htimeline⟩

/-- A keystroke's duration is the time since the one before. -/
theorem exists_simpleSamples {times : List DateTime} :
    (∃ samples, simpleSamples prev times = .ok samples) ↔
      StepsFit (prev.toList ++ times.map sampleNanos) := by
  induction times generalizing prev with
  | nil =>
    cases prev with
    | none => simp [simpleSamples, StepsFit]
    | some prevNs => simp [simpleSamples, StepsFit]
  | cons s rest ih =>
    have hrest := @ih (some (sampleNanos s))
    cases prev with
    | none =>
      rw [simpleSamples, sinceLast, res_ok_bind, exists_bind_pure, hrest]
      rfl
    | some prevNs =>
      rw [simpleSamples, sinceLast, exists_bind_eq_ok]
      simp only [exists_bind_pure]
      rw [hrest]
      simp only [Option.toList_some, List.singleton_append, List.map_cons, StepsFit,
        List.isChain_cons_cons]
      rw [← exists_subI64 (ε := Empty)]
      constructor
      · rintro ⟨d, hd, hfit⟩
        exact ⟨⟨d, hd⟩, hfit⟩
      · rintro ⟨⟨d, hd⟩, hfit⟩
        exact ⟨d, hd, hfit⟩

theorem times_simpleSamples {times : List DateTime} (h : simpleSamples prev times = .ok samples) :
    samples.map SimpleJitterSample.timestampNs = times.map sampleNanos
      ∧ correctionTimes samples = [] := by
  induction times generalizing prev samples with
  | nil =>
    obtain rfl := Except.ok.inj h
    exact ⟨rfl, rfl⟩
  | cons s rest ih =>
    unfold simpleSamples at h
    obtain ⟨duration, -, h⟩ := res_bind_eq_ok.mp h
    obtain ⟨samples', hsamples', h⟩ := res_bind_eq_ok.mp h
    obtain rfl := Except.ok.inj h
    obtain ⟨htimes, hcorrections⟩ := ih hsamples'
    refine ⟨?_, ?_⟩
    · rw [List.map_cons, htimes, List.map_cons]
    · -- zone 0 is none of corrections
      rw [← hcorrections]
      rfl

theorem correctionsFit_of_nil (h : correctionTimes samples = []) :
    CorrectionsFit samples := by
  intro _ hfive
  rw [h] at hfive
  cases hfive

theorem exists_jitterSamples :
    (∃ samples, p.jitterSamples = .ok samples) ↔
      (p.keystroke.isSome → p.typingSamples = [] → StepsFit (p.sampleTimes.map sampleNanos)) := by
  unfold LayeredPacket.jitterSamples
  cases p.keystroke with
  | none => simp
  | some ks =>
    by_cases htyping : p.typingSamples = []
    · simp only [htyping, if_true, exists_simpleSamples, Option.toList_none, List.nil_append,
        Option.isSome_some, forall_const]
    · simp only [htyping, if_false, Option.isSome_some, false_implies, implies_true]
      exact iff_of_true ⟨_, rfl⟩ trivial

/-- What the engine looks at in the samples is what it would in the packet. -/
theorem jitterSamples_spec (h : p.jitterSamples = .ok samples) (hkeystroke : p.keystroke.isSome) :
    samples.map SimpleJitterSample.timestampNs = p.times
      ∧ (CorrectionsFit samples ↔ CorrectionsFit p.typingSamples) := by
  obtain ⟨ks, hks⟩ := Option.isSome_iff_exists.mp hkeystroke
  unfold LayeredPacket.jitterSamples at h
  rw [hks] at h
  dsimp only at h
  unfold LayeredPacket.times
  split at h
  next htyping =>
    obtain ⟨htimes, hcorrections⟩ := times_simpleSamples h
    rw [if_pos htyping, htyping]
    exact ⟨htimes, iff_of_true (correctionsFit_of_nil hcorrections) (correctionsFit_of_nil rfl)⟩
  next htyping =>
    obtain rfl := Except.ok.inj h
    rw [if_neg htyping]
    exact ⟨rfl, Iff.rfl⟩

theorem windowsFit_nil : WindowsFit [] := by
  intro i hi
  unfold minSamples at hi
  cases hi

/-- The phase returns for samples whose analysis does, as it does without any. -/
theorem exists_runForensics_of_samples (h : p.jitterSamples = .ok samples) :
    (∃ phase, runForensics S p = .ok phase) ↔
      CorrectionsFit samples ∧ WindowsFit (samples.map SimpleJitterSample.timestampNs) := by
  unfold runForensics
  rw [h]
  dsimp only [res_ok_bind]
  have hnone : samples = [] → CorrectionsFit samples
      ∧ WindowsFit (samples.map SimpleJitterSample.timestampNs) := by
    rintro rfl
    exact ⟨correctionsFit_of_nil rfl, windowsFit_nil⟩
  split
  next hempty => exact iff_of_true ⟨_, rfl⟩ (hnone hempty.1)
  next =>
    split
    next hempty => exact iff_of_true ⟨_, rfl⟩ (hnone hempty.2)
    next => rw [exists_bind_pure, exists_analyzeForensicsExt]

/-- The forensic phase returns unless times of the keystrokes do not fit. -/
theorem exists_runForensics :
    (∃ phase, runForensics S p = .ok phase) ↔ (p.keystroke.isSome → TimesFit p) := by
  constructor
  · rintro ⟨phase, hphase⟩ hkeystroke
    have hbind := hphase
    unfold runForensics at hbind
    obtain ⟨samples, hsamples, -⟩ := res_bind_eq_ok.mp hbind
    obtain ⟨htimes, hcorrections⟩ := jitterSamples_spec hsamples hkeystroke
    have hfit := (exists_runForensics_of_samples hsamples).mp ⟨phase, hphase⟩
    rw [htimes, hcorrections] at hfit
    exact ⟨exists_jitterSamples.mp ⟨samples, hsamples⟩ hkeystroke, hfit.1, hfit.2⟩
  · intro hfit
    obtain ⟨samples, hsamples⟩ := exists_jitterSamples.mpr fun hkeystroke =>
      (hfit hkeystroke).steps
    apply (exists_runForensics_of_samples hsamples).mpr
    cases hks : p.keystroke with
    | none =>
      unfold LayeredPacket.jitterSamples at hsamples
      rw [hks] at hsamples
      obtain rfl := Except.ok.inj hsamples
      exact ⟨correctionsFit_of_nil rfl, windowsFit_nil⟩
    | some ks =>
      have hkeystroke : p.keystroke.isSome := by rw [hks]; rfl
      obtain ⟨htimes, hcorrections⟩ := jitterSamples_spec hsamples hkeystroke
      rw [htimes, hcorrections]
      exact ⟨(hfit hkeystroke).corrections, (hfit hkeystroke).windows⟩

end WritersProof.Evidence
