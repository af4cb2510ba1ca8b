/-
  WritersProof.Jitter.Recorded

  What a recording session leaves: samples that are linked and seeded, whatever the
  clock shows, and that are in order as long as the clock and the count go up from one
  sample to the next (crates/cpoe/src/jitter/session.rs).
-/
import WritersProof.Jitter.Session
import WritersProof.Lib.Codec

namespace WritersProof.Jitter

open Rust

/-! ## What the loops check -/

def hashBefore (prev : Option Sample) : Hash32 := (prev.map (·.hash)).getD zeroHash

def LinkedAfter (C : Crates) (prev : Option Sample) (sample : Sample) : Prop :=
  sample.computeHash C = sample.hash ∧ sample.previousHash = hashBefore prev

def LaterThan (prev : Option Sample) (sample : Sample) : Prop :=
  ∀ p ∈ prev, p.timestamp < sample.timestamp ∧ p.keystrokeCount < sample.keystrokeCount

def SeededAfter (C : Crates) (seed : Bytes) (params : Parameters) (prev : Option Sample)
    (sample : Sample) : Prop :=
  computeJitterValue C seed sample.documentHash sample.keystrokeCount sample.timestamp
    (hashBefore prev) params = sample.jitterMicros

section Checks

variable {C : Crates}

variable {prev : Option Sample} {i : Nat} {sample : Sample} {s : Session} {seed : Bytes}
  {params : Parameters}

theorem checkLink_eq_ok :
    Session.checkLink C i prev sample = .ok () ↔ LinkedAfter C prev sample := by
  unfold Session.checkLink
  rw [reject_bind_eq_ok, not_not]
  cases prev with
  | none => exact and_congr_right fun _ => reject_eq_ok.trans not_not
  | some prev => exact and_congr_right fun _ => reject_eq_ok.trans not_not

theorem checkOrder_eq_ok : Session.checkOrder i prev sample = .ok () ↔ LaterThan prev sample := by
  cases prev with
  | none => exact iff_of_true rfl fun _ h => nomatch h
  | some prev =>
    rw [Session.checkOrder, reject_bind_eq_ok, reject_eq_ok, not_le, not_le]
    exact ⟨fun h p hp => by cases hp; exact h, fun h => h prev rfl⟩

theorem Session.verifyChain_eq_ok :
    s.verifyChain C = .ok () ↔ EachAfter (LinkedAfter C) none s.samples := by
  unfold verifyChain
  apply forEachAfter_eq_ok
  intro i prev sample
  exact checkLink_eq_ok

theorem Evidence.verify_eq_ok {e : Evidence} :
    e.verify C = .ok () ↔
      EachAfter (LinkedAfter C) none e.samples ∧ EachAfter LaterThan none e.samples := by
  rw [← eachAfter_and]
  apply forEachAfter_eq_ok
  intro i prev sample
  rw [unit_bind_eq_ok, checkLink_eq_ok, checkOrder_eq_ok]

theorem verifySample_eq_ok (hseed : seed ≠ []) :
    verifySample C sample prev seed params = .ok () ↔
      (LinkedAfter C prev sample ∧ LaterThan prev sample)
        ∧ SeededAfter C seed params prev sample := by
  unfold verifySample
  rw [reject_bind_eq_ok, and_iff_right hseed, reject_bind_eq_ok, not_not, LinkedAfter, and_assoc,
    and_assoc]
  apply and_congr_right
  intro _
  cases prev with
  | none =>
    have horder : LaterThan none sample := fun _ h => nomatch h
    rw [unit_bind_eq_ok, reject_eq_ok, reject_eq_ok, not_not, not_not, and_iff_right horder]
    rfl
  | some prev =>
    have horder : LaterThan (some prev) sample ↔ prev.timestamp < sample.timestamp
        ∧ prev.keystrokeCount < sample.keystrokeCount :=
      ⟨fun h => h prev rfl, fun h p hp => by cases hp; exact h⟩
    rw [unit_bind_eq_ok, reject_bind_eq_ok, reject_bind_eq_ok, reject_eq_ok, reject_eq_ok, not_not,
      not_not, horder, not_le, not_le, and_assoc]
    rfl

theorem verifyChain_eq_ok {samples : List Sample} (hsamples : samples ≠ []) (hseed : seed ≠ []) :
    verifyChain C samples seed params = .ok () ↔
      (EachAfter (LinkedAfter C) none samples ∧ EachAfter LaterThan none samples)
        ∧ EachAfter (SeededAfter C seed params) none samples := by
  unfold verifyChain
  rw [reject_bind_eq_ok, and_iff_right hsamples, reject_bind_eq_ok, and_iff_right hseed,
    ← eachAfter_and, ← eachAfter_and]
  apply forEachAfter_eq_ok
  intro i prev sample
  rw [mapFault_eq_ok, verifySample_eq_ok hseed]

theorem Session.verifyLoadedIntegrity_eq_ok {now : Int} (hended : s.endedAt = none) :
    s.verifyLoadedIntegrity C now = .ok () ↔
      s.params.sampleInterval ≠ 0 ∧ EachAfter (LinkedAfter C) none s.samples
        ∧ s.startedAt ≤ skewCeiling now ∧ (EachAfter LaterThan none s.samples
          ∧ EachAfter (fun _ sample => sample.timestamp ≤ skewCeiling now) none s.samples)
        ∧ ∀ last ∈ s.samples.getLast?, last.keystrokeCount ≤ s.keystrokeCount := by
  have hnone : ∀ p : DateTime → Prop, ¬ ∃ ended ∈ s.endedAt, p ended := by
    rintro p ⟨ended, hmem, -⟩
    rw [hended] at hmem
    cases hmem
  unfold verifyLoadedIntegrity
  refine reject_bind_eq_ok.trans (and_congr_right fun _ => ?_)
  refine unit_bind_eq_ok.trans (and_congr Session.verifyChain_eq_ok ?_)
  refine reject_bind_eq_ok.trans ((and_iff_right (hnone _)).trans ?_)
  refine reject_bind_eq_ok.trans (and_congr not_lt ?_)
  refine reject_bind_eq_ok.trans ((and_iff_right (hnone _)).trans ?_)
  refine unit_bind_eq_ok.trans (and_congr ?_ ?_)
  · rw [← eachAfter_and]
    apply forEachAfter_eq_ok
    intro i prev sample
    rw [unit_bind_eq_ok, checkOrder_eq_ok, reject_eq_ok, not_lt]
  · refine reject_eq_ok.trans ?_
    exact ⟨fun h last hlast => Nat.not_lt.mp fun hlt => h ⟨last, hlast, hlt⟩,
      fun h ⟨last, hlast, hlt⟩ => Nat.not_lt.mpr (h last hlast) hlt⟩

end Checks

/-! ## One call -/

namespace Session

variable {C : Crates}

/-- The call takes a sample: one is due, and the document can be hashed. -/
def Takes (k : Keystroke) (s : Session) : Prop :=
  s.bumpCount.Due ∧ ∃ docHash, (hashDocument k s.bumpCount).1 = .ok docHash

/-- A sample that is taken is later than the one before. -/
def Advances (k : Keystroke) (s : Session) : Prop :=
  Takes k s → ∀ last ∈ s.samples.getLast?,
    last.timestamp < .ofNanos k.now ∧ last.keystrokeCount < s.bumpCount.keystrokeCount

theorem hashDocument_snd (k : Keystroke) (s : Session) :
    ∃ mtime size docHash, (hashDocument k s).2
      = { s with lastMtime := mtime, lastSize := size, lastDocHash := docHash } := by
  unfold hashDocument
  split
  · exact ⟨_, _, _, rfl⟩
  · dsimp only
    split
    · exact ⟨_, _, _, rfl⟩
    · exact ⟨_, _, _, rfl⟩
    · exact ⟨_, _, _, rfl⟩

variable {s : Session}

theorem recordKeystroke_of_not_due (k : Keystroke) (h : ¬ s.bumpCount.Due) :
    recordKeystroke C k s = (.ok (0, false), s.bumpCount) := by
  unfold recordKeystroke
  rw [Call.bind_apply, Call.modify_apply]
  dsimp only
  rw [Call.asks_bind, decide_eq_false h]
  rfl

/-- A call with a sample due takes it if the document can be hashed. -/
theorem recordKeystroke_of_due (k : Keystroke) (h : s.bumpCount.Due) :
    recordKeystroke C k s
      = match hashDocument k s.bumpCount with
        | (.error e, s') => (.error e, s')
        | (.ok docHash, s') =>
          (.ok ((s'.nextSample C docHash k.now).jitterMicros, true),
            { s' with
              samples := s'.samples ++ [s'.nextSample C docHash k.now]
              lastJitter := (s'.nextSample C docHash k.now).jitterMicros }) := by
  unfold recordKeystroke
  rw [Call.bind_apply, Call.modify_apply]
  dsimp only
  rw [Call.asks_bind, decide_eq_true h]
  show (hashDocument k >>= _) s.bumpCount = _
  rw [Call.bind_apply]
  rcases hashDocument k s.bumpCount with ⟨_ | docHash, s'⟩
  · rfl
  · rfl

/-- The next session: without a sample, or with one more. -/
theorem recordKeystroke_cases (k : Keystroke) (s : Session) :
    ∃ mtime size hash,
      (¬ Takes k s ∧ (recordKeystroke C k s).2
          = { s.bumpCount with lastMtime := mtime, lastSize := size, lastDocHash := hash })
        ∨ (Takes k s ∧ ∃ docHash, (recordKeystroke C k s).2
          = { s.bumpCount with
              lastMtime := mtime, lastSize := size, lastDocHash := hash
              samples := s.samples ++ [s.bumpCount.nextSample C docHash k.now]
              lastJitter := (s.bumpCount.nextSample C docHash k.now).jitterMicros }) := by
  by_cases hdue : s.bumpCount.Due
  · obtain ⟨mtime, size, hash, hsnd⟩ := hashDocument_snd k s.bumpCount
    refine ⟨mtime, size, hash, ?_⟩
    rw [recordKeystroke_of_due k hdue]
    rcases hdoc : hashDocument k s.bumpCount with ⟨_ | docHash, s'⟩
    · left
      rw [hdoc] at hsnd
      refine ⟨?_, hsnd⟩
      rintro ⟨-, docHash, hok⟩
      rw [hdoc] at hok
      cases hok
    · right
      rw [hdoc] at hsnd
      dsimp only at hsnd
      subst hsnd
      refine ⟨⟨hdue, docHash, ?_⟩, docHash, rfl⟩
      rw [hdoc]
  · refine ⟨s.lastMtime, s.lastSize, s.lastDocHash, .inl ⟨fun h => hdue h.1, ?_⟩⟩
    rw [recordKeystroke_of_not_due k hdue]
    rfl

/-! ## Sessions -/

/-- What a session keeps while it records, up to a time that its clock does not pass -/
structure Recorded (C : Crates) (limit : Int) (s : Session) : Prop where
  interval : s.params.sampleInterval ≠ 0
  endedAt : s.endedAt = none
  startedAt : s.startedAt ≤ .ofNanos limit
  linked : EachAfter (LinkedAfter C) none s.samples
  seeded : EachAfter (SeededAfter C s.seed.val s.params) none s.samples
  timed : EachAfter (fun _ sample => sample.timestamp ≤ .ofNanos limit) none s.samples
  counted : ∀ last ∈ s.samples.getLast?, last.keystrokeCount ≤ s.keystrokeCount
  range : s.keystrokeCount ≤ 2 ^ 64 - 1

theorem Recorded.fresh {documentPath : Except String String} {params : Parameters} {id : String}
    {seed : Hash32} {now limit : Int} (hnow : now ≤ limit)
    (h : newWithId documentPath params id seed now = .ok s) : Recorded C limit s := by
  obtain ⟨hinterval, h⟩ := reject_bind_eq_ok.mp h
  obtain ⟨path, -, h⟩ := mapErr_bind_eq_ok.mp h
  cases h
  exact ⟨hinterval, rfl, DateTime.ofNanos_le_ofNanos.mpr hnow, trivial, trivial, trivial,
    (fun _ h => nomatch h), Nat.zero_le _⟩

/-- A keystroke up to the limit is recorded, -/
theorem Recorded.step {limit : Int} {s : Session} {k : Keystroke} (h : Recorded C limit s)
    (hnow : k.now ≤ limit) : Recorded C limit (recordKeystroke C k s).2 := by
  have hcount : s.keystrokeCount ≤ s.bumpCount.keystrokeCount := by
    have hrange := h.range
    show _ ≤ min (s.keystrokeCount + 1) (2 ^ 64 - 1)
    omega
  have hrange : s.bumpCount.keystrokeCount ≤ 2 ^ 64 - 1 := Nat.min_le_right _ _
  obtain ⟨mtime, size, hash, ⟨-, hs⟩ | ⟨-, docHash, hs⟩⟩ := recordKeystroke_cases (C := C) k s
  · rw [hs]
    exact ⟨h.interval, h.endedAt, h.startedAt, h.linked, h.seeded, h.timed,
      fun last hlast => (h.counted last hlast).trans hcount, hrange⟩
  · rw [hs]
    refine ⟨h.interval, h.endedAt, h.startedAt, ?_, ?_, ?_, ?_, hrange⟩
    · refine eachAfter_concat.mpr ⟨h.linked, rfl, ?_⟩
      rw [Option.or_none]
      rfl
    · refine eachAfter_concat.mpr ⟨h.seeded, ?_⟩
      rw [Option.or_none]
      rfl
    · exact eachAfter_concat.mpr ⟨h.timed, DateTime.ofNanos_le_ofNanos.mpr hnow⟩
    · intro last hlast
      rw [List.getLast?_concat] at hlast
      cases hlast
      exact Nat.le_refl _

/-- The samples stay in order exactly if the next one is later than the last. -/
theorem ordered_step (k : Keystroke) (s : Session) :
    EachAfter LaterThan none (recordKeystroke C k s).2.samples ↔
      EachAfter LaterThan none s.samples ∧ Advances k s := by
  obtain ⟨mtime, size, hash, ⟨htakes, hs⟩ | ⟨htakes, docHash, hs⟩⟩ :=
    recordKeystroke_cases (C := C) k s
  · rw [hs]
    exact (and_iff_left fun h => absurd h htakes).symm
  · rw [hs]
    refine eachAfter_concat.trans (and_congr_right fun _ => ?_)
    rw [Option.or_none]
    exact ⟨fun h _ => h, fun h => h htakes⟩

def recordStep (C : Crates) (k : Keystroke) (s : Session) : Res String (Nat × Bool) × Session :=
  recordKeystroke C k s

theorem ordered_run (calls : List Keystroke) (s : Session) :
    EachAfter LaterThan none (Machine.run (recordStep C) calls s).2.samples ↔
      EachAfter LaterThan none s.samples ∧ Machine.Along (recordStep C) Advances calls s := by
  induction calls generalizing s with
  | nil => exact (and_iff_left trivial).symm
  | cons k calls ih =>
    rw [Machine.run_cons, ih, recordStep, ordered_step, and_assoc]
    rfl

/-- and so is a run of them. -/
theorem Recorded.run {limit : Int} {calls : List Keystroke} (h : Recorded C limit s)
    (hcalls : ∀ k ∈ calls, k.now ≤ limit) :
    Recorded C limit (Machine.run (recordStep C) calls s).2 := by
  induction calls generalizing s with
  | nil => exact h
  | cons k calls ih =>
    rw [List.forall_mem_cons] at hcalls
    exact ih (h.step hcalls.1) hcalls.2

/-! ## Verification -/

/-- The session as it is loaded: nothing is remembered of the document. -/
def forgetDocument (s : Session) : Session :=
  { s with lastMtime := none, lastSize := none, lastDocHash := none }

structure Verifiable (C : Crates) (now loadTime : Int) (s : Session) : Prop where
  evidence : (s.export C now).verify C = .ok ()
  seeded : s.samples ≠ [] → Jitter.verifyChain C s.samples s.seed.val s.params = .ok ()
  chainValid : (s.export C now).statistics.chainValid = true ↔ (s.export C now).verify C = .ok ()
  loaded : ∃ bytes, s.save C = .ok bytes ∧ load C loadTime bytes = .ok s.forgetDocument

theorem load_save (hC : C.Faithful) (loadTime : Int) (s : Session) :
    ∃ bytes, s.save C = .ok bytes
      ∧ (load C loadTime bytes = .ok s.forgetDocument
        ↔ s.forgetDocument.verifyLoadedIntegrity C loadTime = .ok ()) := by
  obtain ⟨bytes, hto, hfrom⟩ := hC {
    id := s.id, startedAt := s.startedAt, endedAt := s.endedAt, documentPath := s.documentPath
    seed := Hex.encode s.seed.val, params := s.params, samples := s.samples
    keystrokeCount := s.keystrokeCount, lastJitter := s.lastJitter }
  refine ⟨bytes, mapErr_eq_ok.mpr hto, ?_⟩
  unfold load
  rw [hfrom]
  show (okOr (Hex.decode (Hex.encode s.seed.val)) _ >>= _) = _ ↔ _
  rw [Hex.decode_encode, okOr_some, res_ok_bind, FixedBytes.tryFrom_val, okOr_some, res_ok_bind]
  refine unit_bind_eq_ok.trans (and_iff_left rfl)

/-- A recorded session is verifiable exactly if its samples are in order. -/
theorem Recorded.ordered_iff (hC : C.Faithful) {loadTime : Int} (h : Recorded C loadTime s)
    (now : Int) :
    Verifiable C now loadTime s ↔ EachAfter LaterThan none s.samples := by
  have hverify : (s.export C now).verify C = .ok () ↔ EachAfter LaterThan none s.samples :=
    Evidence.verify_eq_ok.trans (and_iff_right h.linked)
  have hskew : .ofNanos loadTime ≤ skewCeiling loadTime :=
    DateTime.ofNanos_le_ofNanos.mpr (by omega)
  constructor
  · exact fun hv => hverify.mp hv.evidence
  · intro hordered
    have hok := hverify.mpr hordered
    have hchain : (s.export C now).statistics.chainValid = true := by
      simp only [Session.export, Session.computeStats, Session.verifyChain_eq_ok.mpr h.linked]
    have hne : s.seed.val ≠ [] := by
      intro hnil
      have hlen := s.seed.size_eq
      rw [hnil] at hlen
      cases hlen
    refine ⟨hok, fun hsamples => ?_, iff_of_true hchain hok, ?_⟩
    · exact (Jitter.verifyChain_eq_ok hsamples hne).mpr ⟨⟨h.linked, hordered⟩, h.seeded⟩
    · obtain ⟨bytes, hsave, hload⟩ := load_save hC loadTime s
      refine ⟨bytes, hsave, hload.mpr ?_⟩
      apply (verifyLoadedIntegrity_eq_ok h.endedAt).mpr
      exact ⟨h.interval, h.linked, h.startedAt.trans hskew,
        ⟨hordered, h.timed.mono fun _ _ ht => ht.trans hskew⟩, h.counted⟩

/-- A session is verifiable exactly if each sample was taken later, by the clock and by the count,
than the one before. -/
theorem verifiable_iff (hC : C.Faithful) {documentPath : Except String String} {params : Parameters}
    {id : String} {seed : Hash32} {start now loadTime : Int} {s : Session} {calls : List Keystroke}
    (hnew : newWithId documentPath params id seed start = .ok s)
    (hclock : (start :: (calls.map (·.now) ++ [loadTime])).Pairwise (· ≤ ·)) :
    Verifiable C now loadTime (Machine.run (recordStep C) calls s).2 ↔
      Machine.Along (recordStep C) Advances calls s := by
  rw [List.pairwise_cons, List.pairwise_append] at hclock
  obtain ⟨hstart, -, -, hlast⟩ := hclock
  have hlimit : ∀ k ∈ calls, k.now ≤ loadTime := fun k hk =>
    hlast _ (List.mem_map_of_mem hk) _ (List.mem_singleton_self _)
  have hfresh : Recorded C loadTime s :=
    .fresh (hstart _ (List.mem_append_right _ (List.mem_singleton_self _))) hnew
  have hempty : EachAfter LaterThan none s.samples := by
    obtain ⟨-, h⟩ := reject_bind_eq_ok.mp hnew
    obtain ⟨path, -, h⟩ := mapErr_bind_eq_ok.mp h
    cases h
    trivial
  rw [(hfresh.run hlimit).ordered_iff hC now, ordered_run, and_iff_right hempty]

end Session

/-! ## Two samples -/

instance : Countable Parameters :=
  Function.Injective.countable (f := fun p : Parameters =>
    (p.minJitterMicros, p.maxJitterMicros, p.sampleInterval, p.injectEnabled)) fun p q h => by
      cases p
      cases q
      simpa using h

instance : Countable DateTime := Function.Injective.countable fun _ _ => DateTime.ext_key

instance : Countable Sample :=
  Function.Injective.countable (f := fun s : Sample =>
    (s.timestamp, s.keystrokeCount, s.documentHash, s.jitterMicros, s.hash, s.previousHash))
    fun s t h => by
      cases s
      cases t
      simpa using h

instance : Countable SessionData :=
  Function.Injective.countable (f := fun d : SessionData =>
    (d.id, d.startedAt, d.endedAt, d.documentPath, d.seed, d.params, d.samples, d.keystrokeCount,
      d.lastJitter)) fun d e h => by
      cases d
      cases e
      simpa using h

/-- Hashes that add up bytes, and an encoding that reads back -/
noncomputable def plainCrates : Crates where
  sha256 bytes := FixedBytes.filled 32 bytes.sum
  hmac key bytes := FixedBytes.filled 32 (key.sum + bytes.sum)
  toJson data := .ok (Codec.write data)
  fromJson bytes := Codec.read bytes
  hexError _ := "Odd number of digits"

theorem plainCrates_faithful : plainCrates.Faithful := fun data =>
  ⟨Codec.write data, rfl, Codec.read_write data⟩

/-- A sample at every keystroke -/
def plainParameters : Parameters where
  minJitterMicros := 500
  maxJitterMicros := 3000
  sampleInterval := 1
  injectEnabled := true

def plainSession : Session where
  id := "session"
  startedAt := .ofNanos 1000
  endedAt := none
  documentPath := "/document"
  seed := FixedBytes.filled 32 7
  params := plainParameters
  samples := []
  keystrokeCount := 0
  lastJitter := 0
  lastMtime := none
  lastSize := none
  lastDocHash := none

def plainKeystroke (now : Int) : Keystroke where
  now := now
  metadata := .ok (some 900, 5)
  content := .ok (FixedBytes.filled 32 3, 5)

namespace Session

theorem new_plainSession : newWithId (.ok "/document") plainParameters "session"
    (FixedBytes.filled 32 7) 1000 = .ok plainSession := rfl

/-- Two keystrokes at different times -/
theorem verifiable_plainSession : Verifiable plainCrates 1003 1004
    (Machine.run (recordStep plainCrates) [plainKeystroke 1001, plainKeystroke 1002]
      plainSession).2 := by
  apply (verifiable_iff plainCrates_faithful new_plainSession (by decide)).mpr
  refine ⟨(fun _ last h => nomatch h), fun _ last h => ?_, trivial⟩
  cases h
  decide

/-- Two keystrokes at one reading of the clock -/
theorem not_verifiable_same_time : ¬ Verifiable plainCrates 1003 1004
    (Machine.run (recordStep plainCrates) [plainKeystroke 1001, plainKeystroke 1001]
      plainSession).2 := by
  intro h
  have hverify := h.evidence
  revert hverify
  decide +kernel

end Session

end WritersProof.Jitter
