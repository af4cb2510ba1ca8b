/-
  WritersProof.CpoeJitter.Session

  Sessions that take their jitter from the hardware when it can be trusted and
  compute it otherwise (crates/cpoe-jitter/src/lib.rs, traits.rs, phys.rs, pure.rs),
  and the check of a session's records against one engine
  (crates/cpoe-jitter/src/evidence.rs).
-/
import WritersProof.CpoeJitter.EvidenceChain
import WritersProof.Lib.Machine
import Mathlib.Data.List.Forall2

namespace WritersProof.CpoeJitter

open Rust Bytes

/-- `From<[u8; 32]>` -/
def PhysHash.ofHash (hash : FixedBytes 32) : PhysHash := ⟨hash, 0⟩

/-- `JitterEngine`, by its one method `compute_jitter` -/
abbrev JitterEngine := FixedBytes 32 → Bytes → PhysHash → UInt32

def scale (jmin range : UInt32) (hashVal : Nat) : UInt32 :=
  let jitter := hashVal * range.toNat / 2 ^ 32
  UInt32.ofNat (min (jmin.toNat + jitter) (2 ^ 32 - 1))

/-- The bytes that go into the HMAC, each field behind its length -/
def jitterMessage (inputs extra : Bytes) : Bytes :=
  utf8 "cpoe_jitter/v1/jitter" ++ toBE 8 inputs.length ++ inputs
    ++ toBE 8 extra.length ++ extra

/-- Both engines: the hardware one feeds the hash of its measurement to the HMAC, the other one
    nothing. -/
def hmacJitter (C : Crates) (secret : FixedBytes 32) (inputs extra : Bytes) (jmin range : UInt32) :
    UInt32 :=
  scale jmin range (ofBE ((C.hmac secret (jitterMessage inputs extra)).val.take 4))

/-- Hardware-based jitter engine.  Its constructors refuse an empty range. -/
structure PhysJitter where
  minEntropyBits : UInt8
  jmin : UInt32
  range : UInt32
  range_pos : 0 < range

/-- Pure HMAC-based jitter engine.  Its constructors refuse an empty range. -/
structure PureJitter where
  jmin : UInt32
  range : UInt32
  range_pos : 0 < range

def DEFAULT_JITTER_MIN_US : UInt32 := 500

def DEFAULT_JITTER_RANGE_US : UInt32 := 3000 - DEFAULT_JITTER_MIN_US

instance : Inhabited PhysJitter where
  default := ⟨0, DEFAULT_JITTER_MIN_US, DEFAULT_JITTER_RANGE_US, by decide⟩

instance : Inhabited PureJitter where
  default := ⟨DEFAULT_JITTER_MIN_US, DEFAULT_JITTER_RANGE_US, by decide⟩

def PhysJitter.validate (self : PhysJitter) (hash : PhysHash) : Bool :=
  hash.entropyBits ≥ self.minEntropyBits

def PhysJitter.computeJitter (C : Crates) (self : PhysJitter) : JitterEngine :=
  fun secret inputs entropy =>
    hmacJitter C secret inputs entropy.hash.val self.jmin self.range

def PureJitter.computeJitter (C : Crates) (self : PureJitter) : JitterEngine :=
  fun secret inputs _ => hmacJitter C secret inputs [] self.jmin self.range

structure HybridEngine where
  phys : PhysJitter
  fallback : PureJitter
  minPhysEntropy : UInt8
  hardwareFallbackCount : UInt64

def minPhysEntropyDefault : UInt8 := 8

def HybridEngine.new (phys : PhysJitter) (fallback : PureJitter) : HybridEngine :=
  ⟨phys, fallback, minPhysEntropyDefault, 0⟩

/-- One call of `sample`: its argument, what the hardware measures during it (none where
    `PhysJitter::sample` fails), and the time. -/
structure SampleCall where
  inputs : Bytes
  measured : Option PhysHash
  timestampUs : UInt64

/-- The measurement that is used, if it is good enough -/
def HybridEngine.accepted (self : HybridEngine) (call : SampleCall) : Option PhysHash :=
  call.measured.filter fun entropy =>
    entropy.entropyBits ≥ self.minPhysEntropy && self.phys.validate entropy

def HybridEngine.sample (C : Crates) (self : HybridEngine) (secret : FixedBytes 32)
    (call : SampleCall) : (UInt32 × Evidence) × HybridEngine :=
  match self.accepted call with
  | some entropy =>
    let jitter := self.phys.computeJitter C secret call.inputs entropy
    ((jitter, .phys entropy jitter call.timestampUs 0), self)
  | none =>
    let self := { self with hardwareFallbackCount := self.hardwareFallbackCount + 1 }
    let jitter := self.fallback.computeJitter C secret call.inputs (.ofHash (.filled 32 0))
    ((jitter, .pure jitter call.timestampUs 0), self)

structure Session where
  secret : FixedBytes 32
  engine : HybridEngine
  evidence : EvidenceChain

def Session.withEngine (secret : FixedBytes 32) (engine : HybridEngine) : Session where
  evidence := .withSecret secret
  secret
  engine

def Session.sample (C : Crates) (call : SampleCall) (self : Session) :
    Res ChainError UInt32 × Session :=
  let ((jitter, evidence), engine) := self.engine.sample C self.secret call
  let self := { self with engine }
  match self.evidence.append C evidence with
  | .ok chain => (.ok jitter, { self with evidence := chain })
  | .error e => (.error e, self)

/-- A record without a hash is recomputed with thirty-two zero bytes in its place, which is not
    nothing. -/
def Evidence.verify (secret : FixedBytes 32) (inputs : Bytes) (engine : JitterEngine) :
    Evidence → Bool
  | .phys physHash jitter _ _ => engine secret inputs physHash = jitter
  | .pure jitter _ _ => engine secret inputs (.ofHash (.filled 32 0)) = jitter

def EvidenceChain.verifyChain (secret : FixedBytes 32) (inputs : List Bytes)
    (engine : JitterEngine) (self : EvidenceChain) : Bool :=
  if inputs.length ≠ self.records.length then false
  else
    (self.records.zip inputs).foldl
      (fun acc (evidence, input) => acc && evidence.verify secret input engine) true

def recorded : List SampleCall → List (Res ChainError UInt32) → List SampleCall
  | call :: calls, .ok _ :: replies => call :: recorded calls replies
  | _ :: calls, .error _ :: replies => recorded calls replies
  | _, _ => []

/-! ## What a session records -/

variable {C : Crates} {secret : FixedBytes 32} {engine : HybridEngine}

/-- The record that a call leaves, but for its time and number -/
def Produced (C : Crates) (secret : FixedBytes 32) (engine : HybridEngine) (e : Evidence)
    (call : SampleCall) : Prop :=
  ∃ timestampUs sequence,
    match engine.accepted call with
    | some entropy =>
      e = .phys entropy (engine.phys.computeJitter C secret call.inputs entropy)
        timestampUs sequence
    | none =>
      e = .pure (engine.fallback.computeJitter C secret call.inputs (.ofHash (.filled 32 0)))
        timestampUs sequence

/-- The engine counts its fallbacks; nothing else of it changes. -/
def SameEngine (a b : HybridEngine) : Prop :=
  a.phys = b.phys ∧ a.fallback = b.fallback ∧ a.minPhysEntropy = b.minPhysEntropy

structure Records (C : Crates) (secret : FixedBytes 32) (engine : HybridEngine) (s : Session)
    (calls : List SampleCall) : Prop where
  secret_eq : s.secret = secret
  engine_eq : SameEngine s.engine engine
  sound : s.evidence.Sound
  produced : List.Forall₂ (Produced C secret engine) s.evidence.records calls

theorem accepted_congr {a b : HybridEngine} (h : SameEngine a b) (call : SampleCall) :
    a.accepted call = b.accepted call := by
  rw [HybridEngine.accepted, HybridEngine.accepted, h.1, h.2.2]

theorem append_of_lt {c : EvidenceChain} (h : c.Sound)
    (hlen : c.records.length < MAX_EVIDENCE_RECORDS) (e : Evidence) :
    ∃ c', c.append C e = .ok c' ∧ c'.records = c.records ++ [e.setSequence c.nextSequence] := by
  have hnext : c.nextSequence + 1 < 2 ^ 64 := by
    have hmax : MAX_EVIDENCE_RECORDS = 100000 := rfl
    have heq := h.nextSequence
    omega
  rw [EvidenceChain.append, reject, if_neg (Nat.not_le.mpr hlen), res_ok_bind,
    checkedAdd_eq_some hnext, okOr_some, res_ok_bind]
  exact ⟨_, rfl, rfl⟩

theorem append_of_le {c : EvidenceChain} (hlen : MAX_EVIDENCE_RECORDS ≤ c.records.length)
    (e : Evidence) : ∃ fault, c.append C e = .error fault := by
  rw [EvidenceChain.append, reject, if_pos hlen, res_fail_bind]
  exact ⟨_, rfl⟩

/-- The engine's record is the one that the call is to leave, whatever number it gets. -/
theorem produced_sample {engine' : HybridEngine} (h : SameEngine engine' engine)
    (call : SampleCall) (sequence : Nat) :
    SameEngine (engine'.sample C secret call).2 engine
      ∧ Produced C secret engine ((engine'.sample C secret call).1.2.setSequence sequence)
        call := by
  rw [HybridEngine.sample, Produced, accepted_congr h]
  cases engine.accepted call with
  | some entropy =>
    refine ⟨h, call.timestampUs, sequence, ?_⟩
    rw [← h.1]
    rfl
  | none =>
    refine ⟨h, call.timestampUs, sequence, ?_⟩
    rw [← h.2.1]
    rfl

variable {s : Session} {calls : List SampleCall} {e : JitterEngine} {c : EvidenceChain}
  {jmin range : UInt32}

/-- A call adds a record, until the chain is full. -/
theorem sample_spec (h : Records C secret engine s calls) (call : SampleCall) :
    (calls.length < MAX_EVIDENCE_RECORDS ∧ ∃ jitter s', s.sample C call = (.ok jitter, s')
        ∧ Records C secret engine s' (calls ++ [call]))
      ∨ MAX_EVIDENCE_RECORDS ≤ calls.length ∧ ∃ fault s', s.sample C call = (.error fault, s')
        ∧ Records C secret engine s' calls := by
  obtain ⟨rfl, hsame, hsound, hproduced⟩ := h
  obtain ⟨hengine, hrecord⟩ :=
    @produced_sample C s.secret engine _ hsame call s.evidence.nextSequence
  have hlength : s.evidence.records.length = calls.length := hproduced.length_eq
  rw [Session.sample]
  by_cases hlen : calls.length < MAX_EVIDENCE_RECORDS
  · obtain ⟨chain, hchain, hrecords⟩ :=
      @append_of_lt C _ hsound (hlength ▸ hlen) (s.engine.sample C s.secret call).1.2
    refine .inl ⟨hlen, (s.engine.sample C s.secret call).1.1,
      { s with engine := (s.engine.sample C s.secret call).2, evidence := chain }, ?_,
      ⟨rfl, hengine, hsound.append hchain, ?_⟩⟩
    · simp only [hchain]
    · show List.Forall₂ _ chain.records _
      rw [hrecords]
      exact List.rel_append hproduced (.cons hrecord .nil)
  · have hfull : MAX_EVIDENCE_RECORDS ≤ calls.length := Nat.not_lt.mp hlen
    obtain ⟨fault, hfault⟩ :=
      @append_of_le C _ (hlength ▸ hfull) (s.engine.sample C s.secret call).1.2
    refine .inr ⟨hfull, fault, { s with engine := (s.engine.sample C s.secret call).2 }, ?_,
      ⟨rfl, hengine, hsound, hproduced⟩⟩
    simp only [hfault]

theorem run_records {done : List SampleCall} (h : Records C secret engine s done)
    (calls : List SampleCall) :
    Records C secret engine (Machine.run (Session.sample C) calls s).2
        (done ++ recorded calls (Machine.run (Session.sample C) calls s).1)
      ∧ recorded calls (Machine.run (Session.sample C) calls s).1
        = calls.take (MAX_EVIDENCE_RECORDS - done.length) := by
  induction calls generalizing s done with
  | nil =>
    refine ⟨?_, List.take_nil.symm⟩
    show Records C secret engine s (done ++ [])
    rw [List.append_nil]
    exact h
  | cons call calls ih =>
    rw [Machine.run_cons]
    rcases sample_spec h call with
      ⟨hlen, jitter, next, hsample, hnext⟩ | ⟨hfull, fault, next, hsample, hnext⟩
    · obtain ⟨hrecords, htake⟩ := ih hnext
      have hroom : MAX_EVIDENCE_RECORDS - done.length
          = MAX_EVIDENCE_RECORDS - (done ++ [call]).length + 1 := by
        rw [List.length_append, List.length_singleton]
        omega
      rw [List.append_assoc, List.singleton_append] at hrecords
      rw [hsample, recorded, hroom, List.take_succ_cons, ← htake]
      exact ⟨hrecords, rfl⟩
    · obtain ⟨hrecords, htake⟩ := ih hnext
      have hfill : MAX_EVIDENCE_RECORDS - done.length = 0 := Nat.sub_eq_zero_of_le hfull
      rw [hfill, List.take_zero] at htake
      rw [hsample, recorded, hfill, List.take_zero]
      exact ⟨hrecords, htake⟩

/-- The records of a run from a fresh session are those of the calls that returned. -/
theorem run_withEngine (C : Crates) (secret : FixedBytes 32) (engine : HybridEngine)
    (calls : List SampleCall) :
    let out := Machine.run (Session.sample C) calls (.withEngine secret engine)
    List.Forall₂ (Produced C secret engine) out.2.evidence.records (recorded calls out.1)
      ∧ recorded calls out.1 = calls.take MAX_EVIDENCE_RECORDS := by
  have hstart : Records C secret engine (.withEngine secret engine) [] :=
    ⟨rfl, ⟨rfl, rfl, rfl⟩, EvidenceChain.sound_withSecret secret, .nil⟩
  obtain ⟨hrecords, htake⟩ := run_records hstart calls
  exact ⟨hrecords.produced, htake⟩

/-! ## What one engine verifies -/

theorem foldl_verify (secret : FixedBytes 32) (e : JitterEngine) (xs : List (Evidence × Bytes))
    (acc : Bool) :
    xs.foldl (fun acc (evidence, input) => acc && evidence.verify secret input e) acc
      = (acc && xs.all fun x => x.1.verify secret x.2 e) := by
  induction xs generalizing acc with
  | nil => rw [List.foldl_nil, List.all_nil, Bool.and_true]
  | cons x xs ih => rw [List.foldl_cons, ih, List.all_cons, Bool.and_assoc]

theorem verifyChain_eq_true {inputs : List Bytes} :
    c.verifyChain secret inputs e = true
      ↔ List.Forall₂ (fun record input => record.verify secret input e = true) c.records
        inputs := by
  rw [EvidenceChain.verifyChain, List.forall₂_iff_zip, foldl_verify, Bool.true_and]
  split
  next hne => exact iff_of_false Bool.false_ne_true fun h => hne h.1.symm
  next heq =>
    rw [List.all_eq_true, and_iff_right (not_not.mp heq).symm]
    exact ⟨fun h record input hmem => h (record, input) hmem, fun h x hmem => h hmem⟩

/-- The engine gives what the session's engine gave for each of the calls. -/
def Agrees (C : Crates) (secret : FixedBytes 32) (engine : HybridEngine) (e : JitterEngine)
    (call : SampleCall) : Prop :=
  match engine.accepted call with
  | some entropy =>
    e secret call.inputs entropy = engine.phys.computeJitter C secret call.inputs entropy
  | none =>
    e secret call.inputs (.ofHash (.filled 32 0))
      = engine.fallback.computeJitter C secret call.inputs (.ofHash (.filled 32 0))

theorem verifyChain_iff_agrees (h : List.Forall₂ (Produced C secret engine) c.records calls) :
    c.verifyChain secret (calls.map SampleCall.inputs) e = true
      ↔ ∀ call ∈ calls, Agrees C secret engine e call := by
  rw [verifyChain_eq_true, List.forall₂_map_right_iff]
  generalize c.records = records at h
  induction h with
  | nil => exact iff_of_true .nil nofun
  | @cons record call records calls hrecord _ ih =>
    rw [List.forall₂_cons, List.forall_mem_cons, ih]
    apply and_congr_left'
    obtain ⟨timestampUs, sequence, hrecord⟩ := hrecord
    rw [Agrees]
    cases hcall : engine.accepted call with
    | some entropy =>
      rw [hcall] at hrecord
      rw [hrecord, Evidence.verify, decide_eq_true_iff]
    | none =>
      rw [hcall] at hrecord
      rw [hrecord, Evidence.verify, decide_eq_true_iff]

/-! ## Engines that give one number -/

theorem scale_zero (jmin range : UInt32) : scale jmin range 0 = jmin := by
  have hlt := jmin.toNat_lt
  rw [scale, Nat.zero_mul, Nat.zero_div, Nat.add_zero, Nat.min_eq_left (by omega)]
  exact UInt32.ofNat_toNat

/-- The largest hash gives the end of the range. -/
theorem toNat_scale_max (h : 0 < range) (jmin : UInt32) :
    (scale jmin range (2 ^ 32 - 1)).toNat = min (jmin.toNat + (range.toNat - 1)) (2 ^ 32 - 1) := by
  have hpos : 0 < range.toNat := UInt32.lt_iff_toNat_lt.mp h
  have hlt := range.toNat_lt
  have hquot : (2 ^ 32 - 1) * range.toNat / 2 ^ 32 = range.toNat - 1 := by omega
  rw [scale, hquot]
  exact UInt32.toNat_ofNat_of_lt' (Nat.lt_of_le_of_lt (Nat.min_le_right _ _) (by decide))

/-- The engines give the same number, whatever the hash. -/
def SameConstant (phys : PhysJitter) (fallback : PureJitter) : Prop :=
  phys.jmin = fallback.jmin
    ∧ (phys.jmin.toNat = 2 ^ 32 - 1 ∨ phys.range.toNat = 1 ∧ fallback.range.toNat = 1)

/-- An engine gives one number when its range is one, or when every sum saturates. -/
theorem scale_of_constant (h : jmin.toNat = 2 ^ 32 - 1 ∨ range.toNat = 1) {hashVal : Nat}
    (hhash : hashVal < 2 ^ 32) :
    scale jmin range hashVal = jmin := by
  have hlt := jmin.toNat_lt
  have hsum : min (jmin.toNat + hashVal * range.toNat / 2 ^ 32) (2 ^ 32 - 1) = jmin.toNat := by
    rcases h with hmax | hone
    · rw [hmax]
      exact Nat.min_eq_right (Nat.le_add_right _ _)
    · rw [hone, Nat.mul_one, Nat.div_eq_of_lt hhash, Nat.add_zero]
      exact Nat.min_eq_left (by omega)
  rw [scale, hsum]
  exact UInt32.ofNat_toNat

theorem range_of_constant (hrange : 0 < range) (h : scale jmin range (2 ^ 32 - 1) = jmin)
    (hjmin : jmin.toNat ≠ 2 ^ 32 - 1) :
    range.toNat = 1 := by
  have hmax := toNat_scale_max hrange jmin
  have hpos : 0 < range.toNat := UInt32.lt_iff_toNat_lt.mp hrange
  have hlt := jmin.toNat_lt
  rw [h] at hmax
  omega

theorem sameConstant_iff (phys : PhysJitter) (fallback : PureJitter) :
    SameConstant phys fallback ↔ ∀ a < 2 ^ 32, ∀ b < 2 ^ 32,
      scale phys.jmin phys.range a = scale fallback.jmin fallback.range b := by
  constructor
  · rintro ⟨hjmin, hconstant⟩ a ha b hb
    have hphys : phys.jmin.toNat = 2 ^ 32 - 1 ∨ phys.range.toNat = 1 := hconstant.imp_right And.left
    have hfallback : fallback.jmin.toNat = 2 ^ 32 - 1 ∨ fallback.range.toNat = 1 := by
      rw [← hjmin]
      exact hconstant.imp_right And.right
    rw [scale_of_constant hphys ha, scale_of_constant hfallback hb, hjmin]
  · intro h
    have hjmin := h 0 (by decide) 0 (by decide)
    have hphys := h (2 ^ 32 - 1) (by decide) 0 (by decide)
    have hfallback := h 0 (by decide) (2 ^ 32 - 1) (by decide)
    rw [scale_zero, scale_zero] at hjmin
    rw [scale_zero, ← hjmin] at hphys
    rw [scale_zero, hjmin] at hfallback
    refine ⟨hjmin, or_iff_not_imp_left.mpr fun hmax => ⟨?_, ?_⟩⟩
    · exact range_of_constant phys.range_pos hphys hmax
    · exact range_of_constant fallback.range_pos hfallback.symm (hjmin ▸ hmax)

/-! ## A hash that tells the engines apart -/

/-- How long the last field of a message is, from the length of the whole -/
def extraLength (message : Bytes) : Nat :=
  (message.length - 37 - ofBE ((message.drop 21).take 8)) % 2 ^ 64

theorem extraLength_jitterMessage (inputs extra : Bytes) :
    extraLength (jitterMessage inputs extra) = extra.length % 2 ^ 64 := by
  have htag : (utf8 "cpoe_jitter/v1/jitter").length = 21 := by decide
  have hfield : ((jitterMessage inputs extra).drop 21).take 8 = toBE 8 inputs.length := by
    rw [jitterMessage, List.append_assoc, List.append_assoc, List.append_assoc, ← htag,
      List.drop_left, List.take_left' (length_toBE _ _)]
  have hlength : (jitterMessage inputs extra).length = 37 + inputs.length + extra.length := by
    rw [jitterMessage]
    simp only [List.length_append, htag, length_toBE]
    omega
  rw [extraLength, hfield, ofBE_toBE, hlength, show 256 ^ 8 = 2 ^ 64 from rfl]
  omega

/-- An HMAC with one value for each engine -/
def splittingCrates (phys fallback : Nat) : Crates where
  sha256 _ := .filled 32 0
  hmac _ message :=
    ⟨toBE 4 (if extraLength message = 32 then phys else fallback) ++ List.replicate 28 0,
      by rw [List.length_append, length_toBE, List.length_replicate]⟩

theorem hmacJitter_splitting {a b : Nat} (ha : a < 2 ^ 32) (hb : b < 2 ^ 32)
    (secret : FixedBytes 32) (inputs extra : Bytes) (jmin range : UInt32) :
    hmacJitter (splittingCrates a b) secret inputs extra jmin range
      = scale jmin range (if extra.length % 2 ^ 64 = 32 then a else b) := by
  rw [hmacJitter, splittingCrates, List.take_left' (length_toBE _ _),
    extraLength_jitterMessage, ofBE_toBE_of_lt]
  split
  · exact ha
  · exact hb

/-- What the session records of the calls verifies against an engine. -/
def Verifies (C : Crates) (secret : FixedBytes 32) (engine : HybridEngine)
    (calls : List SampleCall) (e : JitterEngine) : Prop :=
  let out := Machine.run (Session.sample C) calls (.withEngine secret engine)
  out.2.evidence.verifyChain secret ((recorded calls out.1).map SampleCall.inputs) e = true

/-- The records are of one kind, or the engines give one number. -/
def OneKind (engine : HybridEngine) (calls : List SampleCall) : Prop :=
  (∀ call ∈ calls.take MAX_EVIDENCE_RECORDS, engine.accepted call ≠ none)
    ∨ (∀ call ∈ calls.take MAX_EVIDENCE_RECORDS, engine.accepted call = none)
    ∨ SameConstant engine.phys engine.fallback

/-- A session's records verify against one of its engines, whatever the HMAC, exactly if they are
    of one kind or both engines give one number; then it is one engine for all of them. -/
theorem hybrid_verifies_iff (secret : FixedBytes 32) (engine : HybridEngine)
    (calls : List SampleCall) :
    ((∀ C, Verifies C secret engine calls (engine.phys.computeJitter C)
          ∨ Verifies C secret engine calls (engine.fallback.computeJitter C))
        ↔ OneKind engine calls)
      ∧ (OneKind engine calls →
        (∀ C, Verifies C secret engine calls (engine.phys.computeJitter C))
          ∨ ∀ C, Verifies C secret engine calls (engine.fallback.computeJitter C)) := by
  have hverify : ∀ (C : Crates) (e : JitterEngine), Verifies C secret engine calls e
      ↔ ∀ call ∈ calls.take MAX_EVIDENCE_RECORDS, Agrees C secret engine e call := by
    intro C e
    obtain ⟨hproduced, htake⟩ := run_withEngine C secret engine calls
    rw [Verifies, verifyChain_iff_agrees hproduced, htake]
  simp only [hverify]
  have hone : OneKind engine calls →
      (∀ C, ∀ call ∈ calls.take MAX_EVIDENCE_RECORDS,
          Agrees C secret engine (engine.phys.computeJitter C) call)
        ∨ ∀ C, ∀ call ∈ calls.take MAX_EVIDENCE_RECORDS,
          Agrees C secret engine (engine.fallback.computeJitter C) call := by
    rintro (hphys | hpure | hconstant)
    · left
      intro C call hcall
      obtain ⟨entropy, hentropy⟩ := Option.ne_none_iff_exists'.mp (hphys call hcall)
      rw [Agrees, hentropy]
    · right
      intro C call hcall
      rw [Agrees, hpure call hcall]
    · left
      intro C call hcall
      rw [Agrees]
      cases engine.accepted call with
      | some entropy => rfl
      | none =>
        exact (sameConstant_iff _ _).mp hconstant _ (ofBE_take_lt _ 4) _
          (ofBE_take_lt _ 4)
  refine ⟨⟨fun h => ?_, fun h C => (hone h).imp (· C) (· C)⟩, hone⟩
  -- a call of each kind, and an HMAC that tells the two apart
  by_contra hmixed
  simp only [OneKind, not_or, not_forall, not_not] at hmixed
  obtain ⟨⟨pureCall, hpureMem, hpure⟩, ⟨physCall, hphysMem, hphys⟩, hconstant⟩ := hmixed
  obtain ⟨entropy, hentropy⟩ := Option.ne_none_iff_exists'.mp hphys
  rw [sameConstant_iff] at hconstant
  simp only [not_forall] at hconstant
  obtain ⟨a, ha, b, hb, hne⟩ := hconstant
  rcases h (splittingCrates a b) with hall | hall
  · -- the hardware engine on the record without a hash
    have hagrees := hall pureCall hpureMem
    rw [Agrees, hpure] at hagrees
    apply hne
    simpa [PhysJitter.computeJitter, PureJitter.computeJitter, hmacJitter_splitting ha hb,
      PhysHash.ofHash] using hagrees
  · -- the other one on the record with a hash
    have hagrees := hall physCall hphysMem
    rw [Agrees, hentropy] at hagrees
    apply hne
    simpa [PhysJitter.computeJitter, PureJitter.computeJitter, hmacJitter_splitting ha hb]
      using hagrees.symm

/-- A keystroke whose measurement is used, and one without a measurement -/
def mixedCalls : List SampleCall :=
  [⟨[97], some ⟨.filled 32 7, 16⟩, 1000⟩, ⟨[98], none, 2000⟩]

/-- The default engines verify neither kind for the other. -/
theorem mixed_not_verified :
    let C := splittingCrates 0 (2 ^ 31)
    let out := Machine.run (Session.sample C) mixedCalls
      (.withEngine (.filled 32 1) (.new default default))
    (recorded mixedCalls out.1).map SampleCall.inputs = [[97], [98]]
      ∧ out.2.evidence.verifyChain (.filled 32 1) [[97], [98]]
          ((default : PhysJitter).computeJitter C) = false
      ∧ out.2.evidence.verifyChain (.filled 32 1) [[97], [98]]
          ((default : PureJitter).computeJitter C) = false := by
  decide +kernel

end WritersProof.CpoeJitter
