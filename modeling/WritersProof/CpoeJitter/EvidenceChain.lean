/-
  WritersProof.CpoeJitter.EvidenceChain

  Chains of jitter evidence and their serialization
  (crates/cpoe-jitter/src/evidence.rs).

  Each record is linked to the MAC of those before it, by HMAC where the chain holds a
  secret and by plain SHA-256 where it holds none.  The secret is not serialized, so a
  chain that comes back from its serialization goes on with plain links.
-/
import WritersProof.Lib.Bytes
import WritersProof.Lib.Vec

namespace WritersProof.CpoeJitter

open Rust

structure PhysHash where
  hash : FixedBytes 32
  entropyBits : UInt8
  deriving DecidableEq

/-- A record, with or without a hash of the hardware -/
inductive Evidence where
  | phys (physHash : PhysHash) (jitter : UInt32) (timestampUs : UInt64) (sequence : Nat)
  | pure (jitter : UInt32) (timestampUs : UInt64) (sequence : Nat)
  deriving DecidableEq

namespace Evidence

def sequence : Evidence → Nat
  | .phys _ _ _ sequence => sequence
  | .pure _ _ sequence => sequence

def setSequence (sequence : Nat) : Evidence → Evidence
  | .phys physHash jitter timestampUs _ => .phys physHash jitter timestampUs sequence
  | .pure jitter timestampUs _ => .pure jitter timestampUs sequence

/-- What `hash_into` and `hash_into_mac` feed to the hasher. -/
def writeFields : Evidence → Bytes
  | .phys physHash jitter timestampUs sequence =>
    [0] ++ physHash.hash.val ++ [physHash.entropyBits] ++ Bytes.toLE 4 jitter.toNat
      ++ Bytes.toLE 8 timestampUs.toNat ++ Bytes.toLE 8 sequence
  | .pure jitter timestampUs sequence =>
    [1] ++ Bytes.toLE 4 jitter.toNat ++ Bytes.toLE 8 timestampUs.toNat ++ Bytes.toLE 8 sequence

@[simp] theorem sequence_setSequence (e : Evidence) (n : Nat) : (e.setSequence n).sequence = n := by
  cases e <;> rfl

end Evidence

/-- The hashes of a chain -/
structure Crates where
  sha256 : Bytes → FixedBytes 32
  hmac : FixedBytes 32 → Bytes → FixedBytes 32

inductive ChainError where
  | evidenceOverflow (max : Nat)
  | unsupportedVersion
  | exceedsMaxRecords
  | nextSequenceMismatch
  | recordSequenceMismatch

def MAX_EVIDENCE_RECORDS : Nat := 100000

structure EvidenceChainRaw where
  version : UInt8
  records : List Evidence
  chainMac : FixedBytes 32
  nextSequence : Nat

structure EvidenceChain extends EvidenceChainRaw where
  /-- Not serialized -/
  secret : Option (FixedBytes 32)

def zeroMac : FixedBytes 32 := FixedBytes.filled 32 0

namespace EvidenceChain

def new : EvidenceChain where
  version := 1
  records := []
  chainMac := zeroMac
  nextSequence := 0
  secret := none

def withSecret (secret : FixedBytes 32) : EvidenceChain := { new with secret := some secret }

/-- The deserializer's checks -/
def tryFrom (raw : EvidenceChainRaw) : Res ChainError EvidenceChain := do
  reject (raw.version ≠ 1) .unsupportedVersion
  reject (MAX_EVIDENCE_RECORDS < raw.records.length) .exceedsMaxRecords
  reject (raw.nextSequence ≠ raw.records.length) .nextSequenceMismatch
  forEach (fun (record, i) => reject (record.sequence ≠ i) .recordSequenceMismatch)
    raw.records.zipIdx
  .ok { toEvidenceChainRaw := raw, secret := none }

/-- Serialize and deserialize. -/
def reload (c : EvidenceChain) : Res ChainError EvidenceChain := tryFrom c.toEvidenceChainRaw

section Hashed

variable (C : Crates)

def link (secret : Option (FixedBytes 32)) (mac : FixedBytes 32) (e : Evidence) : FixedBytes 32 :=
  match secret with
  | some secret => C.hmac secret (mac.val ++ e.writeFields)
  | none => C.sha256 (mac.val ++ e.writeFields)

def append (evidence : Evidence) (c : EvidenceChain) : Res ChainError EvidenceChain := do
  reject (MAX_EVIDENCE_RECORDS ≤ c.records.length) (.evidenceOverflow MAX_EVIDENCE_RECORDS)
  let evidence := evidence.setSequence c.nextSequence
  let nextSequence ← okOr (checkedAdd c.nextSequence 1) (.evidenceOverflow MAX_EVIDENCE_RECORDS)
  .ok { c with
    nextSequence
    chainMac := link C c.secret c.chainMac evidence
    records := c.records ++ [evidence] }

/-- What `verify_integrity` computes over the records -/
def keyedMac (secret : FixedBytes 32) (records : List Evidence) : FixedBytes 32 :=
  records.foldl (link C (some secret)) zeroMac

def unkeyedMac (records : List Evidence) : FixedBytes 32 := records.foldl (link C none) zeroMac

def verifyIntegrity (secret : FixedBytes 32) (c : EvidenceChain) : Bool :=
  keyedMac C secret c.records = c.chainMac

def verifyIntegrityUnkeyed (c : EvidenceChain) : Bool := unkeyedMac C c.records = c.chainMac

end Hashed

def validateSequences (c : EvidenceChain) : Bool :=
  c.records.zipIdx.all fun (record, i) => record.sequence = i

/-! ## Structure -/

/-- The structure that the deserializer checks; every operation keeps it. -/
structure Sound (c : EvidenceChain) : Prop where
  version : c.version = 1
  bounds : c.records.length ≤ MAX_EVIDENCE_RECORDS
  nextSequence : c.nextSequence = c.records.length
  sequence : ∀ p ∈ c.records.zipIdx, p.1.sequence = p.2

theorem sound_new : Sound new where
  version := rfl
  bounds := Nat.zero_le _
  nextSequence := rfl
  sequence := by
    intro p hp
    cases hp

theorem sound_withSecret (secret : FixedBytes 32) : Sound (withSecret secret) :=
  ⟨sound_new.version, sound_new.bounds, sound_new.nextSequence, sound_new.sequence⟩

theorem Sound.validateSequences {c : EvidenceChain} (h : c.Sound) : c.validateSequences = true :=
  List.all_eq_true.mpr fun p hp => decide_eq_true (h.sequence p hp)

theorem Sound.reload {c : EvidenceChain} (h : c.Sound) :
    c.reload = .ok { c with secret := none } := by
  have hsequence : forEach (fun p : Evidence × Nat => reject (p.1.sequence ≠ p.2)
      ChainError.recordSequenceMismatch) c.records.zipIdx = .ok () :=
    forEach_eq_ok.mpr fun p hp => reject_eq_ok.mpr (not_not.mpr (h.sequence p hp))
  unfold EvidenceChain.reload tryFrom
  refine reject_bind_eq_ok.mpr ⟨not_not.mpr h.version, ?_⟩
  refine reject_bind_eq_ok.mpr ⟨Nat.not_lt.mpr h.bounds, ?_⟩
  refine reject_bind_eq_ok.mpr ⟨not_not.mpr h.nextSequence, ?_⟩
  exact unit_bind_eq_ok.mpr ⟨hsequence, rfl⟩

section Appended

variable {C : Crates} {e : Evidence} {c c' : EvidenceChain}

theorem append_eq_ok (h : append C e c = .ok c') :
    c.records.length < MAX_EVIDENCE_RECORDS
      ∧ c' = { c with
          nextSequence := c.nextSequence + 1
          chainMac := link C c.secret c.chainMac (e.setSequence c.nextSequence)
          records := c.records ++ [e.setSequence c.nextSequence] } := by
  obtain ⟨hlen, h⟩ := reject_bind_eq_ok.mp h
  obtain ⟨next, hnext, h⟩ := res_bind_eq_ok.mp h
  cases h
  rw [(okOr_checkedAdd_eq_ok hnext).2]
  exact ⟨Nat.lt_of_not_le hlen, rfl⟩

theorem Sound.append (h : c.Sound) (happend : EvidenceChain.append C e c = .ok c') : c'.Sound := by
  obtain ⟨hlen, rfl⟩ := append_eq_ok happend
  refine ⟨h.version, ?_, ?_, ?_⟩
  · show (c.records ++ [_]).length ≤ _
    rw [List.length_append, List.length_singleton]
    exact hlen
  · show c.nextSequence + 1 = (c.records ++ [_]).length
    rw [List.length_append, List.length_singleton, h.nextSequence]
  · intro p hp
    replace hp : p ∈ (c.records ++ [e.setSequence c.nextSequence]).zipIdx := hp
    rw [List.zipIdx_append, List.mem_append] at hp
    rcases hp with hp | hp
    · exact h.sequence p hp
    · rw [List.zipIdx_singleton, List.mem_singleton] at hp
      subst hp
      rw [Evidence.sequence_setSequence, h.nextSequence, Nat.zero_add]

end Appended

end EvidenceChain

/-! ## Runs -/

inductive ChainOp where
  | append (evidence : Evidence)
  | reload

namespace EvidenceChain

variable (C : Crates)

def step (c : EvidenceChain) : ChainOp → Res ChainError EvidenceChain
  | .append evidence => c.append C evidence
  | .reload => c.reload

/-- The chain after calls that all return `Ok` -/
def run : List ChainOp → EvidenceChain → Res ChainError EvidenceChain
  | [], c => .ok c
  | op :: ops, c => do run ops (← step C c op)

/-- The chain verifies, its numbers are right, and it comes back from its serialization. -/
def Persists (verify : EvidenceChain → Bool) (c : EvidenceChain) : Prop :=
  verify c = true ∧ c.validateSequences = true
    ∧ ∃ c', c.reload = .ok c' ∧ c'.records = c.records ∧ c'.chainMac = c.chainMac

def NoAppendAfterReload : List ChainOp → Prop
  | [] => True
  | .append _ :: ops => NoAppendAfterReload ops
  | .reload :: ops => ∀ op ∈ ops, op = .reload

variable {C} {c c' : EvidenceChain} {ops : List ChainOp}

/-- An operation keeps the chain sound, -/
theorem sound_step (h : c.Sound) {op : ChainOp} (hstep : step C c op = .ok c') : c'.Sound := by
  cases op with
  | append e => exact h.append hstep
  | reload =>
    cases h.reload.symm.trans hstep
    exact ⟨h.version, h.bounds, h.nextSequence, h.sequence⟩

/-- and so does a run of them. -/
theorem sound_run (h : c.Sound) (hrun : run C ops c = .ok c') : c'.Sound := by
  induction ops generalizing c with
  | nil =>
    cases hrun
    exact h
  | cons op ops ih =>
    obtain ⟨c₁, hstep, hrest⟩ := res_bind_eq_ok.mp hrun
    exact ih (sound_step h hstep) hrest

theorem Sound.kept_iff (h : c.Sound) {verify : EvidenceChain → Bool} :
    Persists verify c ↔ verify c = true :=
  ⟨fun hp => hp.1, fun hv => ⟨hv, h.validateSequences, _, h.reload, rfl, rfl⟩⟩

/-! ## The MAC -/

/-- The MAC is that of the links with `key` as long as `key` is in memory for every append. -/
theorem foldl_link_run {key : Option (FixedBytes 32)} (h : c.Sound)
    (hmac : c.records.foldl (link C key) zeroMac = c.chainMac)
    (hops : c.secret = key ∧ (key = none ∨ NoAppendAfterReload ops) ∨ ∀ op ∈ ops, op = .reload)
    (hrun : run C ops c = .ok c') : c'.records.foldl (link C key) zeroMac = c'.chainMac := by
  induction ops generalizing c with
  | nil =>
    cases hrun
    exact hmac
  | cons op ops ih =>
    obtain ⟨c₁, hstep, hrest⟩ := res_bind_eq_ok.mp hrun
    have h₁ := sound_step h hstep
    cases op with
    | append e =>
      obtain ⟨hsecret, hops⟩ | hops := hops
      · obtain ⟨-, rfl⟩ := append_eq_ok hstep
        refine ih h₁ ?_ (.inl ⟨hsecret, hops⟩) hrest
        show (c.records ++ [_]).foldl _ _ = link C c.secret c.chainMac _
        rw [List.foldl_append, hsecret, ← hmac]
        rfl
      · cases hops _ List.mem_cons_self
    | reload =>
      cases h.reload.symm.trans hstep
      refine ih h₁ hmac ?_ hrest
      obtain ⟨-, hkey | hops⟩ | hops := hops
      · exact .inl ⟨hkey.symm, .inl hkey⟩
      · exact .inr hops
      · exact .inr (List.forall_mem_cons.mp hops).2

/-! ## Keyed chains -/

section Keyed

variable {secret : FixedBytes 32}

def EndsPlain (C : Crates) (c : EvidenceChain) : Prop :=
  c.secret = none ∧ c.records ≠ [] ∧ ∃ message, c.chainMac = C.sha256 message

theorem EndsPlain.of_append {e : Evidence} {c c' : EvidenceChain} (hsecret : c.secret = none)
    (h : append C e c = .ok c') : EndsPlain C c' := by
  obtain ⟨-, rfl⟩ := append_eq_ok h
  refine ⟨hsecret, List.append_ne_nil_of_right_ne_nil _ (List.cons_ne_nil _ _),
    c.chainMac.val ++ (e.setSequence c.nextSequence).writeFields, ?_⟩
  show link C c.secret c.chainMac _ = _
  rw [hsecret]
  rfl

theorem EndsPlain.run {c c' : EvidenceChain} (h : EndsPlain C c) (hsound : c.Sound)
    (hrun : EvidenceChain.run C ops c = .ok c') : EndsPlain C c' := by
  induction ops generalizing c with
  | nil =>
    cases hrun
    exact h
  | cons op ops ih =>
    obtain ⟨c₁, hstep, hrest⟩ := res_bind_eq_ok.mp hrun
    have h₁ := sound_step hsound hstep
    cases op with
    | append e => exact ih (.of_append h.1 hstep) h₁ hrest
    | reload =>
      cases hsound.reload.symm.trans hstep
      exact ih (show EndsPlain C { c with secret := none } from ⟨rfl, h.2⟩) h₁ hrest

/-- An append leaves a plain MAC when no secret is in memory, as after a reload. -/
theorem endsPlain_of_run (h : c.Sound)
    (hops : c.secret = none ∧ ¬ (∀ op ∈ ops, op = .reload) ∨ ¬ NoAppendAfterReload ops)
    (hrun : run C ops c = .ok c') : EndsPlain C c' := by
  induction ops generalizing c with
  | nil =>
    obtain ⟨-, hops⟩ | hops := hops
    · exact absurd (List.forall_mem_nil _) hops
    · exact absurd trivial hops
  | cons op ops ih =>
    obtain ⟨c₁, hstep, hrest⟩ := res_bind_eq_ok.mp hrun
    have h₁ := sound_step h hstep
    cases op with
    | append e =>
      obtain ⟨hsecret, -⟩ | hops := hops
      · exact (EndsPlain.of_append hsecret hstep).run h₁ hrest
      · exact ih h₁ (.inr hops) hrest
    | reload =>
      cases h.reload.symm.trans hstep
      refine ih h₁ (.inl ⟨rfl, ?_⟩) hrest
      obtain ⟨-, hops⟩ | hops := hops
      · exact fun hall => hops (List.forall_mem_cons.mpr ⟨rfl, hall⟩)
      · exact hops

theorem EndsPlain.not_verifyIntegrity
    (hdistinct : ∀ message message', C.hmac secret message ≠ C.sha256 message')
    (h : EndsPlain C c) : ¬ c.verifyIntegrity C secret = true := by
  obtain ⟨-, hne, message, hmac⟩ := h
  rw [verifyIntegrity, decide_eq_true_iff, hmac, ← List.dropLast_append_getLast hne, keyedMac,
    List.foldl_append]
  exact hdistinct _ _

end Keyed

/-- A keyed chain persists if nothing is appended after a reload, and only then where no HMAC is a
    hash; a plain chain always does. -/
theorem persists_iff {secret : FixedBytes 32} (ops : List ChainOp) :
    (∀ c, run C ops (withSecret secret) = .ok c →
        (NoAppendAfterReload ops → Persists (verifyIntegrity C secret) c)
          ∧ ((∀ message message', C.hmac secret message ≠ C.sha256 message') →
            (Persists (verifyIntegrity C secret) c ↔ NoAppendAfterReload ops)))
      ∧ ∀ c, run C ops new = .ok c → Persists (verifyIntegrityUnkeyed C) c := by
  constructor
  · intro c hrun
    have hsound := sound_withSecret secret
    have hkept : NoAppendAfterReload ops → Persists (verifyIntegrity C secret) c := by
      intro hops
      rw [(sound_run hsound hrun).kept_iff]
      exact decide_eq_true (foldl_link_run hsound rfl (.inl ⟨rfl, .inr hops⟩) hrun)
    refine ⟨hkept, fun hdistinct => ⟨fun hpersists => ?_, hkept⟩⟩
    by_contra hops
    exact (endsPlain_of_run hsound (.inr hops) hrun).not_verifyIntegrity hdistinct hpersists.1
  · intro c hrun
    apply (sound_run sound_new hrun).kept_iff.mpr
    exact decide_eq_true (foldl_link_run sound_new rfl (.inl ⟨rfl, .inl rfl⟩) hrun)

/-! ### A reloaded chain -/

/-- Hashes that keep the sum of the bytes and whether a key was used -/
def taggingCrates : Crates where
  sha256 bytes := ⟨0 :: List.replicate 31 bytes.sum, by simp⟩
  hmac key bytes := ⟨1 :: List.replicate 31 (key.val.sum + bytes.sum), by simp⟩

theorem taggingCrates_distinct (secret : FixedBytes 32) (message message' : Bytes) :
    taggingCrates.hmac secret message ≠ taggingCrates.sha256 message' := by
  intro h
  have hhead := List.head_eq_of_cons_eq (congrArg FixedBytes.val h)
  exact absurd hhead (by decide)

def someSecret : FixedBytes 32 := FixedBytes.filled 32 5

def someEvidence : Evidence := .pure 700 1000 0

theorem persists_appended_reloaded :
    (∀ c, run taggingCrates [.append someEvidence, .reload] (withSecret someSecret) = .ok c →
        (Persists (verifyIntegrity taggingCrates someSecret) c
          ↔ NoAppendAfterReload [.append someEvidence, .reload]))
      ∧ ∀ c, run taggingCrates [.append someEvidence, .reload] new = .ok c →
        Persists (verifyIntegrityUnkeyed taggingCrates) c :=
  ⟨fun c hrun => ((persists_iff _).1 c hrun).2 (taggingCrates_distinct someSecret),
    (@persists_iff taggingCrates someSecret _).2⟩

/-- A record before a reload, and one after it -/
theorem not_persists_append_after_reload :
    ∃ c, run taggingCrates [.append someEvidence, .reload, .append someEvidence]
        (withSecret someSecret) = .ok c
      ∧ ¬ Persists (verifyIntegrity taggingCrates someSecret) c := by
  refine ⟨_, rfl, ?_⟩
  rintro ⟨hverify, -⟩
  revert hverify
  decide +kernel

end EvidenceChain

end WritersProof.CpoeJitter
