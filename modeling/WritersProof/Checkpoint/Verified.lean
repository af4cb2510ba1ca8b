/-
  WritersProof.Checkpoint.Verified

  What a valid report on a chain says.

  A chain is valid when it is not empty and each of its checkpoints passes.
-/
import WritersProof.Checkpoint.Chain

namespace WritersProof.Checkpoint

open Rust

/-! ## Checks -/

/-- The check of a report passes just when `p` holds, and leaves it as valid as it was. -/
def Decides (report : VerificationReport) (check : Checking VerificationReport) (p : Prop) : Prop :=
  ((∃ report', check = .ok report') ↔ p)
    ∧ ∀ report', check = .ok report' → report'.valid = report.valid

variable {report : VerificationReport} {p q : Prop} {report' : VerificationReport}

theorem Decides.congr {check : Checking VerificationReport} (h : Decides report check p)
    (hpq : p ↔ q) : Decides report check q :=
  ⟨h.1.trans hpq, h.2⟩

theorem decides_ok (hvalid : report'.valid = report.valid) : Decides report (.ok report') True := by
  refine ⟨⟨fun _ => trivial, fun _ => ⟨report', rfl⟩⟩, ?_⟩
  intro report₁ h
  rw [← Except.ok.inj h, hvalid]

theorem decides_fail (e : VerificationReport × String) : Decides report (fail e) False :=
  ⟨⟨nofun, False.elim⟩, nofun⟩

theorem Decides.guard {x : Checking Unit} {g : Unit → Checking VerificationReport}
    (hx : x = .ok () ↔ p) (hg : Decides report (g ()) q) :
    Decides report (x >>= g) (p ∧ q) := by
  constructor
  · rw [← hx, ← hg.1]
    constructor
    · rintro ⟨report', h⟩
      obtain ⟨hx, hg⟩ := unit_bind_eq_ok.mp h
      exact ⟨hx, report', hg⟩
    · rintro ⟨hx, report', hg⟩
      exact ⟨report', unit_bind_eq_ok.mpr ⟨hx, hg⟩⟩
  · intro report' h
    exact hg.2 report' (unit_bind_eq_ok.mp h).2

theorem decides_reject [Decidable p] {e : VerificationReport × String}
    (hvalid : report'.valid = report.valid) :
    Decides report (reject p e >>= fun _ => .ok report') ¬p :=
  (Decides.guard reject_eq_ok (decides_ok hvalid)).congr (and_iff_left trivial)

theorem Decides.bind {x : Checking VerificationReport}
    {g : VerificationReport → Checking VerificationReport} (hx : Decides report x p)
    (hg : ∀ report, Decides report (g report) q) :
    Decides report (x >>= g) (p ∧ q) := by
  constructor
  · rw [← hx.1]
    constructor
    · rintro ⟨report', h⟩
      obtain ⟨report₁, hfirst, hsecond⟩ := res_bind_eq_ok.mp h
      exact ⟨⟨report₁, hfirst⟩, (hg report₁).1.mp ⟨report', hsecond⟩⟩
    · rintro ⟨⟨report₁, hfirst⟩, hq⟩
      obtain ⟨report', hsecond⟩ := (hg report₁).1.mpr hq
      exact ⟨report', res_bind_eq_ok.mpr ⟨report₁, hfirst, hsecond⟩⟩
  · intro report' h
    obtain ⟨report₁, hfirst, hsecond⟩ := res_bind_eq_ok.mp h
    rw [(hg report₁).2 report' hsecond, hx.2 report₁ hfirst]

theorem Decides.value {α : Type} {x : Checking α} {g : α → Checking VerificationReport}
    {q : α → Prop} (hg : ∀ a, Decides report (g a) (q a)) :
    Decides report (x >>= g) (∃ a, x = .ok a ∧ q a) := by
  constructor
  · constructor
    · rintro ⟨report', h⟩
      obtain ⟨a, hx, hsecond⟩ := res_bind_eq_ok.mp h
      exact ⟨a, hx, (hg a).1.mp ⟨report', hsecond⟩⟩
    · rintro ⟨a, hx, hq⟩
      obtain ⟨report', hsecond⟩ := (hg a).1.mpr hq
      exact ⟨report', res_bind_eq_ok.mpr ⟨a, hx, hsecond⟩⟩
  · intro report' h
    obtain ⟨a, -, hsecond⟩ := res_bind_eq_ok.mp h
    exact (hg a).2 report' hsecond

section Checks

variable {Argon2 : Type} (K : ChainCrates Argon2)

/-- A checkpoint without a delay proof starts a legacy chain; a proof starts where its mode
    says, and verifies. -/
def DelayPasses (metadata : ChainMetadata) (i : Nat) (prev : Option Checkpoint) (c : Checkpoint) :
    Prop :=
  match c.vdf with
  | none => metadata.entanglementMode = .legacy ∧ i = 0
  | some vdf =>
    (∃ output, prevVdfOutput i prev metadata.entanglementMode = .ok output
      ∧ computeExpectedVdfInput K i c output metadata.entanglementMode = .ok vdf.input)
      ∧ vdf.verify K.sha256 = true

def MmrPasses (next : Option Checkpoint) (c : Checkpoint) : Prop :=
  ∀ bytes ∈ c.mmrInclusionProof, ∃ proof, Mmr.InclusionProof.deserialize bytes = .ok proof
    ∧ proof.verify (Mmr.sha256Hasher K.sha256) c.hash.val = .ok ()
    ∧ ∀ n ∈ next, ∀ root ∈ n.mmrRoot, proof.root = root

/-- What the checks of one checkpoint decide. -/
structure Passes (metadata : ChainMetadata) (i : Nat) (prev next : Option Checkpoint)
    (c : Checkpoint) : Prop where
  timestamp : 0 ≤ c.timestamp.nanos ∧ c.timestamp.nanos < 2 ^ 63
  drift : ∀ p ∈ prev, c.timestamp < p.timestamp → p.timestamp.secondsSince c.timestamp ≤ 1
  hash : c.computeHash K.sha256 = c.hash
  ordinal : c.ordinal = i
  genesis : prev = none →
    isSpecGenesis K metadata.documentPath c = true ∨ c.previousHash = FixedBytes.filled 32 0
  link : ∀ p ∈ prev, c.previousHash = p.hash
  signed : c.signature = none → metadata.signaturePolicy = .optional
  signature : ∀ sig ∈ c.signature, sig.length = 64
  delay : DelayPasses K metadata i prev c
  rfcVdf : ∀ vdf ∈ c.rfcVdf, (vdf.output.val.drop 32).take 32 = vdf.challenge.val
  argon2 : ∀ swf ∈ c.argon2Swf, Swf.verify K.argon2 swf = .ok true
  mmr : MmrPasses K next c

def AllPass (metadata : ChainMetadata) : Nat → Option Checkpoint → List Checkpoint → Prop
  | _, _, [] => True
  | i, prev, c :: cs =>
    Passes K metadata i prev cs.head? c ∧ AllPass metadata (i + 1) (some c) cs

variable {K}

variable {c : Checkpoint} {i : Nat} {metadata : ChainMetadata} {prev : Option Checkpoint}
  {cs : List Checkpoint}

theorem validateTimestamp_eq_ok :
    validateTimestamp K c = .ok () ↔ 0 ≤ c.timestamp.nanos ∧ c.timestamp.nanos < 2 ^ 63 := by
  unfold validateTimestamp
  rw [reject_bind_eq_ok, reject_eq_ok]
  omega

theorem checkDrift_decides (i : Nat) (prev : Option Checkpoint) (c : Checkpoint) :
    Decides report (checkDrift i prev c report) (∀ p ∈ prev, c.timestamp < p.timestamp →
      p.timestamp.secondsSince c.timestamp ≤ 1) := by
  cases prev with
  | none => exact (decides_ok rfl).congr (by simp)
  | some p =>
    simp only [checkDrift]
    by_cases hback : c.timestamp < p.timestamp
    · rw [if_pos hback]
      exact (decides_reject rfl).congr (by simp [hback])
    · rw [if_neg hback]
      exact (decides_ok rfl).congr (by simp [hback])

theorem checkLink_decides (path : String) (i : Nat) (prev : Option Checkpoint) (c : Checkpoint) :
    Decides report (checkLink K path i prev c report)
      ((prev = none → isSpecGenesis K path c = true ∨ c.previousHash = FixedBytes.filled 32 0)
        ∧ ∀ p ∈ prev, c.previousHash = p.hash) := by
  cases prev with
  | some p => exact (decides_reject rfl).congr (by simp)
  | none =>
    simp only [checkLink]
    cases hspec : isSpecGenesis K path c with
    | true => exact (decides_ok rfl).congr (by simp)
    | false => exact (decides_reject rfl).congr (by simp)

theorem checkSignature_decides (policy : SignaturePolicy) (i : Nat) (c : Checkpoint) :
    Decides report (checkSignature policy i c report)
      ((c.signature = none → policy = .optional) ∧ ∀ sig ∈ c.signature, sig.length = 64) := by
  unfold checkSignature
  cases c.signature with
  | none =>
    cases policy with
    | optional => exact (decides_reject rfl).congr (by simp)
    | required => exact (decides_reject rfl).congr (by simp)
  | some sig => exact (decides_reject rfl).congr (by simp)

theorem verifySingleCheckpointVdf_eq_ok {vdf : VdfProof} {output : Option Digest}
    {mode : EntanglementMode} :
    verifySingleCheckpointVdf K i c vdf output mode = .ok () ↔
      computeExpectedVdfInput K i c output mode = .ok vdf.input ∧ vdf.verify K.sha256 = true := by
  unfold verifySingleCheckpointVdf
  rw [res_bind_eq_ok]
  simp only [reject_bind_eq_ok, reject_eq_ok, ne_eq, not_not, Bool.not_eq_false]
  constructor
  · rintro ⟨input, hinput, heq, hverify⟩
    rw [heq]
    exact ⟨hinput, hverify⟩
  · rintro ⟨hinput, hverify⟩
    exact ⟨vdf.input, hinput, rfl, hverify⟩

theorem checkDelay_decides (metadata : ChainMetadata) (i : Nat) (prev : Option Checkpoint)
    (c : Checkpoint) :
    Decides report (checkDelay K metadata i prev c report) (DelayPasses K metadata i prev c) := by
  unfold checkDelay DelayPasses
  cases c.vdf with
  | none =>
    cases metadata.entanglementMode with
    | legacy => exact (decides_reject rfl).congr (by simp)
    | entangled => exact (decides_fail _).congr (by simp)
  | some vdf =>
    refine (Decides.value fun output => Decides.guard mapFault_eq_ok (decides_ok ?_)).congr ?_
    · split
      · rfl
      · rfl
    · simp only [mapFault_eq_ok, verifySingleCheckpointVdf_eq_ok, and_true]
      grind

theorem checkRfcVdf_eq_ok :
    checkRfcVdf i c report = .ok () ↔
      ∀ vdf ∈ c.rfcVdf, (vdf.output.val.drop 32).take 32 = vdf.challenge.val := by
  unfold checkRfcVdf
  cases c.rfcVdf with
  | none => simp
  | some vdf => simp

theorem checkArgon2_eq_ok :
    checkArgon2 K i c report = .ok ()
      ↔ ∀ swf ∈ c.argon2Swf, Swf.verify K.argon2 swf = .ok true := by
  unfold checkArgon2
  cases c.argon2Swf with
  | none => simp
  | some swf =>
    simp only [res_bind_eq_ok, mapFault_eq_ok, reject_eq_ok, Bool.not_eq_false,
      Option.mem_some_iff, forall_eq', exists_eq_right]

theorem checkNextRoot_decides (i : Nat) (root : Digest) (next : Option Checkpoint) :
    Decides report (checkNextRoot i root next report)
      (∀ n ∈ next, ∀ nextRoot ∈ n.mmrRoot, root = nextRoot) := by
  cases next with
  | none => exact (decides_ok rfl).congr (by simp)
  | some n =>
    simp only [checkNextRoot]
    cases hroot : n.mmrRoot with
    | none => exact (decides_ok rfl).congr (by simp [hroot])
    | some nextRoot => exact (decides_reject rfl).congr (by simp [hroot])

theorem checkMmr_decides (i : Nat) (next : Option Checkpoint) (c : Checkpoint) :
    Decides report (checkMmr K i next c report) (MmrPasses K next c) := by
  unfold checkMmr MmrPasses
  cases c.mmrInclusionProof with
  | none => exact (decides_ok rfl).congr (by simp)
  | some bytes =>
    refine (Decides.value fun proof =>
      Decides.guard mapFault_eq_ok (checkNextRoot_decides i proof.root next)).congr ?_
    simp only [mapFault_eq_ok, Option.mem_some_iff, forall_eq']
    rfl

theorem checkCheckpoint_decides (metadata : ChainMetadata) (i : Nat)
    (prev next : Option Checkpoint) (c : Checkpoint) :
    Decides report (checkCheckpoint K metadata i prev next c report)
      (Passes K metadata i prev next c) := by
  unfold checkCheckpoint
  refine (Decides.guard (mapFault_eq_ok.trans validateTimestamp_eq_ok) <|
    (checkDrift_decides i prev c).bind fun _ =>
      Decides.guard reject_eq_ok <| Decides.guard reject_eq_ok <|
        (checkLink_decides metadata.documentPath i prev c).bind fun _ =>
          (checkSignature_decides metadata.signaturePolicy i c).bind fun _ =>
            (checkDelay_decides metadata i prev c).bind fun _ =>
              Decides.guard checkRfcVdf_eq_ok <| Decides.guard checkArgon2_eq_ok <|
                checkMmr_decides i next c).congr ?_
  constructor
  · rintro ⟨htime, hdrift, hhash, hordinal, ⟨hgenesis, hlink⟩, ⟨hsigned, hsignature⟩, hdelay,
      hrfc, hargon, hmmr⟩
    exact ⟨htime, hdrift, not_not.mp hhash, not_not.mp hordinal, hgenesis, hlink, hsigned,
      hsignature, hdelay, hrfc, hargon, hmmr⟩
  · intro h
    exact ⟨h.timestamp, h.drift, not_not.mpr h.hash, not_not.mpr h.ordinal, ⟨h.genesis, h.link⟩,
      ⟨h.signed, h.signature⟩, h.delay, h.rfcVdf, h.argon2, h.mmr⟩

/-! ## Chains -/

theorem checkCheckpoints_decides (metadata : ChainMetadata) (i : Nat) (prev : Option Checkpoint)
    (cs : List Checkpoint) :
    Decides report (checkCheckpoints K metadata i prev report cs)
      (AllPass K metadata i prev cs) := by
  induction cs generalizing i prev report with
  | nil => exact decides_ok rfl
  | cons c cs ih =>
    exact (checkCheckpoint_decides metadata i prev cs.head? c).bind fun _ => ih (i + 1) (some c)

theorem valid_iff {ε : Type} {chain : Chain} :
    (∃ report, chain.verifyDetailed (ε := ε) K = .ok report ∧ report.valid = true) ↔
      chain.checkpoints ≠ [] ∧ AllPass K chain.metadata 0 none chain.checkpoints := by
  have hdecides : Decides .new
      (checkCheckpoints K chain.metadata 0 none .new chain.checkpoints)
      (AllPass K chain.metadata 0 none chain.checkpoints) :=
    checkCheckpoints_decides chain.metadata 0 none chain.checkpoints
  unfold Chain.verifyDetailed
  by_cases hnil : chain.checkpoints = []
  · rw [if_pos hnil]
    simp [hnil, VerificationReport.fail]
  · rw [if_neg hnil, ← hdecides.1]
    cases hcheck : checkCheckpoints K chain.metadata 0 none .new chain.checkpoints with
    | ok report =>
      have hvalid : report.valid = true := hdecides.2 report hcheck
      simp [hnil, hvalid]
    | error fault =>
      cases fault with
      | err e => simp [VerificationReport.fail]
      | panic => simp [abort]

variable (h : AllPass K metadata i prev cs)

include h

theorem AllPass.isChain :
    cs.IsChain fun a b => b.previousHash = a.hash := by
  induction cs generalizing i prev with
  | nil => exact .nil
  | cons c cs ih =>
    cases cs with
    | nil => exact .singleton c
    | cons c' cs =>
      exact List.isChain_cons_cons.mpr ⟨h.2.1.link c rfl, ih h.2⟩

theorem AllPass.exists_passes :
    ∀ c ∈ cs, ∃ j before after, Passes K metadata j before after c := by
  induction cs generalizing i prev with
  | nil => simp
  | cons c cs ih =>
    rw [List.forall_mem_cons]
    exact ⟨⟨i, prev, cs.head?, h.1⟩, ih h.2⟩

theorem AllPass.verify_vdf :
    ∀ c ∈ cs, ∀ vdf ∈ c.vdf, vdf.verify K.sha256 = true := by
  intro c hc vdf hvdf
  obtain ⟨j, before, after, hpass⟩ := h.exists_passes c hc
  have hdelay := hpass.delay
  unfold DelayPasses at hdelay
  rw [Option.mem_def.mp hvdf] at hdelay
  exact hdelay.2

theorem AllPass.computeHash_eq (hc : c ∈ cs) :
    c.computeHash K.sha256 = c.hash := by
  obtain ⟨j, before, after, hpass⟩ := h.exists_passes c hc
  exact hpass.hash

end Checks

end WritersProof.Checkpoint
