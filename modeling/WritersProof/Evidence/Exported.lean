/-
  WritersProof.Evidence.Exported

  Packets that are built from valid chains: which of them pass.

  What a packet compares is what the chain has verified, with one difference: a packet
  refuses delay proofs of more than a thousand million iterations, and a chain takes any.
-/
import Mathlib.Algebra.Order.BigOperators.Group.List
import WritersProof.Checkpoint.Verified
import WritersProof.Evidence.Verification

namespace WritersProof

open Rust FixedBytes Checkpoint

/-! ## Times -/

namespace Checkpoint

/-- The nanoseconds of a delay proof, to the nearest one. -/
def proofNanos (params : Parameters) (vdf : VdfProof) : Nat :=
  if params.iterationsPerSecond = 0 then 0
  else
    let seconds := Binary64.div (Binary64.ofNat vdf.iterations)
      (Binary64.ofNat params.iterationsPerSecond)
    Binary64.roundEven (seconds.num.toNat * 1000000000) seconds.den

/-- The nanoseconds of all delay proofs. -/
def chainNanos (params : Parameters) (cs : List Checkpoint) : Nat :=
  (cs.map fun c => (c.vdf.map (proofNanos params)).getD 0).sum

theorem minElapsedTime_eq_ok {ε : Type} {params : Parameters} {vdf : VdfProof} {elapsed : Nat} :
    vdf.minElapsedTime (ε := ε) params = .ok elapsed ↔
      proofNanos params vdf < 2 ^ 64 * 1000000000 ∧ proofNanos params vdf = elapsed := by
  unfold VdfProof.minElapsedTime proofNanos
  by_cases hrate : params.iterationsPerSecond = 0
  · rw [if_pos hrate, if_pos hrate, Except.ok.injEq]
    exact (and_iff_right (by decide)).symm
  · rw [if_neg hrate, if_neg hrate]
    exact ite_abort_eq_ok

theorem addDuration_eq_ok {ε : Type} {a b c : Nat} :
    addDuration (ε := ε) a b = .ok c ↔ a + b < 2 ^ 64 * 1000000000 ∧ a + b = c :=
  ite_abort_eq_ok

/-- The times of a chain add up unless they leave the range of a `Duration`. -/
theorem exists_totalElapsed {ε : Type} {params : Parameters} {total : Nat} {cs : List Checkpoint}
    (h : total < 2 ^ 64 * 1000000000) :
    (∃ t, totalElapsed (ε := ε) params total cs = .ok t) ↔
      total + chainNanos params cs < 2 ^ 64 * 1000000000 := by
  unfold chainNanos
  induction cs generalizing total with
  | nil => simpa [totalElapsed] using h
  | cons c cs ih =>
    simp only [totalElapsed, List.map_cons, List.sum_cons]
    cases c.vdf with
    | none =>
      rw [ih h]
      simp
    | some vdf =>
      simp only [res_bind_eq_ok, minElapsedTime_eq_ok, addDuration_eq_ok, Option.map_some,
        Option.getD_some]
      constructor
      · rintro ⟨t, _, ⟨-, rfl⟩, _, ⟨hadd, rfl⟩, hrest⟩
        have hsum := (ih hadd).mp ⟨t, hrest⟩
        omega
      · intro hsum
        have hadd : total + proofNanos params vdf < 2 ^ 64 * 1000000000 := by omega
        obtain ⟨t, hrest⟩ := (ih hadd).mpr (by omega)
        exact ⟨t, _, ⟨by omega, rfl⟩, _, ⟨hadd, rfl⟩, hrest⟩

end Checkpoint

namespace Evidence

open Checkpoint (Chain Digest VdfProof proofNanos chainNanos)

/-! ## What is built -/

/-- A checkpoint as a packet has it, when its time fits. -/
def exported (params : Checkpoint.Parameters) (cp : Checkpoint) : CheckpointProof :=
  { ordinal := cp.ordinal
    contentHash := Hex.encode cp.contentHash.val
    contentSize := cp.contentSize
    timestamp := cp.timestamp
    vdfInput := cp.vdf.map fun vdf => Hex.encode vdf.input.val
    vdfOutput := cp.vdf.map fun vdf => Hex.encode vdf.output.val
    vdfIterations := cp.vdf.map fun vdf => vdf.iterations
    elapsedTime := cp.vdf.map (proofNanos params)
    previousHash := Hex.encode cp.previousHash.val
    hash := Hex.encode cp.hash.val
    signature := cp.signature.map Hex.encode }

variable {params : Checkpoint.Parameters} {cp : Checkpoint} {cs : List Checkpoint} {C : Crates}
  {chain : Chain} {decl : Declaration}

theorem exportCheckpoint_eq_ok {ε : Type} {proof : CheckpointProof} :
    exportCheckpoint (ε := ε) params cp = .ok proof ↔
      (∀ vdf ∈ cp.vdf, proofNanos params vdf < 2 ^ 64 * 1000000000)
        ∧ exported params cp = proof := by
  unfold exportCheckpoint exported
  cases cp.vdf with
  | none => simp [proofElapsed]
  | some vdf =>
    simp only [proofElapsed, res_bind_eq_ok, minElapsedTime_eq_ok, Except.ok.injEq,
      Option.mem_some_iff, forall_eq', Option.map_some]
    constructor
    · rintro ⟨_, ⟨_, ⟨hlt, rfl⟩, rfl⟩, rfl⟩
      exact ⟨hlt, rfl⟩
    · rintro ⟨hlt, rfl⟩
      exact ⟨_, ⟨_, ⟨hlt, rfl⟩, rfl⟩, rfl⟩

theorem elapsedNanos_exported (params : Checkpoint.Parameters) (cs : List Checkpoint) :
    elapsedNanos (cs.map (exported params)) = chainNanos params cs := by
  unfold elapsedNanos chainNanos
  rw [List.map_map]
  rfl

theorem proofNanos_le (hcp : cp ∈ cs) {vdf : VdfProof} (hvdf : vdf ∈ cp.vdf) :
    proofNanos params vdf ≤ chainNanos params cs := by
  have hmem : proofNanos params vdf
      ∈ cs.map fun c => (c.vdf.map (proofNanos params)).getD 0 := by
    refine List.mem_map.mpr ⟨cp, hcp, ?_⟩
    rw [Option.mem_def.mp hvdf]
    rfl
  exact List.le_sum_of_mem hmem

theorem mapM_exportCheckpoint {ε : Type} {proofs : List CheckpointProof} :
    cs.mapM (exportCheckpoint (ε := ε) params) = .ok proofs ↔
      (∀ cp ∈ cs, ∀ vdf ∈ cp.vdf, proofNanos params vdf < 2 ^ 64 * 1000000000)
        ∧ proofs = cs.map (exported params) := by
  rw [mapM_eq_ok_iff (g := exported params)
    fun cp proof h => (exportCheckpoint_eq_ok.mp h).2.symm]
  simp only [exportCheckpoint_eq_ok, and_true]

structure ExportedFrom (chain : Chain) (decl : Declaration) (p : Packet) : Prop where
  checkpoints : p.checkpoints = chain.checkpoints.map (exported chain.metadata.vdfParams)
  chainHash : p.chainHash
    = (chain.checkpoints.getLast?.map fun cp => Hex.encode cp.hash.val).getD ""
  finalHash : p.document.finalHash
    = (chain.checkpoints.getLast?.map fun cp => Hex.encode cp.contentHash.val).getD ""
  finalSize : p.document.finalSize
    = (chain.checkpoints.getLast?.map fun cp => cp.contentSize).getD 0
  declared : p.declaration = some decl
  keyHierarchy : p.keyHierarchy = none
  baseline : p.baselineVerification = none

def readyBuilder (now : Int) (title : String) (chain : Chain) (decl : Declaration) : Builder :=
  { packet := { Packet.default now with
      document :=
        { title
          path := chain.metadata.documentPath
          finalHash :=
            (chain.checkpoints.getLast?.map fun cp => Hex.encode cp.contentHash.val).getD ""
          finalSize := (chain.checkpoints.getLast?.map fun cp => cp.contentSize).getD 0 }
      checkpoints := chain.checkpoints.map (exported chain.metadata.vdfParams)
      vdfParams := chain.metadata.vdfParams
      chainHash := (chain.checkpoints.getLast?.map fun cp => Hex.encode cp.hash.val).getD ""
      declaration := some decl }
    errors := [] }

theorem exportPacket_eq {now : Int} {title : String}
    (hdecl : decl.verify C.sha256 C.ed25519 = .ok ()) (p : Packet) :
    exportPacket C now title chain decl = .ok p ↔
      (∀ cp ∈ chain.checkpoints, ∀ vdf ∈ cp.vdf,
          proofNanos chain.metadata.vdfParams vdf < 2 ^ 64 * 1000000000)
        ∧ (readyBuilder now title chain decl).build = .ok p := by
  unfold exportPacket Builder.new Builder.withDeclaration
  simp only [res_bind_eq_ok, mapM_exportCheckpoint, hdecl, Except.ok.injEq]
  constructor
  · rintro ⟨_, ⟨_, ⟨hfits, rfl⟩, rfl⟩, hbuild⟩
    exact ⟨hfits, hbuild⟩
  · rintro ⟨hfits, hbuild⟩
    exact ⟨_, ⟨_, ⟨hfits, rfl⟩, rfl⟩, hbuild⟩

theorem build_readyBuilder (now : Int) (title : String) (chain : Chain) (decl : Declaration) :
    (∀ p, (readyBuilder now title chain decl).build = .ok p → ExportedFrom chain decl p)
      ∧ ((∃ p, (readyBuilder now title chain decl).build = .ok p) ↔
        chainNanos chain.metadata.vdfParams chain.checkpoints < 2 ^ 64 * 1000000000) := by
  have hbuild : ∀ p, (readyBuilder now title chain decl).build = .ok p ↔ ∃ total,
      (readyBuilder now title chain decl).packet.totalElapsedTime (ε := Error) = .ok total
        ∧ { (readyBuilder now title chain decl).packet with
            claims := [chainIntegrityClaim] ++ temporalClaims total ++ [declarationClaim decl]
            limitations := generateLimitations (readyBuilder now title chain decl).packet
            trustTier := some (computeTrustTier (readyBuilder now title chain decl).packet) }
          = p := by
    intro p
    unfold Builder.build generateClaims
    simp only [reject_bind_eq_ok]
    simp only [res_bind_eq_ok, Except.ok.injEq]
    constructor
    · rintro ⟨-, _, ⟨total, htotal, rfl⟩, rfl⟩
      exact ⟨total, htotal, rfl⟩
    · rintro ⟨total, htotal, rfl⟩
      exact ⟨by simp [readyBuilder], _, ⟨total, htotal, rfl⟩, rfl⟩
  constructor
  · intro p hp
    obtain ⟨total, -, rfl⟩ := (hbuild p).mp hp
    exact ⟨rfl, rfl, rfl, rfl, rfl, rfl, rfl⟩
  · rw [← elapsedNanos_exported]
    apply Iff.trans _
      (exists_totalElapsedTime (ε := Error) (p := (readyBuilder now title chain decl).packet))
    constructor
    · rintro ⟨p, hp⟩
      obtain ⟨total, htotal, -⟩ := (hbuild p).mp hp
      exact ⟨total, htotal⟩
    · rintro ⟨total, htotal⟩
      exact ⟨_, (hbuild _).mpr ⟨total, htotal, rfl⟩⟩

/-- The packet passes when its delay proofs are not too long for it. -/
theorem verifySelfSigned_exported_iff {Argon2 : Type} {K : Checkpoint.ChainCrates Argon2}
    (hsha : K.sha256 = C.sha256) {p : Packet} (hdecl : decl.verify C.sha256 C.ed25519 = .ok ())
    (hne : chain.checkpoints ≠ [])
    (hpass : Checkpoint.AllPass K chain.metadata 0 none chain.checkpoints)
    (h : ExportedFrom chain decl p) :
    verifySelfSigned C p = .ok () ↔
      ∀ cp ∈ chain.checkpoints, ∀ vdf ∈ cp.vdf, vdf.iterations ≤ maxVdfIterations := by
  rw [verifySelfSigned_eq_ok]
  constructor
  · intro haccepted cp hcp vdf hvdf
    have hmem : exported chain.metadata.vdfParams cp ∈ p.checkpoints := by
      rw [h.checkpoints]
      exact List.mem_map_of_mem hcp
    obtain ⟨hle, -⟩ :=
      haccepted.vdf _ hmem vdf.iterations (by simp [exported, Option.mem_def.mp hvdf])
      (Hex.encode vdf.input.val) (by simp [exported, Option.mem_def.mp hvdf])
      (Hex.encode vdf.output.val) (by simp [exported, Option.mem_def.mp hvdf])
    exact hle
  · intro hle
    obtain ⟨last, hlast⟩ : ∃ last, chain.checkpoints.getLast? = some last :=
      ⟨_, List.getLast?_eq_some_getLast hne⟩
    -- one goal for each check of the verifier, in its order
    refine ⟨?_, ?_, ?_, ?_, ?_, ?_, ?_, ?_⟩
    · intro cp hcp
      rw [h.checkpoints, List.getLast?_map, hlast] at hcp
      obtain rfl := Option.some.inj hcp
      rw [h.chainHash, h.finalHash, h.finalSize, hlast]
      exact ⟨rfl, rfl, rfl⟩
    · intro hnil
      rw [h.checkpoints, List.map_eq_nil_iff] at hnil
      exact absurd hnil hne
    · intro cp hcp
      rw [h.checkpoints, List.head?_map] at hcp
      obtain ⟨first, -, rfl⟩ := Option.map_eq_some_iff.mp hcp
      exact isHexHash_encode first.previousHash
    · rw [h.checkpoints, List.isChain_map]
      refine hpass.isChain.imp fun a b hab => ?_
      exact congrArg (fun hash : Digest => Hex.encode hash.val) hab
    · intro cp hcp
      rw [h.checkpoints] at hcp
      obtain ⟨c, hc, rfl⟩ := List.mem_map.mp hcp
      intro iterations hiterations inputHex hinput outputHex houtput
      obtain ⟨vdf, hvdf, rfl⟩ := Option.map_eq_some_iff.mp hiterations
      simp only [exported, hvdf, Option.map_some, Option.mem_some_iff] at hinput houtput
      subst hinput houtput
      refine ⟨hle c hc vdf hvdf, vdf.input, vdf.output, Hex.decode_encode _,
        Hex.decode_encode _, ?_⟩
      have hverify := hpass.verify_vdf c hc vdf hvdf
      rw [hsha] at hverify
      exact hverify
    · intro decl' hdecl'
      obtain rfl := Option.some.inj (h.declared.symm.trans hdecl')
      exact hdecl
    · unfold checkKeyHierarchy
      rw [h.keyHierarchy]
    · unfold checkBaseline
      rw [h.baseline]
      rfl

/-- The packet of a valid chain passes when no delay proof is too long for a packet and the
    times of the chain add up. -/
theorem exported_verifies_iff {Argon2 : Type} (C : Crates) (P : Swf.Prims Argon2)
    (dateText : DateTime → String) (now : Int) (title : String) (chain : Chain) (decl : Declaration)
    (report : Checkpoint.VerificationReport)
    (hreport : chain.verifyDetailed (ε := Error)
      { sha256 := C.sha256, documentRefCbor := C.documentRefCbor, argon2 := P, dateText }
        = .ok report)
    (hvalid : report.valid = true) (hdecl : decl.verify C.sha256 C.ed25519 = .ok ()) :
    (∃ p, exportPacket C now title chain decl = .ok p ∧ verifySelfSigned C p = .ok ()) ↔
      (∀ cp ∈ chain.checkpoints, ∀ vdf ∈ cp.vdf, vdf.iterations ≤ maxVdfIterations)
        ∧ ∃ total, chain.totalElapsedTime (ε := Error) = .ok total := by
  obtain ⟨hne, hpass⟩ := valid_iff.mp ⟨report, hreport, hvalid⟩
  obtain ⟨hspec, hbuilt⟩ := build_readyBuilder now title chain decl
  have htotal : (∃ total, chain.totalElapsedTime (ε := Error) = .ok total) ↔
      chainNanos chain.metadata.vdfParams chain.checkpoints < 2 ^ 64 * 1000000000 := by
    unfold Chain.totalElapsedTime
    rw [exists_totalElapsed (by decide), Nat.zero_add]
  rw [htotal]
  constructor
  · rintro ⟨p, hp, hverify⟩
    obtain ⟨-, hbuild⟩ := (exportPacket_eq hdecl p).mp hp
    exact ⟨(verifySelfSigned_exported_iff rfl hdecl hne hpass (hspec p hbuild)).mp hverify,
      hbuilt.mp ⟨p, hbuild⟩⟩
  · rintro ⟨hle, hsum⟩
    obtain ⟨p, hbuild⟩ := hbuilt.mpr hsum
    have hfits : ∀ cp ∈ chain.checkpoints, ∀ vdf ∈ cp.vdf,
        proofNanos chain.metadata.vdfParams vdf < 2 ^ 64 * 1000000000 :=
      fun cp hcp vdf hvdf => Nat.lt_of_le_of_lt (proofNanos_le hcp hvdf) hsum
    exact ⟨p, (exportPacket_eq hdecl p).mpr ⟨hfits, hbuild⟩,
      (verifySelfSigned_exported_iff rfl hdecl hne hpass (hspec p hbuild)).mpr hle⟩

/-! ## A chain with a long delay proof -/

theorem computeChain_sum (hash : Digest) (h : sumCrates.sha256 (sumCrates.sha256 hash.val).val
    = filled 32 0) (n : Nat) :
    computeChain sumCrates.sha256 hash (n + 2) = filled 32 0 := by
  have hzero : ∀ n, computeChain sumCrates.sha256 (filled 32 0) n
      = filled 32 0 := by
    intro n
    induction n with
    | zero => rfl
    | succ n ih => exact ih
  rw [computeChain, computeChain, h, hzero]

def longProof : VdfProof :=
  { input :=
    chainInput sumCrates.sha256 (filled 32 1) (filled 32 0) 0
    output := filled 32 0, iterations := 2000000000, duration := 0 }

theorem verify_longProof : longProof.verify sumCrates.sha256 = true := by
  unfold VdfProof.verify
  have hchain := computeChain_sum longProof.input (by decide +kernel) 1999999998
  rw [show longProof.iterations = 1999999998 + 2 from rfl, hchain]
  rfl

def longCheckpoint : Checkpoint :=
  let unhashed : Checkpoint :=
    { newBase 0 (filled 32 0) (filled 32 1) 40
        (.ofNanos 1700000000000000000) with vdf := some longProof }
  { unhashed with hash := unhashed.computeHash sumCrates.sha256 }

def longChain : Chain :=
  { metadata :=
      { documentPath := "essay.txt", vdfParams := defaultParameters
        entanglementMode := .legacy, signaturePolicy := .optional }
    checkpoints := [longCheckpoint] }

def sumChainCrates : Checkpoint.ChainCrates Unit :=
  { sha256 := sumCrates.sha256, documentRefCbor := sumCrates.documentRefCbor
    argon2 := .idle sumCrates.sha256, dateText := fun _ => "" }

theorem valid_longChain :
    ∃ report, longChain.verifyDetailed (ε := Error) sumChainCrates = .ok report
    ∧ report.valid = true := by
  have hpass : Checkpoint.AllPass sumChainCrates longChain.metadata 0 none
      longChain.checkpoints := by
    refine ⟨?_, trivial⟩
    have hhash : longCheckpoint.computeHash sumCrates.sha256 = longCheckpoint.hash := by
      decide +kernel
    have htime : 0 ≤ longCheckpoint.timestamp.nanos ∧ longCheckpoint.timestamp.nanos < 2 ^ 63 :=
      by decide
    have hnone : ∀ {α : Type} {p : α → Prop}, ∀ x ∈ (none : Option α), p x := by simp
    exact ⟨htime, hnone, hhash, rfl, fun _ => .inr rfl, hnone, fun _ => rfl, hnone,
      ⟨⟨none, rfl, rfl⟩, verify_longProof⟩, hnone, hnone, hnone⟩
  exact valid_iff.mpr ⟨List.cons_ne_nil _ _, hpass⟩

def longDeclaration : Declaration :=
  let unsigned := { Declaration.noAiDeclaration 0 (filled 32 1) (filled 32 7)
      "Essay" "I wrote this." with authorPublicKey := (filled 32 5).val }
  { unsigned with
    signature := (sumCrates.ed25519.sign (filled 32 5)
      (unsigned.signingPayload sumCrates.sha256).val).val }

theorem verify_longDeclaration :
    longDeclaration.verify sumCrates.sha256 sumCrates.ed25519 = .ok () := by
  decide +kernel

theorem exported_verifies_iff_long :
    (∃ p, exportPacket sumCrates 0 "Essay" longChain longDeclaration = .ok p
        ∧ verifySelfSigned sumCrates p = .ok ()) ↔
      (∀ cp ∈ longChain.checkpoints, ∀ vdf ∈ cp.vdf, vdf.iterations ≤ maxVdfIterations)
        ∧ ∃ total, longChain.totalElapsedTime (ε := Error) = .ok total := by
  obtain ⟨report, hreport, hvalid⟩ := valid_longChain
  exact exported_verifies_iff sumCrates (.idle sumCrates.sha256) (fun _ => "") 0 "Essay" longChain
    longDeclaration report hreport hvalid verify_longDeclaration

/-- The chain is valid, its packet is built, and it does not pass. -/
theorem not_verifies_longChain : (∃ report,
      longChain.verifyDetailed (ε := Error) sumChainCrates = .ok report ∧ report.valid = true)
    ∧ longDeclaration.verify sumCrates.sha256 sumCrates.ed25519 = .ok ()
    ∧ ∃ p, exportPacket sumCrates 0 "Essay" longChain longDeclaration = .ok p
      ∧ verifySelfSigned sumCrates p
        = fail (.evidence "checkpoint 0: VDF iterations 2000000000 exceeds safety limit") := by
  refine ⟨valid_longChain, verify_longDeclaration, ?_⟩
  apply exists_ok_of_toOption
  decide +kernel

end Evidence

end WritersProof
