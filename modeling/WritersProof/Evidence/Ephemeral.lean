/-
  WritersProof.Evidence.Ephemeral

  Packets of ephemeral sessions (crates/cpoe/src/evidence/builder/helpers.rs).

  The checkpoints are linked as a packet needs them, but what is given as the hash of their
  chain is the last content hash: a packet of a session passes when its last checkpoint
  happens to hash to that.
-/
import WritersProof.Evidence.Verification
import WritersProof.Lib.HashChain

namespace WritersProof.Evidence

open Rust Declaration Hex
open Checkpoint (Digest)

structure EphemeralSnapshot where
  timestampNs : Int
  contentHash : Digest
  charCount : Nat

def shortHexId (hash : Digest) : String := encode (hash.val.take 8)

def nsElapsed (endNs startNs : Int) : Nat := (min (endNs - startNs) (2 ^ 63 - 1)).toNat

def nsToSecs (nanos : Nat) : Rat := Binary64.div (Binary64.ofNat nanos) 1000000000

def zeroHash : Digest := FixedBytes.filled 32 0

section Defs

variable (C : Crates)

def ephemeralInput (i : Nat) (prevHash : String) (snap : EphemeralSnapshot) : Bytes :=
  Bytes.utf8 "cpoe-checkpoint-v1" ++ Bytes.toBE 8 i
    ++ (decode prevHash).getD (List.replicate 32 0) ++ snap.contentHash.val
    ++ Bytes.toBE 8 snap.charCount ++ Bytes.toBE 8 snap.timestampNs.toNat

def ephemeralCheckpoint (i : Nat) (prevHash : String) (snap : EphemeralSnapshot) :
    CheckpointProof :=
  { ordinal := i
    contentHash := encode snap.contentHash.val
    contentSize := snap.charCount
    timestamp := .ofNanos snap.timestampNs
    vdfInput := none, vdfOutput := none, vdfIterations := none, elapsedTime := none
    previousHash := prevHash
    hash := encode (C.sha256 (ephemeralInput i prevHash snap)).val
    signature := none }

/-- `for (i, snap) in snapshots.iter().enumerate() { ... }` -/
def ephemeralCheckpoints : Nat → String → List EphemeralSnapshot → List CheckpointProof
  | _, _, [] => []
  | i, prevHash, snap :: snaps =>
    let cp := ephemeralCheckpoint C i prevHash snap
    cp :: ephemeralCheckpoints (i + 1) cp.hash snaps

/-- Keystroke evidence of a session with jitter intervals. -/
def ephemeralKeystroke (docHash : Digest) (snapshots : List EphemeralSnapshot)
    (jitterIntervals : List Nat) (keystrokeCount : Nat) : Option KeystrokeEvidence :=
  if jitterIntervals.isEmpty then none
  else
    let started := (snapshots.head?.map fun s => s.timestampNs).getD 0
    let ended := (snapshots.getLast?.map fun s => s.timestampNs).getD 0
    let elapsed := nsElapsed ended started
    let secs := nsToSecs elapsed
    let kpm := if 0 < secs
      then Binary64.mul (Binary64.div (Binary64.ofNat keystrokeCount) secs) 60 else 0
    some {
      sessionId := shortHexId docHash
      startedAt := .ofNanos started
      endedAt := .ofNanos ended
      duration := elapsed
      totalKeystrokes := keystrokeCount
      totalSamples := min jitterIntervals.length (2 ^ 31 - 1)
      keystrokesPerMinute := kpm
      uniqueDocStates := min snapshots.length (2 ^ 31 - 1)
      chainValid := !snapshots.isEmpty
      plausibleHumanRate := (1 ≤ kpm ∧ kpm ≤ 600) ∨ keystrokeCount < 10 }

def ephemeralClaims (keystroke : Option KeystrokeEvidence) : List Claim :=
  [{ claimType := .chainIntegrity
     description := "Content states form an unbroken cryptographic chain"
     confidence := "cryptographic" }]
    ++ (if keystroke.any fun k => k.plausibleHumanRate then
        [{ claimType := .keystrokesVerified
           description := "Keystroke timing consistent with human input"
           confidence := "statistical" }]
      else [])
    ++ [{ claimType := .processDeclared
          description := "Author declaration recorded and signed"
          confidence := "cryptographic" }]

def ephemeralLimitations (keystroke : Option KeystrokeEvidence) : List String :=
  ["No VDF time-binding proofs (ephemeral session)", "No hardware attestation available"]
    ++ if keystroke.isNone then ["No keystroke timing data collected"] else []

def ephemeralPacket (exportedAt : Int) (finalHashHex contextLabel : String)
    (docHash chainHash : Digest) (declaration : Declaration)
    (snapshots : List EphemeralSnapshot) (jitterIntervals : List Nat) (keystrokeCount : Nat) :
    Packet :=
  let keystroke := ephemeralKeystroke docHash snapshots jitterIntervals keystrokeCount
  { Packet.default exportedAt with
    document :=
      { title := contextLabel
        path := "ephemeral://" ++ shortHexId docHash
        finalHash := finalHashHex
        finalSize := (snapshots.getLast?.map fun s => s.charCount).getD 0 }
    checkpoints := ephemeralCheckpoints C 0 (encode zeroHash.val) snapshots
    chainHash := encode chainHash.val
    declaration := some declaration
    keystroke
    claims := ephemeralClaims keystroke
    limitations := ephemeralLimitations keystroke }

/-- `build_ephemeral_packet`, with the times at which declaration and packet are made -/
def buildEphemeralPacket (oneDigit : Rat → String) (declaredAt exportedAt : Int)
    (finalHashHex statement contextLabel : String) (snapshots : List EphemeralSnapshot)
    (seed : Digest) (jitterIntervals : List Nat) (keystrokeCount : Nat) : Res Error Packet := do
  let finalHash ← mapErr (C.hexDecode finalHashHex)
    fun e => .evidence ("invalid final hash: " ++ e)
  let docHash ← okOr (FixedBytes.tryFrom 32 finalHash)
    (.evidence s!"final hash must be 32 bytes, got {finalHash.length}")
  let chainHash := (snapshots.getLast?.map fun s => s.contentHash).getD zeroHash
  let declaration ← mapFault
    (sign C.sha256 oneDigit
      (noAiDeclaration declaredAt docHash chainHash contextLabel statement)
      (Ed25519Signer C.ed25519 seed))
    fun e => .evidence ("declaration signing failed: " ++ e.text)
  .ok (ephemeralPacket C exportedAt finalHashHex contextLabel docHash chainHash declaration
    snapshots jitterIntervals keystrokeCount)

end Defs

variable {C : Crates}

/-! ## Checkpoints -/

theorem length_ephemeralCheckpoints (i : Nat) (prevHash : String)
    (snaps : List EphemeralSnapshot) :
    (ephemeralCheckpoints C i prevHash snaps).length = snaps.length := by
  induction snaps generalizing i prevHash with
  | nil => rfl
  | cons snap snaps ih => rw [ephemeralCheckpoints, List.length_cons, List.length_cons, ih]

theorem linked_ephemeralCheckpoints (i : Nat) (prevHash : String)
    (snaps : List EphemeralSnapshot) :
    HashChain.Linked CheckpointProof.previousHash CheckpointProof.hash prevHash
      (ephemeralCheckpoints C i prevHash snaps) := by
  induction snaps generalizing i prevHash with
  | nil => exact HashChain.linked_nil prevHash
  | cons snap snaps ih => exact HashChain.linked_cons.mpr ⟨rfl, ih (i + 1) _⟩

variable {snaps snapshots : List EphemeralSnapshot} {statement : String} {seed : Digest}
  {p : Packet} {declaration : Declaration}

theorem mem_ephemeralCheckpoints {i : Nat} {prevHash : String} {cp : CheckpointProof}
    (h : cp ∈ ephemeralCheckpoints C i prevHash snaps) :
    ∃ j prev, ∃ snap ∈ snaps, cp = ephemeralCheckpoint C j prev snap := by
  induction snaps generalizing i prevHash with
  | nil => cases h
  | cons snap snaps ih =>
    rcases List.mem_cons.mp h with rfl | h
    · exact ⟨i, prevHash, snap, List.mem_cons_self, rfl⟩
    · obtain ⟨j, prev, snap', hsnap', hcp⟩ := ih h
      exact ⟨j, prev, snap', List.mem_cons_of_mem _ hsnap', hcp⟩

variable {last : EphemeralSnapshot}

theorem getLast?_ephemeralCheckpoints (i : Nat) (prevHash : String)
    (h : snaps.getLast? = some last) :
    ∃ j prev, (ephemeralCheckpoints C i prevHash snaps).getLast?
      = some (ephemeralCheckpoint C j prev last) := by
  induction snaps generalizing i prevHash with
  | nil => cases h
  | cons snap snaps ih =>
    cases snaps with
    | nil =>
      obtain rfl := Option.some.inj h
      exact ⟨i, prevHash, rfl⟩
    | cons snap' snaps =>
      rw [List.getLast?_cons_cons] at h
      obtain ⟨j, prev, hlast⟩ := ih (i + 1) _ h
      refine ⟨j, prev, ?_⟩
      rw [ephemeralCheckpoints, ephemeralCheckpoints, List.getLast?_cons_cons]
      exact hlast

/-! ## Packets -/

theorem percentageSum_hundred :
    percentageSum 0
      [{ modalityType := .keyboard, percentage := hundred, note := none }]
      = .ok 100 := by
  decide +kernel

theorem validate_noAiDeclaration (oneDigit : Rat → String) (now : Int) {docHash chainHash : Digest}
    {title : String} (hdoc : docHash ≠ zeroHash) (hchain : chainHash ≠ zeroHash)
    (htitle : title ≠ "") (hstatement : statement ≠ "") :
    validate oneDigit
      (noAiDeclaration now docHash chainHash title statement) = .ok () := by
  have hsum : ¬((100 : Rat) < 95 ∨ (105 : Rat) < 100) := by decide +kernel
  unfold validate noAiDeclaration
  simp only [reject_bind_eq_ok, percentageSum_hundred, res_ok_bind, reject_eq_ok]
  refine ⟨hdoc, hchain, ?_, ?_, ?_, hsum⟩
  · simpa using htitle
  · simp
  · simpa using hstatement

/-- What a session's packet comes to. -/
structure BuiltFrom (C : Crates) (seed : Digest) (snapshots : List EphemeralSnapshot)
    (last : EphemeralSnapshot) (p : Packet) (declaration : Declaration) : Prop where
  checkpoints : p.checkpoints = ephemeralCheckpoints C 0 (encode zeroHash.val) snapshots
  chainHash : p.chainHash = encode last.contentHash.val
  finalHash : p.document.finalHash = encode last.contentHash.val
  finalSize : p.document.finalSize = last.charCount
  declared : p.declaration = some declaration
  verified : declaration.verify C.sha256 C.ed25519 = .ok ()
  author : declaration.authorPublicKey = (C.ed25519.publicKey seed).val
  keyHierarchy : p.keyHierarchy = none
  baseline : p.baselineVerification = none
  beacon : p.beaconAttestation = none

theorem exists_buildEphemeralPacket (hE : C.ed25519.Correct) {oneDigit : Rat → String}
    {declaredAt exportedAt : Int} {label : String} {jitterIntervals : List Nat}
    {keystrokeCount : Nat} (hlast : snapshots.getLast? = some last)
    (hhash : last.contentHash ≠ zeroHash) (hstatement : statement ≠ "") (hlabel : label ≠ "") :
    ∃ p declaration, buildEphemeralPacket C oneDigit declaredAt exportedAt
        (encode last.contentHash.val) statement label snapshots seed jitterIntervals
        keystrokeCount = .ok p
      ∧ BuiltFrom C seed snapshots last p declaration := by
  have hvalid := validate_noAiDeclaration oneDigit declaredAt hhash hhash hlabel hstatement
  have hsign : ∃ declaration, sign C.sha256 oneDigit
      (noAiDeclaration declaredAt last.contentHash last.contentHash label statement)
      (Ed25519Signer C.ed25519 seed) = .ok declaration
        ∧ declaration.authorPublicKey = (C.ed25519.publicKey seed).val := by
    unfold sign
    rw [hvalid]
    exact ⟨_, rfl, rfl⟩
  obtain ⟨declaration, hdeclaration, hauthor⟩ := hsign
  refine ⟨ephemeralPacket C exportedAt (encode last.contentHash.val) label last.contentHash
    last.contentHash declaration snapshots jitterIntervals keystrokeCount, declaration, ?_,
    ⟨rfl, rfl, rfl, ?_, rfl, verify_of_sign hE hdeclaration, hauthor, rfl, rfl, rfl⟩⟩
  · have hdecode : C.hexDecode (encode last.contentHash.val) = .ok last.contentHash.val :=
      Crates.hexDecode_eq_ok.mpr (decode_encode _)
    rw [buildEphemeralPacket, mapErr_eq_ok.mpr hdecode, res_ok_bind, FixedBytes.tryFrom_val,
      okOr_some, res_ok_bind, hlast]
    simp only [Option.map_some, Option.getD_some]
    rw [mapFault_eq_ok.mpr hdeclaration, res_ok_bind]
  · simp [ephemeralPacket, hlast]

/-- A session's packet passes when the hash of its last checkpoint is its last content
    hash: all other rules are kept. -/
theorem verifySelfSigned_built_iff (hlast : snapshots.getLast? = some last)
    (h : BuiltFrom C seed snapshots last p declaration) :
    verifySelfSigned C p = .ok () ↔
      ∀ cp ∈ p.checkpoints.getLast?, cp.hash = encode last.contentHash.val := by
  rw [verifySelfSigned_eq_ok]
  obtain ⟨j, prev, hlastCp⟩ := getLast?_ephemeralCheckpoints (C := C) 0
    (encode zeroHash.val) hlast
  rw [← h.checkpoints] at hlastCp
  constructor
  · intro haccepted cp hcp
    rw [← (haccepted.document cp hcp).1, h.chainHash]
  · intro hhash
    have hne : p.checkpoints ≠ [] := by
      rintro hnil
      rw [hnil] at hlastCp
      cases hlastCp
    refine ⟨?_, fun hnil => absurd hnil hne, ?_, ?_, ?_, ?_, ?_, ?_⟩
    · intro cp hcp
      obtain rfl := Option.some.inj (hlastCp.symm.trans hcp)
      exact ⟨h.chainHash.trans (hhash _ hcp).symm, h.finalHash, h.finalSize⟩
    · intro cp hcp
      rw [h.checkpoints] at hcp
      cases snapshots with
      | nil => cases hcp
      | cons snap snapshots =>
        obtain rfl := Option.some.inj hcp
        exact isHexHash_encode zeroHash
    · rw [h.checkpoints]
      exact (linked_ephemeralCheckpoints 0 _ snapshots).isChain
    · intro cp hcp iterations hiterations
      rw [h.checkpoints] at hcp
      obtain ⟨_, _, snap, -, rfl⟩ := mem_ephemeralCheckpoints hcp
      cases hiterations
    · rintro decl hdecl
      obtain rfl := Option.some.inj (h.declared.symm.trans hdecl)
      exact h.verified
    · unfold checkKeyHierarchy
      rw [h.keyHierarchy]
    · unfold checkBaseline
      rw [h.baseline]
      rfl

/-- With one snapshot: when its content hash is the hash of the checkpoint that has it. -/
theorem verifySelfSigned_single_iff {snap : EphemeralSnapshot}
    (h : BuiltFrom C seed [snap] snap p declaration) :
    verifySelfSigned C p = .ok () ↔
      C.sha256 (ephemeralInput 0 (encode zeroHash.val) snap) = snap.contentHash := by
  have hlast : p.checkpoints.getLast?
      = some (ephemeralCheckpoint C 0 (encode zeroHash.val) snap) := by
    rw [h.checkpoints]
    rfl
  rw [verifySelfSigned_built_iff rfl h, hlast]
  simp only [Option.mem_some_iff, forall_eq', ephemeralCheckpoint]
  constructor
  · intro heq
    exact FixedBytes.ext_val (encode_injective heq)
  · intro heq
    rw [heq]

end WritersProof.Evidence
