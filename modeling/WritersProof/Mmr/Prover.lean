/-
  `RangeProof::verify` (crates/cpoe/src/mmr/proof.rs).

  The verifier keeps a map from positions to hashes and lifts all of it one
  level at a time.  It does not know the heights of the positions: whether a
  node is a left or a right child is decided by which neighbour is in the map,
  and if none is, by the next element of the sibling path.

  The range verifier treats hashes as black boxes.

  Two runs of `climb`, over hashes of two types, take the same steps when their
  positions and orientations agree.  A relation that hashing keeps then relates
  the entries they end with (`climb_related`).

  Generating proofs: `find_family` and the two walks up the range
  (crates/cpoe/src/mmr/mmr.rs).
-/
import WritersProof.Mmr.Proof
import WritersProof.Lib.OrdMap
import Mathlib.Data.List.Sort

namespace WritersProof.Mmr

open Rust Call

/-- Proof that a contiguous range of leaves is included in the MMR. -/
structure RangeProof (H : Type) where
  startLeaf : Nat
  endLeaf : Nat
  leafIndices : List Nat
  leafHashes : List H
  siblingPath : List (ProofElement H)
  peaks : List H
  peakPosition : Nat
  mmrSize : Nat
  root : H

namespace RangeProof

section Verify

variable {H : Type} [DecidableEq H] (hs : NodeHasher H)

/-- The loop over `leaf_data`; `self.leaf_indices[i]` may be out of range. -/
def checkLeaves : (leafIndices : List Nat) → (leafHashes : List H) → (leafData : List Bytes) →
    Res MmrError Unit
  | _, _, [] => .ok ()
  | index :: indices, hash :: hashes, data :: rest =>
    if hs.hashLeaf index data ≠ hash then fail .hashMismatch
    else checkLeaves indices hashes rest
  | _, _, _ :: _ => abort

/-- What one level of the loop reads and changes. -/
structure Level (H : Type) where
  processed : List Nat
  next : OrdMap H
  siblings : List (ProofElement H)

namespace Level

/-- `processed.insert(pos, true); next.insert(parent_pos, combined);` -/
def put (level : Level H) (pos parentPos : Nat) (combined : H) : Level H :=
  { level with
    processed := pos :: level.processed
    next := level.next.insert parentPos combined }

/-- `processed.insert(sibling, true)` -/
def mark (level : Level H) (sibling : Nat) : Level H :=
  { level with processed := sibling :: level.processed }

/-- Take the next element of the sibling path; without one, carry the node. -/
def useSibling (level : Level H) (pos : Nat) (hash : H) (height ifLeft ifRight : Nat) : Level H :=
  match level.siblings with
  | [] => level.put pos pos hash
  | elem :: siblings =>
    let level := { level with siblings := siblings }
    if elem.isLeft then level.put pos ifLeft (hs.hashInternal (height + 1) elem.hash hash)
    else level.put pos ifRight (hs.hashInternal (height + 1) hash elem.hash)

def lift (peakSet : List Nat) (current : OrdMap H) (height pos : Nat) (level : Level H) :
    Res MmrError (Level H) :=
  if pos ∈ level.processed then .ok level
  else do
    let hash ← unwrap (current.get? pos)
    -- Node already at a peak
    if pos ∈ peakSet then .ok (level.put pos pos hash)
    else do
      let offset := 2 ^ (height + 1)
      let leftParent ← okOr (checkedAdd pos offset) .invalidProof
      let rightSibling ← okOr (checkedSub leftParent 1) .invalidProof
      match current.get? rightSibling with
      | some sibHash =>
        if rightSibling ≠ pos then
          .ok ((level.mark rightSibling).put pos leftParent
            (hs.hashInternal (height + 1) hash sibHash))
        else .ok (level.put pos pos hash)
      | none => do
        let rightParent ← okOr (checkedAdd pos 1) .invalidProof
        if offset ≤ rightParent then
          let leftSibling := rightParent - offset
          match current.get? leftSibling with
          | some sibHash =>
            .ok ((level.mark leftSibling).put pos rightParent
              (hs.hashInternal (height + 1) sibHash hash))
          | none => .ok (level.useSibling hs pos hash height rightParent leftParent)
        else .ok (level.useSibling hs pos hash height leftParent leftParent)

end Level

/-- `for pos in positions` -/
def liftAll (peakSet : List Nat) (current : OrdMap H) (height : Nat) :
    List Nat → Level H → Res MmrError (Level H)
  | [], level => .ok level
  | pos :: rest, level => do
    let level ← level.lift hs peakSet current height pos
    liftAll peakSet current height rest level

/-- The `while` loop; `rounds` is what is left of the 63 levels.  It returns the
    final map and the siblings that were not used. -/
def climb (peakSet : List Nat) (rounds height : Nat) (current : OrdMap H)
    (siblings : List (ProofElement H)) : Res MmrError (OrdMap H × List (ProofElement H)) :=
  if current.length ≤ 1 ∧ siblings = [] then .ok (current, siblings)
  else if (∀ pos ∈ current.keys, pos ∈ peakSet) ∧ siblings = [] then .ok (current, siblings)
  else
    match rounds with
    | 0 => fail .invalidProof
    | rounds + 1 => do
      let level ← liftAll hs peakSet current height current.keys ⟨[], [], siblings⟩
      if level.next = [] then .ok (current, level.siblings)
      else climb peakSet rounds (height + 1) level.next level.siblings

/-- Each remaining entry must match a known peak. -/
def checkPeaks (peakSet : List Nat) (peaks : List H) : OrdMap H → Res MmrError Unit
  | [] => .ok ()
  | (pos, hash) :: rest => do
    let peakIdx ← okOr (peakSet.idxOf? pos) .invalidProof
    if peaks[peakIdx]? = some hash then checkPeaks peakSet peaks rest else fail .invalidProof

def verify (proof : RangeProof H) (leafData : List Bytes) : Res MmrError Unit :=
  if proof.endLeaf < proof.startLeaf then fail .invalidProof
  else do
    let rangeLen ← okOr ((checkedSub proof.endLeaf proof.startLeaf).bind (checkedAdd · 1))
      .invalidProof
    if leafData.length ≠ rangeLen then fail .invalidProof
    else if proof.leafHashes.length ≠ rangeLen then fail .invalidProof
    else do
      checkLeaves hs proof.leafIndices proof.leafHashes leafData
      if proof.leafIndices.length ≠ proof.leafHashes.length then fail .invalidProof
      else if ¬ proof.leafIndices.Nodup then fail .invalidProof
      else do
        let current := (proof.leafIndices.zip proof.leafHashes).foldl
          (fun map p => OrdMap.insert p.1 p.2 map) []
        let peakSet ← findPeaks proof.mmrSize
        let (current, siblings) ← climb hs peakSet 63 0 current proof.siblingPath
        if current = [] then fail .invalidProof
        else if siblings ≠ [] then fail .invalidProof
        else do
          checkPeaks peakSet proof.peaks current
          checkRoot hs proof.peaks proof.root

end Verify

variable {H K : Type}

/-- Hashes in the map are related by `R`, hashes in the path by `S`; whatever is
    hashed from them is fit for the map. -/
structure Respects (hs : NodeHasher H) (ks : NodeHasher K) (R S : H → K → Prop) : Prop where
  of_map : ∀ {a b}, R a b → S a b
  internal : ∀ height {a b c d}, S a b → S c d →
    R (hs.hashInternal height a c) (ks.hashInternal height b d)

/-- The same orientations, with related hashes. -/
def RelatedPaths (S : H → K → Prop) : List (ProofElement H) → List (ProofElement K) → Prop :=
  List.Forall₂ fun x y => x.isLeft = y.isLeft ∧ S x.hash y.hash

theorem eq_nil_iff_of_forall₂ {α β : Type} {r : α → β → Prop} {xs : List α} {ys : List β}
    (h : List.Forall₂ r xs ys) : xs = [] ↔ ys = [] := by
  rw [← List.length_eq_zero_iff, ← List.length_eq_zero_iff, h.length_eq]

/-- Two levels in the same state. -/
structure RelatedLevels (R S : H → K → Prop) (a : Level H) (b : Level K) : Prop where
  processed_eq : a.processed = b.processed
  next : OrdMap.Related R a.next b.next
  siblings : RelatedPaths S a.siblings b.siblings

variable {hs : NodeHasher H} {ks : NodeHasher K} {R S : H → K → Prop} {a : Level H} {b : Level K}
  {x : H} {y : K} {peakSet : List Nat} {current : OrdMap H} {current' : OrdMap K}

theorem RelatedLevels.put (h : RelatedLevels R S a b) (pos parentPos : Nat) (hxy : R x y) :
    RelatedLevels R S (a.put pos parentPos x) (b.put pos parentPos y) where
  processed_eq := congrArg _ h.processed_eq
  next := h.next.insert parentPos hxy
  siblings := h.siblings

theorem RelatedLevels.mark (h : RelatedLevels R S a b) (sibling : Nat) :
    RelatedLevels R S (a.mark sibling) (b.mark sibling) where
  processed_eq := congrArg _ h.processed_eq
  next := h.next
  siblings := h.siblings

variable (hresp : Respects hs ks R S)

include hresp

theorem RelatedLevels.useSibling (h : RelatedLevels R S a b) (pos height ifLeft ifRight : Nat)
    (hxy : R x y) :
    RelatedLevels R S (a.useSibling hs pos x height ifLeft ifRight)
      (b.useSibling ks pos y height ifLeft ifRight) := by
  obtain ⟨processed, next, siblings⟩ := a
  obtain ⟨processed', next', siblings'⟩ := b
  obtain ⟨hproc, hnext, hpath⟩ := h
  dsimp only at hproc hnext hpath
  subst hproc
  cases hpath with
  | nil =>
    have hlevel : RelatedLevels R S ⟨processed, next, []⟩ ⟨processed, next', []⟩ :=
      ⟨rfl, hnext, .nil⟩
    exact hlevel.put pos pos hxy
  | @cons elem elem' rest rest' helem hrest =>
    obtain ⟨hside, hhash⟩ := helem
    rw [Level.useSibling, Level.useSibling]
    dsimp only
    rw [hside]
    have hlevel : RelatedLevels R S ⟨processed, next, rest⟩ ⟨processed, next', rest'⟩ :=
      ⟨rfl, hnext, hrest⟩
    split
    · exact hlevel.put _ _ (hresp.internal _ hhash (hresp.of_map hxy))
    · exact hlevel.put _ _ (hresp.internal _ (hresp.of_map hxy) hhash)

theorem lift_related (hcur : OrdMap.Related R current current') (height pos : Nat)
    (h : RelatedLevels R S a b) :
    SameOutcome (RelatedLevels R S) (a.lift hs peakSet current height pos)
      (b.lift ks peakSet current' height pos) := by
  rw [Level.lift, Level.lift, h.processed_eq]
  refine .ite (fun _ => h) fun _ => ?_
  have hhash : SameOutcome (ε := MmrError) R (unwrap (current.get? pos))
      (unwrap (current'.get? pos)) := by
    have hget := hcur.get? pos
    generalize current.get? pos = found at hget ⊢
    generalize current'.get? pos = found' at hget ⊢
    cases hget with
    | some hr => exact hr
    | none => exact rfl
  refine hhash.bind fun x y hxy => ?_
  refine .ite (fun _ => h.put pos pos hxy) fun _ => ?_
  dsimp only
  refine SameOutcome.refl.bind ?_
  rintro leftParent _ rfl
  refine SameOutcome.refl.bind ?_
  rintro rightSibling _ rfl
  have hright := hcur.get? rightSibling
  generalize current.get? rightSibling = found at hright ⊢
  generalize current'.get? rightSibling = found' at hright ⊢
  cases hright with
  | @some sib sib' hsib =>
    dsimp only
    refine .ite (fun _ => ?_) fun _ => h.put pos pos hxy
    exact (h.mark rightSibling).put pos leftParent
      (hresp.internal _ (hresp.of_map hxy) (hresp.of_map hsib))
  | none =>
    dsimp only
    refine SameOutcome.refl.bind ?_
    rintro rightParent _ rfl
    refine .ite (fun _ => ?_) fun _ => h.useSibling hresp pos height leftParent leftParent hxy
    have hleft := hcur.get? (rightParent - 2 ^ (height + 1))
    generalize current.get? (rightParent - 2 ^ (height + 1)) = found at hleft ⊢
    generalize current'.get? (rightParent - 2 ^ (height + 1)) = found' at hleft ⊢
    cases hleft with
    | @some sib sib' hsib =>
      exact (h.mark _).put pos rightParent (hresp.internal _ (hresp.of_map hsib) (hresp.of_map hxy))
    | none => exact h.useSibling hresp pos height rightParent leftParent hxy

theorem liftAll_related (hcur : OrdMap.Related R current current') (height : Nat) (xs : List Nat) :
    ∀ {a : Level H} {b : Level K}, RelatedLevels R S a b →
      SameOutcome (RelatedLevels R S) (liftAll hs peakSet current height xs a)
        (liftAll ks peakSet current' height xs b) := by
  induction xs with
  | nil => exact fun h => h
  | cons x xs ih =>
    intro a b h
    exact (lift_related hresp hcur height x h).bind fun _ _ => ih

theorem climb_related {peakSet : List Nat} :
    ∀ rounds {height : Nat} {current : OrdMap H} {current' : OrdMap K}
      {siblings : List (ProofElement H)} {siblings' : List (ProofElement K)},
      OrdMap.Related R current current' → RelatedPaths S siblings siblings' →
      SameOutcome (fun x y => OrdMap.Related R x.1 y.1 ∧ RelatedPaths S x.2 y.2)
        (climb hs peakSet rounds height current siblings)
        (climb ks peakSet rounds height current' siblings') := by
  intro rounds
  induction rounds with
  | zero =>
    intro height current current' siblings siblings' hcur hpath
    have hlen := hcur.length_eq
    have hnil := eq_nil_iff_of_forall₂ hpath
    rw [climb.eq_def, climb.eq_def, hcur.keys_eq, hlen]
    simp only [hnil]
    exact .ite (fun _ => ⟨hcur, hpath⟩) fun _ => .ite (fun _ => ⟨hcur, hpath⟩) fun _ => rfl
  | succ rounds ih =>
    intro height current current' siblings siblings' hcur hpath
    have hlen := hcur.length_eq
    have hnil := eq_nil_iff_of_forall₂ hpath
    rw [climb.eq_def, climb.eq_def, hcur.keys_eq, hlen]
    simp only [hnil]
    refine .ite (fun _ => ⟨hcur, hpath⟩) fun _ => .ite (fun _ => ⟨hcur, hpath⟩) fun _ => ?_
    have hlevel : RelatedLevels R S ⟨[], [], siblings⟩ ⟨[], [], siblings'⟩ :=
      ⟨rfl, List.Forall₂.nil, hpath⟩
    refine (liftAll_related hresp hcur height _ hlevel).bind ?_
    intro level level' hlevel
    have hempty := eq_nil_iff_of_forall₂ hlevel.next
    simp only [hempty]
    exact .ite (fun _ => ⟨hcur, hlevel.siblings⟩) fun _ => ih hlevel.next hlevel.siblings

end RangeProof

set_option linter.dupNamespace false

open MountainRange

structure Family where
  siblingPos : Nat
  parentPos : Nat
  isRightChild : Bool

namespace Mmr

variable {S H : Type} [Store S H]

/-- The check that both branches of `find_family` make: the candidates for the
    sibling and the parent are there and have the heights they should have. -/
def familyAt (pos siblingPos parentPos height size : Nat) (isRightChild : Bool) :
    Call (Mmr S H) MmrError (Option Family) :=
  if siblingPos < size ∧ siblingPos ≠ pos then do
    let sibling ← onStore (Store.get siblingPos)
    if sibling.height = height ∧ parentPos < size then do
      let parent ← onStore (Store.get parentPos)
      if parent.height = height + 1 then pure (some ⟨siblingPos, parentPos, isRightChild⟩)
      else pure none
    else pure none
  else pure none

/-- Sibling and parent of a node, `none` when nothing was found. -/
def findFamily (pos height size : Nat) : Call (Mmr S H) MmrError (Option Family) :=
  if 63 ≤ height then pure none
  else
    let offset := 2 ^ (height + 1)
    match checkedAdd pos offset with
    | none => pure none
    | some leftParent => do
      match ← familyAt pos (leftParent - 1) leftParent height size false with
      | some family => pure (some family)
      | none =>
        match checkedAdd pos 1 with
        | none => pure none
        | some rightParent =>
          if offset ≤ rightParent then
            familyAt pos (rightParent - offset) rightParent height size true
          else pure none

/-- The loop of `generate_merkle_path`.  `find_family` finds nothing from
    height 63 on, so 64 rounds are enough. -/
def merklePathLoop (size : Nat) :
    (rounds pos height : Nat) → Call (Mmr S H) MmrError (List (ProofElement H) × Nat)
  | 0, _, _ => lift abort
  | rounds + 1, pos, height => do
    match ← findFamily pos height size with
    | none => pure ([], pos)
    | some family => do
      let sibling ← onStore (Store.get family.siblingPos)
      let (path, peak) ← merklePathLoop size rounds family.parentPos (height + 1)
      pure (⟨sibling.hash, family.isRightChild⟩ :: path, peak)

def generateMerklePath (leafIndex size : Nat) :
    Call (Mmr S H) MmrError (List (ProofElement H) × Nat) := do
  let node ← onStore (Store.get leafIndex)
  merklePathLoop size 64 leafIndex node.height

def generateProof (hs : NodeHasher H) (leafIndex : Nat) :
    Call (Mmr S H) MmrError (InclusionProof H) := do
  let size ← asks (·.state.size)
  lift (if size = 0 then fail .empty else .ok ())
  lift (if size ≤ leafIndex then fail .indexOutOfRange else .ok ())
  let node ← onStore (Store.get leafIndex)
  lift (if node.height ≠ 0 then fail .invalidProof else .ok ())
  let (path, peakIndex) ← generateMerklePath leafIndex size
  let m ← asks id
  let peaks ← lift m.getPeaks
  let peakIndices ← lift (findPeaks size)
  let peakPosition ← lift (okOr (peakIndices.idxOf? peakIndex) .invalidProof)
  let root ← lift (m.getRoot hs)
  pure {
    leafIndex, leafHash := node.hash, merklePath := path, peaks, peakPosition, mmrSize := size,
    root }

/-! ## Range proofs -/

/-- What one level of `generate_range_merkle_path` reads and changes. -/
structure RangeLevel (H : Type) where
  covered : List Nat
  path : List (ProofElement H)
  processedParents : List Nat
  nextLevel : List Nat
  peakIndex : Nat

/-- `path.push(..)`, unless the sibling is covered. -/
def pushSibling (family : Family) (level : RangeLevel H) :
    Call (Mmr S H) MmrError (List (ProofElement H)) :=
  if family.siblingPos ∈ level.covered then pure level.path
  else do
    let sibling ← onStore (Store.get family.siblingPos)
    pure (level.path ++ [⟨sibling.hash, family.isRightChild⟩])

/-- The body of the `for` loop. -/
def rangeStep (height size : Nat) (pos : Nat) (level : RangeLevel H) :
    Call (Mmr S H) MmrError (RangeLevel H) := do
  match ← findFamily pos height size with
  | none => pure { level with peakIndex := pos }
  | some family =>
    if family.parentPos ∈ level.processedParents then pure level
    else do
      let path ← pushSibling family level
      pure { level with
        path := path
        processedParents := family.parentPos :: level.processedParents
        covered := family.parentPos :: level.covered
        nextLevel := level.nextLevel ++ [family.parentPos] }

def rangeLevel (height size : Nat) :
    List Nat → RangeLevel H → Call (Mmr S H) MmrError (RangeLevel H)
  | [], level => pure level
  | pos :: rest, level => do
    let level ← rangeStep height size pos level
    rangeLevel height size rest level

/-- The `while` loop; `rounds` is what is left of the 64 levels. -/
def rangePathLoop (size : Nat) :
    (rounds height : Nat) → (currentLevel : List Nat) → RangeLevel H →
      Call (Mmr S H) MmrError (List (ProofElement H) × Nat)
  | 0, _, currentLevel, level =>
    if currentLevel = [] then pure (level.path, level.peakIndex) else lift (fail .invalidProof)
  | rounds + 1, height, currentLevel, level =>
    if currentLevel = [] then pure (level.path, level.peakIndex)
    else do
      let level ← rangeLevel height size (currentLevel.insertionSort (· ≤ ·))
        { level with processedParents := [], nextLevel := [] }
      rangePathLoop size rounds (height + 1) level.nextLevel level

def generateRangeMerklePath (leafIndices : List Nat) (size : Nat) :
    Call (Mmr S H) MmrError (List (ProofElement H) × Nat) :=
  if leafIndices = [] then lift (fail .invalidProof)
  else rangePathLoop size 64 0 leafIndices ⟨leafIndices, [], [], [], 0⟩

def loadHashes : List Nat → Call (Mmr S H) MmrError (List H)
  | [] => pure []
  | idx :: rest => do
    let node ← onStore (Store.get idx)
    let hashes ← loadHashes rest
    pure (node.hash :: hashes)

def generateRangeProof (hs : NodeHasher H) (startLeaf endLeaf : Nat) :
    Call (Mmr S H) MmrError (RangeProof H) := do
  let size ← asks (·.state.size)
  lift (if size = 0 then fail .empty else .ok ())
  lift (if endLeaf < startLeaf then fail .invalidProof else .ok ())
  let leafCount ← lift (leafCountFromSize size)
  lift (if leafCount ≤ endLeaf then fail .indexOutOfRange else .ok ())
  let m ← asks id
  let leafIndices ← lift (m.getLeafIndices startLeaf endLeaf)
  let leafHashes ← loadHashes leafIndices
  let (siblingPath, peakIndex) ← generateRangeMerklePath leafIndices size
  let peaks ← lift m.getPeaks
  let peakIndices ← lift (findPeaks size)
  let peakPosition ← lift (okOr (peakIndices.idxOf? peakIndex) .invalidProof)
  let root ← lift (m.getRoot hs)
  pure {
    startLeaf, endLeaf, leafIndices, leafHashes, siblingPath, peaks, peakPosition,
    mmrSize := size, root }

end Mmr

end WritersProof.Mmr
