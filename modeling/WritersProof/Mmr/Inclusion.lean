/-
  Inclusion proofs are complete and sound.

  Complete: the walk of the prover climbs from the leaf to its peak, and the
  verifier's fold over the same path recomputes the hashes of the climb.
  Sound: a fold that ends in the hash of a block has started in the hash of a
  block inside, whatever the path is.
-/
import WritersProof.Mmr.Family
import WritersProof.Mmr.Bagging

namespace WritersProof.Mmr

open Rust MountainRange InclusionProof Call

variable {H : Type} {hs : NodeHasher H} {data : List Bytes} {indices : List Nat}
  {m : Mmr (MemoryStore H) H}

/-- `m` was built by appending the leaves `data`, which got the given indices. -/
def Built (hs : NodeHasher H) (data : List Bytes) (indices : List Nat)
    (m : Mmr (MemoryStore H) H) : Prop :=
  Mmr.appendAll hs data Mmr.empty = (.ok indices, m)

theorem Built.represents (hbuilt : Built hs data indices m) :
    Represents hs data m ∧ indices = (List.range data.length).map size := by
  have hrun := Mmr.appendAll_represents data (@Mmr.represents_nil _ hs)
  rw [List.length_nil, Nat.zero_add, List.nil_append, ← List.range_eq_range'] at hrun
  by_cases hfit : size data.length ≤ MemoryStore.maxNodes
  · rw [if_pos hfit, hbuilt] at hrun
    obtain ⟨m', hrun, hrep⟩ := hrun
    cases hrun
    exact ⟨hrep, rfl⟩
  · rw [if_neg hfit, hbuilt] at hrun
    obtain ⟨m', hrun⟩ := hrun
    cases hrun

theorem Built.index_eq (hbuilt : Built hs data indices m) {k : Nat} (hk : k < data.length) :
    indices[k]? = some (size k) := by
  rw [hbuilt.represents.2, List.getElem?_map, List.getElem?_range hk]
  rfl

def ofLeaves (hs : NodeHasher H) (data : List Bytes) : Mmr (MemoryStore H) H :=
  (Mmr.appendAll hs data Mmr.empty).2

def threeLeaves : List Bytes := [[1], [2], [3]]

/-- The source's hasher over a function that keeps the last 32 bytes. -/
def sampleHasher : NodeHasher Hash32 :=
  sha256Hasher fun data => Bytes.ofNat hashSize (Bytes.ofBE data)

/-! ## Completeness -/

namespace Represents

/-- The walk from a block ends at its peak, and folding its path gives the
    hash of the peak. -/
theorem merklePathLoop_eq (hm : Represents hs data m) :
    ∀ rounds {h j : Nat}, (j + 1) * 2 ^ h ≤ data.length → 64 ≤ h + rounds →
      ∃ path H' J, Mmr.merklePathLoop (size data.length) rounds (pos h j) h m
          = (.ok (path, pos H' J), m)
        ∧ (H', J) ∈ peaks data.length ∧ H' = h + path.length
        ∧ foldPath hs (h + 1) (subtreeHash hs data h j) path
            = subtreeHash hs data H' J := by
  intro rounds
  induction rounds with
  | zero =>
    intro h j hle hrounds
    have := hm.height_lt hle
    omega
  | succ rounds ih =>
    intro h j hle hrounds
    have hheight := hm.height_lt hle
    have hfamily := hm.findFamily_eq hle
    have hsat : min (h + 1 + 1) 255 = h + 1 + 1 := by omega
    rw [Mmr.merklePathLoop, bind_of_ok hfamily, blockFamily]
    by_cases hodd : j % 2 = 1
    · -- a right child: the sibling is on the left
      have hprev : (j - 1 + 1) * 2 ^ h ≤ data.length :=
        Nat.le_trans (Nat.mul_le_mul_right _ (by omega)) hle
      have hup : (j / 2 + 1) * 2 ^ (h + 1) ≤ data.length := by
        rw [block_succ, show 2 * (j / 2) + 1 + 1 = j + 1 by omega]
        exact hle
      obtain ⟨path, H', J, hrun, hpeak, hlen, hfold⟩ := ih hup (by omega)
      have hparent : subtreeHash hs data (h + 1) (j / 2)
          = hs.hashInternal (h + 1) (subtreeHash hs data h (j - 1)) (subtreeHash hs data h j) := by
        rw [subtreeHash, show 2 * (j / 2) = j - 1 by omega, show j - 1 + 1 = j by omega]
      rw [if_pos hodd]
      dsimp only
      rw [bind_of_ok (Mmr.onStore_get (hm.node_at hprev)), bind_of_ok hrun]
      refine ⟨_, H', J, rfl, hpeak, ?_, ?_⟩
      · change H' = h + (path.length + 1)
        omega
      · rw [foldPath, hsat, if_pos rfl, ← hfold, hparent]
        rfl
    · rw [if_neg hodd]
      by_cases hsib : (j + 2) * 2 ^ h ≤ data.length
      · -- a left child with a sibling on the right
        have hnext : (j + 1 + 1) * 2 ^ h ≤ data.length := hsib
        have hup : (j / 2 + 1) * 2 ^ (h + 1) ≤ data.length := by
          rw [block_succ, show 2 * (j / 2) + 1 + 1 = j + 2 by omega]
          exact hsib
        obtain ⟨path, H', J, hrun, hpeak, hlen, hfold⟩ := ih hup (by omega)
        have hparent : subtreeHash hs data (h + 1) (j / 2)
            = hs.hashInternal (h + 1) (subtreeHash hs data h j)
              (subtreeHash hs data h (j + 1)) := by
          rw [subtreeHash, show 2 * (j / 2) = j by omega]
        rw [if_pos hsib]
        dsimp only
        rw [bind_of_ok (Mmr.onStore_get (hm.node_at hnext)), bind_of_ok hrun]
        refine ⟨_, H', J, rfl, hpeak, ?_, ?_⟩
        · change H' = h + (path.length + 1)
          omega
        · rw [foldPath, hsat, if_neg (by simp), ← hfold, hparent]
          rfl
      · -- a peak
        rw [if_neg hsib]
        exact ⟨[], h, j, rfl, mem_peaks_of_last (by omega) hle hsib, rfl, rfl⟩

variable {k : Nat} {d : Bytes} {root : H}

variable (hm : Represents hs data m)

include hm

/-- `generate_proof` of a leaf: the path to its peak, and the place of the peak. -/
theorem generateProof_eq (hd : data[k]? = some d) (hroot : m.getRoot hs = .ok root) :
    ∃ path i peak, Mmr.generateProof hs (size k) m
        = (.ok ⟨size k, hs.hashLeaf (size k) d, path, peakHashes hs data, i, size data.length,
            root⟩, m)
      ∧ (peakHashes hs data)[i]? = some peak ∧ path.length < 2 ^ 16
      ∧ foldPath hs 1 (hs.hashLeaf (size k) d) path = peak := by
  obtain ⟨hk, -⟩ := List.getElem?_eq_some_iff.mp hd
  have hblock : (k + 1) * 2 ^ 0 ≤ data.length := by simpa using hk
  have hlt : size k < size data.length := size_strictMono hk
  obtain ⟨path, h, j, hrun, hpeak, hlen, hfold⟩ := hm.merklePathLoop_eq 64 hblock (by omega)
  obtain ⟨i, hidx, hi⟩ := idxOf?_peak hpeak
  have hheight := hm.height_lt (peak_le hpeak)
  rw [pos_zero] at hrun
  refine ⟨path, i, subtreeHash hs data h j, ?_, ?_, by omega, ?_⟩
  · have hleaf := Mmr.onStore_get (hm.leaf_at hd)
    have hpath : Mmr.generateMerklePath (size k) (size data.length) m
        = (.ok (path, pos h j), m) := by
      rw [Mmr.generateMerklePath, bind_of_ok hleaf]
      exact hrun
    have hzero : ¬ (Node.newLeaf hs (size k) d).height ≠ 0 := not_not_intro rfl
    rw [Mmr.generateProof, asks_bind, hm.size_eq, if_neg (by omega), lift_ok_bind,
      if_neg (by omega), lift_ok_bind, bind_of_ok hleaf, if_neg hzero,
      lift_ok_bind, bind_of_ok hpath]
    dsimp only
    rw [asks_bind, id_eq, Mmr.getPeaks, lift_ok_bind, ← hm.size_eq, hm.findPeaks_eq,
      lift_ok_bind, hidx, okOr_some, lift_ok_bind, hroot, lift_ok_bind,
      hm.peakHashes_eq]
    rfl
  · rw [peakHashes, List.getElem?_map, hi]
    rfl
  · rw [← hfold, subtreeHash, List.getD_eq_getElem?_getD, hd]
    rfl

theorem verify_generated [DecidableEq H] (hroot : m.getRoot hs = .ok root) {i mmrSize : Nat}
    {path : List (ProofElement H)} {peak : H} (hpeak : (peakHashes hs data)[i]? = some peak)
    (hfold : foldPath hs 1 (hs.hashLeaf (size k) d) path = peak) :
    verify hs ⟨size k, hs.hashLeaf (size k) d, path, peakHashes hs data, i, mmrSize,
      root⟩ d = .ok () := by
  rw [verify, if_neg (not_not_intro rfl)]
  dsimp only
  rw [hpeak, hfold]
  dsimp only
  rw [if_neg (not_not_intro rfl), checkRoot_eq_ok, ← hm.getRoot_eq_ok]
  exact hroot

/-- `get_leaf_index` is the formula `2k - popcount(k)`, in range. -/
theorem getLeafIndex_eq (hk : k < data.length) :
    m.getLeafIndex k = .ok (size k) := by
  have hsize := hm.size_lt
  have hlt : size k < size data.length := size_strictMono hk
  have hones := countOnes_le k
  have hle := le_size data.length
  have htwice : k * 2 < 2 ^ 64 := by omega
  rw [Mmr.getLeafIndex, if_neg (by rw [hm.size_eq]; omega), hm.leafCount_eq, res_ok_bind,
    if_neg (by omega), leafIndexOf, checkedMul_eq_some htwice, okOr_some, res_ok_bind, checkedSub,
    if_pos (by omega), unwrap_some, size, Nat.mul_comm]

theorem length_peaks_lt : (peakHashes hs data).length < 2 ^ 16 := by
  have hsize := hm.size_lt
  have hle := le_size data.length
  have hlen := length_peaks_le (n := data.length) (H := 63) (by omega)
  rw [peakHashes, List.length_map]
  omega

theorem exists_root (hpos : 0 < data.length) :
    ∃ root, m.getRoot hs = .ok root := by
  have hlen : (peakHashes hs data).length = countOnes data.length := by
    rw [peakHashes, List.length_map, length_peaks]
  have hones := countOnes_pos hpos
  cases hpeaks : peakHashes hs data with
  | nil =>
    rw [hpeaks, List.length_nil] at hlen
    omega
  | cons peak rest =>
    exact ⟨_, hm.getRoot_eq_ok.mpr (by rw [hpeaks, bagged_cons])⟩

end Represents

variable {k h j index : Nat} {d : Bytes}

/-- The proof of a leaf is generated under the root, fits its encoding and verifies. -/
theorem Represents.exists_proof {hs : NodeHasher Hash32} {data : List Bytes}
    {m : Mmr (MemoryStore Hash32) Hash32} (hm : Represents hs data m) (hd : data[k]? = some d) :
    ∃ proof, Mmr.generateProof hs (size k) m = (.ok proof, m) ∧ m.getRoot hs = .ok proof.root
      ∧ proof.Fits ∧ proof.verify hs d = .ok () := by
  obtain ⟨hk, -⟩ := List.getElem?_eq_some_iff.mp hd
  have hsize := hm.size_lt
  have hlt : size k < size data.length := size_strictMono hk
  obtain ⟨root, hroot⟩ := hm.exists_root (by omega)
  obtain ⟨path, i, peak, hproof, hpeak, hlen, hfold⟩ := hm.generateProof_eq hd hroot
  obtain ⟨hi, -⟩ := List.getElem?_eq_some_iff.mp hpeak
  refine ⟨_, hproof, hroot, ?_, hm.verify_generated hroot hpeak hfold⟩
  exact ⟨by dsimp only; omega, hlen, hm.length_peaks_lt, hi, by dsimp only; omega⟩

/-- Every leaf has an inclusion proof that verifies after a round trip through
    its encoding. -/
theorem inclusion_complete {hs : NodeHasher Hash32} {data : List Bytes} {indices : List Nat}
    {m : Mmr (MemoryStore Hash32) Hash32} (hbuilt : Built hs data indices m) {k : Nat} {d : Bytes}
    (hd : data[k]? = some d) :
    ∃ index root proof bytes, indices[k]? = some index ∧ m.getLeafIndex k = .ok index
      ∧ m.getRoot hs = .ok root ∧ Mmr.generateProof hs index m = (.ok proof, m)
      ∧ proof.root = root ∧ proof.serialize = .ok bytes
      ∧ (do (← deserialize bytes).verify hs d) = .ok () := by
  obtain ⟨hm, -⟩ := hbuilt.represents
  obtain ⟨hk, -⟩ := List.getElem?_eq_some_iff.mp hd
  obtain ⟨proof, hproof, hroot, hfits, hverify⟩ := hm.exists_proof hd
  refine ⟨size k, proof.root, proof, _, hbuilt.index_eq hk, hm.getLeafIndex_eq hk, hroot, hproof,
    rfl, serialize_eq hfits, ?_⟩
  rw [deserialize_encoding hfits, res_ok_bind]
  exact hverify

/-- The last of three leaves. -/
theorem inclusion_complete_three :
    ∃ index root proof bytes, [0, 1, 3][2]? = some index
      ∧ (ofLeaves sampleHasher threeLeaves).getLeafIndex 2 = .ok index
      ∧ (ofLeaves sampleHasher threeLeaves).getRoot sampleHasher = .ok root
      ∧ Mmr.generateProof sampleHasher index (ofLeaves sampleHasher threeLeaves)
        = (.ok proof, ofLeaves sampleHasher threeLeaves)
      ∧ proof.root = root ∧ proof.serialize = .ok bytes
      ∧ (do (← deserialize bytes).verify sampleHasher [3]) = .ok () :=
  @inclusion_complete _ threeLeaves _ _ (by unfold Built; decide +kernel) 2 [3] rfl

/-! ## Soundness -/

section

variable (ideal : hs.Ideal)

include ideal

/-- The hash of a block is internal only over its two halves. -/
theorem children_of_subtreeHash {height : Nat} {l r : H}
    (heq : hs.hashInternal height l r = subtreeHash hs data h j) :
    ∃ h', h = h' + 1 ∧ l = subtreeHash hs data h' (2 * j)
      ∧ r = subtreeHash hs data h' (2 * j + 1) := by
  cases h with
  | zero => exact absurd heq.symm ideal.leaf_ne_internal
  | succ h' =>
    obtain ⟨-, hl, hr⟩ := ideal.internal_inj heq
    exact ⟨h', rfl, hl, hr⟩

/-- A fold that ends in the hash of a block has started in one inside it. -/
theorem foldPath_descend (path : List (ProofElement H)) :
    ∀ {height h j : Nat} {current : H},
      foldPath hs height current path = subtreeHash hs data h j →
      ∃ h' j', current = subtreeHash hs data h' j' ∧ (j' + 1) * 2 ^ h' ≤ (j + 1) * 2 ^ h := by
  induction path with
  | nil =>
    intro height h j current heq
    exact ⟨h, j, heq, Nat.le_refl _⟩
  | cons elem path ih =>
    intro height h j current heq
    obtain ⟨h', j', hnext, hle⟩ := ih heq
    -- the hash above `current` is internal, so `current` is one of its children
    split at hnext
    · obtain ⟨h'', rfl, -, hcur⟩ := children_of_subtreeHash ideal hnext
      exact ⟨h'', 2 * j' + 1, hcur, Nat.le_trans (half_le h'' j').2 hle⟩
    · obtain ⟨h'', rfl, hcur, -⟩ := children_of_subtreeHash ideal hnext
      exact ⟨h'', 2 * j', hcur, Nat.le_trans (half_le h'' j').1 hle⟩

theorem leaf_not_isBag :
    ¬ IsBag hs (hs.hashLeaf index d) := fun ⟨_, _, heq⟩ => ideal.leaf_ne_bag heq

theorem foldPath_not_isBag (path : List (ProofElement H)) :
    ∀ {height : Nat} {current : H}, ¬ IsBag hs current →
      ¬ IsBag hs (foldPath hs height current path) := by
  induction path with
  | nil => exact fun hcur => hcur
  | cons elem path ih =>
    intro height current _
    refine ih ?_
    rintro ⟨l, r, heq⟩
    split at heq
    · exact ideal.internal_ne_bag heq
    · exact ideal.internal_ne_bag heq

theorem leaf_of_subtreeHash (heq : hs.hashLeaf index d = subtreeHash hs data h j)
    (hle : (j + 1) * 2 ^ h ≤ data.length) :
    index = size j ∧ data[j]? = some d := by
  cases h with
  | zero =>
    obtain ⟨hindex, hd⟩ := ideal.leaf_inj heq
    have hlt : j < data.length := by simpa using hle
    refine ⟨hindex, ?_⟩
    rw [hd, List.getD_eq_getElem?_getD, List.getElem?_eq_getElem hlt]
    rfl
  | succ h => exact absurd heq ideal.leaf_ne_internal

theorem Represents.leaf_of_verify [DecidableEq H] (hm : Represents hs data m)
    {proof : InclusionProof H} (hroot : m.getRoot hs = .ok proof.root) {leafData : Bytes}
    (hverify : proof.verify hs leafData = .ok ()) :
    ∃ k, proof.leafIndex = size k ∧ data[k]? = some leafData := by
  rw [verify, guard_fail_eq_ok, Decidable.not_not] at hverify
  obtain ⟨hleaf, hverify⟩ := hverify
  dsimp only at hverify
  cases hpeak : proof.peaks[proof.peakPosition]? with
  | none =>
    rw [hpeak] at hverify
    cases hverify
  | some peak =>
    rw [hpeak] at hverify
    dsimp only at hverify
    rw [guard_fail_eq_ok, Decidable.not_not, checkRoot_eq_ok] at hverify
    obtain ⟨hfold, hbag⟩ := hverify
    -- the path ends in a leaf or internal hash, so its peak is a real one
    have hreal : (peakHashes hs data)[proof.peakPosition]? = some peak := by
      refine bagged_getElem ideal (peakHashes_not_isBag ideal data) hbag
        (hm.getRoot_eq_ok.mp hroot) hpeak ?_
      rw [← hfold, ← hleaf]
      exact foldPath_not_isBag ideal _ (leaf_not_isBag ideal)
    rw [peakHashes, List.getElem?_map] at hreal
    obtain ⟨⟨h, j⟩, hmem, rfl⟩ := Option.map_eq_some_iff.mp hreal
    obtain ⟨h', j', hcur, hle⟩ := foldPath_descend ideal _ hfold
    have hin := Nat.le_trans hle (peak_le (List.mem_of_getElem? hmem))
    exact ⟨j', leaf_of_subtreeHash ideal (hleaf.trans hcur) hin⟩

end

theorem Represents.get_leaf (hm : Represents hs data m) (hd : data[k]? = some d) :
    Mmr.get (size k) m = (.ok (Node.newLeaf hs (size k) d), m) := by
  obtain ⟨hlt, -⟩ := List.getElem?_eq_some_iff.mp hd
  have hsize : ¬ m.state.size ≤ size k := by
    rw [hm.size_eq]
    exact Nat.not_le_of_lt (size_strictMono hlt)
  rw [Mmr.get, if_neg hsize, Mmr.onStore_get (hm.leaf_at hd)]

/-- A proof that verifies against the root of a range is about a leaf of it. -/
theorem inclusion_sound [DecidableEq H] (ideal : hs.Ideal) (hbuilt : Built hs data indices m)
    {proof : InclusionProof H} (hroot : m.getRoot hs = .ok proof.root) {leafData : Bytes}
    (hverify : proof.verify hs leafData = .ok ()) :
    ∃ (k : Nat) (node : Node H), indices[k]? = some proof.leafIndex ∧ data[k]? = some leafData
      ∧ Mmr.get proof.leafIndex m = (.ok node, m) ∧ node.height = 0 := by
  obtain ⟨hm, -⟩ := hbuilt.represents
  obtain ⟨k, hindex, hd⟩ := hm.leaf_of_verify ideal hroot hverify
  obtain ⟨hlt, -⟩ := List.getElem?_eq_some_iff.mp hd
  rw [hindex]
  exact ⟨k, _, hbuilt.index_eq hlt, hd, hm.get_leaf hd, rfl⟩

/-- The proof of the first of three leaves. -/
theorem inclusion_sound_three :
    ∃ (k : Nat) (node : Node Term), [0, 1, 3][k]? = some 0 ∧ threeLeaves[k]? = some [1]
      ∧ Mmr.get 0 (ofLeaves termHasher threeLeaves) = (.ok node, ofLeaves termHasher threeLeaves)
      ∧ node.height = 0 :=
  @inclusion_sound _ _ _ _ (ofLeaves termHasher threeLeaves) _ termHasher_ideal
      (by unfold Built; decide +kernel) ({
      leafIndex := 0
      leafHash := .leaf 0 [1]
      merklePath := [⟨.leaf 1 [2], false⟩]
      peaks := [.internal 1 (.leaf 0 [1]) (.leaf 1 [2]), .leaf 3 [3]]
      peakPosition := 0
      mmrSize := 4
      root := .bag (.internal 1 (.leaf 0 [1]) (.leaf 1 [2])) (.leaf 3 [3]) }) (by decide +kernel) _
        (by decide +kernel)

end WritersProof.Mmr
