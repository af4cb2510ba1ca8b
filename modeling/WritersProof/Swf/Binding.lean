/-
  What a Merkle proof says about the position of its leaf.  The verifier takes
  a path of any length up to 64 and looks at as many bits of the index as the
  path has entries, so positions are bound exactly by paths of one length that
  has enough bits for the iterations (`binds_iff`).
-/
import WritersProof.Swf.Completeness

namespace WritersProof.Swf

open Rust MerkleHeap

variable {Argon2 : Type} {P : Prims Argon2}

/-! ## Accepted triples -/

/-- SHA-256 has no collision between the inner nodes on the two ways up. -/
def NoNodeCollision (P : Prims Argon2) (i : Nat) (x : Digest) (path : List Digest) (j : Nat)
    (y : Digest) (path' : List Digest) : Prop :=
  ∀ a ∈ climbed (nodeHash P) i x path, ∀ b ∈ climbed (nodeHash P) j y path',
    nodeHash P a.1 a.2 = nodeHash P b.1 b.2 → a = b

/-- The heap position that a path opens for an index: the root is 1. -/
def position (i : Nat) (path : List Digest) : Nat := 2 ^ path.length + i % 2 ^ path.length

/-- Whatever two triples are accepted for one root, with paths of these lengths: there is one leaf
value for an index, and one index for a position. -/
def Binds (P : Prims Argon2) (iterations d e : Nat) : Prop :=
  ∀ root i x path j y path', i < iterations → j < iterations → path.length = d →
    path'.length = e → NoNodeCollision P i x path j y path' →
    verifyMerkleProof P root i x path = true → verifyMerkleProof P root j y path' = true →
    (i = j → x = y) ∧ (position i path = position j path' → i = j)

theorem verifyMerkleProof_eq_true {root leaf : Digest} {i : Nat} {path : List Digest} :
    verifyMerkleProof P root i leaf path = true
      ↔ path.length ≤ 64 ∧ climb (nodeHash P) i leaf path = root := by
  unfold verifyMerkleProof
  by_cases hlen : 64 < path.length
  · rw [if_pos hlen]
    exact iff_of_false nofun fun h => Nat.not_lt.mpr h.1 hlen
  · rw [if_neg hlen, decide_eq_true_iff, and_iff_right (Nat.not_lt.mp hlen)]

theorem binds_of_length {iterations d : Nat} (h : iterations ≤ 2 ^ d) : Binds P iterations d d := by
  intro root i x path j y path' hi hj hlen hlen' hfree hx hy
  have hsame : path.length = path'.length := hlen.trans hlen'.symm
  constructor
  · rintro rfl
    have hclimb := (verifyMerkleProof_eq_true.mp hx).2.trans
      (verifyMerkleProof_eq_true.mp hy).2.symm
    exact (eq_of_climb_eq hsame rfl hfree hclimb).1
  · intro hpos
    rw [position, position, hlen, hlen', Nat.mod_eq_of_lt (by omega),
      Nat.mod_eq_of_lt (by omega)] at hpos
    omega

/-! ## Paths of other lengths

A hash that counts the levels: the first byte of the left child, plus one. -/

def tick (k : Nat) : Digest := ⟨UInt8.ofNat k :: List.replicate 31 0, rfl⟩

def Prims.ticking : Prims Unit :=
  { Prims.counting 0 with sha256 := fun data => ⟨(data.getD 1 0 + 1) :: List.replicate 31 0, rfl⟩ }

theorem nodeHash_tick (k : Nat) (right : Digest) :
    nodeHash Prims.ticking (tick k) right = tick (k + 1) := by
  have hbyte : UInt8.ofNat k + 1 = UInt8.ofNat (k + 1) := UInt8.ofNat_add k 1 |>.symm
  apply FixedBytes.ext_val
  show (UInt8.ofNat k + 1) :: List.replicate 31 0 = UInt8.ofNat (k + 1) :: List.replicate 31 0
  rw [hbyte]

/-- All the way up on the left, the levels are counted. -/
theorem climb_tick (k m c : Nat) :
    climb (nodeHash Prims.ticking) (c * 2 ^ m) (tick k) (List.replicate m (tick 0))
        = tick (k + m)
      ∧ ∀ a ∈ climbed (nodeHash Prims.ticking) (c * 2 ^ m) (tick k) (List.replicate m (tick 0)),
        ∃ l, a = (tick l, tick 0) := by
  induction m generalizing k with
  | zero => exact ⟨rfl, nofun⟩
  | succ m ih =>
    have hpow : c * 2 ^ (m + 1) = 2 * (c * 2 ^ m) := by
      rw [Nat.pow_succ]
      ring
    have heven : c * 2 ^ (m + 1) % 2 = 0 := by omega
    have hhalf : c * 2 ^ (m + 1) / 2 = c * 2 ^ m := by omega
    obtain ⟨hclimb, hpairs⟩ := ih (k + 1)
    rw [List.replicate_succ, climb, climbed]
    simp only [if_pos heven, hhalf, nodeHash_tick, List.forall_mem_cons]
    refine ⟨?_, ⟨k, rfl⟩, hpairs⟩
    rw [hclimb, Nat.add_assoc, Nat.add_comm 1 m]

theorem tick_eq_iff {k l : Nat} : tick k = tick l ↔ k % 256 = l % 256 := by
  constructor
  · intro h
    have hbyte : UInt8.ofNat k = UInt8.ofNat l := (List.cons.inj (congrArg FixedBytes.val h)).1
    have hnat := congrArg UInt8.toNat hbyte
    rwa [UInt8.toNat_ofNat', UInt8.toNat_ofNat'] at hnat
  · intro h
    have hbyte : UInt8.ofNat k = UInt8.ofNat l := by
      apply UInt8.toNat.inj
      rw [UInt8.toNat_ofNat', UInt8.toNat_ofNat']
      exact h
    apply FixedBytes.ext_val
    exact congrArg (· :: List.replicate 31 0) hbyte

/-- Leaves `64 - d` and `64 - e` are accepted for one root, with paths of lengths `d` and `e`, at
every index whose low bits are zero. -/
theorem binds_ticking {iterations d e : Nat} (hd : d ≤ 64) (he : e ≤ 64)
    (h : Binds Prims.ticking iterations d e) {b c : Nat} (hb : b * 2 ^ d < iterations)
    (hc : c * 2 ^ e < iterations) :
    (b * 2 ^ d = c * 2 ^ e → d = e) ∧ (d = e → b * 2 ^ d = c * 2 ^ e) := by
  obtain ⟨hx, hxs⟩ := climb_tick (64 - d) d b
  obtain ⟨hy, hys⟩ := climb_tick (64 - e) e c
  have hfree : NoNodeCollision Prims.ticking (b * 2 ^ d) (tick (64 - d))
      (List.replicate d (tick 0)) (c * 2 ^ e) (tick (64 - e)) (List.replicate e (tick 0)) := by
    intro a ha a' ha' heq
    obtain ⟨k, rfl⟩ := hxs a ha
    obtain ⟨l, rfl⟩ := hys a' ha'
    rw [nodeHash_tick, nodeHash_tick, tick_eq_iff] at heq
    rw [tick_eq_iff.mpr (show k % 256 = l % 256 by omega)]
  have hbound := h (tick 64) _ _ _ _ _ _ hb hc List.length_replicate List.length_replicate hfree
    (verifyMerkleProof_eq_true.mpr ⟨by rwa [List.length_replicate], by rw [hx]; congr 1; omega⟩)
    (verifyMerkleProof_eq_true.mpr ⟨by rwa [List.length_replicate], by rw [hy]; congr 1; omega⟩)
  constructor
  · intro hsame
    have hmod := tick_eq_iff.mp (hbound.1 hsame)
    omega
  · rintro rfl
    apply hbound.2
    rw [position, position, List.length_replicate, Nat.mul_mod_left, Nat.mul_mod_left]

/-! ## Committed leaves -/

/-- The proof of a leaf is accepted at its own index, and at that of another leaf only where the
two leaves and their proofs are the same. -/
def ProofsBind (P : Prims Argon2) (leaves : List Digest) (steps : Nat) : Prop :=
  ∃ tree root, buildMerkleTree P leaves steps = .ok tree ∧ treeRoot tree = .ok root
    ∧ ∀ i leaf, leaves[i]? = some leaf →
      ∃ path, merkleProof tree i leaves.length = .ok path
      ∧ verifyMerkleProof P root i leaf path = true
      ∧ ∀ j leaf', leaves[j]? = some leaf' → ∃ path',
        merkleProof tree j leaves.length = .ok path'
        ∧ (NoNodeCollision P j leaf path j leaf' path' →
          verifyMerkleProof P root j leaf path = true → leaf = leaf' ∧ path = path')

theorem proofsBind {leaves : List Digest} {steps : Nat} (hlen : leaves.length ≤ 2 ^ 64) :
    ProofsBind P leaves steps := by
  obtain ⟨tree, hbuild, hsize, hheap, hleaves⟩ := buildMerkleTree_spec P leaves steps
  have hle := le_two_pow_treeDepth leaves.length
  have hdepth : treeDepth leaves.length ≤ 64 := Nat.clog_le_of_le_pow hlen
  have hroot : treeRoot tree = .ok (treeNode tree 1) := by
    have hpos := Nat.two_pow_pos (treeDepth leaves.length)
    rw [treeRoot, if_pos (by omega)]
    exact index_of_lt (by omega) (FixedBytes.filled 32 0)
  have hproof : ∀ i leaf, leaves[i]? = some leaf →
      merkleProof tree i leaves.length = .ok (siblings (treeNode tree) (treeDepth leaves.length)
        (2 ^ treeDepth leaves.length + i))
      ∧ verifyMerkleProof P (treeNode tree 1) i leaf (siblings (treeNode tree)
        (treeDepth leaves.length) (2 ^ treeDepth leaves.length + i)) = true := by
    intro i leaf hleaf
    obtain ⟨hi, -⟩ := List.getElem?_eq_some_iff.mp hleaf
    refine ⟨merkleProof_eq hsize hi, verifyMerkleProof_siblings P hheap (by omega) hdepth ?_⟩
    rw [hleaves i (by omega), List.getD_eq_getElem?_getD, hleaf, Option.getD_some]
  refine ⟨tree, _, hbuild, hroot, ?_⟩
  intro i leaf hleaf
  refine ⟨_, (hproof i leaf hleaf).1, (hproof i leaf hleaf).2, ?_⟩
  intro j leaf' hleaf'
  refine ⟨_, (hproof j leaf' hleaf').1, ?_⟩
  intro hfree hverify
  have hclimb := (verifyMerkleProof_eq_true.mp hverify).2.trans
    (verifyMerkleProof_eq_true.mp (hproof j leaf' hleaf').2).2.symm
  exact eq_of_climb_eq (by rw [length_siblings, length_siblings]) rfl hfree hclimb

/-- Accepted triples are bound to positions, whatever the hash, exactly when their paths have the
same length and that is enough for the iterations; the proofs that `merkle_proof` makes are. -/
theorem positions_bound_iff (iterations d e : Nat) :
    ((∀ (Argon2 : Type) (P : Prims Argon2), Binds P iterations d e)
      ↔ iterations = 0 ∨ 64 < d ∨ 64 < e ∨ d = e ∧ iterations ≤ 2 ^ d)
    ∧ ∀ (Argon2 : Type) (P : Prims Argon2) (leaves : List Digest) (steps : Nat),
      leaves.length ≤ 2 ^ 64 → ProofsBind P leaves steps := by
  refine ⟨⟨?_, ?_⟩, fun _ P leaves steps => proofsBind⟩
  · intro h
    by_contra hother
    simp only [not_or, not_lt] at hother
    obtain ⟨hsome, hd, he, hlength⟩ := hother
    have hticking := @binds_ticking iterations d e hd he (h Unit Prims.ticking)
    -- index 0 is accepted with both lengths
    have hsame : d = e := (@hticking 0 0 (by omega) (by omega)).1 (by omega)
    subst hsame
    have hbits : 2 ^ d < iterations := by
      by_contra hle
      exact hlength ⟨rfl, Nat.not_lt.mp hle⟩
    -- and so are indices 0 and `2 ^ d`, with the same path
    have hindex := (@hticking 0 1 (by omega) (by omega)).2 rfl
    have hpos := Nat.two_pow_pos d
    omega
  · rintro (rfl | hlong | hlong | ⟨rfl, hbits⟩) Argon2 P
    · exact fun _ _ _ _ _ _ _ hi => absurd hi (Nat.not_lt_zero _)
    · rintro root i x path j y path' - - rfl - - hx -
      have := (verifyMerkleProof_eq_true.mp hx).1
      omega
    · rintro root i x path j y path' - - - rfl - - hy
      have := (verifyMerkleProof_eq_true.mp hy).1
      omega
    · exact binds_of_length hbits

/-- With 90 iterations a tree of two leaves opens index 0 and index 2 to the same leaf. -/
theorem positions_not_bound : ¬ ∀ (P : Prims Unit) (iterations d e : Nat),
    Binds P iterations d e := by
  intro h
  have hindex := (@binds_ticking 90 1 1 (by decide) (by decide) (h Prims.ticking 90 1 1) 0 1
    (by decide) (by decide)).2 rfl
  exact absurd hindex (by decide)

end WritersProof.Swf
