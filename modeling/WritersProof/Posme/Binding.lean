/-
  The tree over the arena and the tree over the roots open to their leaves and
  to nothing else.  Leaves and inner nodes are hashed alike, 64 bytes each, so
  that what binds a leaf is the length of its path.
-/
import WritersProof.Posme.Tree
import WritersProof.Posme.Prover

namespace WritersProof.Posme

open Rust MerkleHeap Block RootChain

variable (P : Prims)

/-! ## What is hashed -/

def Block.bytes (block : Block) : Bytes := block.data.val ++ block.causal.val

def pathInputs (pos : Nat) (node : Digest) (path : List Digest) : List Bytes :=
  (climbed (internalHash P) pos node path).map fun pair => pair.1.val ++ pair.2.val

def blockInputs (n index : Nat) (block : Block) (path : List Digest) : List Bytes :=
  block.bytes :: pathInputs P (n + index) (leafHash P block) path

def NoCollision (inputs inputs' : List Bytes) : Prop :=
  ∀ x ∈ inputs, ∀ y ∈ inputs', P.blake3 x = P.blake3 y → x = y

variable {P} {a b : Digest} {d : Nat} {tree : MerkleTree}

theorem digests_inj {a' b' : Digest} (h : a.val ++ b.val = a'.val ++ b'.val) : a = a' ∧ b = b' := by
  have hparts := List.append_inj h (a.length_val.trans a'.length_val.symm)
  exact ⟨FixedBytes.ext_val hparts.1, FixedBytes.ext_val hparts.2⟩

theorem Block.bytes_inj {a b : Block} (h : a.bytes = b.bytes) : a = b := by
  obtain ⟨hdata, hcausal⟩ := digests_inj h
  cases a
  cases b
  exact congrArg₂ mk hdata hcausal

theorem leafHash_eq (block : Block) : leafHash P block = P.blake3 block.bytes := by
  rw [leafHash, posmeHash, List.flatten_cons, List.flatten_nil, List.append_nil, bytes]

theorem internalHash_eq (left right : Digest) :
    internalHash P left right = P.blake3 (left.val ++ right.val) := by
  rw [internalHash, posmeHash, List.flatten_cons, List.flatten_cons, List.flatten_nil,
    List.append_nil]

/-- Two paths of one length from a position to the same hash start at the same node. -/
theorem node_eq_of_climb {pos : Nat} {path path' : List Digest} (hlen : path.length = path'.length)
    (hfree : NoCollision P (pathInputs P pos a path) (pathInputs P pos b path'))
    (h : climb (internalHash P) pos a path = climb (internalHash P) pos b path') : a = b := by
  refine (eq_of_climb_eq hlen rfl ?_ h).1
  rintro ⟨l, r⟩ hx ⟨l', r'⟩ hy heq
  rw [internalHash_eq, internalHash_eq] at heq
  have hbytes := hfree _ (List.mem_map_of_mem hx) _ (List.mem_map_of_mem hy) heq
  obtain ⟨rfl, rfl⟩ := digests_inj hbytes
  rfl

/-! ## The arena -/

/-- The tree that `build` makes of the blocks: it opens to each of them, and to no other. -/
structure Commits (P : Prims) (n : Nat) (blocks : List Block) (tree : MerkleTree) : Prop where
  built : MerkleTree.build P blocks = .ok tree
  opens : ∀ i block, blocks[i]? = some block → ∃ root path, tree.root = .ok root
    ∧ tree.prove i = .ok path ∧ path.length = Nat.log 2 n
    ∧ verifyPath (ε := PosmeError) P root i block path n = .ok true
    ∧ ∀ block' path',
        NoCollision P (blockInputs P n i block path) (blockInputs P n i block' path') →
        verifyPath (ε := PosmeError) P root i block' path' n = .ok true → block' = block

variable {arena : List Block}

theorem Over.unique {tree' : MerkleTree} (h : Over P d tree arena) (h' : Over P d tree' arena) :
    tree = tree' := by
  have hsize := h.size
  have hsize' := h'.size
  have hleaves : ∀ p, 2 ^ d ≤ p → p < 2 * 2 ^ d →
      heapNode tree.nodes p = heapNode tree'.nodes p := by
    intro p hlo hhi
    obtain ⟨i, rfl⟩ := Nat.exists_eq_add_of_le hlo
    have hblock : arena[i]? = some (arena.getD i zeroed) := by
      rw [List.getElem?_eq_getElem (by rw [h.len]; omega)]
      exact congrArg some (List.getElem_eq_getD zeroed)
    rw [h.leaf i _ hblock, h'.leaf i _ hblock]
  have hnodes : tree.nodes = tree'.nodes := by
    apply List.ext_getElem (hsize.trans hsize'.symm)
    intro p hp hp'
    have hnode := h.heap.unique h'.heap hleaves (Nat.succ_pos p) (by omega)
    simpa [heapNode, nodeAt, hp, hp'] using hnode
  have hn : tree.n = tree'.n := h.n_eq.trans h'.n_eq.symm
  cases tree
  cases tree'
  exact congrArg₂ MerkleTree.mk hnodes hn

theorem Over.commits (h : Over P d tree arena) (hd : d ≤ 31) : Commits P (2 ^ d) arena tree := by
  refine ⟨?_, ?_⟩
  · obtain ⟨tree', hbuild, hover⟩ := @MerkleTree.build_spec P d arena h.len
    rw [hbuild, h.unique hover]
  · intro i block hblock
    obtain ⟨hi, -⟩ := List.getElem?_eq_some_iff.mp hblock
    rw [h.len] at hi
    have hclimb := h.climb_eq hblock
    refine ⟨_, _, h.root_eq, h.prove_eq (by omega) hi, ?_, ?_, ?_⟩
    · rw [length_siblings, Nat.log_pow (by decide)]
    · exact (verifyPath_eq_true hd hi).mpr ⟨length_siblings _ _, hclimb⟩
    · intro block' path' hfree hverify
      obtain ⟨hlen, hroot⟩ := (verifyPath_eq_true hd hi).mp hverify
      have hleaf : leafHash P block = leafHash P block' :=
        node_eq_of_climb ((length_siblings _ _).trans hlen.symm)
          (fun x hx y hy => hfree x (.tail _ hx) y (.tail _ hy)) (hclimb.trans hroot.symm)
      rw [leafHash_eq, leafHash_eq] at hleaf
      exact (bytes_inj (hfree _ (.head _) _ (.head _) hleaf)).symm

def writtenBlocks (blocks : List Block) (updates : List (Nat × Block)) : List Block :=
  updates.foldl (fun blocks u => blocks.set u.1 u.2) blocks

def MerkleTree.updated (P : Prims) (tree : MerkleTree) (updates : List (Nat × Block)) :
    Res PosmeError MerkleTree :=
  updates.foldlM (fun tree u => tree.update P u.1 u.2) tree

theorem Over.updated (h : Over P d tree arena) {updates : List (Nat × Block)}
    (hupdates : ∀ u ∈ updates, u.1 < 2 ^ d) :
    ∃ tree', tree.updated P updates = .ok tree' ∧ Over P d tree' (writtenBlocks arena updates) := by
  induction updates generalizing tree arena with
  | nil => exact ⟨tree, rfl, h⟩
  | cons u updates ih =>
    obtain ⟨next, hupdate, hover, -⟩ :=
      MerkleTree.update_spec h (hupdates u (.head _)) u.2
    obtain ⟨tree', hrun, hover'⟩ := ih hover fun v hv => hupdates v (.tail _ hv)
    refine ⟨tree', ?_, hover'⟩
    rw [MerkleTree.updated, List.foldlM_cons, hupdate, res_ok_bind]
    exact hrun

/-! ## The chain of roots -/

/-- `rootChain` is the tree over `roots`, padded with zeros. -/
structure OverRoots (P : Prims) (roots : List Digest) (rootChain : RootChain) : Prop where
  n_eq : rootChain.n = 2 ^ Nat.clog 2 roots.length
  size : rootChain.nodes.length = 2 * 2 ^ Nat.clog 2 roots.length - 1
  heap : IsHeap (internalHash P) (heapNode rootChain.nodes) (2 ^ Nat.clog 2 roots.length)
  leaf : ∀ i < 2 ^ Nat.clog 2 roots.length,
    heapNode rootChain.nodes (2 ^ Nat.clog 2 roots.length + i) = roots.getD i zeroDigest

/-- The tree over the roots can always be built. -/
theorem RootChain.build_spec (roots : List Digest) :
    ∃ rootChain, build P roots = .ok rootChain ∧ OverRoots P roots rootChain := by
  obtain ⟨written, nodes, hwrite, hcombine, hsize, hheap, hleaf⟩ :=
    @buildNodes_spec P (Nat.clog 2 roots.length) roots (Nat.le_pow_clog (by decide) _)
  refine ⟨⟨nodes, 2 ^ Nat.clog 2 roots.length⟩, ?_, rfl, hsize, hheap, hleaf⟩
  rw [build, hwrite, res_ok_bind, hcombine, res_ok_bind]

namespace OverRoots

variable {roots : List Digest} {rootChain : RootChain}

theorem root_eq (h : OverRoots P roots rootChain) :
    rootChain.root = .ok (heapNode rootChain.nodes 1) := by
  have hpos := Nat.two_pow_pos (Nat.clog 2 roots.length)
  have hsize := h.size
  exact index_of_lt (by omega) zeroDigest

theorem prove_eq (h : OverRoots P roots rootChain) (hfit : Nat.clog 2 roots.length ≤ 32) {i : Nat}
    (hi : i < roots.length) :
    rootChain.prove i = .ok (siblings (heapNode rootChain.nodes) (Nat.clog 2 roots.length)
      (2 ^ Nat.clog 2 roots.length + i)) := by
  have hle : roots.length ≤ 2 ^ Nat.clog 2 roots.length := Nat.le_pow_clog (by decide) _
  rw [prove, h.n_eq, trailingZeros_two_pow hfit,
    show 2 ^ Nat.clog 2 roots.length - 1 + i = 2 ^ Nat.clog 2 roots.length + i - 1 by omega]
  exact MerkleTree.proveLoop_eq (by omega) (by omega) (by rw [h.size])

theorem climb_eq (h : OverRoots P roots rootChain) {i : Nat} {value : Digest}
    (hvalue : roots[i]? = some value) :
    climb (internalHash P) (2 ^ Nat.clog 2 roots.length + i) value
      (siblings (heapNode rootChain.nodes) (Nat.clog 2 roots.length)
        (2 ^ Nat.clog 2 roots.length + i)) = heapNode rootChain.nodes 1 := by
  obtain ⟨hi, -⟩ := List.getElem?_eq_some_iff.mp hvalue
  have hle : roots.length ≤ 2 ^ Nat.clog 2 roots.length := Nat.le_pow_clog (by decide) _
  have hroot : (2 ^ Nat.clog 2 roots.length + i) / 2 ^ Nat.clog 2 roots.length = 1 := by
    rw [Nat.div_eq_of_lt_le] <;> omega
  have hleaf : heapNode rootChain.nodes (2 ^ Nat.clog 2 roots.length + i) = value := by
    rw [h.leaf i (by omega), List.getD_eq_getElem?_getD, hvalue, Option.getD_some]
  rw [← hleaf, h.heap.climb_siblings (Nat.le_add_right _ _) (by omega), hroot]

end OverRoots

theorem verifyRootChainPath_eq_true {commitment value : Digest} {index totalRoots : Nat}
    {path : List Digest} (hfit : Nat.clog 2 totalRoots ≤ 32) :
    verifyRootChainPath P commitment index value path totalRoots = true
      ↔ path.length = Nat.clog 2 totalRoots
        ∧ climb (internalHash P) (2 ^ Nat.clog 2 totalRoots + index) value path = commitment := by
  rw [verifyRootChainPath, trailingZeros_two_pow hfit]
  by_cases hlen : path.length = Nat.clog 2 totalRoots
  · rw [if_neg (not_not.mpr hlen), decide_eq_true_iff]
    exact ⟨fun h => ⟨hlen, h⟩, And.right⟩
  · rw [if_pos hlen]
    exact ⟨nofun, fun h => absurd h.1 hlen⟩

/-- The tree over the roots opens to each of them, and to no other. -/
structure CommitsRoots (P : Prims) (roots : List Digest) (rootChain : RootChain) : Prop where
  built : build P roots = .ok rootChain
  opens : ∀ i value, roots[i]? = some value → ∃ commitment path, rootChain.root = .ok commitment
    ∧ rootChain.prove i = .ok path ∧ path.length = Nat.clog 2 roots.length
    ∧ verifyRootChainPath P commitment i value path roots.length = true
    ∧ ∀ value' path',
        NoCollision P (pathInputs P (2 ^ Nat.clog 2 roots.length + i) value path)
          (pathInputs P (2 ^ Nat.clog 2 roots.length + i) value' path') →
        verifyRootChainPath P commitment i value' path' roots.length = true → value' = value

theorem OverRoots.opens {roots : List Digest} {rootChain : RootChain}
    (h : OverRoots P roots rootChain) (hbuild : build P roots = .ok rootChain)
    (hfit : Nat.clog 2 roots.length ≤ 32) : CommitsRoots P roots rootChain := by
  refine ⟨hbuild, ?_⟩
  intro i value hvalue
  obtain ⟨hi, -⟩ := List.getElem?_eq_some_iff.mp hvalue
  have hclimb := h.climb_eq hvalue
  refine ⟨_, _, h.root_eq, h.prove_eq hfit hi, length_siblings _ _, ?_, ?_⟩
  · exact (verifyRootChainPath_eq_true hfit).mpr ⟨length_siblings _ _, hclimb⟩
  · intro value' path' hfree hverify
    obtain ⟨hlen, hroot⟩ := (verifyRootChainPath_eq_true hfit).mp hverify
    exact (node_eq_of_climb ((length_siblings _ _).trans hlen.symm) hfree
      (hclimb.trans hroot.symm)).symm

/-- Whatever the updates, the tree over the arena is the one that `build` makes of the updated
blocks, and it opens to each of them and to no other; so does the tree over the roots, of which
there are one more than steps, and the number of steps is an `u32`. -/
theorem trees_bind {n : Nat} (hpow : n.isPowerOfTwo) (hn : n < 2 ^ 32) {blocks : List Block}
    (hlen : blocks.length = n) {updates : List (Nat × Block)}
    (hupdates : ∀ u ∈ updates, u.1 < n) {roots : List Digest} (hroots : roots.length ≤ 2 ^ 32) :
    (∃ tree tree', MerkleTree.build P blocks = .ok tree ∧ tree.updated P updates = .ok tree'
      ∧ Commits P n (writtenBlocks blocks updates) tree')
    ∧ ∃ rootChain, CommitsRoots P roots rootChain := by
  constructor
  · obtain ⟨d, rfl⟩ := hpow
    have hd : d < 32 := (Nat.pow_lt_pow_iff_right (by decide)).mp hn
    obtain ⟨tree, hbuild, hover⟩ := @MerkleTree.build_spec P d blocks hlen
    obtain ⟨tree', hupdated, hover'⟩ := hover.updated hupdates
    exact ⟨tree, tree', hbuild, hupdated, hover'.commits (by omega)⟩
  · obtain ⟨rootChain, hbuild, hover⟩ := @build_spec P roots
    exact ⟨rootChain, hover.opens hbuild (Nat.clog_le_of_le_pow hroots)⟩

/-- Byte `i` of the hash is the sum of bytes `i` and `32 + i`. -/
def Prims.adding : Prims where
  blake3 data :=
    ⟨(List.zipWith (· + ·) data (data.drop 32) ++ List.replicate 32 0).take 32, by simp⟩
  blake3Xof _ j := Bytes.ofNat 4 j
  jitterVariance _ := 0
  jitterVarianceOk _ := true
  patience := 4

/-- Block 1 of two is written, after which a path for the block that it was does not collide. -/
theorem trees_bind_adding :
    let written : Block := ⟨FixedBytes.filled 32 1, FixedBytes.filled 32 2⟩
    let path := [leafHash Prims.adding zeroed]
    NoCollision Prims.adding (blockInputs Prims.adding 2 1 written path)
      (blockInputs Prims.adding 2 1 zeroed path)
    ∧ (∃ tree tree', MerkleTree.build Prims.adding [zeroed, zeroed] = .ok tree
      ∧ tree.updated Prims.adding [(1, written)] = .ok tree'
      ∧ Commits Prims.adding 2 [zeroed, written] tree')
    ∧ ∃ rootChain, CommitsRoots Prims.adding [zeroDigest, FixedBytes.filled 32 1] rootChain := by
  refine ⟨?_, trees_bind ⟨1, rfl⟩ (by decide) rfl (by decide) (by decide)⟩
  unfold NoCollision
  decide +kernel

end WritersProof.Posme
