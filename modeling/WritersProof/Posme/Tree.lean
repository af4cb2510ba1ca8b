/-
  The Merkle tree over the arena is a heap whose leaves are the hashes of the
  blocks (`Over`): after it is built, and after every update.
-/
import WritersProof.Posme.Hash
import Mathlib.Data.List.GetD

namespace WritersProof.Posme

open Rust MerkleHeap Sampling MerkleTree

variable {P : Prims}

abbrev heapNode (nodes : List Digest) : Nat → Digest := nodeAt zeroDigest 1 nodes

structure Over (P : Prims) (d : Nat) (tree : MerkleTree) (arena : List Block) : Prop where
  len : arena.length = 2 ^ d
  n_eq : tree.n = 2 ^ d
  size : tree.nodes.length = 2 * 2 ^ d - 1
  heap : IsHeap (internalHash P) (heapNode tree.nodes) (2 ^ d)
  leaf : ∀ i block, arena[i]? = some block → heapNode tree.nodes (2 ^ d + i) = leafHash P block

/-! ## Building -/

theorem buildNodes_spec {d : Nat} {leaves : List Digest} (hlen : leaves.length ≤ 2 ^ d) :
    ∃ written nodes,
      writeAll (ε := PosmeError) (List.replicate (2 * 2 ^ d - 1) zeroDigest) (2 ^ d - 1) leaves
        = .ok written
      ∧ combineNodes (ε := PosmeError) (internalHash P) 1 (2 ^ d - 1) written = .ok nodes
      ∧ nodes.length = 2 * 2 ^ d - 1 ∧ IsHeap (internalHash P) (heapNode nodes) (2 ^ d)
      ∧ ∀ i < 2 ^ d, heapNode nodes (2 ^ d + i) = leaves.getD i zeroDigest := by
  have hpos := Nat.two_pow_pos d
  let zeros (k : Nat) : List Digest := List.replicate k zeroDigest
  let written := zeros (2 ^ d - 1) ++ leaves ++ zeros (2 ^ d - leaves.length)
  have hsplit : List.replicate (2 * 2 ^ d - 1) zeroDigest
      = zeros (2 ^ d - 1) ++ zeros leaves.length ++ zeros (2 ^ d - leaves.length) := by
    simp only [zeros, List.replicate_append_replicate]
    congr 1
    omega
  have hsize : written.length = 2 * 2 ^ d - 1 := by
    simp only [written, zeros, List.length_append, List.length_replicate]
    omega
  obtain ⟨nodes, hrun, hsize', hheap, hkeep⟩ := @combineNodes_spec Digest (internalHash P)
    PosmeError zeroDigest 1 (Nat.le_refl 1) (2 ^ d) (2 ^ d - 1) written hsize (by omega)
    (by omega)
  refine ⟨written, nodes, ?_, hrun, by rw [hsize', hsize], hheap, ?_⟩
  · rw [hsplit]
    exact writeAll_append _ _ _ _ (by simp [zeros]) (by simp [zeros])
  · intro i hi
    have hnode : heapNode nodes (2 ^ d + i) = written.getD (2 ^ d + i - 1) zeroDigest :=
      hkeep (2 ^ d + i) (by omega)
    have hskip : 2 ^ d + i - 1 - (zeros (2 ^ d - 1)).length = i := by
      simp only [zeros, List.length_replicate]
      omega
    have hassoc : written = zeros (2 ^ d - 1) ++ (leaves ++ zeros (2 ^ d - leaves.length)) :=
      List.append_assoc _ _ _
    rw [hnode, hassoc, List.getD_append_right _ _ _ _ (by simp [zeros]; omega), hskip]
    by_cases hleaf : i < leaves.length
    · rw [List.getD_append _ _ _ _ hleaf]
    · rw [List.getD_append_right _ _ _ _ (by omega), List.getD_replicate _ (by omega),
        List.getD_eq_default _ _ (by omega)]

/-- The tree over an arena whose size is a power of two -/
theorem MerkleTree.build_spec {d : Nat} {arena : List Block} (hlen : arena.length = 2 ^ d) :
    ∃ tree, build P arena = .ok tree ∧ Over P d tree arena := by
  obtain ⟨written, nodes, hwrite, hcombine, hsize, hheap, hleaf⟩ := @buildNodes_spec P d
    (arena.map (leafHash P)) (by rw [List.length_map, hlen])
  refine ⟨⟨nodes, 2 ^ d⟩, ?_, hlen, rfl, hsize, hheap, ?_⟩
  · rw [build, hlen, hwrite, res_ok_bind, hcombine, res_ok_bind]
  · intro i block hblock
    obtain ⟨hi, -⟩ := List.getElem?_eq_some_iff.mp hblock
    rw [hleaf i (by omega), List.getD_eq_getElem?_getD, List.getElem?_map, hblock,
      Option.map_some, Option.getD_some]

/-! ## Updating -/

theorem MerkleTree.updateLoop_spec {D d fuel q : Nat} {nodes : List Digest}
    (hsize : nodes.length = 2 * 2 ^ D - 1) (hd : d ≤ D) (hlo : 2 ^ d ≤ q) (hhi : q < 2 * 2 ^ d)
    (hfuel : d ≤ fuel)
    (hheap : IsHeapExcept (internalHash P) (heapNode nodes) (2 ^ D) (q / 2)) :
    ∃ nodes', updateLoop P fuel (q - 1) nodes = .ok nodes'
      ∧ nodes'.length = nodes.length
      ∧ IsHeap (internalHash P) (heapNode nodes') (2 ^ D)
      ∧ (∀ p, 2 ^ d ≤ p → heapNode nodes' p = heapNode nodes p)
      ∧ siblings (heapNode nodes') d q = siblings (heapNode nodes) d q := by
  induction d generalizing fuel q nodes with
  | zero =>
    obtain rfl : q = 1 := by omega
    refine ⟨nodes, ?_, rfl, hheap, fun _ _ => rfl, rfl⟩
    cases fuel with
    | zero => rfl
    | succ fuel => rfl
  | succ d ih =>
    obtain ⟨fuel, rfl⟩ : ∃ k, fuel = k + 1 := ⟨fuel - 1, by omega⟩
    have hpow : 2 ^ (d + 1) = 2 * 2 ^ d := Nat.pow_succ'
    have hpos := Nat.two_pow_pos d
    have hbound : 2 ^ (d + 1) ≤ 2 ^ D := Nat.pow_le_pow_right (by decide) hd
    let value := internalHash P (heapNode nodes (2 * (q / 2))) (heapNode nodes (2 * (q / 2) + 1))
    let nodes₁ := nodes.set (q / 2 - 1) value
    have hnodes₁ : ∀ p, 0 < p →
        heapNode nodes₁ p = if p = q / 2 then value else heapNode nodes p := by
      intro p hp
      exact nodeAt_set (Nat.le_refl 1) (by omega) hp (by omega)
    -- only the parent of the written node may be wrong now
    have hstep : IsHeapExcept (internalHash P) (heapNode nodes₁) (2 ^ D) (q / 2 / 2) := by
      apply hheap.update
      · rw [hnodes₁ _ (by omega), if_pos rfl]
      · intro p hp hne
        rw [hnodes₁ p hp, if_neg hne]
    obtain ⟨nodes', hrun, hsize', hheap', hkeep, hsiblings⟩ := @ih fuel (q / 2) nodes₁
      (by rw [List.length_set, hsize]) (by omega) (by omega) (by omega) (by omega) hstep
    have hsame : ∀ p, 2 ^ (d + 1) ≤ p → heapNode nodes' p = heapNode nodes p := by
      intro p hp
      rw [hkeep p (by omega), hnodes₁ p (by omega), if_neg (by omega)]
    refine ⟨nodes', ?_, by rw [hsize', List.length_set], hheap', hsame, ?_⟩
    · have hparent : (q - 1 - 1) / 2 = q / 2 - 1 := by omega
      have hleft : 2 * (q / 2 - 1) + 1 = 2 * (q / 2) - 1 := by omega
      have hright : 2 * (q / 2 - 1) + 2 = 2 * (q / 2) + 1 - 1 := by omega
      rw [updateLoop, if_pos (by omega)]
      dsimp only
      rw [hparent, hleft, hright, index_of_lt (by omega) zeroDigest, res_ok_bind,
        index_of_lt (by omega) zeroDigest, res_ok_bind, assign_of_lt (by omega), res_ok_bind]
      exact hrun
    · -- the sibling of `q` is at its level, the others are those of the node above
      have habove : siblings (heapNode nodes₁) d (q / 2) = siblings (heapNode nodes) d (q / 2) := by
        apply siblings_congr (by omega)
        intro p hp hne
        rw [hnodes₁ p hp, if_neg hne]
      have hsibling : 2 ^ (d + 1) ≤ siblingOf q := by
        unfold siblingOf
        split <;> omega
      rw [siblings, siblings, hsame _ hsibling, hsiblings, habove]

variable {arena : List Block} {tree : MerkleTree} {d i n : Nat} {block : Block}

/-- After an update the tree is over the changed arena, with the siblings of before. -/
theorem MerkleTree.update_spec (h : Over P d tree arena) (hi : i < 2 ^ d) (block : Block) :
    ∃ tree', tree.update P i block = .ok tree' ∧ Over P d tree' (arena.set i block)
      ∧ siblings (heapNode tree'.nodes) d (2 ^ d + i)
        = siblings (heapNode tree.nodes) d (2 ^ d + i) := by
  have hsize := h.size
  have hlt : 2 ^ d - 1 + i < tree.nodes.length := by omega
  have hat : 2 ^ d - 1 + i = 2 ^ d + i - 1 := by omega
  let nodes := tree.nodes.set (2 ^ d + i - 1) (leafHash P block)
  have hnodes : ∀ p, 0 < p → heapNode nodes p
      = if p = 2 ^ d + i then leafHash P block else heapNode tree.nodes p := by
    intro p hp
    exact nodeAt_set (Nat.le_refl 1) (by omega) hp (by omega)
  have hexcept : IsHeapExcept (internalHash P) (heapNode nodes) (2 ^ d) ((2 ^ d + i) / 2) := by
    intro p hp hpn hne
    rw [hnodes p hp, hnodes _ (by omega), hnodes _ (by omega), if_neg (by omega),
      if_neg (by omega), if_neg (by omega)]
    exact h.heap.eq hp hpn
  obtain ⟨nodes', hrun, hsize', hheap', hkeep, hsiblings⟩ := @updateLoop_spec P d d
    (2 ^ d + i - 1) (2 ^ d + i) nodes (by rw [List.length_set, hsize]) (Nat.le_refl d) (by omega)
    (by omega) (by have := @Nat.lt_two_pow_self d; omega) hexcept
  refine ⟨{ tree with nodes := nodes' }, ?_, ⟨?_, h.n_eq, ?_, hheap', ?_⟩, ?_⟩
  · rw [update, h.n_eq, hat, assign_of_lt (by omega), res_ok_bind, hrun, res_ok_bind]
  · rw [List.length_set, h.len]
  · rw [hsize', List.length_set, hsize]
  · intro j b hb
    rw [hkeep _ (by omega), hnodes _ (by omega)]
    by_cases hj : j = i
    · subst hj
      rw [if_pos rfl]
      rw [List.getElem?_set_self (by rw [h.len]; exact hi)] at hb
      rw [Option.some.inj hb]
    · rw [if_neg (by omega)]
      rw [List.getElem?_set_ne (by omega)] at hb
      exact h.leaf j b hb
  · rw [hsiblings]
    apply siblings_congr (by omega)
    intro p hp hne
    rw [hnodes p hp, if_neg hne]

/-! ## Proving -/

theorem Over.root_eq (h : Over P d tree arena) : tree.root = .ok (heapNode tree.nodes 1) := by
  have hpos := Nat.two_pow_pos d
  have hsize := h.size
  exact index_of_lt (by omega) zeroDigest

theorem MerkleTree.proveLoop_eq {nodes : List Digest} {q : Nat} (hlo : 2 ^ d ≤ q)
    (hhi : q < 2 * 2 ^ d) (hsize : 2 * 2 ^ d - 1 ≤ nodes.length) :
    proveLoop nodes d (q - 1) = .ok (siblings (heapNode nodes) d q) := by
  induction d generalizing q with
  | zero => rfl
  | succ d ih =>
    rw [Nat.pow_succ] at hlo hhi hsize
    have hpos := Nat.two_pow_pos d
    have hchecked : checkedSub (q - 1) 1 = some (q - 1 - 1) := by
      rw [checkedSub, if_pos (by omega)]
    have hsibling : siblingPos (q - 1) = .ok (siblingOf q - 1) := by
      rw [siblingPos, hchecked, unwrap_some, siblingOf]
      by_cases heven : q % 2 = 0
      · rw [if_pos heven, if_pos (by omega)]
        congr 1
        omega
      · rw [if_neg heven, if_neg (by omega)]
    have hlt : siblingOf q - 1 < nodes.length := by
      unfold siblingOf
      split <;> omega
    have habove : (q - 1 - 1) / 2 = q / 2 - 1 := by omega
    rw [proveLoop, hsibling, res_ok_bind, index_of_lt hlt zeroDigest, res_ok_bind,
      hchecked, unwrap_some, res_ok_bind, habove, ih (by omega) (by omega) (by omega),
      res_ok_bind]
    rfl

theorem Over.prove_eq (h : Over P d tree arena) (hd : d ≤ 32) (hi : i < 2 ^ d) :
    tree.prove i = .ok (siblings (heapNode tree.nodes) d (2 ^ d + i)) := by
  have hsize := h.size
  rw [prove, h.n_eq, trailingZeros_two_pow hd,
    show 2 ^ d - 1 + i = 2 ^ d + i - 1 by omega]
  exact proveLoop_eq (by omega) (by omega) (by omega)

/-! ## Verifying -/

/-- A path of the right length, at an index of the arena, is climbed. -/
theorem verifyPath_eq_true {root : Digest} {path : List Digest} (hd : d ≤ 31) (hi : i < 2 ^ d) :
    verifyPath (ε := PosmeError) P root i block path (2 ^ d) = .ok true
      ↔ path.length = d ∧ climb (internalHash P) (2 ^ d + i) (leafHash P block) path = root := by
  have hpow : 2 ^ d ≤ 2 ^ 31 := Nat.pow_le_pow_right (by decide) hd
  have hadd : addU32 (ε := PosmeError) (2 ^ d) i = .ok (2 ^ d + i) := by
    rw [addU32, if_pos (by omega)]
  rw [verifyPath, trailingZeros_two_pow (by omega)]
  by_cases hlen : path.length = d
  · rw [if_neg (by omega), hadd, res_ok_bind]
    simp [hlen]
  · rw [if_pos hlen]
    simp [hlen]

/-- The path of a block leads from its leaf to the root. -/
theorem Over.climb_eq (h : Over P d tree arena) (hblock : arena[i]? = some block) :
    climb (internalHash P) (2 ^ d + i) (leafHash P block)
      (siblings (heapNode tree.nodes) d (2 ^ d + i)) = heapNode tree.nodes 1 := by
  obtain ⟨hi, -⟩ := List.getElem?_eq_some_iff.mp hblock
  have hlen := h.len
  have hroot : (2 ^ d + i) / 2 ^ d = 1 := by
    rw [Nat.div_eq_of_lt_le] <;> omega
  rw [← h.leaf i block hblock, h.heap.climb_siblings (Nat.le_add_right _ _) (by omega), hroot]

/-! ## A step -/

theorem maskedWord_lt (h : Digest) (hn : 0 < n) : maskedWord h n < n := by
  have : maskedWord h n ≤ n - 1 := Nat.and_le_right
  omega

theorem addrFrom_lt (cursor : Digest) (j : Nat) (hn : 0 < n) : addrFrom P cursor j n < n :=
  maskedWord_lt _ hn

theorem unwrap_eq_ok {α ε : Type} {opt : Option α} {a : α} (h : unwrap (ε := ε) opt = .ok a) :
    opt = some a := by
  cases opt with
  | none => cases h
  | some b => exact congrArg some (Except.ok.inj h)

theorem initWitnessIndices_range {ε : Type} {seed : Bytes} {root0 : Digest} {indices : List Nat}
    (hn : 0 < n) (h : initWitnessIndices (ε := ε) P seed root0 n = .ok indices) :
    indices.length = initWitnessCount ∧ ∀ i ∈ indices, i < n := by
  have hsample := unwrap_eq_ok h
  refine ⟨length_of_sample hsample, ?_⟩
  intro i hi
  obtain ⟨j, hj⟩ := drawn_of_mem_sample hsample hi
  obtain rfl := Option.some.inj hj
  exact maskedWord_lt _ hn

/-- A step, given its reads: it writes one block and the tree stays over the arena. -/
theorem posmeStep_spec {e t : Nat} {arena blocks : List Block} {addrs : List Nat}
    {tPrev cursor : Digest} {old : Block} (h : Over P e tree arena)
    (hread : readLoop P arena d 0 tPrev = .ok (addrs, blocks, cursor))
    (hold : arena[addrFrom P cursor d (2 ^ e)]? = some old) :
    ∃ tree', Over P e tree' (arena.set (addrFrom P cursor d (2 ^ e)) (writtenBlock P old cursor t))
      ∧ siblings (heapNode tree'.nodes) e (2 ^ e + addrFrom P cursor d (2 ^ e))
        = siblings (heapNode tree.nodes) e (2 ^ e + addrFrom P cursor d (2 ^ e))
      ∧ posmeStep P arena tree tPrev t d
        = .ok (⟨t, addrs, blocks, addrFrom P cursor d (2 ^ e), old, writtenBlock P old cursor t,
            cursor, heapNode tree.nodes 1, heapNode tree'.nodes 1,
            stepTranscript P tPrev t cursor (heapNode tree'.nodes 1)⟩,
          arena.set (addrFrom P cursor d (2 ^ e)) (writtenBlock P old cursor t), tree') := by
  have hlt : addrFrom P cursor d (2 ^ e) < 2 ^ e := addrFrom_lt _ _ (Nat.two_pow_pos e)
  obtain ⟨tree', hupdate, hover, hsiblings⟩ :=
    update_spec h hlt (writtenBlock P old cursor t)
  refine ⟨tree', hover, hsiblings, ?_⟩
  rw [posmeStep, hread, res_ok_bind]
  dsimp only
  rw [h.root_eq, res_ok_bind, h.len, index_eq_ok.mpr hold, res_ok_bind,
    assign_of_lt (by rw [h.len]; exact hlt), res_ok_bind, hupdate, res_ok_bind, hover.root_eq,
    res_ok_bind]

end WritersProof.Posme
