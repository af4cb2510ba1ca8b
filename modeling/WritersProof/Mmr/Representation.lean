/-
  What a range that represents some leaves looks like from outside: its store
  is the post-order listing of its mountains, its accessors return what the
  number of leaves says, and opening its store again gives the same range.
-/
import WritersProof.Mmr.Invariant

namespace WritersProof.Mmr

set_option linter.dupNamespace false

open Rust MountainRange

variable {H : Type} {hs : NodeHasher H} {data : List Bytes}

/-! ## The listing of the nodes -/

theorem treeNodes_index (h j : Nat) :
    (treeNodes hs data h j).map (·.index) = List.range' (size (j * 2 ^ h)) (2 ^ (h + 1) - 1) := by
  induction h generalizing j with
  | zero => simp [treeNodes, subtreeNode, pos_zero]
  | succ h ih =>
    have hpow := Nat.two_pow_pos h
    have hleft : 2 * j * 2 ^ h = j * 2 ^ (h + 1) := by
      rw [Nat.pow_succ]
      ring
    have hright : size ((2 * j + 1) * 2 ^ h) = size (j * 2 ^ (h + 1)) + (2 ^ (h + 1) - 1) := by
      have hsplit : (2 * j + 1) * 2 ^ h = j * 2 ^ (h + 1) + 2 ^ h := by
        rw [Nat.pow_succ]
        ring
      have htwo := size_two_pow h
      rw [hsplit, size_mul_two_pow_add j (by rw [Nat.pow_succ]; omega)]
      omega
    have hroot : pos (h + 1) j
        = size (j * 2 ^ (h + 1)) + (2 ^ (h + 1) - 1 + (2 ^ (h + 1) - 1)) := by
      rw [pos, Nat.pow_succ 2 (h + 1), Nat.pow_succ]
      omega
    rw [treeNodes, List.map_append, List.map_append, ih, ih, hleft, hright,
      List.range'_append_1, List.map_singleton,
      show (subtreeNode hs data (h + 1) j).index = pos (h + 1) j from rfl, hroot,
      ← List.range'_one, List.range'_append_1]
    congr 1
    rw [Nat.pow_succ 2 (h + 1), Nat.pow_succ]
    omega

theorem mem_treeNodes {h j : Nat} {node : Node H} (hmem : node ∈ treeNodes hs data h j) :
    ∃ h' j', node = subtreeNode hs data h' j' ∧ (j' + 1) * 2 ^ h' ≤ (j + 1) * 2 ^ h := by
  induction h generalizing j with
  | zero =>
    rw [treeNodes, List.mem_singleton] at hmem
    exact ⟨0, j, hmem, Nat.le_refl _⟩
  | succ h ih =>
    obtain ⟨hleft, hright⟩ := half_le h j
    simp only [treeNodes, List.mem_append, List.mem_singleton] at hmem
    rcases hmem with (hmem | hmem) | hmem
    · obtain ⟨h', j', hnode, hle⟩ := ih hmem
      exact ⟨h', j', hnode, by omega⟩
    · obtain ⟨h', j', hnode, hle⟩ := ih hmem
      exact ⟨h', j', hnode, by omega⟩
    · exact ⟨h + 1, j, hmem, Nat.le_refl _⟩

theorem mountainNodes_index :
    (mountainNodes hs data).map (·.index) = List.range (size data.length) := by
  -- the mountains below bit `b` have the last indices, up to the end
  have hbelow : ∀ b, ((peaksBelow b data.length).flatMap fun p => treeNodes hs data p.1 p.2).map
      (·.index)
        = List.range' (size (data.length / 2 ^ b * 2 ^ b)) (size (data.length % 2 ^ b)) := by
    intro b
    induction b with
    | zero => simp [peaksBelow, Nat.mod_one]
    | succ b ih =>
      have hpow := Nat.two_pow_pos b
      have hlt : data.length % 2 ^ b < 2 ^ b := Nat.mod_lt _ hpow
      have hmod : data.length % 2 ^ (b + 1)
          = (data.length / 2 ^ b % 2) * 2 ^ b + data.length % 2 ^ b := by
        rw [Nat.mod_pow_succ]
        ring
      have hdiv : data.length / 2 ^ b
          = 2 * (data.length / 2 ^ (b + 1)) + data.length / 2 ^ b % 2 := by
        rw [Nat.pow_succ, ← Nat.div_div_eq_div_mul]
        omega
      rw [peaksBelow]
      by_cases hbit : data.length / 2 ^ b % 2 = 1
      · have htwo := size_two_pow b
        have hstart : (data.length / 2 ^ b - 1) * 2 ^ b
            = data.length / 2 ^ (b + 1) * 2 ^ (b + 1) := by
          rw [hdiv, hbit, Nat.add_sub_cancel, Nat.pow_succ]
          ring
        have hnext : data.length / 2 ^ b * 2 ^ b
            = data.length / 2 ^ (b + 1) * 2 ^ (b + 1) + 2 ^ b := by
          rw [← hstart, Nat.sub_mul, Nat.one_mul, Nat.sub_add_cancel]
          exact Nat.le_mul_of_pos_left _ (by omega)
        have hsize : size (data.length / 2 ^ b * 2 ^ b)
            = size (data.length / 2 ^ (b + 1) * 2 ^ (b + 1)) + (2 ^ (b + 1) - 1) := by
          rw [hnext, size_mul_two_pow_add _ (by rw [Nat.pow_succ]; omega)]
          omega
        rw [if_pos hbit, List.flatMap_cons, List.map_append, ih]
        dsimp only
        rw [treeNodes_index, hstart, hsize, List.range'_append_1, hmod, hbit,
          size_mul_two_pow_add 1 hlt, Nat.one_mul]
        congr 1
        omega
      · have hzero : data.length / 2 ^ b % 2 = 0 := by omega
        have hstart : data.length / 2 ^ b * 2 ^ b
            = data.length / 2 ^ (b + 1) * 2 ^ (b + 1) := by
          rw [hdiv, hzero, Nat.add_zero, Nat.pow_succ]
          ring
        rw [if_neg hbit, ih, hmod, hzero, Nat.zero_mul, Nat.zero_add, hstart]
  have hlog : data.length < 2 ^ (data.length.log2 + 1) := Nat.lt_log2_self
  have hall := hbelow (data.length.log2 + 1)
  rwa [Nat.div_eq_of_lt hlog, Nat.mod_eq_of_lt hlog, Nat.zero_mul, size_zero,
    ← List.range_eq_range'] at hall

theorem mem_mountainNodes {node : Node H} (hmem : node ∈ mountainNodes hs data) :
    ∃ h j, node = subtreeNode hs data h j ∧ (j + 1) * 2 ^ h ≤ data.length := by
  obtain ⟨⟨h, j⟩, hp, hmem⟩ := List.mem_flatMap.mp hmem
  obtain ⟨h', j', hnode, hle⟩ := mem_treeNodes hmem
  exact ⟨h', j', hnode, Nat.le_trans hle (peak_le hp)⟩

namespace Represents

variable {m : Mmr (MemoryStore H) H}

variable (hm : Represents hs data m)

include hm

theorem nodes_eq : m.store.nodes = mountainNodes hs data := by
  have hlength : (mountainNodes hs data).length = size data.length := by
    have := congrArg List.length (@mountainNodes_index _ hs data)
    simpa using this
  apply List.ext_getElem
  · rw [hm.length_eq, hlength]
  · intro p hp hp'
    -- the node says where it belongs, and there the store has it
    have hindex : (mountainNodes hs data)[p].index = p := by
      have := congrArg (·[p]?) (@mountainNodes_index _ hs data)
      rw [hm.length_eq] at hp
      simpa [hp', hp] using this
    obtain ⟨h, j, hnode, hle⟩ := mem_mountainNodes (List.getElem_mem hp')
    have hpos : p = pos h j := by
      rw [← hindex, hnode]
      rfl
    have hstored := hm.node_at hle
    rw [← hpos, ← hnode, List.getElem?_eq_getElem hp] at hstored
    exact Option.some.inj hstored

/-- Every node of the store is that of a block. -/
theorem node_cases {p : Nat} {node : Node H} (hnode : m.store.nodes[p]? = some node) :
    ∃ h j, p = pos h j ∧ (j + 1) * 2 ^ h ≤ data.length ∧ node = subtreeNode hs data h j := by
  obtain ⟨hlt, -⟩ := List.getElem?_eq_some_iff.mp hnode
  rw [hm.length_eq] at hlt
  obtain ⟨h, j, rfl, hle⟩ := exists_pos hlt
  have hstored := hm.node_at hle
  rw [hnode] at hstored
  exact ⟨h, j, rfl, hle, Option.some.inj hstored⟩

/-- The size is far from the end of `u64`. -/
theorem size_lt : size data.length < 2 ^ 63 := by
  have hmax := Mmr.maxNodes_lt
  have hroom := hm.room
  rw [hm.length_eq] at hroom
  omega

theorem findPeaks_eq {ε : Type} :
    findPeaks (ε := ε) m.state.size = .ok ((peaks data.length).map fun p => pos p.1 p.2) := by
  have := hm.size_lt
  rw [hm.size_eq, findPeaks_size (by omega)]

theorem leafCount_eq {ε : Type} :
    leafCountFromSize (ε := ε) m.state.size = .ok data.length := by
  have := hm.size_lt
  rw [hm.size_eq, leafCountFromSize_size (by omega)]

theorem new_store : Mmr.new m.store = .ok m := by
  have hsize : Store.size m.store = (.ok m.store.nodes.length, m.store) := rfl
  have hlen : m.store.nodes.length = m.state.size := by rw [hm.length_eq, hm.size_eq]
  rw [Mmr.new, Mmr.openState, Call.bind_of_ok hsize]
  by_cases hzero : m.store.nodes.length = 0
  · have hnil : data = [] := by
      rw [hm.length_eq] at hzero
      have := le_size data.length
      exact List.length_eq_zero_iff.mp (by omega)
    have hpeaks : m.state.peaks = [] := by
      rw [hm.peaks_eq, hnil]
      rfl
    rw [if_pos hzero, Call.pure_apply, ← hpeaks, hlen]
  · have hload := Mmr.loadPeaks_eq hs data m.store (peaks data.length) fun p hp =>
      hm.node_at (peak_le hp)
    rw [if_neg hzero, hlen, hm.findPeaks_eq, Call.lift_ok_bind, Call.bind_of_ok hload,
      Call.pure_apply]
    change Except.ok (Mmr.mk m.store ⟨m.state.size, peakList hs data⟩) = _
    rw [← hm.peaks_eq]

theorem leaf_at {k : Nat} {d : Bytes} (hd : data[k]? = some d) :
    m.store.nodes[size k]? = some (Node.newLeaf hs (size k) d) := by
  obtain ⟨hlt, -⟩ := List.getElem?_eq_some_iff.mp hd
  have hstored := hm.node_at (h := 0) (j := k) (by simpa using hlt)
  rw [pos_zero] at hstored
  rw [hstored, subtreeNode, subtreeHash, pos_zero, List.getD_eq_getElem?_getD, hd]
  rfl

theorem internal_at {p : Nat} {node : Node H} (hnode : m.store.nodes[p]? = some node)
    (hheight : 0 < node.height) :
    ∃ h j left right, p = pos (h + 1) j ∧ m.store.nodes[pos h (2 * j)]? = some left ∧
      m.store.nodes[pos h (2 * j + 1)]? = some right ∧ left.height = h ∧ right.height = h ∧
      node.height = h + 1 ∧ node.hash = hs.hashInternal node.height left.hash right.hash := by
  obtain ⟨h', j, rfl, hle, rfl⟩ := hm.node_cases hnode
  obtain ⟨h, rfl⟩ : ∃ h, h' = h + 1 := ⟨h' - 1, by
    have : 0 < h' := hheight
    omega⟩
  obtain ⟨hleft, hright⟩ := half_le h j
  exact ⟨h, j, _, _, rfl, hm.node_at (by omega), hm.node_at (by omega), rfl, rfl, rfl, rfl⟩

end Represents

/-! ## The invariant as a whole -/

/-- What holds of a range after its leaves were appended to an empty store. -/
structure RepresentationInvariant (hs : NodeHasher H) (data : List Bytes)
    (m : Mmr (MemoryStore H) H) : Prop where
  size_eq : m.size = 2 * data.length - countOnes data.length
  leafCount_eq : m.leafCount = .ok data.length
  nodes_eq : m.store.nodes = mountainNodes hs data
  index_eq : ∀ (p : Nat) (node : Node H), m.store.nodes[p]? = some node → node.index = p
  leaf_at : ∀ (k : Nat) (d : Bytes), data[k]? = some d →
    m.store.nodes[2 * k - countOnes k]? = some (Node.newLeaf hs (2 * k - countOnes k) d)
  internal_at : ∀ (p : Nat) (node : Node H), m.store.nodes[p]? = some node → 0 < node.height →
    ∃ h j left right, p = pos (h + 1) j ∧ m.store.nodes[pos h (2 * j)]? = some left ∧
      m.store.nodes[pos h (2 * j + 1)]? = some right ∧ left.height = h ∧ right.height = h ∧
      node.height = h + 1 ∧ node.hash = hs.hashInternal node.height left.hash right.hash
  findPeaks_eq : findPeaks (ε := MmrError) m.size
    = .ok ((peaks data.length).map fun p => pos p.1 p.2)
  peaks_bits : ∀ h j, (h, j) ∈ peaks data.length ↔
    data.length / 2 ^ h % 2 = 1 ∧ j = data.length / 2 ^ h - 1
  peaks_sorted : ((peaks data.length).map fun p => pos p.1 p.2).Pairwise (· < ·)
  peaks_length : (peaks data.length).length = countOnes data.length
  reopened : Mmr.new m.store = .ok m

theorem Represents.invariant {m : Mmr (MemoryStore H) H} (hm : Represents hs data m) :
    RepresentationInvariant hs data m where
  size_eq := hm.size_eq
  leafCount_eq := hm.leafCount_eq
  nodes_eq := hm.nodes_eq
  index_eq := by
    intro p node hnode
    obtain ⟨h, j, rfl, -, rfl⟩ := hm.node_cases hnode
    rfl
  leaf_at := fun _ _ hd => hm.leaf_at hd
  internal_at := fun _ _ hnode hheight => hm.internal_at hnode hheight
  findPeaks_eq := hm.findPeaks_eq
  peaks_bits := by
    intro h j
    rw [mem_peaks]
    generalize data.length / 2 ^ h = q
    omega
  peaks_sorted := peaks_sorted _
  peaks_length := length_peaks _
  reopened := hm.new_store

/-- Any number of appends to an empty store keeps the invariant, until the
    vector behind the store is at its largest. -/
theorem appendAll_invariant (hs : NodeHasher H) (data : List Bytes) :
    if size data.length ≤ MemoryStore.maxNodes then
      ∃ m, Mmr.appendAll hs data Mmr.empty
          = (.ok ((List.range data.length).map fun k => 2 * k - countOnes k), m)
        ∧ RepresentationInvariant hs data m
    else ∃ m, Mmr.appendAll hs data Mmr.empty = (abort, m) := by
  have hrun := Mmr.appendAll_represents data (@Mmr.represents_nil _ hs)
  rw [List.length_nil, Nat.zero_add, List.nil_append, ← List.range_eq_range'] at hrun
  by_cases hfit : size data.length ≤ MemoryStore.maxNodes
  · rw [if_pos hfit] at hrun ⊢
    obtain ⟨m, hrun, hrep⟩ := hrun
    exact ⟨m, hrun, hrep.invariant⟩
  · rw [if_neg hfit] at hrun ⊢
    exact hrun

end WritersProof.Mmr
