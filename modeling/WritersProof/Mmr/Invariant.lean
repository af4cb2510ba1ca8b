/-
  The representation invariant of a mountain range that was built by appends.

  `mergeLoop_merging` carries `Merging` through the loop, and `append_represents`
  turns this into one step of `Represents`.
-/
import WritersProof.Mmr.Mmr

namespace WritersProof.Mmr

set_option linter.dupNamespace false

open Rust MountainRange Call

variable {H : Type} {data : List Bytes} {h j : Nat}

/-! ## The abstract range -/

/-- The hash over the leaves `[j * 2^h, (j+1) * 2^h)`. -/
def subtreeHash (hs : NodeHasher H) (data : List Bytes) : (h j : Nat) → H
  | 0, j => hs.hashLeaf (size j) (data.getD j [])
  | h + 1, j =>
    hs.hashInternal (h + 1) (subtreeHash hs data h (2 * j)) (subtreeHash hs data h (2 * j + 1))

variable (hs : NodeHasher H)

/-- The node over the leaves `[j * 2^h, (j+1) * 2^h)`. -/
def subtreeNode (data : List Bytes) (h j : Nat) : Node H where
  index := pos h j
  height := h
  hash := subtreeHash hs data h j

def treeNodes (hs : NodeHasher H) (data : List Bytes) : (h j : Nat) → List (Node H)
  | 0, j => [subtreeNode hs data 0 j]
  | h + 1, j =>
    treeNodes hs data h (2 * j) ++ treeNodes hs data h (2 * j + 1)
      ++ [subtreeNode hs data (h + 1) j]

/-- The perfect trees given by the binary expansion, one after the other. -/
def mountainNodes (data : List Bytes) : List (Node H) :=
  (peaks data.length).flatMap fun p => treeNodes hs data p.1 p.2

def subtreePeak (data : List Bytes) (p : Nat × Nat) : Peak H where
  index := pos p.1 p.2
  hash := subtreeHash hs data p.1 p.2

def peakList (data : List Bytes) : List (Peak H) :=
  (peaks data.length).map (subtreePeak hs data)

/-- A block that ends before the new leaf does not see it. -/
theorem subtreeHash_append (d : Bytes) (hle : (j + 1) * 2 ^ h ≤ data.length) :
    subtreeHash hs (data ++ [d]) h j = subtreeHash hs data h j := by
  induction h generalizing j with
  | zero =>
    have hlt : j < data.length := by simpa using hle
    rw [subtreeHash, subtreeHash, List.getD_eq_getElem?_getD, List.getD_eq_getElem?_getD,
      List.getElem?_append_left hlt]
  | succ h ih =>
    obtain ⟨hleft, hright⟩ := half_le h j
    rw [subtreeHash, subtreeHash, ih (by omega), ih (by omega)]

theorem subtreeNode_append (d : Bytes) (hle : (j + 1) * 2 ^ h ≤ data.length) :
    subtreeNode hs (data ++ [d]) h j = subtreeNode hs data h j := by
  rw [subtreeNode, subtreeNode, subtreeHash_append hs d hle]

/-! ## The invariant -/

/-- The store holds the node of every complete block at its position, and the cached peaks are those
    of the mountains. -/
structure Represents (hs : NodeHasher H) (data : List Bytes) (m : Mmr (MemoryStore H) H) :
    Prop where
  length_eq : m.store.nodes.length = size data.length
  node_at : ∀ {h j}, (j + 1) * 2 ^ h ≤ data.length →
    m.store.nodes[pos h j]? = some (subtreeNode hs data h j)
  size_eq : m.state.size = size data.length
  peaks_eq : m.state.peaks = peakList hs data
  room : m.store.nodes.length ≤ MemoryStore.maxNodes

/-- The range is about to hold `data`; its last leaf is in, and the blocks that
    end with it are stored up to height `i`. -/
structure Merging (hs : NodeHasher H) (data : List Bytes) (i : Nat)
    (m : Mmr (MemoryStore H) H) : Prop where
  completes : 2 ^ i ∣ data.length
  length_eq : m.store.nodes.length = size (data.length - 1) + 1 + i
  node_at : ∀ {h j}, (j + 1) * 2 ^ h ≤ data.length → pos h j < m.store.nodes.length →
    m.store.nodes[pos h j]? = some (subtreeNode hs data h j)
  size_eq : m.state.size = m.store.nodes.length
  peaks_old : ∀ peak ∈ m.state.peaks, peak.index < size (data.length - 1)

namespace Mmr

/-! ## Calls on the memory store -/

variable {m : Mmr (MemoryStore H) H} {node : Node H}

theorem onStore_get {index : Nat} (h : m.store.nodes[index]? = some node) :
    onStore (Store.get index) m = (.ok node, m) := by
  have hget : Store.get index m.store = (.ok node, m.store) := MemoryStore.get_eq h
  rw [onStore, zoom, hget]

theorem onStore_append (hindex : node.index = m.store.nodes.length)
    (hroom : m.store.nodes.length < MemoryStore.maxNodes) :
    onStore (Store.append node) m = (.ok (), { m with store := ⟨m.store.nodes ++ [node]⟩ }) := by
  have happ : Store.append node m.store = (.ok (), ⟨m.store.nodes ++ [node]⟩) :=
    MemoryStore.append_eq hindex hroom
  rw [onStore, zoom, happ]

theorem onStore_append_full (hindex : node.index = m.store.nodes.length)
    (hfull : MemoryStore.maxNodes ≤ m.store.nodes.length) :
    onStore (Store.append node) m = (abort, m) := by
  have happ : Store.append node m.store = (abort, m.store) := by
    change MemoryStore.append node m.store = _
    rw [MemoryStore.append, if_neg (by simpa using hindex), if_pos hfull]
  rw [onStore, zoom, happ]

theorem bumpSize_eq {S : Type} (store : S) {state : MmrState H} (h : state.size + 1 < 2 ^ 64) :
    bumpSize ⟨store, state⟩ = (.ok (), ⟨store, state.size + 1, state.peaks⟩) := by
  rw [bumpSize, checkedAdd_eq_some h]

theorem loadPeaks_eq (hs : NodeHasher H) (data : List Bytes) (s : MemoryStore H) :
    ∀ ps : List (Nat × Nat),
      (∀ p ∈ ps, s.nodes[pos p.1 p.2]? = some (subtreeNode hs data p.1 p.2)) →
      loadPeaks (ps.map fun p => pos p.1 p.2) s = (.ok (ps.map (subtreePeak hs data)), s) := by
  intro ps
  induction ps with
  | nil =>
    intro _
    rfl
  | cons p ps ih =>
    intro hstored
    have hget : Store.get (pos p.1 p.2) s = (.ok (subtreeNode hs data p.1 p.2), s) :=
      MemoryStore.get_eq (hstored p List.mem_cons_self)
    have hrest := ih fun q hq => hstored q (List.mem_cons_of_mem _ hq)
    rw [List.map_cons, loadPeaks, bind_of_ok hget, bind_of_ok hrest]
    rfl

theorem cachePeaks_eq (hs : NodeHasher H) (data : List Bytes) {ps : List (Nat × Nat)}
    (hstored : ∀ p ∈ ps, m.store.nodes[pos p.1 p.2]? = some (subtreeNode hs data p.1 p.2)) :
    cachePeaks (ps.map fun p => pos p.1 p.2) m
      = (.ok (), { m with state := { m.state with peaks := ps.map (subtreePeak hs data) } }) := by
  have hload : onStore (loadPeaks (ps.map fun p => pos p.1 p.2)) m
      = (.ok (ps.map (subtreePeak hs data)), m) := by
    rw [onStore, zoom, loadPeaks_eq hs data m.store ps hstored]
  rw [cachePeaks, bind_of_ok hload]
  rfl

/-! ## The merge loop -/

section Merge

variable {hs : NodeHasher H} {i c : Nat}

theorem maxNodes_lt : MemoryStore.maxNodes < 2 ^ 63 := by decide

variable (hm : Merging hs data i m)

include hm

/-- The store ends with the block of height `i`. -/
theorem merging_length (hc : data.length = (c + 1) * 2 ^ i) :
    m.store.nodes.length = pos i c + 1 := by
  rw [hm.length_eq, pos_of_end hc.symm]
  omega

/-- In the middle of the loop, the peaks are the mountains before the carried
    block, and the block itself. -/
theorem merging_findPeaks (hc : data.length = (c + 1) * 2 ^ i)
    (hroom : m.store.nodes.length ≤ MemoryStore.maxNodes) :
    findPeaks (ε := MmrError) m.state.size
      = .ok ((peaks (c * 2 ^ i) ++ [(i, c)]).map fun p => pos p.1 p.2) := by
  have hpow := Nat.two_pow_pos i
  have hsize : m.state.size = MountainRange.size (c * 2 ^ i) + (2 ^ (i + 1) - 1) := by
    have hlen := merging_length hm hc
    have hpos : pos i c = MountainRange.size (c * 2 ^ i) + 2 ^ (i + 1) - 2 := rfl
    rw [hm.size_eq]
    rw [Nat.pow_succ] at hpos ⊢
    omega
  have hlen : MountainRange.size (c * 2 ^ i) + 2 ^ (i + 1) < 2 ^ 64 := by
    have hmax := maxNodes_lt
    rw [hm.size_eq] at hsize
    omega
  rw [hsize, findPeaks_size_add_tree (Nat.mul_mod_left c _) hlen, Nat.mul_div_cancel _ hpow,
    List.map_append, List.map_singleton]

/-- Two blocks of the same height at the end: their parent is next. -/
theorem merging_round (hc : data.length = (2 * c + 1 + 1) * 2 ^ i)
    (hroom : m.store.nodes.length ≤ MemoryStore.maxNodes) (rounds : Nat) :
    mergeLoop hs (rounds + 1) m = (do
      onStore (Store.append (subtreeNode hs data (i + 1) c))
      bumpSize
      mergeLoop hs rounds) m := by
  have hpeaks := merging_findPeaks hm hc hroom
  -- the mountain before the carried block has the same height
  have hodd : peaks ((2 * c + 1) * 2 ^ i) = peaks (c * 2 ^ (i + 1)) ++ [(i, 2 * c)] := by
    have hsplit : (2 * c + 1) * 2 ^ i = c * 2 ^ (i + 1) + 2 ^ i := by
      rw [Nat.pow_succ]
      ring
    have hdiv : c * 2 ^ (i + 1) / 2 ^ i = 2 * c := by
      rw [Nat.pow_succ, Nat.mul_comm (2 ^ i) 2, ← Nat.mul_assoc,
        Nat.mul_div_cancel _ (Nat.two_pow_pos i), Nat.mul_comm]
    rw [hsplit, peaks_add_two_pow (Nat.mul_mod_left c _), hdiv]
  have hlength := merging_length hm hc
  have hlast : m.store.nodes[pos i (2 * c + 1)]? = some (subtreeNode hs data i (2 * c + 1)) :=
    hm.node_at (Nat.le_of_eq hc.symm) (by omega)
  have hprev : m.store.nodes[pos i (2 * c)]? = some (subtreeNode hs data i (2 * c)) := by
    have hlt : pos i (2 * c) < pos i (2 * c + 1) := pos_lt_pos (by omega)
    refine hm.node_at ?_ (by omega)
    rw [hc]
    exact Nat.mul_le_mul_right _ (by omega)
  have hheight : i + 1 < 2 ^ 8 := by
    have hmax := maxNodes_lt
    have hpow : 2 ^ i < 2 ^ 63 := by
      have hle : 1 * 2 ^ i ≤ (2 * c + 1 + 1) * 2 ^ i := Nat.mul_le_mul_right _ (by omega)
      have hdata := le_size (data.length - 1)
      have hlen := hm.length_eq
      omega
    have := (Nat.pow_lt_pow_iff_right (by decide : 1 < 2)).mp hpow
    omega
  have hnode : Node.newInternal hs m.state.size (i + 1) (subtreeNode hs data i (2 * c))
      (subtreeNode hs data i (2 * c + 1)) = subtreeNode hs data (i + 1) c := by
    rw [hm.size_eq, hlength, pos_right]
    rfl
  rw [mergeLoop, asks_bind, hpeaks, lift_ok_bind, hodd]
  simp only [List.map_append, List.map_singleton, List.reverse_append, List.reverse_singleton,
    List.singleton_append]
  rw [bind_of_ok (onStore_get hlast), bind_of_ok (onStore_get hprev)]
  have hsame : ¬ (subtreeNode hs data i (2 * c + 1)).height
      ≠ (subtreeNode hs data i (2 * c)).height :=
    fun hne => hne rfl
  have hok : (subtreeNode hs data i (2 * c + 1)).height + 1 < 2 ^ 8 := hheight
  rw [if_neg hsame, if_pos hok, lift_ok_bind]
  change (do
    onStore (Store.append (Node.newInternal hs m.state.size (i + 1) _ _))
    bumpSize
    mergeLoop hs rounds) m = _
  rw [hnode]

/-- Adding the parent keeps the loop invariant, one level up. -/
theorem merging_step (hc : data.length = (2 * c + 1 + 1) * 2 ^ i) :
    Merging hs data (i + 1)
      ⟨⟨m.store.nodes ++ [subtreeNode hs data (i + 1) c]⟩, m.state.size + 1, m.state.peaks⟩ where
  completes := ⟨c + 1, by rw [hc, Nat.pow_succ]; ring⟩
  length_eq := by
    rw [List.length_append, hm.length_eq, List.length_singleton]
    omega
  node_at := by
    intro h j hle hlt
    rw [List.length_append, List.length_singleton] at hlt
    have hlength := merging_length hm hc
    rw [pos_right] at hlength
    by_cases hold : pos h j < m.store.nodes.length
    · rw [List.getElem?_append_left hold]
      exact hm.node_at hle hold
    · have heq : pos h j = pos (i + 1) c := by omega
      obtain ⟨rfl, rfl⟩ := pos_injective heq
      rw [heq, ← hlength, List.getElem?_concat_length]
  size_eq := by
    rw [List.length_append, hm.size_eq, List.length_singleton]
  peaks_old := hm.peaks_old

/-- The cached peaks are always those of a smaller range, so they are replaced. -/
theorem merging_peaksChanged (hc : data.length = (c + 1) * 2 ^ i) :
    peaksChanged m.state.peaks [pos i c] = true := by
  have hlength := merging_length hm hc
  have hlen := hm.length_eq
  rw [peaksChanged]
  by_cases hone : m.state.peaks.length = 1
  · obtain ⟨peak, hpeak⟩ := List.length_eq_one_iff.mp hone
    have hlt := hm.peaks_old peak (by rw [hpeak]; exact List.mem_cons_self)
    have hne : peak.index ≠ pos i c := by omega
    simp [hpeak, hne]
  · simp [hone]

/-- No two blocks of the same height are left: the loop caches the peaks and
    the range represents the leaves. -/
theorem merging_exit (hc : data.length = (2 * c + 1) * 2 ^ i)
    (hroom : m.store.nodes.length ≤ MemoryStore.maxNodes) (rounds : Nat) :
    mergeLoop hs (rounds + 1) m
        = (.ok (), { m with state := { m.state with peaks := peakList hs data } })
      ∧ Represents hs data { m with state := { m.state with peaks := peakList hs data } } := by
  have hpow := Nat.two_pow_pos i
  have hlow : 2 * c * 2 ^ i % 2 ^ (i + 1) = 0 := Nat.mod_eq_zero_of_dvd ⟨c, by ring⟩
  have hall : peaks data.length = peaks (2 * c * 2 ^ i) ++ [(i, 2 * c)] := by
    have hsplit : data.length = 2 * c * 2 ^ i + 2 ^ i := by
      rw [hc]
      ring
    rw [hsplit, peaks_add_two_pow hlow, Nat.mul_div_cancel _ hpow]
  have hpeaks := merging_findPeaks hm hc hroom
  rw [← hall] at hpeaks
  -- nothing is carried further, so the store is complete
  have hpos : 0 < data.length := by
    rw [hc]
    exact Nat.mul_pos (by omega) hpow
  have hsucc : data.length - 1 + 1 = data.length := by omega
  have hcarries : carries (data.length - 1) = i := by
    apply Nat.le_antisymm
    · by_contra hgt
      obtain ⟨d, hd⟩ := le_carries_iff.mp (show i + 1 ≤ carries (data.length - 1) by omega)
      rw [hsucc, hc, Nat.pow_succ, Nat.mul_comm, Nat.mul_assoc] at hd
      have := Nat.eq_of_mul_eq_mul_left hpow hd
      omega
    · rw [le_carries_iff, hsucc]
      exact hm.completes
  have hcomplete : m.store.nodes.length = MountainRange.size data.length := by
    have hsize := size_succ (data.length - 1)
    rw [hsucc] at hsize
    rw [hm.length_eq, hsize, hcarries]
  have hstored : ∀ {h j}, (j + 1) * 2 ^ h ≤ data.length →
      m.store.nodes[pos h j]? = some (subtreeNode hs data h j) := by
    intro h j hle
    refine hm.node_at hle ?_
    rw [hcomplete]
    exact pos_lt_size_iff.mpr hle
  have hget : ∀ p ∈ peaks data.length,
      m.store.nodes[pos p.1 p.2]? = some (subtreeNode hs data p.1 p.2) := by
    intro p hp
    exact hstored (peak_le hp)
  have hcache : cachePeaks ((peaks data.length).map fun p => pos p.1 p.2) m
      = (.ok (), { m with state := { m.state with peaks := peakList hs data } }) :=
    cachePeaks_eq hs data hget
  refine ⟨?_, hcomplete, hstored, by rw [← hcomplete]; exact hm.size_eq, rfl, hroom⟩
  rw [mergeLoop, asks_bind, hpeaks, lift_ok_bind]
  rcases List.eq_nil_or_concat (peaks (2 * c * 2 ^ i)) with hnil | ⟨before, ⟨h, j⟩, hlast⟩
  · -- one mountain
    have hone : peaks data.length = [(i, 2 * c)] := by rw [hall, hnil, List.nil_append]
    rw [hone] at hcache ⊢
    simp only [List.map_singleton, List.reverse_singleton] at hcache ⊢
    rw [asks_bind, if_pos (.inl (merging_peaksChanged hm hc)), hcache]
  · -- the mountain before the last one is higher
    rw [List.concat_eq_append] at hlast
    have hmem : (h, j) ∈ peaks (2 * c * 2 ^ i) := by simp [hlast]
    have hgt : i < h := lt_height_of_mem_peaks hlow hmem
    have hprev := hget (h, j) (by rw [hall]; exact List.mem_append_left _ hmem)
    have hcur := hget (i, 2 * c) (by rw [hall]; simp)
    have hreverse : ((peaks data.length).map fun p => pos p.1 p.2).reverse
        = pos i (2 * c) :: pos h j :: (before.map fun p => pos p.1 p.2).reverse := by
      simp [hall, hlast]
    rw [hreverse]
    simp only
    rw [bind_of_ok (onStore_get hcur), bind_of_ok (onStore_get hprev)]
    have hdiff : (subtreeNode hs data i (2 * c)).height ≠ (subtreeNode hs data h j).height :=
      Nat.ne_of_lt hgt
    rw [if_pos hdiff, hcache]

/-- The whole loop: it ends with the range complete, or it runs out of room. -/
theorem mergeLoop_merging {k rounds : Nat} (hpos : 0 < data.length)
    (hk : i + k = carries (data.length - 1)) (hrounds : k < rounds)
    (hroom : m.store.nodes.length ≤ MemoryStore.maxNodes) :
    if MountainRange.size data.length ≤ MemoryStore.maxNodes then
      ∃ m', mergeLoop hs rounds m = (.ok (), m') ∧ Represents hs data m'
    else ∃ m', mergeLoop hs rounds m = (abort, m') := by
  induction k generalizing i m rounds with
  | zero =>
    obtain ⟨rounds, rfl⟩ : ∃ r, rounds = r + 1 := ⟨rounds - 1, by omega⟩
    -- no carry is left, so the last block is a left one
    obtain ⟨c, hc⟩ : ∃ c, data.length = (2 * c + 1) * 2 ^ i := by
      obtain ⟨q, hq⟩ := hm.completes
      refine ⟨q / 2, ?_⟩
      have hodd : q % 2 = 1 := by
        by_contra heven
        have hnext : i + 1 ≤ carries (data.length - 1) := by
          rw [le_carries_iff, Nat.sub_add_cancel hpos]
          refine ⟨q / 2, ?_⟩
          rw [hq, Nat.pow_succ, Nat.mul_assoc]
          congr 1
          omega
        omega
      rw [hq, Nat.mul_comm, show 2 * (q / 2) + 1 = q by omega]
    obtain ⟨hloop, hrep⟩ := merging_exit hm hc hroom rounds
    rw [if_pos (by rw [← hrep.length_eq]; exact hroom)]
    exact ⟨_, hloop, hrep⟩
  | succ k ih =>
    obtain ⟨rounds, rfl⟩ : ∃ r, rounds = r + 1 := ⟨rounds - 1, by omega⟩
    -- a carry: the last block has a left neighbour
    obtain ⟨c, hc⟩ : ∃ c, data.length = (2 * c + 1 + 1) * 2 ^ i := by
      obtain ⟨q, hq⟩ := le_carries_iff.mp (show i + 1 ≤ carries (data.length - 1) by omega)
      rw [Nat.sub_add_cancel hpos] at hq
      refine ⟨q - 1, ?_⟩
      have hqpos : 0 < q := by
        rcases Nat.eq_zero_or_pos q with rfl | h
        · omega
        · exact h
      rw [hq, Nat.pow_succ, show 2 * (q - 1) + 1 + 1 = 2 * q by omega]
      ring
    have hindex : (subtreeNode hs data (i + 1) c).index = m.store.nodes.length := by
      rw [merging_length hm hc, pos_right]
      rfl
    rw [merging_round hm hc hroom rounds]
    by_cases hfull : MemoryStore.maxNodes ≤ m.store.nodes.length
    · have hbig : ¬ MountainRange.size data.length ≤ MemoryStore.maxNodes := by
        have hsize := size_succ (data.length - 1)
        have hlen := hm.length_eq
        rw [Nat.sub_add_cancel hpos] at hsize
        omega
      rw [if_neg hbig, bind_of_error (onStore_append_full hindex hfull)]
      exact ⟨m, rfl⟩
    · have hmax := maxNodes_lt
      have hbump : m.state.size + 1 < 2 ^ 64 := by
        rw [hm.size_eq]
        omega
      rw [bind_of_ok (onStore_append hindex (by omega)),
        bind_of_ok (bumpSize_eq _ hbump)]
      refine ih (merging_step hm hc) (by omega) (by omega) ?_
      rw [List.length_append, List.length_singleton]
      omega

end Merge

/-! ## Appends -/

variable {hs : NodeHasher H}

theorem represents_nil : Represents hs [] empty where
  length_eq := rfl
  node_at := by
    intro h j hle
    have : 0 < (j + 1) * 2 ^ h := Nat.mul_pos (Nat.succ_pos j) (Nat.two_pow_pos h)
    simp only [List.length_nil] at hle
    omega
  size_eq := rfl
  peaks_eq := rfl
  room := Nat.zero_le _

theorem merging_leaf (hm : Represents hs data m) (d : Bytes) :
    Merging hs (data ++ [d]) 0
      ⟨⟨m.store.nodes ++ [Node.newLeaf hs m.state.size d]⟩, m.state.size + 1, m.state.peaks⟩ where
  completes := by simp
  length_eq := by simp [hm.length_eq]
  node_at := by
    intro h j hle hlt
    simp only [List.length_append, List.length_singleton, hm.length_eq] at hle hlt
    by_cases hold : pos h j < MountainRange.size data.length
    · have hblock := pos_lt_size_iff.mp hold
      rw [List.getElem?_append_left (by rwa [hm.length_eq]), hm.node_at hblock,
        subtreeNode_append hs d hblock]
    · have heq : pos h j = pos 0 data.length := by
        rw [pos_zero]
        omega
      obtain ⟨rfl, rfl⟩ := pos_injective heq
      rw [pos_zero, ← hm.length_eq, List.getElem?_concat_length, hm.size_eq]
      simp [Node.newLeaf, subtreeNode, subtreeHash, pos_zero]
  size_eq := by simp [hm.size_eq, hm.length_eq]
  peaks_old := by
    intro peak hpeak
    rw [hm.peaks_eq, peakList] at hpeak
    obtain ⟨p, hp, rfl⟩ := List.mem_map.mp hpeak
    rw [List.length_append, List.length_singleton, Nat.add_sub_cancel]
    exact pos_lt_size_iff.mpr (peak_le hp)

/-- One append adds its leaf, or runs out of room. -/
theorem append_represents (hm : Represents hs data m) (d : Bytes) :
    if MountainRange.size (data.length + 1) ≤ MemoryStore.maxNodes then
      ∃ m', append hs d m = (.ok (MountainRange.size data.length), m')
        ∧ Represents hs (data ++ [d]) m'
    else ∃ m', append hs d m = (abort, m') := by
  have hindex : (Node.newLeaf hs m.state.size d).index = m.store.nodes.length := by
    rw [hm.length_eq, ← hm.size_eq]
    rfl
  have hsize := size_succ data.length
  have hlen := hm.length_eq
  rw [append, asks_bind]
  by_cases hfull : MemoryStore.maxNodes ≤ m.store.nodes.length
  · rw [if_neg (by omega), bind_of_error (onStore_append_full hindex hfull)]
    exact ⟨m, rfl⟩
  · have hmax := maxNodes_lt
    have hbump : m.state.size + 1 < 2 ^ 64 := by
      rw [hm.size_eq]
      omega
    rw [bind_of_ok (onStore_append hindex (by omega)), bind_of_ok (bumpSize_eq _ hbump)]
    have hcarries : carries data.length < 2 ^ 64 := by
      have hones := countOnes_succ data.length
      have hle := countOnes_le data.length
      have hsz := le_size data.length
      omega
    have hloop := mergeLoop_merging (k := carries data.length)
      (merging_leaf hm d) (by simp) (by simp) hcarries (by simp; omega)
    rw [List.length_append, List.length_singleton] at hloop
    by_cases hfit : MountainRange.size (data.length + 1) ≤ MemoryStore.maxNodes
    · rw [if_pos hfit] at hloop ⊢
      obtain ⟨m', hrun, hrep⟩ := hloop
      rw [bind_of_ok hrun, hm.size_eq]
      exact ⟨m', rfl, hrep⟩
    · rw [if_neg hfit] at hloop ⊢
      obtain ⟨m', hrun⟩ := hloop
      rw [bind_of_error hrun]
      exact ⟨m', rfl⟩

theorem appendAll_represents (rest : List Bytes) :
    ∀ {data : List Bytes} {m : Mmr (MemoryStore H) H}, Represents hs data m →
      if MountainRange.size (data.length + rest.length) ≤ MemoryStore.maxNodes then
        ∃ m', appendAll hs rest m
            = (.ok ((List.range' data.length rest.length).map MountainRange.size), m')
          ∧ Represents hs (data ++ rest) m'
      else ∃ m', appendAll hs rest m = (abort, m') := by
  induction rest with
  | nil =>
    intro data m hm
    have hfit := hm.room
    rw [hm.length_eq] at hfit
    rw [List.length_nil, Nat.add_zero, if_pos hfit, List.append_nil]
    exact ⟨m, rfl, hm⟩
  | cons d rest ih =>
    intro data m hm
    have hstep := append_represents hm d
    have hmono : MountainRange.size (data.length + 1)
        ≤ MountainRange.size (data.length + (rest.length + 1)) := size_le_size (by omega)
    rw [List.length_cons, appendAll]
    by_cases hfit : MountainRange.size (data.length + 1) ≤ MemoryStore.maxNodes
    · rw [if_pos hfit] at hstep
      obtain ⟨m', hrun, hrep⟩ := hstep
      have hrest := ih hrep
      rw [List.length_append, List.length_singleton, List.append_assoc,
        show data.length + 1 + rest.length = data.length + (rest.length + 1) by omega] at hrest
      rw [bind_of_ok hrun]
      by_cases hall : MountainRange.size (data.length + (rest.length + 1)) ≤ MemoryStore.maxNodes
      · rw [if_pos hall] at hrest ⊢
        obtain ⟨m'', hrun', hrep'⟩ := hrest
        rw [bind_of_ok hrun', List.range'_succ, List.map_cons]
        exact ⟨m'', rfl, hrep'⟩
      · rw [if_neg hall] at hrest ⊢
        obtain ⟨m'', hrun'⟩ := hrest
        rw [bind_of_error hrun']
        exact ⟨m'', rfl⟩
    · rw [if_neg hfit] at hstep
      obtain ⟨m', hrun⟩ := hstep
      rw [if_neg (by omega), bind_of_error hrun]
      exact ⟨m', rfl⟩

end Mmr

end WritersProof.Mmr
