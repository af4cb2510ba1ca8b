/-
  Opening what is left of a store after a crash (crates/cpoe/src/mmr/mmr.rs,
  crates/cpoe/src/mmr/store.rs).

  `find_peaks` finds peaks in every number of nodes, so `Mmr::new` accepts every prefix
  of a store.  Where the prefix ends between a leaf and its parents, the next leaf goes
  where a parent belongs.
-/
import WritersProof.Mmr.Failing

namespace WritersProof.Mmr

set_option linter.dupNamespace false

open Rust MountainRange

variable {H : Type} {hs : NodeHasher H} {data : List Bytes} {m : Mmr (MemoryStore H) H}

/-! ## Every prefix is opened -/

theorem findPeaksLoop_ok {ε : Type} (iterations : Nat) {nodes offset : Nat}
    (hmax : nodes + 1 < 2 ^ 64) :
    ∃ indices, findPeaksLoop (ε := ε) iterations nodes offset = .ok indices
      ∧ ∀ i ∈ indices, i < offset + nodes := by
  induction iterations generalizing nodes offset with
  | zero => exact ⟨[], rfl, fun _ h => nomatch h⟩
  | succ iterations ih =>
    by_cases hzero : nodes = 0
    · exact ⟨[], by rw [findPeaksLoop, if_pos hzero], fun _ h => nomatch h⟩
    -- the highest tree that fits
    obtain ⟨h, hlow, hhigh⟩ : ∃ h, 2 ^ (h + 1) ≤ nodes + 1 ∧ nodes + 1 < 2 ^ (h + 2) := by
      have hlog : 1 ≤ (nodes + 1).log2 := (Nat.le_log2 (by omega)).mpr (by omega)
      refine ⟨(nodes + 1).log2 - 1, ?_, ?_⟩
      · rw [Nat.sub_add_cancel hlog]
        exact Nat.log2_self_le (by omega)
      · rw [show (nodes + 1).log2 - 1 + 2 = (nodes + 1).log2 + 1 by omega]
        exact Nat.lt_log2_self
    have hpow : 2 ≤ 2 ^ (h + 1) := Nat.one_lt_two_pow' h
    obtain ⟨indices, hrun, hlt⟩ := @ih (nodes - (2 ^ (h + 1) - 1)) (offset + (2 ^ (h + 1) - 1))
      (by omega)
    refine ⟨(offset + (2 ^ (h + 1) - 1) - 1) :: indices, ?_, ?_⟩
    · rw [findPeaksLoop, if_neg hzero, highestPeak_eq hlow hhigh hmax, res_ok_bind]
      dsimp only
      rw [if_neg (by omega), hrun]
      rfl
    · intro i hi
      rcases List.mem_cons.mp hi with rfl | hi
      · omega
      · have := hlt i hi
        omega

theorem loadPeaks_ok (s : MemoryStore H) {indices : List Nat}
    (h : ∀ i ∈ indices, i < s.nodes.length) :
    ∃ peaks, Mmr.loadPeaks indices s = (.ok peaks, s) := by
  induction indices with
  | nil => exact ⟨[], rfl⟩
  | cons i indices ih =>
    rw [List.forall_mem_cons] at h
    obtain ⟨peaks, hpeaks⟩ := ih h.2
    have hget : Store.get i s = (.ok s.nodes[i], s) :=
      MemoryStore.get_eq (List.getElem?_eq_getElem h.1)
    refine ⟨⟨i, s.nodes[i].hash⟩ :: peaks, ?_⟩
    rw [Mmr.loadPeaks, Call.bind_of_ok hget, Call.bind_of_ok hpeaks]
    rfl

/-- Every prefix is opened. -/
theorem new_prefix (s : MemoryStore H) (hmax : s.nodes.length + 1 < 2 ^ 64) :
    ∃ m, Mmr.new s = .ok m ∧ m.store = s := by
  obtain ⟨indices, hindices, hlt⟩ := @findPeaksLoop_ok MmrError 64 _ 0 hmax
  simp only [Nat.zero_add] at hlt
  obtain ⟨peaks, hpeaks⟩ := loadPeaks_ok s hlt
  have hsize : Store.size s = (.ok s.nodes.length, s) := rfl
  have hfind : findPeaks (ε := MmrError) s.nodes.length = .ok indices := hindices
  rw [Mmr.new, Mmr.openState, Call.bind_of_ok hsize]
  by_cases hzero : s.nodes.length = 0
  · rw [if_pos hzero]
    exact ⟨_, rfl, rfl⟩
  · rw [if_neg hzero, hfind, Call.lift_ok_bind, Call.bind_of_ok hpeaks]
    exact ⟨_, rfl, rfl⟩

/-! ## Complete appends -/

/-- A block of the first leaves does not see the others. -/
theorem subtreeNode_take (hs : NodeHasher H) (data : List Bytes) {k h j : Nat}
    (hk : k ≤ data.length) (hle : (j + 1) * 2 ^ h ≤ k) :
    subtreeNode hs (data.take k) h j = subtreeNode hs data h j := by
  induction hn : data.length - k generalizing k with
  | zero => rw [List.take_of_length_le (by omega)]
  | succ n ih =>
    have hlt : k < data.length := by omega
    have hlen : (data.take k).length = k := List.length_take_of_le hk
    have hnext := ih (k := k + 1) hlt (by omega) (by omega)
    rw [← List.take_append_getElem hlt, subtreeNode_append hs _ (by rwa [hlen])] at hnext
    exact hnext

/-- A store that was cut after a complete append is a range of the leaves up to there. -/
theorem represents_take (hm : Represents hs data m) {k : Nat} (hk : k ≤ data.length) :
    Represents hs (data.take k)
      ⟨⟨m.store.nodes.take (size k)⟩, size k, peakList hs (data.take k)⟩ := by
  have hlen : (data.take k).length = k := List.length_take_of_le hk
  have hle : size k ≤ m.store.nodes.length := by
    rw [hm.length_eq]
    exact size_le_size hk
  refine ⟨?_, ?_, by rw [hlen], rfl, ?_⟩
  · rw [hlen]
    exact List.length_take_of_le hle
  · intro h j hblock
    rw [hlen] at hblock
    have hpos : pos h j < size k := pos_lt_size_iff.mpr hblock
    show (m.store.nodes.take (size k))[pos h j]? = _
    rw [List.getElem?_take_of_lt hpos, hm.node_at (hblock.trans hk),
      subtreeNode_take hs data hk hblock]
  · exact (List.length_take_le _ _).trans (by have := hm.room; omega)

/-! ## Going on -/

def storedLeaves (data : List Bytes) (nodes : Nat) : List Bytes :=
  data.take ((List.range data.length).countP fun k => size k < nodes)

theorem storedLeaves_size {k : Nat} (hk : k ≤ data.length) :
    storedLeaves data (size k) = data.take k := by
  have hcount : (List.range data.length).countP (fun i => decide (size i < size k)) = k := by
    simp only [size_lt_size_iff]
    obtain ⟨extra, hextra⟩ : ∃ extra, data.length = k + extra := ⟨data.length - k, by omega⟩
    rw [hextra, List.range_add, List.countP_append, List.countP_eq_length.mpr, List.length_range,
      List.countP_eq_zero.mpr, Nat.add_zero]
    · intro i hi
      obtain ⟨j, -, rfl⟩ := List.mem_map.mp hi
      simp
    · intro i hi
      exact decide_eq_true (List.mem_range.mp hi)
  rw [storedLeaves, hcount]

/-- If the first nodes of a store are opened, then every sequence of appends that the memory
suffices for succeeds and leaves an intact range over the stored leaves and the new ones. -/
def Reopens [DecidableEq H] (hs : NodeHasher H) (data : List Bytes) (store : MemoryStore H)
    (nodes : Nat) : Prop :=
  ∀ m, Mmr.new ⟨store.nodes.take nodes⟩ = .ok m → ∀ rest r m', Mmr.appendAll hs rest m = (r, m') →
    r = abort ∨ (∃ indices, r = .ok indices) ∧ Intact hs (storedLeaves data nodes ++ rest) m'

/-- A prefix of what appends have written can be gone on with exactly if it ends after a complete
append. -/
theorem reopens_iff [DecidableEq H] {indices : List Nat} (hbuilt : Built hs data indices m)
    {nodes : Nat} (hnodes : nodes ≤ m.store.nodes.length) :
    Reopens hs data m.store nodes ↔ ∃ k, nodes = size k := by
  have hm := hbuilt.represents.1
  constructor
  · intro h
    have hlen : (m.store.nodes.take nodes).length = nodes := List.length_take_of_le hnodes
    have hmax := Mmr.maxNodes_lt
    have hroom := hm.room
    obtain ⟨m₁, hnew, hstore⟩ := new_prefix ⟨m.store.nodes.take nodes⟩ (by
      show (m.store.nodes.take nodes).length + 1 < _
      omega)
    -- The range that was just opened has to be one already.
    rcases h m₁ hnew [] _ _ rfl with habort | ⟨-, hrep, -⟩
    · cases habort
    · refine ⟨(storedLeaves data nodes ++ []).length, ?_⟩
      rw [← hrep.length_eq, hstore]
      exact hlen.symm
  · rintro ⟨k, rfl⟩ m₁ hnew rest r m' hrun
    have hk : k ≤ data.length := by
      rw [hm.length_eq] at hnodes
      exact size_strictMono.le_iff_le.mp hnodes
    have htake := represents_take hm hk
    cases htake.new_store.symm.trans hnew
    rw [storedLeaves_size hk]
    exact Mmr.recovers_of_represents htake rest hrun

/-! ### Two leaves without their parent -/

def twoLeaves : List Bytes := [[1], [2]]

theorem twoLeaves_built : Built termHasher twoLeaves [0, 1] (ofLeaves termHasher twoLeaves) := by
  unfold Built
  decide +kernel

theorem reopens_twoLeaves :
    Reopens termHasher twoLeaves (ofLeaves termHasher twoLeaves).store 1 ↔ ∃ k, 1 = size k :=
  reopens_iff twoLeaves_built (by decide +kernel)

/-- Both leaves, without their parent -/
def tornStore : MemoryStore Term := ⟨(ofLeaves termHasher twoLeaves).store.nodes.take 2⟩

/-- The store is opened and takes a third leaf in the parent's place; then the first leaf cannot be
proved. -/
theorem not_reopens_twoLeaves :
    ¬ Reopens termHasher twoLeaves (ofLeaves termHasher twoLeaves).store 2
      ∧ ∃ m, Mmr.new tornStore = .ok m
        ∧ (Mmr.append termHasher [3] m).1 = .ok 2
        ∧ (Mmr.generateProof termHasher 0 (Mmr.append termHasher [3] m).2).1
          = fail .invalidProof := by
  have hnew : Mmr.new tornStore = .ok ⟨tornStore, 2, [⟨0, .leaf 0 [1]⟩, ⟨1, .leaf 1 [2]⟩]⟩ := by
    decide +kernel
  refine ⟨fun h => ?_, _, hnew, by decide +kernel, by decide +kernel⟩
  rcases h _ hnew [] _ _ rfl with habort | ⟨-, hrep, -⟩
  · cases habort
  · have hsize := hrep.length_eq
    revert hsize
    decide +kernel

end WritersProof.Mmr
