/-
  The root as a function of the peaks.  `bagged` folds the peaks from the right;
  `get_root` computes it and both verifiers compare against it.  When hashes are
  injective, the peaks below a root are determined up to one ambiguity: the last
  claimed peak may be the bag of the remaining real ones.
-/
import WritersProof.Mmr.Proof
import WritersProof.Mmr.Representation

namespace WritersProof.Mmr

set_option linter.dupNamespace false

open Rust MountainRange

variable {H : Type}

def bagged (hs : NodeHasher H) : List H → Option H
  | [] => none
  | [peak] => some peak
  | peak :: next :: rest => (bagged hs (next :: rest)).map (hs.hashBag peak)

variable {hs : NodeHasher H}

theorem bagged_cons (peak : H) (rest : List H) :
    bagged hs (peak :: rest)
      = some (bagPeaks hs (peak :: rest) ((peak :: rest).getLast (by simp))) := by
  induction rest generalizing peak with
  | nil => rfl
  | cons next rest ih =>
    rw [bagged, ih]
    simp [bagPeaks]

theorem checkRoot_eq_ok [DecidableEq H] {peaks : List H} {root : H} :
    checkRoot hs peaks root = .ok () ↔ bagged hs peaks = some root := by
  match peaks with
  | [] => simp [checkRoot, bagged]
  | [peak] => simp [checkRoot, bagged]
  | peak :: next :: rest => simp [checkRoot, bagged_cons]

theorem getRoot_eq_ok {S : Type} {m : Mmr S H} {root : H} :
    m.getRoot hs = .ok root ↔ bagged hs (m.state.peaks.map (·.hash)) = some root := by
  obtain ⟨store, size, peaks⟩ := m
  match peaks with
  | [] => simp [Mmr.getRoot, bagged]
  | [peak] => simp [Mmr.getRoot, bagged]
  | peak :: next :: rest =>
    have hlast : (peak.hash :: next.hash :: rest.map (·.hash)).getLast (by simp)
        = ((peak :: next :: rest).getLast (by simp)).hash :=
      List.getLast_map (f := Peak.hash) (l := peak :: next :: rest) (by simp)
    simp only [Mmr.getRoot, List.map_cons, bagged_cons, Option.some.injEq, Except.ok.injEq, hlast]

def peakHashes (hs : NodeHasher H) (data : List Bytes) : List H :=
  (peaks data.length).map fun p => subtreeHash hs data p.1 p.2

theorem Represents.peakHashes_eq {data : List Bytes} {m : Mmr (MemoryStore H) H}
    (hm : Represents hs data m) : m.state.peaks.map (·.hash) = peakHashes hs data := by
  rw [hm.peaks_eq, peakList, List.map_map]
  rfl

theorem Represents.getRoot_eq_ok {data : List Bytes} {m : Mmr (MemoryStore H) H}
    (hm : Represents hs data m) {root : H} :
    m.getRoot hs = .ok root ↔ bagged hs (peakHashes hs data) = some root := by
  rw [Mmr.getRoot_eq_ok, hm.peakHashes_eq]

/-! ## The place of a peak -/

theorem getElem?_of_idxOf? {l : List Nat} {x i : Nat} (h : l.idxOf? x = some i) :
    l[i]? = some x := by
  obtain ⟨hlt, heq, -⟩ := List.findIdx?_eq_some_iff_getElem.mp h
  rw [List.getElem?_eq_getElem hlt, beq_iff_eq.mp heq]

/-- Looking up the position of a peak finds its place in the list. -/
theorem idxOf?_peak {n h j : Nat} (hmem : (h, j) ∈ peaks n) :
    ∃ i, ((peaks n).map fun p => pos p.1 p.2).idxOf? (pos h j) = some i
      ∧ (peaks n)[i]? = some (h, j) := by
  have hpos : pos h j ∈ (peaks n).map fun p => pos p.1 p.2 :=
    List.mem_map.mpr ⟨(h, j), hmem, rfl⟩
  obtain ⟨i, hi⟩ := Option.ne_none_iff_exists'.mp
    (mt List.idxOf?_eq_none_iff.mp (not_not_intro hpos))
  refine ⟨i, hi, ?_⟩
  have hget := getElem?_of_idxOf? hi
  rw [List.getElem?_map] at hget
  obtain ⟨p, hp, heq⟩ := Option.map_eq_some_iff.mp hget
  obtain ⟨hh, hj⟩ := pos_injective heq
  rw [hp, ← hh, ← hj]

/-! ## Injective hashes -/

def IsBag (hs : NodeHasher H) (hash : H) : Prop := ∃ l r, hash = hs.hashBag l r

theorem subtreeHash_not_isBag (ideal : hs.Ideal) (data : List Bytes) (h j : Nat) :
    ¬ IsBag hs (subtreeHash hs data h j) := by
  rintro ⟨l, r, heq⟩
  cases h with
  | zero => exact ideal.leaf_ne_bag heq
  | succ h => exact ideal.internal_ne_bag heq

theorem peakHashes_not_isBag (ideal : hs.Ideal) (data : List Bytes) :
    ∀ hash ∈ peakHashes hs data, ¬ IsBag hs hash := by
  intro hash hmem
  obtain ⟨p, -, rfl⟩ := List.mem_map.mp hmem
  exact subtreeHash_not_isBag ideal data p.1 p.2

theorem bagged_getElem (ideal : hs.Ideal) {claimed real : List H} {root : H}
    (hreal : ∀ hash ∈ real, ¬ IsBag hs hash) (hclaimed : bagged hs claimed = some root)
    (hroot : bagged hs real = some root) {i : Nat} {hash : H} (hi : claimed[i]? = some hash)
    (hhash : ¬ IsBag hs hash) : real[i]? = some hash := by
  induction claimed generalizing real root i with
  | nil => cases hclaimed
  | cons peak rest ih =>
    match rest, real with
    | _, [] => cases hroot
    | [], [first] =>
      obtain rfl : peak = root := by simpa [bagged] using hclaimed
      obtain rfl : first = peak := by simpa [bagged] using hroot
      exact hi
    | [], first :: second :: real =>
      -- the claimed peak would be the bag of all real ones
      obtain rfl : peak = root := by simpa [bagged] using hclaimed
      obtain ⟨r, -, hbag⟩ := Option.map_eq_some_iff.mp hroot
      cases i with
      | zero =>
        obtain rfl : peak = hash := by simpa using hi
        exact absurd ⟨first, r, hbag.symm⟩ hhash
      | succ i => simp at hi
    | next :: rest, [first] =>
      obtain ⟨r, -, hbag⟩ := Option.map_eq_some_iff.mp hclaimed
      obtain rfl : first = root := by simpa [bagged] using hroot
      exact absurd ⟨peak, r, hbag.symm⟩ (hreal first List.mem_cons_self)
    | next :: rest, first :: second :: real =>
      obtain ⟨r, hr, hbag⟩ := Option.map_eq_some_iff.mp hclaimed
      obtain ⟨r', hr', rfl⟩ := Option.map_eq_some_iff.mp hroot
      obtain ⟨rfl, rfl⟩ := ideal.bag_inj hbag
      cases i with
      | zero => exact hi
      | succ i =>
        exact ih (fun hash hmem => hreal hash (List.mem_cons_of_mem _ hmem)) hr hr' hi

end WritersProof.Mmr
