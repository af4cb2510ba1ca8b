/-
  What an accepted range proof proves.

  The verifier overwrites: an entry that lands on the position of another one
  replaces it, and the leaves below the old entry are no longer part of what is
  compared with the peaks.  `sources` follows the leaves by positions alone.  A
  leaf that reaches the end is a leaf of the range; a leaf that does not can be
  replaced by any other.
-/
import WritersProof.Mmr.Inclusion
import WritersProof.Mmr.RangeLift

namespace WritersProof.Mmr

open Rust MountainRange

variable {H : Type} {hs : NodeHasher H} {data : List Bytes} {indices : List Nat}
  {m : Mmr (MemoryStore H) H}

namespace RangeProof

/-! ## What acceptance means -/

def startMap {V : Type} (leafIndices : List Nat) (values : List V) : OrdMap V :=
  (leafIndices.zip values).foldl (fun map p => OrdMap.insert p.1 p.2 map) []

/-- The checks of `verify`, all passed. -/
structure Accepted [DecidableEq H] (hs : NodeHasher H) (proof : RangeProof H)
    (leafData : List Bytes) (peakSet : List Nat) (final : OrdMap H) : Prop where
  ordered : proof.startLeaf ≤ proof.endLeaf
  bounded : proof.endLeaf - proof.startLeaf + 1 < 2 ^ 64
  length_data : leafData.length = proof.endLeaf - proof.startLeaf + 1
  length_hashes : proof.leafHashes.length = proof.endLeaf - proof.startLeaf + 1
  leaves : checkLeaves hs proof.leafIndices proof.leafHashes leafData = .ok ()
  length_indices : proof.leafIndices.length = proof.leafHashes.length
  nodup : proof.leafIndices.Nodup
  findPeaks_eq : findPeaks (ε := MmrError) proof.mmrSize = .ok peakSet
  climb_eq : climb hs peakSet 63 0 (startMap proof.leafIndices proof.leafHashes) proof.siblingPath
    = .ok (final, [])
  nonempty : final ≠ []
  peaks_match : checkPeaks peakSet proof.peaks final = .ok ()
  root_matches : checkRoot hs proof.peaks proof.root = .ok ()

theorem verify_eq_ok [DecidableEq H] {proof : RangeProof H} {leafData : List Bytes} :
    proof.verify hs leafData = .ok ()
      ↔ ∃ peakSet final, Accepted hs proof leafData peakSet final := by
  constructor
  · intro h
    rw [verify, guard_fail_eq_ok, Nat.not_lt] at h
    obtain ⟨hordered, h⟩ := h
    obtain ⟨rangeLen, hlen, h⟩ := res_bind_eq_ok.mp h
    rw [checkedSub, if_pos hordered, Option.bind_some] at hlen
    obtain ⟨hbounded, rfl⟩ := okOr_checkedAdd_eq_ok hlen
    rw [guard_fail_eq_ok, guard_fail_eq_ok, Decidable.not_not, Decidable.not_not] at h
    obtain ⟨hdata, hhashes, h⟩ := h
    obtain ⟨_, hleaves, h⟩ := res_bind_eq_ok.mp h
    rw [guard_fail_eq_ok, guard_fail_eq_ok, Decidable.not_not, Decidable.not_not] at h
    obtain ⟨hindices, hnodup, h⟩ := h
    obtain ⟨peakSet, hpeaks, h⟩ := res_bind_eq_ok.mp h
    obtain ⟨⟨final, siblings⟩, hclimb, h⟩ := res_bind_eq_ok.mp h
    dsimp only at h
    rw [guard_fail_eq_ok, guard_fail_eq_ok, Decidable.not_not] at h
    obtain ⟨hne, rfl, h⟩ := h
    obtain ⟨_, hmatch, hroot⟩ := res_bind_eq_ok.mp h
    exact ⟨peakSet, final, hordered, hbounded, hdata, hhashes, hleaves, hindices, hnodup, hpeaks,
      hclimb, hne, hmatch, hroot⟩
  · rintro ⟨peakSet, final, h⟩
    have hordered := h.ordered
    have hclimb := h.climb_eq
    rw [startMap] at hclimb
    rw [verify, if_neg (by omega), checkedSub, if_pos hordered, Option.bind_some,
      checkedAdd_eq_some h.bounded, okOr_some, res_ok_bind, if_neg (not_not_intro h.length_data),
      if_neg (not_not_intro h.length_hashes), h.leaves, res_ok_bind,
      if_neg (not_not_intro h.length_indices), if_neg (not_not_intro h.nodup)]
    dsimp only
    rw [h.findPeaks_eq, res_ok_bind, hclimb, res_ok_bind]
    dsimp only
    rw [if_neg h.nonempty, if_neg (not_not_intro rfl), h.peaks_match, res_ok_bind, h.root_matches]

theorem checkLeaves_eq_ok [DecidableEq H] {leafData : List Bytes} :
    ∀ {leafIndices : List Nat} {leafHashes : List H},
      leafIndices.length = leafData.length → leafHashes.length = leafData.length →
      (checkLeaves hs leafIndices leafHashes leafData = .ok ()
        ↔ leafHashes = List.zipWith hs.hashLeaf leafIndices leafData) := by
  induction leafData with
  | nil =>
    intro leafIndices leafHashes hi hh
    obtain rfl := List.length_eq_zero_iff.mp hi
    obtain rfl := List.length_eq_zero_iff.mp hh
    simp [checkLeaves]
  | cons d rest ih =>
    intro leafIndices leafHashes hi hh
    obtain ⟨index, indices, rfl⟩ := List.exists_cons_of_length_eq_add_one hi
    obtain ⟨hash, hashes, rfl⟩ := List.exists_cons_of_length_eq_add_one hh
    rw [checkLeaves, guard_fail_eq_ok, Decidable.not_not,
      ih (by simpa using hi) (by simpa using hh), List.zipWith_cons_cons, List.cons.injEq,
      eq_comm (a := hs.hashLeaf index d)]

/-! ## Which leaves reach the end -/

/-- In the place of a hash: the places of the leaves that it was computed from. -/
def sourceHasher : NodeHasher (List Nat) where
  hashLeaf _ _ := []
  hashInternal _ left right := left ++ right
  hashBag left right := left ++ right

/-- The verifier's loop, run on sources: the leaf at place `i` starts with
    itself, an element of the sibling path comes from no leaf. -/
def sources (proof : RangeProof H) :
    Res MmrError (OrdMap (List Nat) × List (ProofElement (List Nat))) := do
  let peakSet ← findPeaks proof.mmrSize
  climb sourceHasher peakSet 63 0
    (startMap proof.leafIndices ((List.range proof.leafIndices.length).map fun i => [i]))
    (proof.siblingPath.map fun elem => ⟨[], elem.isLeft⟩)

/-- The leaf at place `i` is part of an entry that the verifier compares with a peak. -/
def Reaches (proof : RangeProof H) (i : Nat) : Prop :=
  ∃ final, proof.sources = .ok final ∧ ∃ entry ∈ final.1, i ∈ entry.2

theorem relatedPaths_map {K : Type} {S : H → K → Prop} {f : H → K} (path : List (ProofElement H))
    (h : ∀ a, S a (f a)) : RelatedPaths S path
    (path.map fun elem => ⟨f elem.hash, elem.isLeft⟩) := by
  induction path with
  | nil => exact .nil
  | cons elem path ih => exact .cons ⟨rfl, h elem.hash⟩ ih

theorem startMap_related {V W : Type} {R : V → W → Prop} {leafIndices : List Nat} {xs : List V}
    {ys : List W} (hlen : xs.length = ys.length)
    (h : ∀ i (hx : i < xs.length) (hy : i < ys.length), R xs[i] ys[i]) :
    OrdMap.Related R (startMap leafIndices xs) (startMap leafIndices ys) :=
  OrdMap.Related.foldl_insert (OrdMap.related_zip hlen h) .nil

/-! ## A leaf that reaches the end -/

/-- If `hash` belongs to a block then `leaf` belongs to a block inside. -/
def Beneath (hs : NodeHasher H) (data : List Bytes) (leaf hash : H) : Prop :=
  ∀ h j, hash = subtreeHash hs data h j →
    ∃ h' j', leaf = subtreeHash hs data h' j' ∧ (j' + 1) * 2 ^ h' ≤ (j + 1) * 2 ^ h

theorem Beneath.refl (leaf : H) : Beneath hs data leaf leaf :=
  fun h j heq => ⟨h, j, heq, Nat.le_refl _⟩

theorem Beneath.internal_left (ideal : hs.Ideal) {leaf l : H} (hl : Beneath hs data leaf l)
    (height : Nat) (r : H) : Beneath hs data leaf (hs.hashInternal height l r) := by
  intro h j heq
  obtain ⟨h', rfl, hcur, -⟩ := children_of_subtreeHash ideal heq
  obtain ⟨h'', j'', hleaf, hle⟩ := hl _ _ hcur
  exact ⟨h'', j'', hleaf, Nat.le_trans hle (half_le h' j).1⟩

theorem Beneath.internal_right (ideal : hs.Ideal) {leaf r : H} (hr : Beneath hs data leaf r)
    (height : Nat) (l : H) : Beneath hs data leaf (hs.hashInternal height l r) := by
  intro h j heq
  obtain ⟨h', rfl, -, hcur⟩ := children_of_subtreeHash ideal heq
  obtain ⟨h'', j'', hleaf, hle⟩ := hr _ _ hcur
  exact ⟨h'', j'', hleaf, Nat.le_trans hle (half_le h' j).2⟩

/-- Every leaf among the sources is beneath the hash. -/
def FromLeaves (hs : NodeHasher H) (data : List Bytes) (leafHashes : List H) (hash : H)
    (from_ : List Nat) : Prop :=
  ∀ i ∈ from_, ∀ leaf, leafHashes[i]? = some leaf → Beneath hs data leaf hash

theorem fromLeaves_respects (ideal : hs.Ideal) (leafHashes : List H) :
    Respects hs sourceHasher
      (fun hash from_ => ¬ IsBag hs hash ∧ FromLeaves hs data leafHashes hash from_)
      (FromLeaves hs data leafHashes) where
  of_map h := h.2
  internal height := by
    intro l fl r fr hl hr
    refine ⟨?_, ?_⟩
    · rintro ⟨x, y, heq⟩
      exact ideal.internal_ne_bag heq
    · intro i hi leaf hleaf
      rcases List.mem_append.mp hi with hi | hi
      · exact (hl i hi leaf hleaf).internal_left ideal height r
      · exact (hr i hi leaf hleaf).internal_right ideal height l

end RangeProof

open RangeProof

theorem Represents.leaf_of_reaches [DecidableEq H] (hm : Represents hs data m) (ideal : hs.Ideal)
    {proof : RangeProof H} (hroot : m.getRoot hs = .ok proof.root)
    (hsize : proof.mmrSize = m.state.size) {leafData : List Bytes}
    (hverify : proof.verify hs leafData = .ok ()) {i : Nat} (hreach : proof.Reaches i) {d : Bytes}
    (hd : leafData[i]? = some d) :
    ∃ k, proof.leafIndices[i]? = some (size k) ∧ data[k]? = some d := by
  obtain ⟨peakSet, final, hacc⟩ := verify_eq_ok.mp hverify
  have hlen : proof.leafIndices.length = leafData.length := by
    rw [hacc.length_indices, hacc.length_hashes, hacc.length_data]
  have hleaves := (checkLeaves_eq_ok hlen (by rw [← hlen, hacc.length_indices])).mp hacc.leaves
  have hpeaks : peakSet = (MountainRange.peaks data.length).map fun p => pos p.1 p.2 := by
    have hfind := hm.findPeaks_eq (ε := MmrError)
    rw [← hsize, hacc.findPeaks_eq] at hfind
    exact Except.ok.inj hfind
  have hrelated := @climb_related _ _ _ _ _ _ (@fromLeaves_respects _ _ data ideal proof.leafHashes)
      peakSet 63 0 _ _ _ _ (@startMap_related _ _ _ proof.leafIndices proof.leafHashes
      ((List.range proof.leafIndices.length).map fun i => [i])
      (by rw [List.length_map, List.length_range, hacc.length_indices]) (by
        intro k hk hk'
        refine ⟨?_, ?_⟩
        · simp only [hleaves, List.getElem_zipWith]
          exact leaf_not_isBag ideal
        · intro i hi leaf hleaf
          rw [List.getElem_map, List.getElem_range, List.mem_singleton] at hi
          subst hi
          rw [List.getElem?_eq_getElem hk] at hleaf
          rw [Option.some.inj hleaf]
          exact Beneath.refl leaf)) (relatedPaths_map (f := fun _ => []) proof.siblingPath
      fun _ i hi => absurd hi List.not_mem_nil)
  rw [hacc.climb_eq] at hrelated
  obtain ⟨result, hresult, hrel, -⟩ := hrelated.exists_of_ok
  obtain ⟨result', hrun, entry, hentry, hi⟩ := hreach
  have hsame : result' = result := by
    rw [sources, hacc.findPeaks_eq, res_ok_bind, hresult] at hrun
    exact (Except.ok.inj hrun).symm
  subst hsame
  -- the entry with the leaf is a peak of the range
  obtain ⟨x, hx, hpos, hbag, hbeneath⟩ := hrel.exists_right hentry
  obtain ⟨place, hplace, hpeak⟩ := checkPeaks_eq_ok hacc.peaks_match x hx
  have hreal := bagged_getElem ideal (peakHashes_not_isBag ideal data)
    (checkRoot_eq_ok.mp hacc.root_matches) (hm.getRoot_eq_ok.mp hroot) hpeak hbag
  rw [peakHashes, List.getElem?_map] at hreal
  obtain ⟨⟨h, j⟩, hmem, heq⟩ := Option.map_eq_some_iff.mp hreal
  -- so the leaf is one of the range's leaves
  obtain ⟨hlt, hget⟩ := List.getElem?_eq_some_iff.mp hd
  have hindex : i < proof.leafIndices.length := by omega
  have hleaf : proof.leafHashes[i]? = some (hs.hashLeaf proof.leafIndices[i] d) := by
    rw [hleaves, List.getElem?_zipWith, List.getElem?_eq_getElem hindex, hd]
  obtain ⟨h', j', hsub, hle⟩ := hbeneath i hi _ hleaf h j heq.symm
  have hin := Nat.le_trans hle (peak_le (List.mem_of_getElem? hmem))
  obtain ⟨hsizeEq, hdata⟩ := leaf_of_subtreeHash ideal hsub hin
  exact ⟨j', by rw [List.getElem?_eq_getElem hindex, hsizeEq], hdata⟩

/-! ## A leaf that does not -/

namespace RangeProof

def withLeaves (proof : RangeProof H) (leafHashes : List H) : RangeProof H :=
  { proof with leafHashes }

/-- Two values side by side. -/
def pairHasher (hs : NodeHasher H) : NodeHasher (H × H) where
  hashLeaf index d := (hs.hashLeaf index d, hs.hashLeaf index d)
  hashInternal height left right :=
    (hs.hashInternal height left.1 right.1, hs.hashInternal height left.2 right.2)
  hashBag left right := (hs.hashBag left.1 right.1, hs.hashBag left.2 right.2)

theorem fst_respects : Respects (pairHasher hs) hs (fun x a => x.1 = a) (fun x a => x.1 = a) where
  of_map h := h
  internal height := by
    rintro a _ c _ rfl rfl
    rfl

theorem snd_respects : Respects (pairHasher hs) hs (fun x a => x.2 = a) (fun x a => x.2 = a) where
  of_map h := h
  internal height := by
    rintro a _ c _ rfl rfl
    rfl

/-- Where the leaf at place `i` is not a source, the two sides are equal. -/
theorem agree_respects (i : Nat) : Respects (pairHasher hs) sourceHasher
    (fun x from_ => i ∉ from_ → x.1 = x.2) (fun x from_ => i ∉ from_ → x.1 = x.2) where
  of_map h := h
  internal height := by
    intro a fa c fc ha hc hi
    rw [sourceHasher, List.mem_append, not_or] at hi
    change hs.hashInternal height a.1 c.1 = hs.hashInternal height a.2 c.2
    rw [ha hi.1, hc hi.2]

variable {proof : RangeProof H} {peakSet : List Nat} {final : OrdMap H} {i : Nat}

/-- The hash of a leaf that does not reach the end has no effect. -/
theorem climb_set (hpeaks : findPeaks (ε := MmrError) proof.mmrSize = .ok peakSet)
    (hlen : proof.leafIndices.length = proof.leafHashes.length)
    (hclimb : climb hs peakSet 63 0 (startMap proof.leafIndices proof.leafHashes) proof.siblingPath
      = .ok (final, []))
    (hlost : ¬ proof.Reaches i) (hash : H) :
    climb hs peakSet 63 0 (startMap proof.leafIndices (proof.leafHashes.set i hash))
      proof.siblingPath = .ok (final, []) := by
  let pairs := proof.leafHashes.zip (proof.leafHashes.set i hash)
  let path : List (ProofElement (H × H)) :=
    proof.siblingPath.map fun elem => ⟨(elem.hash, elem.hash), elem.isLeft⟩
  have hpairs : pairs.length = proof.leafHashes.length := by simp [pairs]
  have hfst := @climb_related _ _ _ _ _ _ (@fst_respects _ hs) peakSet 63 0 _ _ _ _
      (@startMap_related _ _ _ proof.leafIndices _ _ hpairs (by intro k _ _; simp [pairs])) (by
      have := relatedPaths_map (S := fun (a : H) (x : H × H) => x.1 = a) proof.siblingPath
        (f := fun a => (a, a)) fun _ => rfl
      exact List.Forall₂.flip (this.imp fun x y h => ⟨h.1.symm, h.2⟩))
  rw [hclimb] at hfst
  obtain ⟨⟨both, rest⟩, hrun, hboth, hrest⟩ := hfst.exists_of_ok'
  have hnil : rest = [] := List.forall₂_nil_right_iff.mp hrest
  subst hnil
  have hsnd := @climb_related _ _ _ _ _ _ (@snd_respects _ hs) peakSet 63 0 _ _ _ _
      (@startMap_related _ _ _ proof.leafIndices pairs (proof.leafHashes.set i hash)
      (by simp [pairs]) (by intro k _ _; simp [pairs])) (by
      have := relatedPaths_map (S := fun (a : H) (x : H × H) => x.2 = a) proof.siblingPath
        (f := fun a => (a, a)) fun _ => rfl
      exact List.Forall₂.flip (this.imp fun x y h => ⟨h.1.symm, h.2⟩))
  rw [hrun] at hsnd
  obtain ⟨⟨final', rest'⟩, hrun', hfinal', hrest'⟩ := hsnd.exists_of_ok
  have hnil' : rest' = [] := List.forall₂_nil_left_iff.mp hrest'
  subst hnil'
  have hagree := @climb_related _ _ _ _ _ _ (@agree_respects _ hs i) peakSet 63 0 _ _ path
      (proof.siblingPath.map fun elem => ⟨[], elem.isLeft⟩)
      (@startMap_related _ _ _ proof.leafIndices pairs ((List.range proof.leafIndices.length).map
      fun k => [k]) (by simp [pairs, hlen]) (by
        intro k hk hk' hik
        rw [List.getElem_map, List.getElem_range, List.mem_singleton] at hik
        simp only [pairs, List.getElem_zip]
        rw [List.getElem_set_ne hik])) (by
      rw [RelatedPaths, List.forall₂_map_left_iff, List.forall₂_map_right_iff, List.forall₂_same]
      exact fun elem _ => ⟨rfl, fun _ => rfl⟩)
  rw [hrun] at hagree
  obtain ⟨result, hresult, hsources, -⟩ := hagree.exists_of_ok
  -- no entry of the end has the leaf among its sources
  have heq : ∀ x ∈ both, x.2.1 = x.2.2 := by
    intro x hx
    obtain ⟨entry, hentry, -, hsame⟩ := hsources.exists_left hx
    refine hsame fun hi => hlost ⟨result, ?_, entry, hentry, hi⟩
    rw [sources, hpeaks, res_ok_bind, hresult]
  have hmap : both.map (fun x => (x.1, x.2.2)) = both.map fun x => (x.1, x.2.1) :=
    List.map_congr_left fun x hx => by rw [heq x hx]
  dsimp only at hboth hfinal'
  rw [hrun', hfinal'.eq_map (f := Prod.snd), hboth.eq_map (f := Prod.fst), hmap]

theorem Accepted.replace [DecidableEq H] {leafData : List Bytes}
    (hacc : Accepted hs proof leafData peakSet final) (hi : i < leafData.length)
    (hlost : ¬ proof.Reaches i) (d : Bytes) :
    ∃ leafHashes, Accepted hs (proof.withLeaves leafHashes) (leafData.set i d) peakSet final := by
  have hlen : proof.leafIndices.length = leafData.length := by
    rw [hacc.length_indices, hacc.length_hashes, hacc.length_data]
  have hhashes : proof.leafHashes.length = leafData.length := by
    rw [← hlen, hacc.length_indices]
  have hindex : i < proof.leafIndices.length := by omega
  refine ⟨proof.leafHashes.set i (hs.hashLeaf proof.leafIndices[i] d), ?_⟩
  exact {
    ordered := hacc.ordered
    bounded := hacc.bounded
    length_data := by rw [List.length_set]; exact hacc.length_data
    length_hashes := by rw [withLeaves, List.length_set]; exact hacc.length_hashes
    leaves := by
      rw [withLeaves, checkLeaves_eq_ok (by rw [List.length_set]; exact hlen)
        (by rw [List.length_set, List.length_set]; exact hhashes)]
      conv_lhs => rw [(checkLeaves_eq_ok hlen hhashes).mp hacc.leaves]
      apply List.ext_getElem
      · simp
      · intro k hk hk'
        simp only [List.getElem_set, List.getElem_zipWith]
        split
        · rename_i hik
          subst hik
          rfl
        · rfl
    length_indices := by rw [withLeaves, List.length_set]; exact hacc.length_indices
    nodup := hacc.nodup
    findPeaks_eq := hacc.findPeaks_eq
    climb_eq := climb_set hacc.findPeaks_eq hacc.length_indices hacc.climb_eq hlost _
    nonempty := hacc.nonempty
    peaks_match := hacc.peaks_match
    root_matches := hacc.root_matches }

/-- Whatever leaves the proof is accepted with, they are the leaves from `start_leaf` on. -/
def Sound [DecidableEq H] (hs : NodeHasher H) (data : List Bytes) (proof : RangeProof H) : Prop :=
  ∀ leafHashes leafData, (proof.withLeaves leafHashes).verify hs leafData = .ok () →
    ∀ i < leafData.length, ∃ d, data[proof.startLeaf + i]? = some d ∧ leafData[i]? = some d

end RangeProof

/-- An accepted proof proves its leaves when all of them reach the end and are
    at the indices of the leaves they are claimed to be. -/
theorem range_sound_iff [DecidableEq H] (ideal : hs.Ideal) (hbuilt : Built hs data indices m)
    {proof : RangeProof H} (hroot : m.getRoot hs = .ok proof.root)
    (hsize : proof.mmrSize = m.state.size) {leafData : List Bytes}
    (hverify : proof.verify hs leafData = .ok ()) :
    proof.Sound hs data ↔ ∀ i < leafData.length, proof.Reaches i
      ∧ ∃ (k : Nat) (d : Bytes), indices[k]? = proof.leafIndices[i]? ∧ data[k]? = some d
        ∧ data[proof.startLeaf + i]? = some d := by
  obtain ⟨hm, -⟩ := hbuilt.represents
  obtain ⟨peakSet, final, hacc⟩ := verify_eq_ok.mp hverify
  constructor
  · intro hsound i hi
    have hreach : proof.Reaches i := by
      by_contra hlost
      -- one byte more than the leaf that should stand there
      obtain ⟨leafHashes, hother⟩ := hacc.replace hi hlost (0 :: data.getD (proof.startLeaf + i) [])
      obtain ⟨d, hd, hset⟩ := hsound leafHashes _ (verify_eq_ok.mpr ⟨_, _, hother⟩) i
        (by rw [List.length_set]; exact hi)
      rw [List.getElem?_set_self hi, List.getD_eq_getElem?_getD, hd] at hset
      have hcons := congrArg List.length (Option.some.inj hset)
      rw [Option.getD_some, List.length_cons] at hcons
      omega
    refine ⟨hreach, ?_⟩
    obtain ⟨d, hd, hleaf⟩ := hsound proof.leafHashes leafData hverify i hi
    obtain ⟨k, hindex, hk⟩ := hm.leaf_of_reaches ideal hroot hsize hverify hreach hleaf
    obtain ⟨hlt, -⟩ := List.getElem?_eq_some_iff.mp hk
    exact ⟨k, d, by rw [hindex, hbuilt.index_eq hlt], hk, hd⟩
  · intro hcond leafHashes leafData' hverify' i hi
    obtain ⟨peakSet', final', hacc'⟩ := verify_eq_ok.mp hverify'
    have hlen : leafData'.length = leafData.length := by
      rw [hacc'.length_data, hacc.length_data]
      rfl
    obtain ⟨hreach, k, d, hindex, hk, hd⟩ := hcond i (by omega)
    obtain ⟨k', hindex', hk'⟩ := @Represents.leaf_of_reaches _ _ _ _ _ hm ideal
      (proof.withLeaves leafHashes) hroot hsize _ hverify' _ hreach _ (List.getElem?_eq_getElem hi)
    obtain ⟨hlt, -⟩ := List.getElem?_eq_some_iff.mp hk
    -- the index says which leaf it is
    have hkk : k = k' := by
      rw [hbuilt.index_eq hlt] at hindex
      exact size_strictMono.injective (Option.some.inj (hindex.trans hindex'))
    subst hkk
    rw [hk] at hk'
    exact ⟨d, hd, by rw [List.getElem?_eq_getElem hi, ← Option.some.inj hk']⟩

def lastTwoProof (leafHash : Term) (siblingPath : List (ProofElement Term)) : RangeProof Term where
  startLeaf := 1
  endLeaf := 2
  leafIndices := [1, 3]
  leafHashes := [leafHash, .leaf 3 [3]]
  siblingPath := siblingPath
  peaks := [.internal 1 (.leaf 0 [1]) (.leaf 1 [2]), .leaf 3 [3]]
  peakPosition := 0
  mmrSize := 4
  root := .bag (.internal 1 (.leaf 0 [1]) (.leaf 1 [2])) (.leaf 3 [3])

theorem range_sound_lastTwo :
    (lastTwoProof (.leaf 1 [2]) [⟨.leaf 0 [1], true⟩]).Sound termHasher threeLeaves
      ↔ ∀ i < 2, (lastTwoProof (.leaf 1 [2]) [⟨.leaf 0 [1], true⟩]).Reaches i
        ∧ ∃ (k : Nat) (d : Bytes), [0, 1, 3][k]? = [1, 3][i]? ∧ threeLeaves[k]? = some d
          ∧ threeLeaves[1 + i]? = some d :=
  @range_sound_iff _ _ _ _ (ofLeaves termHasher threeLeaves) _ termHasher_ideal
      (by unfold Built; decide +kernel) _ (by decide +kernel) (by decide +kernel) [[2], [3]]
      (by decide +kernel)

/-- A sibling on the wrong side sends the second leaf to the position of the
    third, a peak, which then replaces it: any data is accepted for it. -/
theorem range_sound_fails :
    Built termHasher threeLeaves [0, 1, 3] (ofLeaves termHasher threeLeaves)
      ∧ (ofLeaves termHasher threeLeaves).getRoot termHasher
        = .ok (lastTwoProof (.leaf 1 [99]) [⟨.leaf 0 [1], false⟩]).root
      ∧ (lastTwoProof (.leaf 1 [99]) [⟨.leaf 0 [1], false⟩]).mmrSize
        = (ofLeaves termHasher threeLeaves).state.size
      ∧ (lastTwoProof (.leaf 1 [99]) [⟨.leaf 0 [1], false⟩]).verify termHasher [[99], [3]] = .ok ()
      ∧ threeLeaves[1 + 0]? ≠ some [99] :=
  ⟨by unfold Built; decide +kernel, by decide +kernel, by decide +kernel, by decide +kernel,
    by decide⟩

end WritersProof.Mmr
