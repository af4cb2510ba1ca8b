/-
  When `verify` accepts what `generate_range_proof` returns.

  Every range of leaves has a proof.  It verifies exactly when no carried peak
  stands where a right child of the range looks for its sibling.
-/
import WritersProof.Mmr.Inclusion
import WritersProof.Mmr.RangeCollision

namespace WritersProof.Mmr

open Rust MountainRange

variable {H : Type} {hs : NodeHasher H} {data : List Bytes} {indices : List Nat}
  {m : Mmr (MemoryStore H) H} {s e : Nat}

def leavesOf (data : List Bytes) (s e : Nat) : List Bytes := (data.drop s).take (e - s + 1)

namespace RangeProof

theorem checkLeaves_eq [DecidableEq H] :
    ∀ k {s : Nat}, s + k ≤ data.length →
      checkLeaves hs ((List.range' s k).map (pos 0)) ((List.range' s k).map (subtreeHash hs data 0))
        ((data.drop s).take k) = .ok () := by
  intro k
  induction k with
  | zero =>
    intro s _
    rw [List.take_zero]
    rfl
  | succ k ih =>
    intro s hle
    have hs : s < data.length := by omega
    have hleaf : data.getD s [] = data[s] := by
      rw [List.getD_eq_getElem?_getD, List.getElem?_eq_getElem hs]
      rfl
    rw [List.range'_succ, List.map_cons, List.map_cons, List.drop_eq_getElem_cons hs,
      List.take_succ_cons, checkLeaves, subtreeHash, hleaf, pos_zero, if_neg (not_not_intro rfl)]
    exact ih (by omega)

theorem carriedPeaks_zero (n s e : Nat) : carriedPeaks n s e 0 = [] := rfl

theorem checkPeaks_eq [DecidableEq H] {map : OrdMap H}
    (h : ∀ x ∈ map, ∃ p ∈ MountainRange.peaks data.length, x = blockEntry hs data p) :
    checkPeaks (peakSet data.length) (peakHashes hs data) map = .ok () := by
  induction map with
  | nil => rfl
  | cons x map ih =>
    obtain ⟨p, hp, rfl⟩ := h x List.mem_cons_self
    obtain ⟨i, hidx, hget⟩ := idxOf?_peak hp
    rw [blockEntry, checkPeaks, peakSet, hidx, okOr_some, res_ok_bind, if_pos, ← peakSet]
    · exact ih fun y hy => h y (List.mem_cons_of_mem _ hy)
    · rw [peakHashes, List.getElem?_map, hget]
      rfl

end RangeProof

open RangeProof

/-- Without a collision the honest proof verifies, with one it does not. -/
theorem Represents.verify_iff [DecidableEq H] (hm : Represents hs data m) (hse : s ≤ e)
    (hen : e < data.length) {root : H} (hroot : m.getRoot hs = .ok root) (peakPosition : Nat) :
    RangeProof.verify hs (honestProof hs data s e peakPosition root) (leavesOf data s e) = .ok ()
      ↔ ¬ ∃ h, Collides data.length s e h := by
  have hsize := hm.size_lt
  have hdata := le_size data.length
  have hlen : (leavesOf data s e).length = e + 1 - s := by
    rw [leavesOf, List.length_take, List.length_drop]
    omega
  have hrange : (checkedSub e s).bind (checkedAdd · 1) = some (e + 1 - s) := by
    rw [checkedSub, if_pos hse, Option.bind_some, checkedAdd_eq_some (by omega)]
    congr 1
    omega
  have hleaves : checkLeaves hs (row 0 s (e + 1))
      ((List.range' s (e + 1 - s)).map (subtreeHash hs data 0)) (leavesOf data s e) = .ok () := by
    rw [leavesOf, show e - s + 1 = e + 1 - s by omega]
    exact checkLeaves_eq _ (by omega)
  have hnodup : (row 0 s (e + 1)).Nodup := (row_sorted 0 s (e + 1)).imp Nat.ne_of_lt
  have hmap : ((row 0 s (e + 1)).zip
      ((List.range' s (e + 1 - s)).map (subtreeHash hs data 0))).foldl
        (fun map p => OrdMap.insert p.1 p.2 map) [] = honestMap hs data s e 0 := by
    have hentries : (row 0 s (e + 1)).zip
        ((List.range' s (e + 1 - s)).map (subtreeHash hs data 0)) = honestMap hs data s e 0 := by
      rw [row, List.zip_map', honestMap, carriedPeaks_zero, List.map_nil, List.append_nil,
        rowEntries, rangeLo, rangeUp, Nat.pow_zero, Nat.div_one, Nat.div_one, Nat.div_one,
        Nat.min_eq_left (by omega)]
      rfl
    rw [hentries]
    exact OrdMap.foldl_insert_eq_append honestMap_sorted
  have hpeaks : findPeaks (ε := MmrError) (size data.length) = .ok (peakSet data.length) := by
    rw [← hm.size_eq, hm.findPeaks_eq]
    rfl
  rw [honestProof, verify]
  dsimp only
  rw [if_neg (by omega), hrange, okOr_some, res_ok_bind, if_neg (not_not_intro hlen),
    if_neg (by simp), hleaves, res_ok_bind, if_neg (by simp [row]), if_neg (not_not_intro hnodup),
    hmap, hpeaks, res_ok_bind]
  constructor
  · intro hverify hcollides
    -- the first collision decides
    obtain ⟨k, hk, hfirst⟩ : ∃ k, Collides data.length s e k
        ∧ ∀ k' < k, ¬ Collides data.length s e k' :=
      ⟨Nat.find hcollides, Nat.find_spec hcollides, fun k' hlt => Nat.find_min hcollides hlt⟩
    have hheight : k < 63 := by
      obtain ⟨hend, -⟩ := last_of_collides hse hk
      by_contra hge
      have hpow : 2 ^ 63 ≤ 2 ^ k := Nat.pow_le_pow_right (by decide) (by omega)
      rw [Nat.div_eq_of_lt (by omega)] at hend
      omega
    obtain ⟨final, hclimb, hverify⟩ := res_bind_eq_ok.mp hverify
    have hrefused := climb_collides hsize hse hen hheight hk 63 (by omega) (by omega)
      (fun k' _ hlt => hfirst k' hlt) hclimb
    rw [guard_fail_eq_ok, guard_fail_eq_ok, Decidable.not_not] at hverify
    obtain ⟨-, hpath, hverify⟩ := hverify
    obtain ⟨_, hchecked, -⟩ := res_bind_eq_ok.mp hverify
    rcases hrefused with hopen | ⟨key, hkey, hstray⟩
    · exact hopen hpath
    · exact hstray (checkPeaks_keys hchecked key hkey)
  · intro hfree
    obtain ⟨final, hclimb, hne, hfinal⟩ := climb_honest hsize hse hen 63 (h := 0) rfl
      fun k _ hk => hfree ⟨k, hk⟩
    rw [hclimb, res_ok_bind]
    dsimp only
    rw [if_neg hne, if_neg (not_not_intro rfl), checkPeaks_eq hfinal, res_ok_bind, checkRoot_eq_ok,
      ← hm.getRoot_eq_ok]
    exact hroot

/-- Every range of leaves has a proof; it verifies unless a carried peak is taken for a sibling. -/
theorem range_complete_iff [DecidableEq H] (hbuilt : Built hs data indices m) (hse : s ≤ e)
    (hen : e < data.length) :
    (∃ proof, Mmr.generateRangeProof hs s e m = (.ok proof, m))
      ∧ ((∃ proof, Mmr.generateRangeProof hs s e m = (.ok proof, m)
            ∧ proof.verify hs (leavesOf data s e) = .ok ())
          ↔ ¬ ∃ h, Collides data.length s e h) := by
  obtain ⟨hm, -⟩ := hbuilt.represents
  obtain ⟨root, hroot⟩ := hm.exists_root (by omega)
  obtain ⟨peakPosition, hgenerate⟩ := hm.generateRangeProof_eq hse hen hroot
  refine ⟨⟨_, hgenerate⟩, ?_⟩
  rw [← hm.verify_iff hse hen hroot peakPosition, hgenerate]
  constructor
  · rintro ⟨proof, heq, hverify⟩
    cases heq
    exact hverify
  · exact fun hverify => ⟨_, rfl, hverify⟩

/-- The middle of five leaves, across the two mountains. -/
theorem range_complete_five :
    (∃ proof, Mmr.generateRangeProof termHasher 1 4 (ofLeaves termHasher [[1], [2], [3], [4], [5]])
        = (.ok proof, ofLeaves termHasher [[1], [2], [3], [4], [5]]))
      ∧ ((∃ proof, Mmr.generateRangeProof termHasher 1 4
              (ofLeaves termHasher [[1], [2], [3], [4], [5]])
            = (.ok proof, ofLeaves termHasher [[1], [2], [3], [4], [5]])
            ∧ proof.verify termHasher (leavesOf [[1], [2], [3], [4], [5]] 1 4) = .ok ())
          ↔ ¬ ∃ h, Collides 5 1 4 h) :=
  @range_complete_iff _ _ _ [0, 1, 3, 4, 7] _ _ _ _ (by unfold Built; decide +kernel) (by decide)
      (by decide)

def nineLeaves : List Bytes := [[1], [2], [3], [4], [5], [6], [7], [8], [9]]

/-- Of nine leaves, the last three: the ninth leaf stands where the pair of the
    seventh and the eighth looks for its right sibling. -/
theorem range_complete_fails :
    Built termHasher nineLeaves [0, 1, 3, 4, 7, 8, 10, 11, 15] (ofLeaves termHasher nineLeaves)
      ∧ ¬ ∃ proof, Mmr.generateRangeProof termHasher 6 8 (ofLeaves termHasher nineLeaves)
          = (.ok proof, ofLeaves termHasher nineLeaves)
        ∧ proof.verify termHasher (leavesOf nineLeaves 6 8) = .ok () := by
  refine ⟨by unfold Built; decide +kernel, ?_⟩
  rintro ⟨proof, hgenerate, hverify⟩
  have hrefused : ((Mmr.generateRangeProof termHasher 6 8 (ofLeaves termHasher nineLeaves)).1
      >>= fun proof => proof.verify termHasher (leavesOf nineLeaves 6 8))
      = fail .invalidProof := by decide +kernel
  rw [hgenerate, res_ok_bind, hverify] at hrefused
  cases hrefused

end WritersProof.Mmr
