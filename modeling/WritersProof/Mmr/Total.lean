/-
  Which calls of `deserialize` and `verify` return (crates/cpoe/src/mmr/proof.rs), for inclusion
  and range proofs read from any bytes.

  Two sums are not checked by the code: the number of leaves between the bounds of a range, which
  overflows for the bounds of all of `u64`, and `size + 1` in `highest_peak`.
-/
import WritersProof.Mmr.Canonical
import WritersProof.Mmr.RangeSoundness

namespace WritersProof.Mmr

open Rust InclusionProof

/-! ## The peak search -/

section Peaks

variable {ε : Type}

theorem highestPeak_ne_abort {size : Nat} (h : size + 1 < 2 ^ 64) :
    highestPeak (ε := ε) size ≠ abort := by
  rw [highestPeak, checkedAdd_eq_some h]
  split
  · rintro ⟨⟩
  · rintro ⟨⟩

theorem findPeaksLoop_ne_abort (iterations : Nat) :
    ∀ size offset, size + 1 < 2 ^ 64 → findPeaksLoop (ε := ε) iterations size offset ≠ abort := by
  induction iterations with
  | zero => rintro _ _ _ ⟨⟩
  | succ iterations ih =>
    intro size offset h
    rw [findPeaksLoop]
    split
    · rintro ⟨⟩
    · refine res_bind_ne_abort (highestPeak_ne_abort h) fun height _ => ?_
      show (if 2 ^ (height + 1) - 1 > size then _ else _) ≠ abort
      split
      · rintro ⟨⟩
      · -- What is left is smaller still.
        exact res_bind_ne_abort (ih _ _ (by omega)) fun peaks _ => by rintro ⟨⟩

/-- The search returns on every size but the largest. -/
theorem findPeaks_ne_abort_iff {size : Nat} (h : size < 2 ^ 64) :
    findPeaks (ε := ε) size ≠ abort ↔ size ≠ 2 ^ 64 - 1 := by
  constructor
  · rintro hreturns rfl
    exact hreturns rfl
  · intro hne
    exact findPeaksLoop_ne_abort 64 size 0 (by omega)

end Peaks

theorem checkRoot_ne_abort {H : Type} [DecidableEq H] (hs : NodeHasher H) {peaks : List H}
    (root : H) (h : peaks ≠ []) : checkRoot hs peaks root ≠ abort := by
  match peaks, h with
  | [peak], _ =>
    rw [checkRoot]
    split
    · exact fail_ne_abort _
    · rintro ⟨⟩
  | peak :: next :: rest, _ =>
    rw [checkRoot]
    · split
      · exact fail_ne_abort _
      · rintro ⟨⟩
    · rintro ⟨⟩

/-! ## Inclusion proofs -/

theorem InclusionProof.verify_ne_abort {H : Type} [DecidableEq H] (hs : NodeHasher H)
    {proof : InclusionProof H} (h : proof.peaks ≠ []) (leafData : Bytes) :
    proof.verify hs leafData ≠ abort := by
  rw [InclusionProof.verify]
  split
  · exact fail_ne_abort _
  · cases proof.peaks[proof.peakPosition]? with
    | none => exact fail_ne_abort _
    | some peak =>
      show (if _ ≠ peak then _ else _) ≠ abort
      split
      · exact fail_ne_abort _
      · exact checkRoot_ne_abort hs _ h

/-! ## Range proofs -/

namespace RangeProof

section Verify

variable {H : Type} (hs : NodeHasher H)

/-- With as many indices and hashes as leaves, no index is out of range. -/
theorem checkLeaves_ne_abort [DecidableEq H] (leafData : List Bytes) :
    ∀ {indices : List Nat} {hashes : List H}, indices.length = leafData.length →
      hashes.length = leafData.length → checkLeaves hs indices hashes leafData ≠ abort := by
  induction leafData with
  | nil =>
    intro indices hashes _ _
    rw [checkLeaves]
    rintro ⟨⟩
  | cons data rest ih =>
    intro indices hashes hindices hhashes
    obtain ⟨index, indices, rfl⟩ := List.exists_cons_of_length_eq_add_one hindices
    obtain ⟨hash, hashes, rfl⟩ := List.exists_cons_of_length_eq_add_one hhashes
    rw [checkLeaves]
    split
    · exact fail_ne_abort _
    · exact ih (Nat.succ.inj hindices) (Nat.succ.inj hhashes)

variable {peakSet : List Nat} {current : OrdMap H} {height : Nat}

theorem lift_ne_abort {pos : Nat} {level : Level H} (h : pos ∈ current.keys) :
    level.lift hs peakSet current height pos ≠ abort := by
  obtain ⟨hash, hhash⟩ : ∃ hash, current.get? pos = some hash :=
    Option.ne_none_iff_exists'.mp fun hnone => OrdMap.get?_eq_none_iff.mp hnone h
  rw [Level.lift]
  split
  · rintro ⟨⟩
  · rw [hhash, unwrap_some, res_ok_bind]
    split
    · rintro ⟨⟩
    · refine okOr_bind_ne_abort fun leftParent => ?_
      refine okOr_bind_ne_abort fun rightSibling => ?_
      -- Every branch from here on carries the node or combines it.
      cases current.get? rightSibling with
      | some sibHash =>
        show (if rightSibling ≠ pos then _ else _) ≠ abort
        split
        · rintro ⟨⟩
        · rintro ⟨⟩
      | none =>
        refine okOr_bind_ne_abort fun rightParent => ?_
        dsimp only
        split
        · split
          · rintro ⟨⟩
          · rintro ⟨⟩
        · rintro ⟨⟩

theorem liftAll_ne_abort (positions : List Nat) (h : ∀ pos ∈ positions, pos ∈ current.keys)
    (level : Level H) :
    liftAll hs peakSet current height positions level ≠ abort := by
  induction positions generalizing level with
  | nil => rintro ⟨⟩
  | cons pos rest ih =>
    rw [List.forall_mem_cons] at h
    exact res_bind_ne_abort (lift_ne_abort hs h.1) fun level _ => ih h.2 level

theorem climb_ne_abort (rounds : Nat) :
    ∀ height (current : OrdMap H) siblings,
      climb hs peakSet rounds height current siblings ≠ abort := by
  induction rounds with
  | zero =>
    intro height current siblings
    rw [climb]
    split
    · rintro ⟨⟩
    · split
      · rintro ⟨⟩
      · exact fail_ne_abort _
  | succ rounds ih =>
    intro height current siblings
    rw [climb]
    split
    · rintro ⟨⟩
    · split
      · rintro ⟨⟩
      · refine res_bind_ne_abort (liftAll_ne_abort hs _ (fun _ => id) _) fun level _ => ?_
        split
        · rintro ⟨⟩
        · exact ih _ _ _

theorem checkPeaks_ne_abort [DecidableEq H] (peakSet : List Nat) (peaks : List H)
    (current : OrdMap H) : checkPeaks peakSet peaks current ≠ abort := by
  induction current with
  | nil => rintro ⟨⟩
  | cons entry rest ih =>
    refine okOr_bind_ne_abort fun peakIdx => ?_
    split
    · exact ih
    · exact fail_ne_abort _

/-- The leaves pass all the checks that come before the search for the peaks. -/
structure LeavesPass (proof : RangeProof H) (leafData : List Bytes) : Prop where
  count : leafData.length = proof.leafIndices.length
  hashes : proof.leafHashes = List.zipWith hs.hashLeaf proof.leafIndices leafData
  distinct : proof.leafIndices.Nodup

end Verify

theorem verify_ne_abort_iff (hs : NodeHasher Hash32) {proof : RangeProof Hash32} (h : proof.Fits)
    (leafData : List Bytes) :
    proof.verify hs leafData ≠ abort
      ↔ ¬ (proof.mmrSize = 2 ^ 64 - 1 ∧ proof.LeavesPass hs leafData) := by
  have hlt := h.hashes_lt
  have hindices := h.indices_eq
  have hhashes := h.hashes_eq
  have hpeaks : proof.peaks ≠ [] := List.ne_nil_of_length_pos (Nat.zero_lt_of_lt h.position_lt)
  rw [RangeProof.verify, if_neg (Nat.not_lt.mpr h.range), checkedSub, if_pos h.range,
    Option.bind_some, checkedAdd_eq_some (by omega), okOr_some, res_ok_bind]
  by_cases hcount : leafData.length = proof.endLeaf - proof.startLeaf + 1
  · rw [if_neg (not_not.mpr hcount), if_neg (not_not.mpr hhashes)]
    have hpass : checkLeaves hs proof.leafIndices proof.leafHashes leafData = .ok ()
        ↔ proof.leafHashes = List.zipWith hs.hashLeaf proof.leafIndices leafData :=
      checkLeaves_eq_ok (hindices.trans hcount.symm) (hhashes.trans hcount.symm)
    have hreturns := checkLeaves_ne_abort hs leafData (hindices.trans hcount.symm)
      (hhashes.trans hcount.symm)
    cases hcheck : checkLeaves hs proof.leafIndices proof.leafHashes leafData with
    | error fault =>
      refine iff_of_true (fun habort => ?_) fun hall => ?_
      · cases habort
        exact hreturns hcheck
      · rw [hpass.mpr hall.2.hashes] at hcheck
        cases hcheck
    | ok _ =>
      have hleaves := hpass.mp hcheck
      rw [res_ok_bind, if_neg (not_not.mpr (hindices.trans hhashes.symm))]
      by_cases hnodup : proof.leafIndices.Nodup
      · rw [if_neg (not_not.mpr hnodup)]
        have hsize := findPeaks_ne_abort_iff (ε := MmrError) h.size_lt
        -- the sum behind the leaf checks is the only one that can overflow
        by_cases hmax : proof.mmrSize = 2 ^ 64 - 1
        · have habort : findPeaks (ε := MmrError) proof.mmrSize = abort :=
            not_not.mp fun hne => hsize.mp hne hmax
          rw [habort]
          exact iff_of_false (fun hne => hne rfl) fun hnot =>
            hnot ⟨hmax, hcount.trans hindices.symm, hleaves, hnodup⟩
        · refine iff_of_true ?_ fun hall => hmax hall.1
          refine res_bind_ne_abort (hsize.mpr hmax) fun peakSet _ => ?_
          refine res_bind_ne_abort (climb_ne_abort hs _ _ _ _) fun final _ => ?_
          obtain ⟨current, siblings⟩ := final
          dsimp only
          split
          · exact fail_ne_abort _
          · split
            · exact fail_ne_abort _
            · exact res_bind_ne_abort (checkPeaks_ne_abort _ _ _) fun _ _ =>
                checkRoot_ne_abort hs _ hpeaks
      · rw [if_pos hnodup]
        exact iff_of_true (fail_ne_abort _) fun hall => hnodup hall.2.distinct
  · rw [if_pos hcount]
    exact iff_of_true (fail_ne_abort _) fun hall => hcount (hall.2.count.trans hindices)

end RangeProof

/-! ## Decoding and verifying any bytes -/

/-- Inclusion proofs are decoded and verified without an abort.  The decoder of range proofs
    aborts exactly on the bounds of all of `u64`, and the verification of a decoded one exactly if
    it gets to search the peaks of the largest size. -/
theorem decoding_total_iff (hs : NodeHasher Hash32) (data : Bytes) :
    (InclusionProof.deserialize data ≠ abort ∧
      ∀ proof, InclusionProof.deserialize data = .ok proof →
        ∀ leafData, proof.verify hs leafData ≠ abort) ∧
    (RangeProof.deserialize data ≠ abort ↔ ¬ RangeProof.WholeRange data) ∧
    ∀ proof, RangeProof.deserialize data = .ok proof →
      ∀ leafData, (proof.verify hs leafData ≠ abort ↔
        ¬ (proof.mmrSize = 2 ^ 64 - 1 ∧ proof.LeavesPass hs leafData)) := by
  obtain ⟨hreturns, hdecoded⟩ := InclusionProof.deserialize_meets data
  refine ⟨⟨hreturns, fun proof h leafData => ?_⟩, ?_, fun proof h leafData => ?_⟩
  · have hposition := (hdecoded proof h).1.position_lt
    apply InclusionProof.verify_ne_abort
    exact List.ne_nil_of_length_pos (Nat.zero_lt_of_lt hposition)
  · constructor
    · exact fun hne hwhole => hne (RangeProof.deserialize_wholeRange hwhole)
    · exact fun hwhole => (RangeProof.deserialize_meets hwhole).1
  · exact RangeProof.verify_ne_abort_iff hs (RangeProof.begins_of_deserialize h).1 leafData

/-- No leaves, for the bounds of all of `u64` -/
def wholeRangeLists : RangeProof.Lists where
  startLeaf := 0
  endLeaf := 2 ^ 64 - 1
  leafIndices := []
  leafHashes := []
  siblingPath := []
  peaks := [FixedBytes.filled hashSize 1]
  peakPosition := 0

def largestSize (hs : NodeHasher Hash32) : RangeProof Hash32 where
  startLeaf := 0
  endLeaf := 0
  leafIndices := [0]
  leafHashes := [hs.hashLeaf 0 []]
  siblingPath := []
  peaks := [FixedBytes.filled hashSize 1]
  peakPosition := 0
  mmrSize := 2 ^ 64 - 1
  root := FixedBytes.filled hashSize 1

theorem fits_largestSize (hs : NodeHasher Hash32) : (largestSize hs).Fits := by
  constructor <;> simp [largestSize]

/-- The reader counts the leaves of the whole range, the verifier adds one to the largest size. -/
theorem not_decoding_total :
    (¬ ∀ data, RangeProof.deserialize data ≠ abort) ∧
    ∀ hs : NodeHasher Hash32, ¬ ∀ data proof leafData, RangeProof.deserialize data = .ok proof →
      proof.verify hs leafData ≠ abort := by
  constructor
  · intro h
    apply h (RangeProof.listsBytes wholeRangeLists [] ++ List.replicate 6 0)
    apply RangeProof.deserialize_wholeRange
    exact ⟨by decide, wholeRangeLists, [], List.replicate 6 0,
      ⟨by decide, by decide, by decide, by decide, by decide, by decide, by decide, by decide⟩,
      .nil, rfl, rfl, rfl⟩
  · intro hs h
    have hverify := h _ _ [[]] (RangeProof.deserialize_encoding (fits_largestSize hs))
    rw [RangeProof.verify_ne_abort_iff hs (fits_largestSize hs)] at hverify
    exact hverify ⟨rfl, rfl, rfl, List.nodup_singleton 0⟩

end WritersProof.Mmr
