/-
  WritersProof.Collaboration.Coverage

  Which checkpoints the participants of a collaboration claim
  (crates/cpoe/src/collaboration.rs).

  The sort is `sort_unstable_by_key`, so ranges that start at the same
  checkpoint reach the merge in any order.
-/
import WritersProof.Lib.Checked
import WritersProof.Lib.Intervals
import WritersProof.Lib.SortByKey

namespace WritersProof.Collaboration

open Rust

/-- The first and the last checkpoint of a claim. -/
abbrev Range := UInt32 × UInt32

/-- A participant, as far as coverage goes. -/
structure Collaborator where
  checkpointRanges : Option (List Range)

structure CollaborationSection where
  participants : List Collaborator

/-- The validated ranges of one participant, behind those of the participants before. -/
def pushRanges (totalCheckpoints : UInt32) : List Range → List Range → Res String (List Range)
  | intervals, [] => .ok intervals
  | intervals, (start, stop) :: ranges =>
    if start > stop then
      fail (s!"invalid checkpoint range ({start}, {stop}): "
        ++ s!"start must not exceed end (valid: 0..{totalCheckpoints})")
    else if stop ≥ totalCheckpoints then
      fail (s!"checkpoint range ({start}, {stop}) out of bounds: "
        ++ s!"end must be < {totalCheckpoints} (valid: 0..{totalCheckpoints.toNat - 1})")
    else pushRanges totalCheckpoints (intervals ++ [(start, stop)]) ranges

def collectIntervals (totalCheckpoints : UInt32) :
    List Range → List Collaborator → Res String (List Range)
  | intervals, [] => .ok intervals
  | intervals, participant :: participants =>
    match participant.checkpointRanges with
    | some ranges => do
      let intervals ← pushRanges totalCheckpoints intervals ranges
      collectIntervals totalCheckpoints intervals participants
    | none => collectIntervals totalCheckpoints intervals participants

def mergeIntervals : UInt32 → List Range → Res String UInt32
  | mergedEnd, [] => .ok mergedEnd
  | mergedEnd, (s, e) :: rest => do
    let next ← addU32 mergedEnd 1
    if s ≤ next then mergeIntervals (max mergedEnd e) rest
    else do
      let before ← subU32 s 1
      fail s!"Checkpoint gap: range {next}..={before} not covered by any participant"

/-- What follows the sort: the merge, and the two ends of what it covers -/
def checkMerged (totalCheckpoints : UInt32) (sorted : List Range) : Res String Unit :=
  match sorted with
  | [] => abort
  | (mergedStart, firstEnd) :: rest => do
    let mergedEnd ← mergeIntervals firstEnd rest
    if mergedStart ≠ 0 then do
      let last ← subU32 mergedStart 1
      fail s!"Checkpoints not covered: 0..={last}"
    else do
      let last ← subU32 totalCheckpoints 1
      if mergedEnd ≠ last then do
        let first ← addU32 mergedEnd 1
        fail s!"Checkpoints not covered: {first}..={last}"
      else .ok ()

/-- `validate_coverage`: the claimed ranges are checked one by one, sorted by their starts, and
    merged. -/
def validateCoverage (sorter : SortByKey.Unstable fun r : Range => r.1.toNat)
    (self : CollaborationSection) (totalCheckpoints : UInt32) : Res String Unit :=
  if totalCheckpoints = 0 then .ok ()
  else do
    let intervals ← collectIntervals totalCheckpoints [] self.participants
    if intervals.isEmpty then
      fail s!"Checkpoints not covered by any participant: 0..{totalCheckpoints.toNat - 1}"
    else checkMerged totalCheckpoints (sorter.sort intervals)

/-! ## The claimed ranges -/

def Collaborator.ranges (participant : Collaborator) : List Range :=
  participant.checkpointRanges.getD []

def CollaborationSection.ranges (self : CollaborationSection) : List Range :=
  self.participants.flatMap Collaborator.ranges

/-- A range does not run backwards and stays below the total. -/
def InBounds (totalCheckpoints : UInt32) (r : Range) : Prop :=
  r.1 ≤ r.2 ∧ r.2 < totalCheckpoints

instance (totalCheckpoints : UInt32) (r : Range) : Decidable (InBounds totalCheckpoints r) :=
  inferInstanceAs (Decidable (_ ∧ _))

variable {totalCheckpoints : UInt32} {intervals ranges : List Range}
  {participants : List Collaborator}

theorem pushRanges_of_inBounds (h : ∀ r ∈ ranges, InBounds totalCheckpoints r) :
    pushRanges totalCheckpoints intervals ranges = .ok (intervals ++ ranges) := by
  induction ranges generalizing intervals with
  | nil => rw [pushRanges, List.append_nil]
  | cons r ranges ih =>
    obtain ⟨⟨hle, hlt⟩, hrest⟩ := List.forall_mem_cons.mp h
    rw [pushRanges, if_neg (UInt32.not_lt.mpr hle), if_neg (UInt32.not_le.mpr hlt), ih hrest,
      List.append_assoc, List.singleton_append]

theorem pushRanges_of_not_inBounds (h : ¬∀ r ∈ ranges, InBounds totalCheckpoints r) :
    ∃ text, pushRanges totalCheckpoints intervals ranges = fail text := by
  induction ranges generalizing intervals with
  | nil => exact absurd nofun h
  | cons r ranges ih =>
    rw [pushRanges]
    split
    next => exact ⟨_, rfl⟩
    next hle =>
      split
      next => exact ⟨_, rfl⟩
      next hlt =>
        apply ih
        intro hrest
        exact h (List.forall_mem_cons.mpr ⟨⟨UInt32.not_lt.mp hle, UInt32.not_le.mp hlt⟩, hrest⟩)

theorem collectIntervals_cons (intervals : List Range) (participant : Collaborator)
    (participants : List Collaborator) :
    collectIntervals totalCheckpoints intervals (participant :: participants)
      = pushRanges totalCheckpoints intervals participant.ranges >>= fun intervals =>
          collectIntervals totalCheckpoints intervals participants := by
  rw [collectIntervals, Collaborator.ranges]
  cases participant.checkpointRanges <;> rfl

theorem collectIntervals_of_inBounds
    (h : ∀ r ∈ participants.flatMap Collaborator.ranges, InBounds totalCheckpoints r) :
    collectIntervals totalCheckpoints intervals participants
      = .ok (intervals ++ participants.flatMap Collaborator.ranges) := by
  induction participants generalizing intervals with
  | nil => rw [collectIntervals, List.flatMap_nil, List.append_nil]
  | cons participant participants ih =>
    rw [List.flatMap_cons, List.forall_mem_append] at h
    rw [collectIntervals_cons, pushRanges_of_inBounds h.1, res_ok_bind, ih h.2, List.flatMap_cons,
      List.append_assoc]

theorem collectIntervals_of_not_inBounds
    (h : ¬∀ r ∈ participants.flatMap Collaborator.ranges, InBounds totalCheckpoints r) :
    ∃ text, collectIntervals totalCheckpoints intervals participants = fail text := by
  induction participants generalizing intervals with
  | nil => exact absurd nofun h
  | cons participant participants ih =>
    rw [collectIntervals_cons]
    by_cases hranges : ∀ r ∈ participant.ranges, InBounds totalCheckpoints r
    · rw [pushRanges_of_inBounds hranges, res_ok_bind]
      apply ih
      intro hrest
      rw [List.flatMap_cons, List.forall_mem_append] at h
      exact h ⟨hranges, hrest⟩
    · have hfails : ∃ text, pushRanges totalCheckpoints intervals participant.ranges = fail text :=
        pushRanges_of_not_inBounds hranges
      obtain ⟨text, htext⟩ := hfails
      exact ⟨text, by rw [htext, res_fail_bind]⟩

/-! ## The merge -/

def Range.nat (r : Range) : Nat × Nat := (r.1.toNat, r.2.toNat)

theorem toNat_max (a b : UInt32) : (max a b).toNat = max a.toNat b.toNat := by
  show (if a ≤ b then b else a).toNat = _
  split
  next h => exact (Nat.max_eq_right (UInt32.le_iff_toNat_le.mp h)).symm
  next h =>
    have hle : b.toNat ≤ a.toNat := UInt32.le_iff_toNat_le.mp (UInt32.le_of_lt (UInt32.not_le.mp h))
    exact (Nat.max_eq_left hle).symm

theorem InBounds.nat {r : Range} (h : InBounds totalCheckpoints r) :
    r.nat.1 ≤ r.nat.2 ∧ r.nat.2 < totalCheckpoints.toNat :=
  ⟨UInt32.le_iff_toNat_le.mp h.1, UInt32.lt_iff_toNat_lt.mp h.2⟩

/-- The merge of `u32` ranges is that of natural numbers: it gives the end of the chain, or the
    text for a gap. -/
theorem mergeIntervals_spec {mergedEnd : UInt32} {rest : List Range}
    (hend : mergedEnd < totalCheckpoints) (h : ∀ r ∈ rest, InBounds totalCheckpoints r) :
    (∃ stop, mergeIntervals mergedEnd rest = .ok stop
        ∧ Intervals.merge mergedEnd.toNat (rest.map Range.nat) = some stop.toNat)
      ∨ (∃ text, mergeIntervals mergedEnd rest = fail text)
        ∧ Intervals.merge mergedEnd.toNat (rest.map Range.nat) = none := by
  induction rest generalizing mergedEnd with
  | nil => exact .inl ⟨mergedEnd, rfl, rfl⟩
  | cons r rest ih =>
    obtain ⟨hr, hrest⟩ := List.forall_mem_cons.mp h
    have hnext := toNat_add_one hend
    -- the end of the chain is below the total, so there is a number after it
    rw [mergeIntervals, addU32_one hend, res_ok_bind, List.map_cons, Intervals.merge, ← hnext]
    by_cases hle : r.1 ≤ mergedEnd + 1
    · have hmax : max mergedEnd r.2 < totalCheckpoints := by
        rw [UInt32.lt_iff_toNat_lt, toNat_max]
        exact Nat.max_lt.mpr ⟨UInt32.lt_iff_toNat_lt.mp hend, hr.nat.2⟩
      rw [if_pos hle, if_pos (show r.nat.1 ≤ _ from UInt32.le_iff_toNat_le.mp hle),
        show r.nat.2 = r.2.toNat from rfl, ← toNat_max]
      exact ih hmax hrest
    · have hgap : mergedEnd + 1 < r.1 := UInt32.not_le.mp hle
      have hne : r.1 ≠ 0 := by
        intro hzero
        rw [hzero] at hgap
        exact absurd hgap UInt32.not_lt_zero
      have hnat : ¬r.nat.1 ≤ (mergedEnd + 1).toNat :=
        fun hnat => hle (UInt32.le_iff_toNat_le.mpr hnat)
      rw [if_neg hle, if_neg hnat, subU32_one hne, res_ok_bind]
      exact .inr ⟨⟨_, rfl⟩, rfl⟩

/-! ## Coverage -/

def CoversAll (totalCheckpoints : UInt32) (ranges : List Range) : Prop :=
  ∀ i < totalCheckpoints, ∃ r ∈ ranges, r.1 ≤ i ∧ i ≤ r.2

theorem coversAll_iff :
    CoversAll totalCheckpoints ranges
      ↔ ∀ i < totalCheckpoints.toNat, Intervals.Covered (ranges.map Range.nat) i := by
  simp only [CoversAll, Intervals.Covered, List.mem_map, exists_exists_and_eq_and]
  refine ⟨fun h i hi => ?_, fun h i hi => ?_⟩
  · have hsmall : i < 2 ^ 32 := Nat.lt_trans hi totalCheckpoints.toNat_lt
    have hback : (UInt32.ofNat i).toNat = i := UInt32.toNat_ofNat_of_lt' hsmall
    have hlt : UInt32.ofNat i < totalCheckpoints := by
      rw [UInt32.lt_iff_toNat_lt, hback]
      exact hi
    obtain ⟨r, hr, hle, hge⟩ := h _ hlt
    rw [UInt32.le_iff_toNat_le, hback] at hle hge
    exact ⟨r, hr, hle, hge⟩
  · obtain ⟨r, hr, hle, hge⟩ := h i.toNat (UInt32.lt_iff_toNat_lt.mp hi)
    exact ⟨r, hr, UInt32.le_iff_toNat_le.mpr hle, UInt32.le_iff_toNat_le.mpr hge⟩

theorem coversAll_perm {xs ys : List Range} (h : xs.Perm ys) :
    CoversAll totalCheckpoints xs ↔ CoversAll totalCheckpoints ys := by
  simp only [CoversAll, h.mem_iff]

/-- The sorted ranges pass when they cover everything; otherwise there is a text, and never an
    overflow. -/
theorem checkMerged_spec {sorted : List Range} (hsome : sorted ≠ [])
    (hpos : totalCheckpoints ≠ 0) (h : ∀ r ∈ sorted, InBounds totalCheckpoints r)
    (hsorted : sorted.Pairwise fun a b => a.1.toNat ≤ b.1.toNat) :
    CoversAll totalCheckpoints sorted ∧ checkMerged totalCheckpoints sorted = .ok ()
      ∨ ¬CoversAll totalCheckpoints sorted
        ∧ ∃ text, checkMerged totalCheckpoints sorted = fail text := by
  obtain ⟨r, rest, rfl⟩ := List.exists_cons_of_ne_nil hsome
  obtain ⟨hr, hrest⟩ := List.forall_mem_cons.mp h
  have hcovers : CoversAll totalCheckpoints (r :: rest) ↔ r.1.toNat = 0
      ∧ Intervals.merge r.2.toNat (rest.map Range.nat) = some (totalCheckpoints - 1).toNat := by
    rw [coversAll_iff, List.map_cons, toNat_sub_one hpos]
    apply Intervals.covers_iff
    · exact Nat.pos_of_ne_zero fun hzero => hpos (UInt32.toNat_inj.mp hzero)
    · rw [← List.map_cons]
      exact List.pairwise_map.mpr hsorted
    · exact hr.nat.1
    · rw [← List.map_cons, List.forall_mem_map]
      exact fun s hs => (h s hs).nat.2
    · rw [List.forall_mem_map]
      exact fun s hs => (hrest s hs).nat.1
  rw [hcovers, checkMerged]
  rcases mergeIntervals_spec hr.2 hrest with ⟨stop, hstop, hmerge⟩ | ⟨⟨text, htext⟩, hmerge⟩
  · rw [hstop, res_ok_bind, hmerge]
    by_cases hzero : r.1 = 0
    · by_cases hlast : stop = totalCheckpoints - 1
      · rw [if_neg (not_not.mpr hzero), subU32_one hpos, res_ok_bind, if_neg (not_not.mpr hlast)]
        refine .inl ⟨⟨?_, ?_⟩, rfl⟩
        · rw [hzero]
          rfl
        · rw [hlast]
      · have hlt : stop < totalCheckpoints := by
          rw [UInt32.lt_iff_toNat_lt]
          apply Intervals.merge_lt hr.nat.2 _ hmerge
          rw [List.forall_mem_map]
          exact fun s hs => (hrest s hs).nat.2
        rw [if_neg (not_not.mpr hzero), subU32_one hpos, res_ok_bind, if_pos hlast,
          addU32_one hlt, res_ok_bind]
        refine .inr ⟨?_, _, rfl⟩
        rintro ⟨-, hall⟩
        exact hlast (UInt32.toNat_inj.mp (Option.some.inj hall))
    · rw [if_pos hzero, subU32_one hzero, res_ok_bind]
      refine .inr ⟨?_, _, rfl⟩
      rintro ⟨hall, -⟩
      exact hzero (UInt32.toNat_inj.mp hall)
  · rw [hmerge, htext, res_fail_bind]
    refine .inr ⟨?_, text, rfl⟩
    rintro ⟨-, hall⟩
    cases hall

/-- Coverage is decided exactly, and no sum or difference in the decision overflows. -/
theorem validateCoverage_ok_iff (sorter : SortByKey.Unstable fun r : Range => r.1.toNat)
    (self : CollaborationSection) (totalCheckpoints : UInt32) :
    (validateCoverage sorter self totalCheckpoints = .ok ()
        ↔ totalCheckpoints = 0 ∨ (∀ r ∈ self.ranges, r.1 ≤ r.2 ∧ r.2 < totalCheckpoints)
            ∧ ∀ i < totalCheckpoints, ∃ r ∈ self.ranges, r.1 ≤ i ∧ i ≤ r.2)
      ∧ validateCoverage sorter self totalCheckpoints ≠ abort := by
  rw [validateCoverage]
  by_cases hzero : totalCheckpoints = 0
  · rw [if_pos hzero]
    exact ⟨iff_of_true rfl (.inl hzero), nofun⟩
  rw [if_neg hzero, or_iff_right hzero]
  by_cases hbounds : ∀ r ∈ self.ranges, InBounds totalCheckpoints r
  · have hcollect : collectIntervals totalCheckpoints [] self.participants = .ok self.ranges :=
      collectIntervals_of_inBounds hbounds
    rw [hcollect, res_ok_bind]
    rw [and_iff_right (show ∀ r ∈ self.ranges, r.1 ≤ r.2 ∧ r.2 < totalCheckpoints from hbounds)]
    by_cases hempty : self.ranges = []
    · -- without a range, the first checkpoint is not covered
      rw [hempty, List.isEmpty_nil, if_pos rfl]
      refine ⟨iff_of_false (fail_ne_ok _ _) fun hall => ?_, fail_ne_abort _⟩
      obtain ⟨r, hr, -⟩ := hall 0 (UInt32.pos_iff_ne_zero.mpr hzero)
      cases hr
    · rw [if_neg (fun h => hempty (List.isEmpty_iff.mp h))]
      have hperm := sorter.perm self.ranges
      have hsome : sorter.sort self.ranges ≠ [] := by
        intro hnil
        rw [hnil] at hperm
        exact hempty hperm.symm.eq_nil
      have hsorted : ∀ r ∈ sorter.sort self.ranges, InBounds totalCheckpoints r :=
        fun r hr => hbounds r (hperm.mem_iff.mp hr)
      have hspec := checkMerged_spec hsome hzero hsorted (sorter.ordered self.ranges)
      rw [coversAll_perm hperm] at hspec
      rcases hspec with ⟨hall, hok⟩ | ⟨hgap, text, htext⟩
      · rw [hok]
        exact ⟨iff_of_true rfl hall, nofun⟩
      · rw [htext]
        exact ⟨iff_of_false (fail_ne_ok _ _) hgap, fail_ne_abort text⟩
  · have hfails : ∃ text, collectIntervals totalCheckpoints [] self.participants = fail text :=
      collectIntervals_of_not_inBounds hbounds
    obtain ⟨text, htext⟩ := hfails
    rw [htext, res_fail_bind]
    exact ⟨iff_of_false (fail_ne_ok _ _) fun hall => hbounds hall.1, fail_ne_abort text⟩

-- a nested range hides no gap behind it
example : validateCoverage default ⟨[⟨some [(6, 7), (0, 3)]⟩, ⟨none⟩, ⟨some [(1, 2)]⟩]⟩ 8
    = fail "Checkpoint gap: range 4..=5 not covered by any participant" := by decide +kernel

end WritersProof.Collaboration
