/-
  WritersProof.Lib.Intervals

  Closed intervals of natural numbers, merged in the order of their starts.

  A merge that goes through covers what its intervals cover
  (`merge_covers`), and one that stops has passed a number that none of them
  covers (`merge_gap`).  Nested intervals need no case of their own: the end
  is the largest so far, not the last.
-/
import Mathlib.Data.List.Pairwise
import Mathlib.Order.Lattice

namespace Intervals

/-- Some interval holds the number. -/
def Covered (xs : List (Nat × Nat)) (i : Nat) : Prop := ∃ r ∈ xs, r.1 ≤ i ∧ i ≤ r.2

/-- The end of a chain of intervals, or none when there is a gap in it. -/
def merge : Nat → List (Nat × Nat) → Option Nat
  | hi, [] => some hi
  | hi, r :: rest => if r.1 ≤ hi + 1 then merge (max hi r.2) rest else none

variable {xs : List (Nat × Nat)} {r : Nat × Nat} {hi stop bound : Nat}

theorem covered_cons {i : Nat} : Covered (r :: xs) i ↔ (r.1 ≤ i ∧ i ≤ r.2) ∨ Covered xs i := by
  simp only [Covered, List.mem_cons, exists_eq_or_imp]

/-- What a chain covers is one interval, from the first start to the end that it gives. -/
theorem merge_covers {lo : Nat} (hle : lo ≤ hi) (hstarts : ∀ r ∈ xs, lo ≤ r.1)
    (h : merge hi xs = some stop) (i : Nat) :
    Covered ((lo, hi) :: xs) i ↔ lo ≤ i ∧ i ≤ stop := by
  induction xs generalizing hi with
  | nil =>
    cases h
    simp [Covered]
  | cons r rest ih =>
    obtain ⟨hr, hrest⟩ := List.forall_mem_cons.mp hstarts
    rw [merge] at h
    split at h
    next hnext =>
      -- the interval and the chain so far are one interval, since no number lies between them
      rw [← ih (Nat.le_trans hle (Nat.le_max_left _ _)) hrest h, covered_cons, covered_cons,
        covered_cons, ← or_assoc]
      apply or_congr_left
      omega
    next => cases h

/-- Where a chain stops there is a number after it that no interval holds, with one behind it. -/
theorem merge_gap (hsorted : xs.Pairwise fun a b => a.1 ≤ b.1) (h : merge hi xs = none) :
    ∃ i, hi < i ∧ ¬Covered xs i ∧ ∃ r ∈ xs, i < r.1 := by
  induction xs generalizing hi with
  | nil => cases h
  | cons r rest ih =>
    obtain ⟨hfirst, hrest⟩ := List.pairwise_cons.mp hsorted
    rw [merge] at h
    split at h
    next hnext =>
      obtain ⟨i, hi', hnot, s, hs, hlt⟩ := ih hrest h
      refine ⟨i, by omega, ?_, s, List.mem_cons_of_mem _ hs, hlt⟩
      rw [covered_cons]
      rintro (hheld | hheld)
      · omega
      · exact hnot hheld
    next hgap =>
      refine ⟨hi + 1, Nat.lt_succ_self hi, ?_, r, List.mem_cons_self, by omega⟩
      rintro ⟨s, hs, hle, -⟩
      -- every interval starts behind the gap, since the first does
      rcases List.mem_cons.mp hs with rfl | hs
      · omega
      · have := hfirst s hs
        omega

/-- The end that a chain gives is below whatever bounds all of its ends. -/
theorem merge_lt (hhi : hi < bound) (hends : ∀ r ∈ xs, r.2 < bound) (h : merge hi xs = some stop) :
    stop < bound := by
  induction xs generalizing hi with
  | nil =>
    cases h
    exact hhi
  | cons r rest ih =>
    obtain ⟨hr, hrest⟩ := List.forall_mem_cons.mp hends
    rw [merge] at h
    split at h
    next => exact ih (Nat.max_lt.mpr ⟨hhi, hr⟩) hrest h
    next => cases h

/-- Intervals sorted by their starts cover everything below a bound when their chain starts at
    zero and ends right below it. -/
theorem covers_iff (hpos : 0 < bound) (hsorted : (r :: xs).Pairwise fun a b => a.1 ≤ b.1)
    (hle : r.1 ≤ r.2) (hends : ∀ s ∈ r :: xs, s.2 < bound) (hvalid : ∀ s ∈ xs, s.1 ≤ s.2) :
    (∀ i < bound, Covered (r :: xs) i) ↔ r.1 = 0 ∧ merge r.2 xs = some (bound - 1) := by
  obtain ⟨hfirst, hrest⟩ := List.pairwise_cons.mp hsorted
  obtain ⟨hr, hxs⟩ := List.forall_mem_cons.mp hends
  refine ⟨fun hall => ?_, ?_⟩
  · cases hmerge : merge r.2 xs with
    | none =>
      -- the number in the gap is below the start of an interval, and so below the bound
      obtain ⟨i, hi, hnot, s, hs, hlt⟩ := merge_gap hrest hmerge
      have hsvalid := hvalid s hs
      have hsend := hxs s hs
      rcases covered_cons.mp (hall i (by omega)) with hheld | hheld
      · omega
      · exact absurd hheld hnot
    | some stop =>
      have hcovers := merge_covers hle hfirst hmerge
      have hzero := (hcovers 0).mp (hall 0 hpos)
      have hlast := (hcovers (bound - 1)).mp (hall (bound - 1) (by omega))
      have hstop := merge_lt hr hxs hmerge
      exact ⟨by omega, congrArg some (by omega)⟩
  · rintro ⟨hzero, hmerge⟩ i hi
    apply (merge_covers hle hfirst hmerge i).mpr
    omega

end Intervals
