/-
  WritersProof.Lib.SortByKey

  `xs.sort_by_key(key)`, a stable sort, as an insertion sort by the key.

  Sorting by the place that an element had gives the old order back
  (`sort_back`), whatever was done to the elements in between.

  `Unstable` is `xs.sort_unstable_by_key(key)`, of which only this is known:
  the elements are the old ones, and their keys are in order.
-/
import Mathlib.Data.List.Sort
import Mathlib.Data.List.Sigma

namespace SortByKey

variable {α β : Type}

theorem pairwise_le (key : α → Nat) (xs : List α) :
    (xs.insertionSort fun a b => key a ≤ key b).Pairwise fun a b => key a ≤ key b := by
  have : Std.Total fun a b : α => key a ≤ key b := ⟨fun a b => Nat.le_total (key a) (key b)⟩
  have : IsTrans α fun a b => key a ≤ key b := ⟨fun _ _ _ => Nat.le_trans⟩
  exact List.pairwise_insertionSort _ xs

/-- Different keys come out in strictly increasing order. -/
theorem pairwise_lt {key : α → Nat} {xs : List α} (h : (xs.map key).Nodup) :
    (xs.insertionSort fun a b => key a ≤ key b).Pairwise fun a b => key a < key b := by
  have hperm := List.perm_insertionSort (fun a b : α => key a ≤ key b) xs
  have hnodup : ((xs.insertionSort fun a b => key a ≤ key b).map key).Nodup :=
    (hperm.map key).nodup_iff.mpr h
  have hne := List.pairwise_map.mp hnodup
  apply ((pairwise_le key xs).and hne).imp
  rintro a b ⟨hle, hne⟩
  exact Nat.lt_of_le_of_ne hle hne

/-- Elements with their old places, in any order, are put back in the old order. -/
theorem sort_back {xs : List α} {out : List (β × Nat)} {f : β → α}
    (hperm : (out.map fun q => (f q.1, q.2)).Perm xs.zipIdx) :
    ((out.insertionSort fun a b => a.2 ≤ b.2).map (·.1)).map f = xs := by
  have hplaces : (out.map (·.2)).Nodup := by
    have hsnd : (out.map fun q => (f q.1, q.2)).map Prod.snd = out.map (·.2) := by
      rw [List.map_map]
      rfl
    rw [← hsnd, (hperm.map Prod.snd).nodup_iff]
    exact List.nodup_zipIdx_map_snd xs
  have hsort := List.perm_insertionSort (fun a b : β × Nat => a.2 ≤ b.2) out
  have hold : xs.zipIdx.Pairwise fun a b => a.2 < b.2 := by
    have hrange : (xs.zipIdx.map Prod.snd).Pairwise (· < ·) := by
      rw [List.zipIdx_map_snd]
      exact List.pairwise_lt_range'
    exact List.pairwise_map.mp hrange
  have hnew : ((out.insertionSort fun a b => a.2 ≤ b.2).map fun q => (f q.1, q.2)).Pairwise
      fun a b => a.2 < b.2 := by
    rw [List.pairwise_map]
    exact pairwise_lt hplaces
  -- two lists in strict order with the same elements are the same
  have hpairs : (out.insertionSort fun a b => a.2 ≤ b.2).map (fun q => (f q.1, q.2))
      = xs.zipIdx :=
    List.Perm.eq_of_pairwise (fun a b _ _ hab hba => absurd hba (Nat.lt_asymm hab)) hnew hold
      ((hsort.map _).trans hperm)
  have hfst : ((out.insertionSort fun a b => a.2 ≤ b.2).map (·.1)).map f
      = ((out.insertionSort fun a b => a.2 ≤ b.2).map fun q => (f q.1, q.2)).map Prod.fst := by
    rw [List.map_map, List.map_map]
    rfl
  rw [hfst, hpairs, List.zipIdx_map_fst]

/-- `xs.sort_unstable_by_key(key)`: equal keys come out in any order. -/
structure Unstable (key : α → Nat) where
  sort : List α → List α
  perm : ∀ xs, (sort xs).Perm xs
  ordered : ∀ xs, (sort xs).Pairwise fun a b => key a ≤ key b

/-- A stable sort is one. -/
instance (key : α → Nat) : Inhabited (Unstable key) where
  default :=
    { sort := fun xs => xs.insertionSort fun a b => key a ≤ key b
      perm := fun xs => List.perm_insertionSort _ xs
      ordered := pairwise_le key }

end SortByKey
