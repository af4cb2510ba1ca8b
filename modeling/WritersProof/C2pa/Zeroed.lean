/-
  WritersProof.C2pa.Zeroed

  Which bytes are hashed as zeros
  (`hash_with_exclusions`, crates/authorproof-protocol/src/c2pa/embed.rs).

  The one pass over the sorted ranges zeroes each byte that is in one of them,
  whatever the ranges have in common (`zeroed_eq_blank`).  A range that does not end
  in the address space is not among them: it is left out as a whole, also where it
  covers data, and not cut off at the end of the data as other ranges are.
-/
import WritersProof.C2pa.Signed

namespace WritersProof.C2pa

open Rust HashExclusion

/-! ## Blanks -/

/-- The data with zeros at some indices -/
def blank (data : Bytes) (p : Nat → Prop) [DecidablePred p] : Bytes :=
  data.mapIdx fun i b => if p i then 0 else b

section Blank

variable {data : Bytes} {p q : Nat → Prop} [DecidablePred p] [DecidablePred q]

theorem getElem?_blank (i : Nat) :
    (blank data p)[i]? = data[i]?.map fun b => if p i then 0 else b :=
  List.getElem?_mapIdx

theorem blank_congr (h : ∀ i < data.length, p i ↔ q i) : blank data p = blank data q := by
  apply List.ext_getElem?
  intro i
  rw [getElem?_blank, getElem?_blank]
  by_cases hi : i < data.length
  · simp only [h i hi]
  · rw [List.getElem?_eq_none (by omega)]
    rfl

/-- Fewer blanks make a difference just where they leave a byte that is not zero. -/
theorem blank_eq_blank_iff (hpq : ∀ i, p i → q i) :
    blank data p = blank data q ↔ ∀ i b, data[i]? = some b → q i → b = 0 ∨ p i := by
  constructor
  · intro h i b hb hq
    by_cases hp : p i
    · exact .inr hp
    · have hi := congrArg (·[i]?) h
      simp only [getElem?_blank, hb, Option.map_some, if_neg hp, if_pos hq] at hi
      exact .inl (Option.some.inj hi)
  · intro h
    apply List.ext_getElem?
    intro i
    rw [getElem?_blank, getElem?_blank]
    cases hb : data[i]? with
    | none => rfl
    | some b =>
      rw [Option.map_some, Option.map_some]
      by_cases hq : q i
      · rcases h i b hb hq with rfl | hp
        · rw [ite_self, ite_self]
        · rw [if_pos hp, if_pos hq]
      · rw [if_neg hq, if_neg fun hp => hq (hpq i hp)]

end Blank

/-! ## The pass over the ranges -/

def Covered (ranges : List (Nat × Nat)) (i : Nat) : Prop := ∃ r ∈ ranges, r.1 ≤ i ∧ i < r.2

instance (ranges : List (Nat × Nat)) : DecidablePred (Covered ranges) := fun i =>
  inferInstanceAs (Decidable (∃ r ∈ ranges, r.1 ≤ i ∧ i < r.2))

theorem covered_cons {start stop i : Nat} {ranges : List (Nat × Nat)} :
    Covered ((start, stop) :: ranges) i ↔ start ≤ i ∧ i < stop ∨ Covered ranges i := by
  simp only [Covered, List.exists_mem_cons_iff]

theorem feed_eq_drop_blank {data : Bytes} {ranges : List (Nat × Nat)}
    (hsorted : ranges.Pairwise fun a b => a.1 ≤ b.1)
    (hranges : ∀ r ∈ ranges, r.1 ≤ r.2 ∧ r.2 ≤ data.length) (pos : Nat) :
    feed data pos ranges = (blank data (Covered ranges)).drop pos := by
  induction ranges generalizing pos with
  | nil =>
    have hnone : blank data (Covered []) = data := by
      rw [blank, List.mapIdx_eq_iff]
      intro i
      simp [Covered]
    rw [feed, hnone]
  | cons r ranges ih =>
    obtain ⟨start, stop⟩ := r
    obtain ⟨hfirst, hsorted⟩ := List.pairwise_cons.mp hsorted
    obtain ⟨⟨hle, hstop⟩, hranges⟩ := List.forall_mem_cons.mp hranges
    dsimp only at hle hstop
    rw [feed, ih hsorted hranges]
    have hfront : ((data.take start).drop pos).length = start - pos := by
      rw [List.length_drop, List.length_take]
      omega
    -- nothing in front of the first range is covered
    have hbefore : ∀ i < start, ¬ Covered ((start, stop) :: ranges) i := by
      intro i hi hcovered
      rcases covered_cons.mp hcovered with ⟨hstart, -⟩ | ⟨r, hr, hstart, -⟩
      · omega
      · have hr' := hfirst r hr
        dsimp only at hr'
        omega
    have hbehind : ∀ i, max stop pos ≤ i →
        (Covered ((start, stop) :: ranges) i ↔ Covered ranges i) := by
      intro i hi
      rw [covered_cons, or_iff_right fun h => by omega]
    apply List.ext_getElem?
    intro i
    rw [List.getElem?_drop, getElem?_blank]
    by_cases hi : i < start - pos
    · -- in front of the range
      rw [List.append_assoc, List.getElem?_append_left (by omega), List.getElem?_drop,
        List.getElem?_take_of_lt (by omega)]
      simp only [if_neg (hbefore (pos + i) (by omega)), Option.map_id']
    by_cases hzero : i < start - pos + (stop - max start pos)
    · -- in the range
      have hcovered : Covered ((start, stop) :: ranges) (pos + i) :=
        covered_cons.mpr (.inl ⟨by omega, by omega⟩)
      rw [List.getElem?_append_left (by rw [List.length_append, List.length_replicate]; omega),
        List.getElem?_append_right (by omega), List.getElem?_replicate_of_lt (by omega),
        List.getElem?_eq_getElem (by omega), Option.map_some, if_pos hcovered]
    · rw [List.getElem?_append_right (by rw [List.length_append, List.length_replicate]; omega),
        List.length_append, List.length_replicate, hfront, List.getElem?_drop, getElem?_blank]
      have hindex : max stop pos + (i - (start - pos + (stop - max start pos))) = pos + i := by
        omega
      simp only [hindex, hbehind (pos + i) (by omega)]

/-! ## Ranges over the integers -/

namespace HashExclusion

/-- An index is in the range, which may end anywhere. -/
def Covers (e : HashExclusion) (i : Nat) : Prop := e.start ≤ i ∧ i < e.start + e.length

instance (e : HashExclusion) : DecidablePred e.Covers :=
  fun _ => inferInstanceAs (Decidable (_ ∧ _))

/-- The end of the range is not a `usize`. -/
def Overflows (e : HashExclusion) : Prop := 2 ^ 64 ≤ e.start + e.length

instance (e : HashExclusion) : Decidable e.Overflows := inferInstanceAs (Decidable (_ ≤ _))

theorem within_eq_some {len : Nat} {e : HashExclusion} {r : Nat × Nat} :
    e.within len = some r ↔
      ¬ e.Overflows ∧ e.start < len ∧ r = (e.start, min (e.start + e.length) len) := by
  unfold within checkedAdd Overflows
  generalize 2 ^ 64 = bound
  by_cases hmax : e.start + e.length < bound
  · by_cases hstart : e.start < len
    · simp [hmax, hstart, eq_comm]
    · simp [hmax, hstart]
  · simp [hmax]

end HashExclusion

def Excluded (exclusions : List HashExclusion) (i : Nat) : Prop := ∃ e ∈ exclusions, e.Covers i

instance (exclusions : List HashExclusion) : DecidablePred (Excluded exclusions) := fun i =>
  inferInstanceAs (Decidable (∃ e ∈ exclusions, e.Covers i))

/-- An index is excluded by a range that ends in the address space. -/
def ExcludedWithin (exclusions : List HashExclusion) (i : Nat) : Prop :=
  ∃ e ∈ exclusions, ¬ e.Overflows ∧ e.Covers i

instance (exclusions : List HashExclusion) : DecidablePred (ExcludedWithin exclusions) := fun i =>
  inferInstanceAs (Decidable (∃ e ∈ exclusions, ¬ e.Overflows ∧ e.Covers i))

/-- What is hashed, overlaps or not: the data with zeros for the ranges that end in the address
space. -/
theorem zeroed_eq_blank (data : Bytes) (exclusions : List HashExclusion) :
    zeroed data exclusions = blank data (ExcludedWithin exclusions) := by
  have hperm := List.perm_insertionSort (fun a b : Nat × Nat => a.1 ≤ b.1)
    (exclusions.filterMap (within data.length))
  have hmem : ∀ r, r ∈ (exclusions.filterMap (within data.length)).insertionSort
      (fun a b => a.1 ≤ b.1) ↔ ∃ e ∈ exclusions, e.within data.length = some r := fun r =>
    hperm.mem_iff.trans List.mem_filterMap
  have hranges : ∀ r ∈ (exclusions.filterMap (within data.length)).insertionSort
      (fun a b => a.1 ≤ b.1), r.1 ≤ r.2 ∧ r.2 ≤ data.length := by
    intro r hr
    obtain ⟨e, -, he⟩ := (hmem r).mp hr
    obtain ⟨-, hstart, rfl⟩ := within_eq_some.mp he
    dsimp only
    omega
  rw [zeroed, feed_eq_drop_blank (SortByKey.pairwise_le Prod.fst _) hranges, List.drop_zero]
  apply blank_congr
  intro i hi
  constructor
  · rintro ⟨r, hr, hlo, hhi⟩
    obtain ⟨e, he, hwithin⟩ := (hmem r).mp hr
    obtain ⟨hmax, -, rfl⟩ := within_eq_some.mp hwithin
    exact ⟨e, he, hmax, hlo, Nat.lt_of_lt_of_le hhi (Nat.min_le_left _ _)⟩
  · rintro ⟨e, he, hmax, hlo, hhi⟩
    refine ⟨_,
      (hmem _).mpr ⟨e, he, within_eq_some.mpr ⟨hmax, by omega, rfl⟩⟩, hlo, ?_⟩
    exact Nat.lt_min.mpr ⟨hhi, hi⟩

theorem hashWithExclusions_eq (C : Crates) (data : Bytes) (exclusions : List HashExclusion) :
    hashWithExclusions C data exclusions = C.sha256 (blank data (ExcludedWithin exclusions)) := by
  rw [← zeroed_eq_blank, hashWithExclusions]
  split
  next hnone =>
    rw [hnone]
    rfl
  next => rfl

/-- The hash is that of the data with the excluded bytes zeroed exactly if all bytes that only a
range past the address space excludes are zero already. -/
theorem hashWithExclusions_eq_iff (C : Crates) (data : Bytes) (exclusions : List HashExclusion)
    (hfree : C.sha256 (blank data (ExcludedWithin exclusions))
        = C.sha256 (blank data (Excluded exclusions)) →
      blank data (ExcludedWithin exclusions) = blank data (Excluded exclusions)) :
    hashWithExclusions C data exclusions = C.sha256 (blank data (Excluded exclusions)) ↔
      ∀ i b, data[i]? = some b → (∃ e ∈ exclusions, e.Overflows ∧ e.Covers i) →
        b = 0 ∨ ∃ e ∈ exclusions, ¬ e.Overflows ∧ e.Covers i := by
  have hsub : ∀ i, ExcludedWithin exclusions i → Excluded exclusions i := by
    rintro i ⟨e, he, -, hcovers⟩
    exact ⟨e, he, hcovers⟩
  have hblank : blank data (ExcludedWithin exclusions) = blank data (Excluded exclusions) ↔ _ :=
    blank_eq_blank_iff hsub
  rw [hashWithExclusions_eq]
  constructor
  · rintro h i b hb ⟨e, he, -, hcovers⟩
    exact hblank.mp (hfree h) i b hb ⟨e, he, hcovers⟩
  · intro h
    refine congrArg C.sha256 (hblank.mpr ?_)
    rintro i b hb ⟨e, he, hcovers⟩
    by_cases hmax : e.Overflows
    · exact h i b hb ⟨e, he, hmax, hcovers⟩
    · exact .inr ⟨e, he, hmax, hcovers⟩

/-- A range whose end is no address: the byte it starts at is zero, and there is nothing behind. -/
theorem hashWithExclusions_eq_lastZero :
    hashWithExclusions readingCrates [5, 0] [⟨1, 2 ^ 64 - 1⟩]
      = readingCrates.sha256 (blank [5, 0] (Excluded [⟨1, 2 ^ 64 - 1⟩])) := by
  apply (hashWithExclusions_eq_iff readingCrates [5, 0] [⟨1, 2 ^ 64 - 1⟩] (by decide)).mpr
  intro i b hb hcovers
  obtain ⟨e, he, -, hstart, -⟩ := hcovers
  cases List.mem_singleton.mp he
  match i, hb with
  | 0, _ => exact absurd hstart (by decide)
  | 1, hb => exact .inl (Option.some.inj hb).symm

/-- The byte is not zero, and hashed as it is. -/
theorem hashWithExclusions_ne_lastKept :
    hashWithExclusions readingCrates [5, 7] [⟨1, 2 ^ 64 - 1⟩]
      ≠ readingCrates.sha256 (blank [5, 7] (Excluded [⟨1, 2 ^ 64 - 1⟩])) := by
  decide

end WritersProof.C2pa
