/-
  The range verifier on an honest proof.

  Before height `h` its map holds the row of the range at that height, followed
  by the peaks below that the range reaches (`honestMap`).  The verifier knows
  no heights: it takes whatever stands one tree ahead of a node for its right
  sibling.  Where the row starts with a right child this can be one of the
  carried peaks (`Collides`); where it is not, the level ends in the honest map
  of the next height.
-/
import WritersProof.Mmr.RangeLift
import WritersProof.Mmr.RangeGenerate

namespace WritersProof.Mmr

open Rust MountainRange OrdMap

variable {H : Type}

/-- The leaves under the block meet `[s, e]`. -/
def InRange (s e : Nat) (p : Nat × Nat) : Prop := s < (p.2 + 1) * 2 ^ p.1 ∧ p.2 * 2 ^ p.1 ≤ e

instance (s e : Nat) (p : Nat × Nat) : Decidable (InRange s e p) :=
  inferInstanceAs (Decidable (_ ∧ _))

/-- The peaks below height `h` that the range reaches. -/
def carriedPeaks (n s e h : Nat) : List (Nat × Nat) :=
  (peaksBelow h n).filter fun p => InRange s e p

/-- A carried peak stands where the verifier looks for the right sibling of
    the right child that the row starts with. -/
def Collides (n s e h : Nat) : Prop :=
  rangeLo s h % 2 = 1 ∧ ∃ p ∈ carriedPeaks n s e h,
    pos p.1 p.2 + 1 = pos h (rangeLo s h) + 2 ^ (h + 1)

instance (n s e h : Nat) : Decidable (Collides n s e h) :=
  inferInstanceAs (Decidable (_ ∧ ∃ p ∈ carriedPeaks n s e h, _))

def blockEntry (hs : NodeHasher H) (data : List Bytes) (p : Nat × Nat) : Nat × H :=
  (pos p.1 p.2, subtreeHash hs data p.1 p.2)

/-- The blocks `[a, b)` of height `h`. -/
def rowEntries (hs : NodeHasher H) (data : List Bytes) (h a b : Nat) : OrdMap H :=
  (List.range' a (b - a)).map fun j => blockEntry hs data (h, j)

def honestMap (hs : NodeHasher H) (data : List Bytes) (s e h : Nat) : OrdMap H :=
  rowEntries hs data h (rangeLo s h) (rangeUp data.length e h)
    ++ (carriedPeaks data.length s e h).map (blockEntry hs data)

/-! ## The honest map -/

section Honest

variable {hs : NodeHasher H} {data : List Bytes} {n s e h : Nat}

@[simp] theorem keys_rowEntries (a b : Nat) : (rowEntries hs data h a b).keys = row h a b := by
  rw [rowEntries, keys, List.map_map]
  rfl

variable {a b j x : Nat} {p : Nat × Nat}

theorem rowEntries_append {c : Nat} (hab : a ≤ b) (hbc : b ≤ c) :
    rowEntries hs data h a b ++ rowEntries hs data h b c = rowEntries hs data h a c := by
  obtain ⟨x, rfl⟩ := Nat.exists_eq_add_of_le hab
  obtain ⟨y, rfl⟩ := Nat.exists_eq_add_of_le hbc
  rw [rowEntries, rowEntries, rowEntries, ← List.map_append, Nat.add_sub_cancel_left,
    Nat.add_sub_cancel_left, List.range'_append_1, Nat.add_assoc, Nat.add_sub_cancel_left]

@[simp] theorem rowEntries_one (a : Nat) :
    rowEntries hs data h a (a + 1) = [blockEntry hs data (h, a)] := by simp [rowEntries]

theorem insert_rowEntries (hba : b ≤ a) :
    insert (pos h a) (subtreeHash hs data h a) (rowEntries hs data h b a)
      = rowEntries hs data h b (a + 1) := by
  rw [insert_eq_append, ← rowEntries_append hba (Nat.le_succ a), rowEntries_one]
  · rfl
  · intro k hk
    rw [keys_rowEntries] at hk
    obtain ⟨j, rfl, -, hj⟩ := mem_row.mp hk
    exact pos_lt_pos hj

@[simp] theorem rowEntries_self (a : Nat) : rowEntries hs data h a a = [] := by simp [rowEntries]

theorem mem_carriedPeaks : p ∈ carriedPeaks n s e h ↔ p ∈ peaks n ∧ p.1 < h ∧ InRange s e p := by
  obtain ⟨k, a⟩ := p
  rw [carriedPeaks, List.mem_filter, mem_peaksBelow, mem_peaks, decide_eq_true_iff]
  tauto

theorem inRange_iff : InRange s e (h, j) ↔ rangeLo s h ≤ j ∧ j ≤ e / 2 ^ h := by
  have hpow := Nat.two_pow_pos h
  have hlo : s < (j + 1) * 2 ^ h ↔ s / 2 ^ h < j + 1 := (Nat.div_lt_iff_lt_mul hpow).symm
  rw [InRange, rangeLo, hlo, Nat.lt_succ_iff, ← Nat.le_div_iff_mul_le hpow]

theorem carriedPeaks_succ (n s e h : Nat) :
    carriedPeaks n s e (h + 1)
      = (if rangeLo s h < rangeUp n e h ∧ rangeUp n e h % 2 = 1 ∧ rangeUp n e h = n / 2 ^ h
          then [(h, rangeUp n e h - 1)] else []) ++ carriedPeaks n s e h := by
  have hrange : n / 2 ^ h % 2 = 1 → (InRange s e (h, n / 2 ^ h - 1) ↔
      rangeLo s h < rangeUp n e h ∧ rangeUp n e h = n / 2 ^ h) := by
    intro hbit
    rw [inRange_iff, rangeUp]
    generalize rangeLo s h = lo
    generalize n / 2 ^ h = b at *
    generalize e / 2 ^ h = a
    omega
  rw [carriedPeaks, peaksBelow]
  by_cases hbit : n / 2 ^ h % 2 = 1
  · rw [if_pos hbit, List.filter_cons]
    by_cases hin : InRange s e (h, n / 2 ^ h - 1)
    · obtain ⟨hlt, hend⟩ := (hrange hbit).mp hin
      rw [if_pos (decide_eq_true hin), if_pos ⟨hlt, by rw [hend]; exact hbit, hend⟩, hend]
      rfl
    · rw [if_neg (by simpa using hin), if_neg]
      · rfl
      · rintro ⟨hlt, -, hend⟩
        exact hin ((hrange hbit).mpr ⟨hlt, hend⟩)
  · rw [if_neg hbit, if_neg]
    · rfl
    · rintro ⟨-, hodd, hend⟩
      rw [hend] at hodd
      exact hbit hodd

theorem carriedPeaks_sorted (n s e h : Nat) :
    ((carriedPeaks n s e h).map fun p => pos p.1 p.2).Pairwise (· < ·) :=
  (peaksBelow_sorted h n).sublist (List.filter_sublist.map _)

theorem row_lt_carried (hj : j < rangeUp n e h) (hp : p ∈ carriedPeaks n s e h) :
    pos h j < pos p.1 p.2 := by
  obtain ⟨hpeak, hlt, -⟩ := mem_carriedPeaks.mp hp
  exact block_lt_peak (block_le_of_lt_rangeUp hj) hpeak hlt

theorem honestMap_keys : (honestMap hs data s e h).keys
    = row h (rangeLo s h) (rangeUp data.length e h)
      ++ (carriedPeaks data.length s e h).map fun p => pos p.1 p.2 := by
  rw [honestMap, keys_append, keys_rowEntries, keys, List.map_map]
  rfl

theorem honestMap_sorted : (honestMap hs data s e h).Sorted := by
  rw [OrdMap.Sorted, honestMap_keys, List.pairwise_append]
  refine ⟨row_sorted _ _ _, carriedPeaks_sorted _ _ _ _, ?_⟩
  intro x hx y hy
  obtain ⟨j, rfl, -, hj⟩ := mem_row.mp hx
  obtain ⟨p, hp, rfl⟩ := List.mem_map.mp hy
  exact row_lt_carried hj hp

theorem mem_honestMap_keys : x ∈ (honestMap hs data s e h).keys ↔
    (∃ j, x = pos h j ∧ rangeLo s h ≤ j ∧ j < rangeUp data.length e h) ∨
    ∃ p ∈ carriedPeaks data.length s e h, x = pos p.1 p.2 := by
  rw [honestMap_keys, List.mem_append, mem_row, List.mem_map]
  simp only [eq_comm]

theorem honestMap_get?_row (hlo : rangeLo s h ≤ j) (hup : j < rangeUp data.length e h) :
    (honestMap hs data s e h).get? (pos h j) = some (subtreeHash hs data h j) := by
  rw [get?_eq_some_iff honestMap_sorted, honestMap, List.mem_append]
  exact .inl (List.mem_map.mpr ⟨j, List.mem_range'_1.mpr (by omega), rfl⟩)

theorem honestMap_get?_carried (hp : p ∈ carriedPeaks data.length s e h) :
    (honestMap hs data s e h).get? (pos p.1 p.2) = some (subtreeHash hs data p.1 p.2) := by
  rw [get?_eq_some_iff honestMap_sorted, honestMap, List.mem_append]
  exact .inr (List.mem_map.mpr ⟨p, hp, rfl⟩)

theorem honestMap_get?_none
    (hrow : ∀ j, rangeLo s h ≤ j → j < rangeUp data.length e h → x ≠ pos h j)
    (hcarried : ∀ p ∈ carriedPeaks data.length s e h, x ≠ pos p.1 p.2) :
    (honestMap hs data s e h).get? x = none := by
  rw [get?_eq_none_iff, mem_honestMap_keys]
  rintro (⟨j, heq, hlo, hup⟩ | ⟨p, hp, heq⟩)
  · exact hrow j hlo hup heq
  · exact hcarried p hp heq

theorem honestMap_get?_outside (hj : ¬ (rangeLo s h ≤ j ∧ j < rangeUp data.length e h)) :
    (honestMap hs data s e h).get? (pos h j) = none := by
  refine honestMap_get?_none ?_ ?_
  · intro j' hlo hup heq
    obtain ⟨-, rfl⟩ := pos_injective heq
    exact hj ⟨hlo, hup⟩
  · intro p hp heq
    obtain ⟨hheight, -⟩ := pos_injective heq
    have := (mem_carriedPeaks.mp hp).2.1
    omega

end Honest

def peakSet (n : Nat) : List Nat := (peaks n).map fun p => pos p.1 p.2

theorem pos_mem_peakSet {n h j : Nat} : pos h j ∈ peakSet n ↔ (h, j) ∈ peaks n := by
  rw [peakSet, List.mem_map]
  constructor
  · rintro ⟨⟨h', j'⟩, hmem, heq⟩
    obtain ⟨rfl, rfl⟩ := pos_injective heq
    exact hmem
  · exact fun hmem => ⟨(h, j), hmem, rfl⟩

/-! ## One level of the verifier -/

namespace RangeProof

section Level

variable {hs : NodeHasher H} {data : List Bytes} {s e h : Nat}

variable (hsize : size data.length < 2 ^ 63) (hh : h < 63)

include hsize hh

/-- The start of the row: a right child takes the sibling on its left from the path. -/
theorem liftAll_first (hfree : ¬ Collides data.length s e h)
    (hlt : rangeLo s h < rangeUp data.length e h) (rest : List (ProofElement H)) :
    ∃ processed, liftAll hs (peakSet data.length) (honestMap hs data s e h) h
          (row h (rangeLo s h) (2 * ((rangeLo s h + 1) / 2)))
          ⟨[], [], (if rangeLo s h < rangeUp data.length e h ∧ rangeLo s h % 2 = 1
            then [⟨subtreeHash hs data h (rangeLo s h - 1), true⟩] else []) ++ rest⟩
        = .ok
          ⟨processed, rowEntries hs data (h + 1) (rangeLo s h / 2) ((rangeLo s h + 1) / 2), rest⟩
      ∧ ∀ p ∈ processed, p ∈ row h (rangeLo s h) (2 * ((rangeLo s h + 1) / 2)) := by
  generalize hlo : rangeLo s h = lo at *
  by_cases hodd : lo % 2 = 1
  · have hblock := block_le_of_lt_rangeUp hlt
    have hpeak : pos h lo ∉ peakSet data.length := by
      rw [pos_mem_peakSet, mem_peaks]
      omega
    have htwo := two_le_offset h
    -- no block of this height and no carried peak stands one tree ahead
    have hright : (honestMap hs data s e h).get? (pos h lo + 2 ^ (h + 1) - 1) = none := by
      refine honestMap_get?_none ?_ ?_
      · intro j _ _
        exact pos_ne_of_odd hodd (by omega) (by omega)
      · intro p hp heq
        subst hlo
        exact hfree ⟨hodd, p, hp, by omega⟩
    have hparent : pos h lo + 1 = pos (h + 1) (lo / 2) := by
      rw [← pos_right, show 2 * (lo / 2) + 1 = lo by omega]
    have hprev : pos h (lo - 1) + 2 ^ (h + 1) = pos h lo + 1 := by
      rw [hparent, ← pos_left, show 2 * (lo / 2) = lo - 1 by omega]
    have hleft : 2 ^ (h + 1) ≤ pos h lo + 1 →
        (honestMap hs data s e h).get? (pos h lo + 1 - 2 ^ (h + 1)) = none := by
      intro _
      rw [show pos h lo + 1 - 2 ^ (h + 1) = pos h (lo - 1) by omega]
      exact honestMap_get?_outside (by omega)
    have hstep := @Level.lift_of_step _ hs _ _ _ _ ⟨[], [],
        ⟨subtreeHash hs data h (lo - 1), true⟩ :: rest⟩ _ _ _ _ _ List.not_mem_nil
        (honestMap_get?_row (Nat.le_of_eq hlo) hlt) (pos_add_offset_lt hsize hh hblock)
        (.pathLeft hpeak hright hleft rfl)
    rw [if_pos (show 2 ^ (h + 1) ≤ pos h lo + 1 by omega)] at hstep
    refine ⟨[pos h lo], ?_, ?_⟩
    · rw [if_pos ⟨hlt, hodd⟩, show 2 * ((lo + 1) / 2) = lo + 1 by omega, row_one,
        List.singleton_append, liftAll_cons_of_ok hstep, show (lo + 1) / 2 = lo / 2 + 1 by omega,
        rowEntries_one, blockEntry, subtreeHash, ← hparent,
        show 2 * (lo / 2) + 1 = lo by omega,
        show 2 * (lo / 2) = lo - 1 by omega]
      rfl
    · intro p hp
      rw [show 2 * ((lo + 1) / 2) = lo + 1 by omega, row_one]
      exact hp
  · refine ⟨[], ?_, fun p hp => absurd hp List.not_mem_nil⟩
    rw [if_neg (fun h => hodd h.2), show 2 * ((lo + 1) / 2) = lo by omega,
      show (lo + 1) / 2 = lo / 2 by omega, row_self, rowEntries_self]
    rfl

theorem liftAll_pairs {b : Nat} (t : Nat) :
    ∀ {a : Nat} {processed : List Nat} {siblings : List (ProofElement H)},
      rangeLo s h ≤ 2 * a → 2 * (a + t) ≤ rangeUp data.length e h → b ≤ a →
      (∀ p ∈ processed, p ∈ row h (rangeLo s h) (2 * a)) →
      ∃ processed', liftAll hs (peakSet data.length) (honestMap hs data s e h) h
            (row h (2 * a) (2 * (a + t))) ⟨processed, rowEntries hs data (h + 1) b a, siblings⟩
          = .ok ⟨processed', rowEntries hs data (h + 1) b (a + t), siblings⟩
        ∧ ∀ p ∈ processed', p ∈ row h (rangeLo s h) (2 * (a + t)) := by
  induction t with
  | zero =>
    intro a processed siblings _ _ _ hproc
    rw [Nat.add_zero, row_self]
    exact ⟨processed, rfl, hproc⟩
  | succ t ih =>
    intro a processed siblings hlo hup hba hproc
    have hleftBlock : (2 * a + 1) * 2 ^ h ≤ data.length :=
      block_le_of_lt_rangeUp (e := e) (by omega)
    have hrow := rangeUp_le (n := data.length) (e := e) (h := h)
    have hpeak : pos h (2 * a) ∉ peakSet data.length := by
      rw [pos_mem_peakSet, mem_peaks]
      omega
    have hnew : pos h (2 * a) ∉ processed := by
      intro hmem
      have := pos_mem_row.mp (hproc _ hmem)
      omega
    have hsibling : pos h (2 * a) + 2 ^ (h + 1) - 1 = pos h (2 * a + 1) := by
      have h1 := pos_left h a
      have h2 := pos_right h a
      omega
    have hright : (honestMap hs data s e h).get? (pos h (2 * a) + 2 ^ (h + 1) - 1)
        = some (subtreeHash hs data h (2 * a + 1)) := by
      rw [hsibling]
      exact honestMap_get?_row (by omega) (by omega)
    -- the left node is lifted with the right one beside it
    have hstep := @Level.lift_of_step _ hs _ _ _ _ ⟨processed, rowEntries hs data (h + 1) b a,
        siblings⟩ _ _ _ _ _ hnew (honestMap_get?_row (e := e) hlo (by omega))
        (pos_add_offset_lt hsize hh hleftBlock) (.right hpeak hright)
    have hinsert : insert (pos h (2 * a) + 2 ^ (h + 1))
          (hs.hashInternal (h + 1) (subtreeHash hs data h (2 * a))
            (subtreeHash hs data h (2 * a + 1)))
          (rowEntries hs data (h + 1) b a) = rowEntries hs data (h + 1) b (a + 1) := by
      rw [pos_left]
      exact insert_rowEntries hba
    rw [hsibling, hinsert] at hstep
    -- and the right one is then passed over
    have hskip := @Level.lift_processed _ hs (peakSet data.length) (honestMap hs data s e h) h
        (pos h (2 * a + 1)) ⟨pos h (2 * a) :: ([pos h (2 * a + 1)] ++ processed),
        rowEntries hs data (h + 1) b (a + 1), siblings⟩ (by simp)
    have hproc' : ∀ p ∈ pos h (2 * a) :: ([pos h (2 * a + 1)] ++ processed),
        p ∈ row h (rangeLo s h) (2 * (a + 1)) := by
      intro p hp
      simp only [List.mem_cons, List.mem_append, List.not_mem_nil, or_false] at hp
      rcases hp with rfl | rfl | hp
      · exact pos_mem_row.mpr ⟨rfl, by omega, by omega⟩
      · exact pos_mem_row.mpr ⟨rfl, by omega, by omega⟩
      · obtain ⟨j, rfl, hj⟩ := mem_row.mp (hproc p hp)
        exact pos_mem_row.mpr ⟨rfl, by omega, by omega⟩
    obtain ⟨processed', hrun, hproc''⟩ := ih (by omega) (by omega) (by omega) hproc'
    refine ⟨processed', ?_, ?_⟩
    · rw [row_pair (by omega), liftAll_cons_of_ok hstep, liftAll_cons_of_ok hskip,
        show a + (t + 1) = a + 1 + t by omega, hrun]
    · rw [show a + (t + 1) = a + 1 + t by omega]
      exact hproc''

/-- The end of the row: a peak is carried, any other left child takes the
    sibling on its right from the path. -/
theorem liftAll_last (hlt : rangeLo s h < rangeUp data.length e h) {processed : List Nat}
    (hproc : ∀ p ∈ processed, p ∈ row h (rangeLo s h) (2 * (rangeUp data.length e h / 2)))
    (rest : List (ProofElement H)) :
    ∃ processed', liftAll hs (peakSet data.length) (honestMap hs data s e h) h
          (row h (2 * (rangeUp data.length e h / 2)) (rangeUp data.length e h))
          ⟨processed,
            rowEntries hs data (h + 1) (rangeLo s h / 2) (rangeUp data.length e h / 2),
            (if rangeLo s h < rangeUp data.length e h ∧ rangeUp data.length e h % 2 = 1
                ∧ rangeUp data.length e h ≠ data.length / 2 ^ h
              then [⟨subtreeHash hs data h (rangeUp data.length e h), false⟩] else []) ++ rest⟩
        = .ok ⟨processed',
            rowEntries hs data (h + 1) (rangeLo s h / 2) (rangeUp data.length e (h + 1))
              ++ (if rangeLo s h < rangeUp data.length e h ∧ rangeUp data.length e h % 2 = 1
                    ∧ rangeUp data.length e h = data.length / 2 ^ h
                  then [blockEntry hs data (h, rangeUp data.length e h - 1)] else []),
            rest⟩
      ∧ ∀ p ∈ processed', p ∈ row h (rangeLo s h) (rangeUp data.length e h) := by
  have hrow := rangeUp_le (n := data.length) (e := e) (h := h)
  rw [rangeUp_succ]
  generalize hup : rangeUp data.length e h = up at *
  by_cases hodd : up % 2 = 1
  · have hblock : (up - 1 + 1) * 2 ^ h ≤ data.length :=
      block_le_of_lt_rangeUp (e := e) (by omega)
    have hget := @honestMap_get?_row _ hs data s e h (up - 1) (by omega) (by omega)
    have hnew : pos h (up - 1) ∉ processed := by
      intro hmem
      have := pos_mem_row.mp (hproc _ hmem)
      omega
    have hproc' : ∀ p ∈ pos h (up - 1) :: ([] ++ processed), p ∈ row h (rangeLo s h) up := by
      intro p hp
      rcases List.mem_cons.mp hp with rfl | hp
      · exact pos_mem_row.mpr ⟨rfl, by omega, by omega⟩
      · obtain ⟨j, rfl, hj⟩ := mem_row.mp (hproc p hp)
        exact pos_mem_row.mpr ⟨rfl, by omega, by omega⟩
    have hmax := pos_add_offset_lt hsize hh hblock
    rw [row_odd hodd]
    by_cases hend : up = data.length / 2 ^ h
    · have hpeak : (h, up - 1) ∈ MountainRange.peaks data.length := by
        subst hup
        exact last_mem_peaks hodd hend
      have hstep := @Level.lift_of_step _ hs _ _ _ _ ⟨processed,
          rowEntries hs data (h + 1) (rangeLo s h / 2) (up / 2), rest⟩ _ _ _ _ _ hnew hget hmax
            (.peak (pos_mem_peakSet.mpr hpeak))
      rw [if_neg (fun h => h.2.2 hend), List.nil_append, liftAll_cons_of_ok hstep, if_pos hend,
        if_pos ⟨hlt, hodd, hend⟩, insert_eq_append]
      · exact ⟨_, rfl, hproc'⟩
      · intro k hk
        rw [keys_rowEntries] at hk
        obtain ⟨j, rfl, -, hj⟩ := mem_row.mp hk
        refine block_lt_peak ?_ hpeak (Nat.lt_succ_self h)
        refine (Nat.le_div_iff_mul_le (Nat.two_pow_pos _)).mp ?_
        rw [div_pow_succ]
        omega
    · have hpeak : pos h (up - 1) ∉ peakSet data.length := by
        rw [pos_mem_peakSet, mem_peaks]
        omega
      have hparent : pos h (up - 1) + 2 ^ (h + 1) = pos (h + 1) (up / 2) := by
        rw [← pos_left, show 2 * (up / 2) = up - 1 by omega]
      have hsibling : pos h (up - 1) + 2 ^ (h + 1) - 1 = pos h up := by
        rw [hparent, ← pos_right, Nat.add_sub_cancel, show 2 * (up / 2) + 1 = up by omega]
      have hright : (honestMap hs data s e h).get? (pos h (up - 1) + 2 ^ (h + 1) - 1) = none := by
        rw [hsibling]
        exact honestMap_get?_outside (by omega)
      -- one tree behind a left child lies between two blocks of its height
      have hleft : 2 ^ (h + 1) ≤ pos h (up - 1) + 1 →
          (honestMap hs data s e h).get? (pos h (up - 1) + 1 - 2 ^ (h + 1)) = none := by
        intro hoffset
        refine honestMap_get?_none ?_ ?_
        · intro j hlo hj heq
          exact pos_ne_of_even (j := up - 1) (by omega) (by omega) heq
        · intro p hp heq
          have := row_lt_carried (j := up - 1) (by omega) hp
          have := two_le_offset h
          omega
      have hstep := @Level.lift_of_step _ hs _ _ _ _ ⟨processed,
          rowEntries hs data (h + 1) (rangeLo s h / 2) (up / 2),
          ⟨subtreeHash hs data h up, false⟩ :: rest⟩ _ _ _ _ _ hnew hget hmax
            (.pathRight hpeak hright hleft rfl)
      have hparentHash : subtreeHash hs data (h + 1) (up / 2)
          = hs.hashInternal (h + 1) (subtreeHash hs data h (up - 1))
            (subtreeHash hs data h up) := by
        rw [subtreeHash, show 2 * (up / 2) + 1 = up by omega, show 2 * (up / 2) = up - 1 by omega]
      rw [if_pos ⟨hlt, hodd, hend⟩, List.singleton_append, liftAll_cons_of_ok hstep, if_neg hend,
        if_neg (fun h => hend h.2.2), hparent, ← hparentHash, insert_rowEntries (by omega),
        show up / 2 + 1 = (up + 1) / 2 by omega, List.append_nil]
      exact ⟨_, rfl, hproc'⟩
  · have hnil : row h (2 * (up / 2)) up = [] :=
      row_eq_nil_iff.mpr (by omega)
    have hhalf : (if up = data.length / 2 ^ h then up / 2 else (up + 1) / 2) = up / 2 := by
      split <;> omega
    rw [hnil, hhalf, if_neg (fun h => hodd h.2.1), if_neg (fun h => hodd h.2.1), List.append_nil]
    refine ⟨processed, rfl, ?_⟩
    rw [show 2 * (up / 2) = up by omega] at hproc
    exact hproc

theorem liftAll_carried (ps : List (Nat × Nat)) :
    ∀ {processed : List Nat} {next : OrdMap H} {siblings : List (ProofElement H)},
      (∀ p ∈ ps, p ∈ carriedPeaks data.length s e h) →
      (ps.map fun p => pos p.1 p.2).Pairwise (· < ·) →
      (∀ p ∈ ps, ∀ x ∈ processed, x < pos p.1 p.2) →
      (∀ p ∈ ps, ∀ k ∈ next.keys, k < pos p.1 p.2) →
      ∃ processed', liftAll hs (peakSet data.length) (honestMap hs data s e h) h
          (ps.map fun p => pos p.1 p.2) ⟨processed, next, siblings⟩
        = .ok ⟨processed', next ++ ps.map (blockEntry hs data), siblings⟩ := by
  induction ps with
  | nil =>
    intro processed next siblings _ _ _ _
    exact ⟨processed, by rw [List.map_nil, List.map_nil, List.append_nil]; rfl⟩
  | cons p ps ih =>
    intro processed next siblings hmem hsorted hproc hnext
    obtain ⟨hpeak, hlt, -⟩ := mem_carriedPeaks.mp (hmem p List.mem_cons_self)
    obtain ⟨hfirst, hrest⟩ := List.pairwise_cons.mp hsorted
    have hbelow : ∀ q ∈ ps, pos p.1 p.2 < pos q.1 q.2 := fun q hq =>
      hfirst _ (List.mem_map.mpr ⟨q, hq, rfl⟩)
    have hnew : pos p.1 p.2 ∉ processed := fun hin =>
      Nat.lt_irrefl _ (hproc p List.mem_cons_self _ hin)
    have hmax : pos p.1 p.2 + 2 ^ (h + 1) < 2 ^ 64 := by
      have hpos := pos_lt_size_iff.mpr (peak_le hpeak)
      have hpow : 2 ^ (h + 1) ≤ 2 ^ 63 := Nat.pow_le_pow_right (by decide) (by omega)
      omega
    have hstep := @Level.lift_of_step _ hs _ _ _ _ ⟨processed, next, siblings⟩ _ _ _ _ _ hnew
        (@honestMap_get?_carried _ hs _ _ _ _ _ (hmem p List.mem_cons_self)) hmax
        (.peak (pos_mem_peakSet.mpr hpeak))
    -- the peaks come in order, so each is entered at the end
    have hinsert : insert (pos p.1 p.2) (subtreeHash hs data p.1 p.2) next
        = next ++ [blockEntry hs data p] :=
      insert_eq_append _ (hnext p List.mem_cons_self)
    rw [hinsert] at hstep
    obtain ⟨processed', hrun⟩ := @ih (pos p.1 p.2 :: ([] ++ processed))
      (next ++ [blockEntry hs data p]) _
      (fun q hq => hmem q (List.mem_cons_of_mem _ hq)) hrest
      (by
        intro q hq x hx
        rcases List.mem_cons.mp hx with rfl | hx
        · exact hbelow q hq
        · exact hproc q (List.mem_cons_of_mem _ hq) x hx)
      (by
        intro q hq k hk
        rw [keys_append, List.mem_append] at hk
        rcases hk with hk | hk
        · exact hnext q (List.mem_cons_of_mem _ hq) k hk
        · obtain rfl : k = pos p.1 p.2 := List.mem_singleton.mp hk
          exact hbelow q hq)
    refine ⟨processed', ?_⟩
    rw [List.map_cons, List.map_cons, liftAll_cons_of_ok hstep, hrun, List.append_assoc]
    rfl

theorem liftAll_honest (hfree : ¬ Collides data.length s e h)
    (hlt : rangeLo s h < rangeUp data.length e h) (rest : List (ProofElement H)) :
    ∃ processed, liftAll hs (peakSet data.length) (honestMap hs data s e h) h
        (honestMap hs data s e h).keys ⟨[], [], levelSiblings hs data s e h ++ rest⟩
      = .ok ⟨processed, honestMap hs data s e (h + 1), rest⟩ := by
  have hsplit : row h (rangeLo s h) (rangeUp data.length e h)
      = row h (rangeLo s h) (2 * ((rangeLo s h + 1) / 2))
        ++ row h (2 * ((rangeLo s h + 1) / 2)) (2 * (rangeUp data.length e h / 2))
        ++ row h (2 * (rangeUp data.length e h / 2)) (rangeUp data.length e h) := by
    rw [row_append (by omega) (by omega), row_append (by omega) (by omega)]
  rw [honestMap_keys, hsplit, liftAll_append, liftAll_append, liftAll_append, levelSiblings,
    List.append_assoc]
  -- the four parts of the level, left to right
  obtain ⟨first, hfirst, hproc₁⟩ := liftAll_first hsize hh hfree hlt
    ((if rangeLo s h < rangeUp data.length e h ∧ rangeUp data.length e h % 2 = 1
        ∧ rangeUp data.length e h ≠ data.length / 2 ^ h
      then [⟨subtreeHash hs data h (rangeUp data.length e h), false⟩] else []) ++ rest)
  rw [hfirst, res_ok_bind]
  obtain ⟨mid, hmid, hproc₂⟩ := liftAll_pairs (e := e) (b := rangeLo s h / 2) hsize hh
    (rangeUp data.length e h / 2 - (rangeLo s h + 1) / 2) (a := (rangeLo s h + 1) / 2)
    (by omega) (by omega) (by omega) hproc₁
  rw [Nat.add_sub_cancel' (by omega)] at hmid hproc₂
  rw [hmid, res_ok_bind]
  obtain ⟨last, hlast, hproc₃⟩ := liftAll_last hsize hh hlt hproc₂ rest
  rw [hlast, res_ok_bind]
  obtain ⟨carried, hcarried⟩ := @liftAll_carried _ _ _ s e _ hsize hh
      (carriedPeaks data.length s e h) _ (rowEntries hs data (h + 1) (rangeLo s h / 2)
      (rangeUp data.length e (h + 1))
      ++ (if rangeLo s h < rangeUp data.length e h ∧ rangeUp data.length e h % 2 = 1
            ∧ rangeUp data.length e h = data.length / 2 ^ h
          then [blockEntry hs data (h, rangeUp data.length e h - 1)] else [])) _ (fun p hp => hp)
            (carriedPeaks_sorted _ _ _ _) (by
      intro p hp x hx
      obtain ⟨j, rfl, -, hj⟩ := mem_row.mp (hproc₃ x hx)
      exact row_lt_carried hj hp) (by
      intro p hp k hk
      rw [keys_append, keys_rowEntries, List.mem_append] at hk
      rcases hk with hk | hk
      · obtain ⟨j, rfl, -, hj⟩ := mem_row.mp hk
        obtain ⟨hpeak, hheight, -⟩ := mem_carriedPeaks.mp hp
        exact block_lt_peak (block_le_of_lt_rangeUp hj) hpeak (by omega)
      · split at hk
        · have hlast : rangeUp data.length e h - 1 < rangeUp data.length e h := by omega
          obtain rfl := List.mem_singleton.mp hk
          exact row_lt_carried hlast hp
        · cases hk)
  refine ⟨carried, ?_⟩
  rw [hcarried, honestMap, carriedPeaks_succ, rangeLo_succ, List.map_append, List.append_assoc]
  congr 4
  split <;> rfl

end Level

/-! ## All levels -/

section Climb

variable {hs : NodeHasher H} {data : List Bytes} {s e h : Nat}

/-- Something of the range is left at every height. -/
theorem exists_rest (hse : s ≤ e) (hen : e < data.length) (h : Nat) :
    rangeLo s h < rangeUp data.length e h ∨ carriedPeaks data.length s e h ≠ [] := by
  induction h with
  | zero =>
    left
    simp only [rangeLo, rangeUp, Nat.pow_zero, Nat.div_one]
    omega
  | succ h ih =>
    rw [carriedPeaks_succ, rangeLo_succ, rangeUp_succ]
    rcases ih with hlt | hne
    · by_cases hlast : rangeUp data.length e h % 2 = 1
        ∧ rangeUp data.length e h = data.length / 2 ^ h
      · right
        rw [if_pos (show _ ∧ _ from ⟨hlt, hlast⟩)]
        exact List.cons_ne_nil _ _
      · left
        split <;> omega
    · exact .inr fun hnil => hne (List.append_eq_nil_iff.mp hnil).2

theorem honestMap_ne_nil (hse : s ≤ e) (hen : e < data.length) (h : Nat) :
    honestMap hs data s e h ≠ [] := by
  intro hnil
  rw [honestMap, List.append_eq_nil_iff, List.map_eq_nil_iff] at hnil
  rcases exists_rest hse hen h with hlt | hne
  · have hkeys := congrArg keys hnil.1
    rw [keys_rowEntries, keys_nil, row_eq_nil_iff] at hkeys
    omega
  · exact hne hnil.2

/-- Without blocks in the row the verifier is finished. -/
theorem finished_of_le (hse : s ≤ e) (hle : rangeUp data.length e h ≤ rangeLo s h) :
    Finished (peakSet data.length) (honestMap hs data s e h) (siblingsFrom hs data s e h) := by
  refine ⟨?_, siblingsFrom_eq_nil hs data hse hle⟩
  intro x hx
  rcases mem_honestMap_keys.mp hx with ⟨j, -, hlo, hup⟩ | ⟨p, hp, rfl⟩
  · omega
  · exact pos_mem_peakSet.mpr (mem_carriedPeaks.mp hp).1

/-- When the verifier is finished it holds peaks and their hashes. -/
theorem entries_of_finished {siblings : List (ProofElement H)}
    (hfin : Finished (peakSet data.length) (honestMap hs data s e h) siblings) :
    ∀ x ∈ honestMap hs data s e h,
      ∃ p ∈ MountainRange.peaks data.length, x = blockEntry hs data p := by
  intro x hx
  have hpeak : ∀ p : Nat × Nat, x = blockEntry hs data p → p ∈ MountainRange.peaks data.length := by
    rintro p rfl
    exact pos_mem_peakSet.mp (hfin.1 _ (mem_keys_of_mem hx))
  rw [honestMap, List.mem_append] at hx
  rcases hx with hx | hx
  · obtain ⟨j, -, rfl⟩ := List.mem_map.mp hx
    exact ⟨_, hpeak _ rfl, rfl⟩
  · obtain ⟨p, -, rfl⟩ := List.mem_map.mp hx
    exact ⟨p, hpeak p rfl, rfl⟩

/-- A single block that needs no sibling is a peak. -/
theorem finished_of_single (hse : s ≤ e) (hh : h < 64)
    (hone : (honestMap hs data s e h).length ≤ 1) (hpath : siblingsFrom hs data s e h = []) :
    Finished (peakSet data.length) (honestMap hs data s e h) (siblingsFrom hs data s e h) := by
  by_cases hlt : rangeLo s h < rangeUp data.length e h
  · rw [siblingsFrom_succ hs data s e hh, List.append_eq_nil_iff, levelSiblings,
      List.append_eq_nil_iff] at hpath
    obtain ⟨⟨hleft, hright⟩, hupper⟩ := hpath
    have heven : rangeLo s h % 2 ≠ 1 := by
      intro hodd
      rw [if_pos ⟨hlt, hodd⟩] at hleft
      cases hleft
    rw [honestMap, List.length_append, rowEntries, List.length_map, List.length_range',
      List.length_map] at hone
    have hend : rangeUp data.length e h = data.length / 2 ^ h := by
      by_contra hne
      rw [if_pos ⟨hlt, by omega, hne⟩] at hright
      cases hright
    have hlast := last_mem_peaks (n := data.length) (e := e) (h := h) (by omega) hend
    refine ⟨?_, ?_⟩
    swap
    · rw [siblingsFrom_succ hs data s e hh, levelSiblings, hleft, hright, hupper]
      rfl
    intro x hx
    rcases mem_honestMap_keys.mp hx with ⟨j, rfl, hlo, hup⟩ | ⟨p, hp, rfl⟩
    · rw [show j = rangeUp data.length e h - 1 by omega]
      exact pos_mem_peakSet.mpr hlast
    · exact pos_mem_peakSet.mpr (mem_carriedPeaks.mp hp).1
  · exact finished_of_le hse (by omega)

variable (hsize : size data.length < 2 ^ 63) (hse : s ≤ e) (hen : e < data.length)

include hsize hse hen

/-- The loop on an honest proof without collision at this height. -/
theorem climb_honest_succ (hfree : ¬ Collides data.length s e h)
    (hopen : ¬ Finished (peakSet data.length) (honestMap hs data s e h)
      (siblingsFrom hs data s e h))
    {rounds : Nat} (hrounds : h + (rounds + 1) = 63) :
    climb hs (peakSet data.length) (rounds + 1) h (honestMap hs data s e h)
        (siblingsFrom hs data s e h)
      = climb hs (peakSet data.length) rounds (h + 1) (honestMap hs data s e (h + 1))
        (siblingsFrom hs data s e (h + 1)) := by
  have hlt : rangeLo s h < rangeUp data.length e h := by
    by_contra hle
    exact hopen (finished_of_le hse (Nat.le_of_not_lt hle))
  have hmany : ¬ ((honestMap hs data s e h).length ≤ 1 ∧ siblingsFrom hs data s e h = []) :=
    fun hsingle => hopen (finished_of_single hse (by omega) hsingle.1 hsingle.2)
  obtain ⟨processed, hlevel⟩ := liftAll_honest hsize (by omega) hfree hlt
    (siblingsFrom hs data s e (h + 1))
  rw [← siblingsFrom_succ hs data s e (by omega)] at hlevel
  exact climb_succ hmany hopen hlevel (honestMap_ne_nil hse hen (h + 1))

/-- Without collisions the loop ends with peaks and their hashes. -/
theorem climb_honest :
    ∀ rounds {h : Nat}, h + rounds = 63 → (∀ k, h ≤ k → ¬ Collides data.length s e k) →
      ∃ final, climb hs (peakSet data.length) rounds h (honestMap hs data s e h)
          (siblingsFrom hs data s e h) = .ok (final, [])
        ∧ final ≠ []
          ∧ ∀ x ∈ final, ∃ p ∈ MountainRange.peaks data.length, x = blockEntry hs data p := by
  intro rounds
  induction rounds with
  | zero =>
    intro h hrounds _
    obtain rfl : h = 63 := by omega
    have hup := rangeUp_le (n := data.length) (e := e) (h := 63)
    have hdata := le_size data.length
    rw [Nat.div_eq_of_lt (show data.length < 2 ^ 63 by omega)] at hup
    have hfin := @finished_of_le _ hs data _ _ _ hse (show _ ≤ rangeLo s 63 by omega)
    refine ⟨_, by rw [climb_of_finished hfin, hfin.2], honestMap_ne_nil hse hen 63, ?_⟩
    exact entries_of_finished hfin
  | succ rounds ih =>
    intro h hrounds hfree
    by_cases hfin : Finished (peakSet data.length) (honestMap hs data s e h)
        (siblingsFrom hs data s e h)
    · refine ⟨_, by rw [climb_of_finished hfin, hfin.2], honestMap_ne_nil hse hen h, ?_⟩
      exact entries_of_finished hfin
    · rw [climb_honest_succ hsize hse hen (hfree h (Nat.le_refl h)) hfin hrounds]
      exact ih (by omega) fun k hk => hfree k (by omega)

end Climb

end RangeProof

end WritersProof.Mmr
