/-
  What `generate_range_merkle_path` computes for the leaves `[s, e]`.

  At height `h` the blocks that meet the range are the row from `rangeLo s h`
  to `rangeUp n e h`.  The level pushes the sibling to the left of the row if
  the row starts with a right child, and the sibling to the right if it ends
  with a left child that is not a peak (`levelSiblings`).
-/
import WritersProof.Mmr.Family
import WritersProof.Mmr.Bagging

namespace WritersProof.Mmr

open Rust MountainRange Call

variable {H : Type}

/-- The first block of height `h` that meets the range. -/
def rangeLo (s h : Nat) : Nat := s / 2 ^ h

/-- The end of the complete blocks of height `h` that meet the range. -/
def rangeUp (n e h : Nat) : Nat := min (e / 2 ^ h + 1) (n / 2 ^ h)

/-- The siblings that one level of the range needs, left one first. -/
def levelSiblings (hs : NodeHasher H) (data : List Bytes) (s e h : Nat) : List (ProofElement H) :=
  let lo := rangeLo s h
  let up := rangeUp data.length e h
  (if lo < up ∧ lo % 2 = 1 then [⟨subtreeHash hs data h (lo - 1), true⟩] else [])
    ++ (if lo < up ∧ up % 2 = 1 ∧ up ≠ data.length / 2 ^ h then [⟨subtreeHash hs data h up, false⟩]
      else [])

def siblingsFrom (hs : NodeHasher H) (data : List Bytes) (s e h : Nat) : List (ProofElement H) :=
  (List.range' h (64 - h)).flatMap (levelSiblings hs data s e)

theorem siblingsFrom_succ (hs : NodeHasher H) (data : List Bytes) (s e : Nat) {h : Nat}
    (hh : h < 64) :
    siblingsFrom hs data s e h
      = levelSiblings hs data s e h ++ siblingsFrom hs data s e (h + 1) := by
  rw [siblingsFrom, show 64 - h = (64 - (h + 1)) + 1 by omega, List.range'_succ, List.flatMap_cons,
    siblingsFrom]

/-! ## The row of the range -/

section Row

variable {n s e h : Nat}

theorem rangeLo_succ (s h : Nat) : rangeLo s (h + 1) = rangeLo s h / 2 := by
  rw [rangeLo, rangeLo, Nat.pow_succ, Nat.div_div_eq_div_mul]

theorem div_pow_succ (n h : Nat) : n / 2 ^ (h + 1) = n / 2 ^ h / 2 := by
  rw [Nat.pow_succ, Nat.div_div_eq_div_mul]

theorem rangeUp_le : rangeUp n e h ≤ n / 2 ^ h := Nat.min_le_right _ _

/-- The row shrinks by half; a last block without its sibling in the row stays
    if the sibling exists, and drops out if the block is a peak. -/
theorem rangeUp_succ (n e h : Nat) :
    rangeUp n e (h + 1)
      = if rangeUp n e h = n / 2 ^ h then rangeUp n e h / 2 else (rangeUp n e h + 1) / 2 := by
  rw [rangeUp, rangeUp, div_pow_succ, div_pow_succ]
  generalize e / 2 ^ h = a
  generalize n / 2 ^ h = b
  split <;> omega

theorem block_le_of_lt_rangeUp {j : Nat} (hj : j < rangeUp n e h) : (j + 1) * 2 ^ h ≤ n := by
  have := rangeUp_le (n := n) (e := e) (h := h)
  exact (Nat.le_div_iff_mul_le (Nat.two_pow_pos h)).mp (by omega)

/-- A row that does not start before it ends has reached the end of the range. -/
theorem rangeUp_eq_of_le (hse : s ≤ e) (hle : rangeUp n e h ≤ rangeLo s h) :
    rangeUp n e h = n / 2 ^ h := by
  have hmono : s / 2 ^ h ≤ e / 2 ^ h := Nat.div_le_div_right hse
  unfold rangeUp rangeLo at *
  omega

theorem last_mem_peaks (hodd : rangeUp n e h % 2 = 1)
    (hend : rangeUp n e h = n / 2 ^ h) : (h, rangeUp n e h - 1) ∈ peaks n := by
  rw [mem_peaks]
  omega

end Row

/-- Once the row is empty it stays empty. -/
theorem rangeUp_le_of_le {n s e h : Nat} (hse : s ≤ e) (hle : rangeUp n e h ≤ rangeLo s h) :
    ∀ k, rangeUp n e (h + k) ≤ rangeLo s (h + k) := by
  intro k
  induction k with
  | zero => exact hle
  | succ k ih =>
    have hend := rangeUp_eq_of_le hse ih
    rw [← Nat.add_assoc, rangeUp_succ, rangeLo_succ, if_pos hend]
    omega

theorem siblingsFrom_eq_nil (hs : NodeHasher H) (data : List Bytes) {s e h : Nat} (hse : s ≤ e)
    (hle : rangeUp data.length e h ≤ rangeLo s h) : siblingsFrom hs data s e h = [] := by
  rw [siblingsFrom, List.flatMap_eq_nil_iff]
  intro k hk
  obtain ⟨d, rfl⟩ := Nat.exists_eq_add_of_le (List.mem_range'_1.mp hk).1
  have := rangeUp_le_of_le hse hle d
  rw [levelSiblings, if_neg (by omega), if_neg (by omega), List.append_nil]

/-! ## One level of the generator -/

namespace Represents

open Mmr

variable {hs : NodeHasher H} {data : List Bytes} {m : Mmr (MemoryStore H) H}

/-- The sets of the level are the ones it started with and the new parents. -/
structure LevelSets (covered : List Nat) (level : RangeLevel H) : Prop where
  covered_iff : ∀ p, p ∈ level.covered ↔ p ∈ level.nextLevel ∨ p ∈ covered
  processed_iff : ∀ p, p ∈ level.processedParents ↔ p ∈ level.nextLevel

variable {level : RangeLevel H}

variable (hm : Represents hs data m)

include hm

variable {covered : List Nat} {h j sib : Nat} {isRight : Bool}

/-- A block whose parent is new: the parent goes to the next level, and the
    sibling to the path unless it is covered. -/
theorem rangeStep_push (hsets : LevelSets covered level) (hle : (j + 1) * 2 ^ h ≤ data.length)
    (hfamily : blockFamily data.length h j = some ⟨pos h sib, pos (h + 1) (j / 2), isRight⟩)
    (hsib : (sib + 1) * 2 ^ h ≤ data.length) (hnew : pos (h + 1) (j / 2) ∉ level.nextLevel) :
    ∃ level', rangeStep h (size data.length) (pos h j) level m = (.ok level', m)
      ∧ LevelSets covered level' ∧ level'.nextLevel = level.nextLevel ++ [pos (h + 1) (j / 2)]
      ∧ level'.peakIndex = level.peakIndex
      ∧ level'.path = level.path
        ++ if pos h sib ∈ level.covered then [] else [⟨subtreeHash hs data h sib, isRight⟩] := by
  have hfind := hm.findFamily_eq hle
  rw [hfamily] at hfind
  have hnot : pos (h + 1) (j / 2) ∉ level.processedParents := fun hmem =>
    hnew ((hsets.processed_iff _).mp hmem)
  have hpush : pushSibling ⟨pos h sib, pos (h + 1) (j / 2), isRight⟩ level m
      = (.ok (level.path ++ if pos h sib ∈ level.covered then []
          else [⟨subtreeHash hs data h sib, isRight⟩]), m) := by
    rw [pushSibling]
    dsimp only
    by_cases hcov : pos h sib ∈ level.covered
    · rw [if_pos hcov, if_pos hcov, List.append_nil]
      rfl
    · rw [if_neg hcov, if_neg hcov, bind_of_ok (onStore_get (hm.node_at hsib))]
      rfl
  rw [rangeStep, bind_of_ok hfind]
  dsimp only
  rw [if_neg hnot, bind_of_ok hpush]
  refine ⟨_, rfl, ⟨?_, ?_⟩, rfl, rfl, rfl⟩
  · intro p
    simp only [List.mem_cons, List.mem_append, List.not_mem_nil, or_false, hsets.covered_iff p]
    tauto
  · intro p
    simp only [List.mem_cons, List.mem_append, List.not_mem_nil, or_false, hsets.processed_iff p]
    tauto

/-- A block whose parent is there already is skipped. -/
theorem rangeStep_skip (hsets : LevelSets covered level) (hle : (j + 1) * 2 ^ h ≤ data.length)
    (hfamily : blockFamily data.length h j = some ⟨sib, pos (h + 1) (j / 2), isRight⟩)
    (hold : pos (h + 1) (j / 2) ∈ level.nextLevel) :
    rangeStep h (size data.length) (pos h j) level m = (.ok level, m) := by
  have hfind := hm.findFamily_eq hle
  rw [hfamily] at hfind
  rw [rangeStep, bind_of_ok hfind]
  dsimp only
  rw [if_pos ((hsets.processed_iff _).mpr hold)]
  rfl

theorem rangeStep_peak (hpeak : (h, j) ∈ peaks data.length) :
    rangeStep h (size data.length) (pos h j) level m
      = (.ok { level with peakIndex := pos h j }, m) := by
  rw [rangeStep, bind_of_ok (hm.findFamily_peak hpeak)]
  rfl

omit hm hs data in
theorem rangeLevel_append {height size : Nat} (xs ys : List Nat) :
    ∀ {level level' : RangeLevel H} {m m' : Mmr (MemoryStore H) H},
      rangeLevel height size xs level m = (.ok level', m') →
      rangeLevel height size (xs ++ ys) level m = rangeLevel height size ys level' m' := by
  induction xs with
  | nil =>
    intro level level' m m' h
    cases h
    rfl
  | cons x xs ih =>
    intro level level' m m' h
    obtain ⟨mid, m'', hstep, hrest⟩ := bind_eq_ok.mp h
    rw [List.cons_append, rangeLevel, bind_of_ok hstep]
    exact ih hrest

section Level

variable {s e : Nat} (hcov : ∀ j, pos h j ∈ covered ↔ rangeLo s h ≤ j ∧ j < rangeUp data.length e h)

include hcov

variable {b peak : Nat} {path : List (ProofElement H)}

/-- Two siblings in the row: their parent goes up, and nothing to the path. -/
theorem rangeLevel_pair {a : Nat} (hsets : LevelSets covered level) (hlo : rangeLo s h ≤ 2 * a)
    (hup : 2 * a + 2 ≤ rangeUp data.length e h) (hnext : level.nextLevel = row (h + 1) b a) :
    ∃ level', rangeLevel h (size data.length) [pos h (2 * a), pos h (2 * a + 1)] level m
        = (.ok level', m)
      ∧ LevelSets covered level' ∧ level'.nextLevel = row (h + 1) b a ++ [pos (h + 1) a]
      ∧ level'.path = level.path ∧ level'.peakIndex = level.peakIndex := by
  have hright : (2 * a + 1 + 1) * 2 ^ h ≤ data.length := block_le_of_lt_rangeUp (e := e) (by omega)
  have hleft : (2 * a + 1) * 2 ^ h ≤ data.length := block_le_of_lt_rangeUp (e := e) (by omega)
  have hfamLeft : blockFamily data.length h (2 * a)
      = some ⟨pos h (2 * a + 1), pos (h + 1) (2 * a / 2), false⟩ := by
    rw [blockFamily, if_neg (by omega), if_pos hright]
  have hfamRight : blockFamily data.length h (2 * a + 1)
      = some ⟨pos h (2 * a), pos (h + 1) ((2 * a + 1) / 2), true⟩ := by
    rw [blockFamily, if_pos (by omega), Nat.add_sub_cancel]
  have hnew : pos (h + 1) (2 * a / 2) ∉ level.nextLevel := by
    rw [hnext, pos_mem_row]
    omega
  obtain ⟨mid, hmid, hsets', hnext', hpeak', hpath'⟩ :=
    hm.rangeStep_push hsets hleft hfamLeft hright hnew
  -- the right sibling is in the row
  have hcovered : pos h (2 * a + 1) ∈ level.covered :=
    (hsets.covered_iff _).mpr (.inr ((hcov _).mpr (by omega)))
  rw [if_pos hcovered, List.append_nil] at hpath'
  rw [show 2 * a / 2 = a by omega, hnext] at hnext'
  have hskip := hm.rangeStep_skip hsets' hright hfamRight (by
    rw [hnext', show (2 * a + 1) / 2 = a by omega]
    simp)
  refine ⟨mid, ?_, hsets', hnext', hpath', hpeak'⟩
  rw [rangeLevel, bind_of_ok hmid, rangeLevel, bind_of_ok hskip]
  rfl

theorem rangeLevel_pairs (t : Nat) :
    ∀ {a : Nat} {level : RangeLevel H}, LevelSets covered level →
      rangeLo s h ≤ 2 * a → 2 * (a + t) ≤ rangeUp data.length e h → b ≤ a →
      level.nextLevel = row (h + 1) b a →
      ∃ level', rangeLevel h (size data.length) (row h (2 * a) (2 * (a + t))) level m
          = (.ok level', m)
        ∧ LevelSets covered level' ∧ level'.nextLevel = row (h + 1) b (a + t)
        ∧ level'.path = level.path ∧ level'.peakIndex = level.peakIndex := by
  induction t with
  | zero =>
    intro a level hsets _ _ _ hnext
    rw [Nat.add_zero, row_self]
    exact ⟨level, rfl, hsets, hnext, rfl, rfl⟩
  | succ t ih =>
    intro a level hsets hlo hup hba hnext
    obtain ⟨mid, hmid, hsets', hnext', hpath', hpeak'⟩ :=
      hm.rangeLevel_pair hcov hsets hlo (by omega) hnext
    have hrow : row (h + 1) b a ++ [pos (h + 1) a] = row (h + 1) b (a + 1) := by
      rw [← row_one, row_append hba (Nat.le_succ a)]
    rw [hrow] at hnext'
    obtain ⟨level', hrun, hsets'', hnext'', hpath'', hpeak''⟩ :=
      ih hsets' (by omega) (by omega) (by omega) hnext'
    refine ⟨level', ?_, hsets'', ?_, hpath''.trans hpath', hpeak''.trans hpeak'⟩
    · rw [row_pair (by omega), show a + (t + 1) = a + 1 + t by omega]
      exact (rangeLevel_append [_, _] _ hmid).trans hrun
    · rw [hnext'', Nat.add_assoc, Nat.add_comm 1 t]

variable (hlt : rangeLo s h < rangeUp data.length e h)

include hlt

/-- The start of the row: a right child needs the sibling on its left. -/
theorem rangeLevel_first :
    ∃ level', rangeLevel h (size data.length) (row h (rangeLo s h) (2 * ((rangeLo s h + 1) / 2)))
          ⟨covered, path, [], [], peak⟩ m = (.ok level', m)
      ∧ LevelSets covered level'
      ∧ level'.nextLevel = row (h + 1) (rangeLo s h / 2) ((rangeLo s h + 1) / 2)
      ∧ level'.peakIndex = peak
      ∧ level'.path = path ++ if rangeLo s h < rangeUp data.length e h ∧ rangeLo s h % 2 = 1
          then [⟨subtreeHash hs data h (rangeLo s h - 1), true⟩] else [] := by
  have hsets : LevelSets covered (⟨covered, path, [], [], peak⟩ : RangeLevel H) :=
    ⟨fun p => by simp, fun p => Iff.rfl⟩
  generalize hloEq : rangeLo s h = lo at *
  by_cases hodd : lo % 2 = 1
  · have hblock : (lo + 1) * 2 ^ h ≤ data.length := block_le_of_lt_rangeUp (e := e) hlt
    have hprev : (lo - 1 + 1) * 2 ^ h ≤ data.length :=
      block_le_of_lt_rangeUp (e := e) (by omega)
    have hfamily : blockFamily data.length h lo
        = some ⟨pos h (lo - 1), pos (h + 1) (lo / 2), true⟩ := by
      rw [blockFamily, if_pos hodd]
    obtain ⟨level', hstep, hsets', hnext, hpeak, hpath⟩ :=
      hm.rangeStep_push hsets hblock hfamily hprev List.not_mem_nil
    have hnot : pos h (lo - 1) ∉ covered := fun hmem => by
      have := (hcov _).mp hmem
      omega
    refine ⟨level', ?_, hsets', ?_, hpeak, ?_⟩
    · rw [show 2 * ((lo + 1) / 2) = lo + 1 by omega, row_one, rangeLevel, bind_of_ok hstep]
      rfl
    · rw [hnext, show (lo + 1) / 2 = lo / 2 + 1 by omega, row_one]
      rfl
    · rw [hpath, if_neg hnot, if_pos ⟨hlt, hodd⟩]
  · refine ⟨_, ?_, hsets, ?_, rfl, ?_⟩
    · rw [show 2 * ((lo + 1) / 2) = lo by omega, row_self]
      rfl
    · rw [show (lo + 1) / 2 = lo / 2 by omega, row_self]
    · rw [if_neg (fun h => hodd h.2), List.append_nil]

/-- The end of the row: a left child is a peak, or needs the sibling on its right. -/
theorem rangeLevel_last (hsets : LevelSets covered level)
    (hnext : level.nextLevel = row (h + 1) (rangeLo s h / 2) (rangeUp data.length e h / 2)) :
    ∃ level', rangeLevel h (size data.length)
          (row h (2 * (rangeUp data.length e h / 2)) (rangeUp data.length e h)) level m
        = (.ok level', m)
      ∧ LevelSets covered level'
      ∧ level'.nextLevel = row (h + 1) (rangeLo s h / 2) (rangeUp data.length e (h + 1))
      ∧ level'.path = level.path
        ++ (if rangeLo s h < rangeUp data.length e h ∧ rangeUp data.length e h % 2 = 1
              ∧ rangeUp data.length e h ≠ data.length / 2 ^ h
            then [⟨subtreeHash hs data h (rangeUp data.length e h), false⟩] else [])
      ∧ ((∃ j, (h, j) ∈ peaks data.length ∧ level'.peakIndex = pos h j) ∨
          level'.peakIndex = level.peakIndex
            ∧ rangeLo s h / 2 < rangeUp data.length e (h + 1)) := by
  have hup := rangeUp_le (n := data.length) (e := e) (h := h)
  have hpeakCase : rangeUp data.length e h % 2 = 1 → rangeUp data.length e h = data.length / 2 ^ h →
      (h, rangeUp data.length e h - 1) ∈ peaks data.length := last_mem_peaks
  rw [rangeUp_succ]
  generalize rangeLo s h = lo at *
  generalize hupEq : rangeUp data.length e h = up at *
  by_cases hodd : up % 2 = 1
  · rw [row_odd hodd, rangeLevel]
    by_cases hend : up = data.length / 2 ^ h
    · -- the last node has no sibling: it is a peak
      have hpeak := hpeakCase hodd hend
      rw [bind_of_ok (hm.rangeStep_peak hpeak), if_pos hend]
      refine ⟨_, rfl, ⟨hsets.covered_iff, hsets.processed_iff⟩, hnext, ?_,
        .inl ⟨up - 1, hpeak, rfl⟩⟩
      rw [if_neg (fun h => h.2.2 hend), List.append_nil]
    · -- its sibling is outside of the range and goes into the path
      have hblock : (up - 1 + 1) * 2 ^ h ≤ data.length :=
        block_le_of_lt_rangeUp (e := e) (by omega)
      have hsib : (up + 1) * 2 ^ h ≤ data.length :=
        (Nat.le_div_iff_mul_le (Nat.two_pow_pos h)).mp (by omega)
      have hfamily : blockFamily data.length h (up - 1)
          = some ⟨pos h up, pos (h + 1) ((up - 1) / 2), false⟩ := by
        rw [blockFamily, if_neg (by omega), show up - 1 + 2 = up + 1 by omega, if_pos hsib,
          Nat.sub_add_cancel (by omega)]
      have hnew : pos (h + 1) ((up - 1) / 2) ∉ level.nextLevel := by
        rw [hnext, pos_mem_row]
        omega
      obtain ⟨level', hstep, hsets', hnext', hpeak', hpath'⟩ :=
        hm.rangeStep_push hsets hblock hfamily hsib hnew
      have hnot : pos h up ∉ level.covered := by
        rw [hsets.covered_iff, hnext, pos_mem_row, hcov]
        omega
      rw [bind_of_ok hstep, if_neg hend]
      refine ⟨level', rfl, hsets', ?_, ?_, .inr ⟨hpeak', by omega⟩⟩
      · rw [hnext', hnext, ← row_one, show (up - 1) / 2 = up / 2 by omega,
          row_append (by omega) (by omega), show up / 2 + 1 = (up + 1) / 2 by omega]
      · rw [hpath', if_neg hnot, if_pos ⟨hlt, hodd, hend⟩]
  · have hnil : row h (2 * (up / 2)) up = [] := row_eq_nil_iff.mpr (by omega)
    have hhalf : (if up = data.length / 2 ^ h then up / 2 else (up + 1) / 2) = up / 2 := by
      split <;> omega
    rw [hnil, hhalf]
    refine ⟨level, rfl, hsets, hnext, ?_, .inr ⟨rfl, by omega⟩⟩
    rw [if_neg (fun h => hodd h.2.1), List.append_nil]

theorem rangeLevel_row :
    ∃ level', rangeLevel h (size data.length) (row h (rangeLo s h) (rangeUp data.length e h))
          ⟨covered, path, [], [], peak⟩ m = (.ok level', m)
      ∧ LevelSets covered level'
      ∧ level'.nextLevel = row (h + 1) (rangeLo s (h + 1)) (rangeUp data.length e (h + 1))
      ∧ level'.path = path ++ levelSiblings hs data s e h
      ∧ ((∃ j, (h, j) ∈ peaks data.length ∧ level'.peakIndex = pos h j) ∨
          level'.peakIndex = peak ∧ rangeLo s (h + 1) < rangeUp data.length e (h + 1)) := by
  obtain ⟨first, hfirst, hsets₁, hnext₁, hpeak₁, hpath₁⟩ :=
    hm.rangeLevel_first hcov hlt
  obtain ⟨mid, hmid, hsets₂, hnext₂, hpath₂, hpeak₂⟩ :=
    hm.rangeLevel_pairs (a := (rangeLo s h + 1) / 2)
      hcov (rangeUp data.length e h / 2 - (rangeLo s h + 1) / 2) hsets₁ (by omega) (by omega)
      (by omega) hnext₁
  rw [Nat.add_sub_cancel' (by omega)] at hmid hnext₂
  obtain ⟨last, hlast, hsets₃, hnext₃, hpath₃, hpeak₃⟩ := hm.rangeLevel_last hcov hlt hsets₂ hnext₂
  refine ⟨last, ?_, hsets₃, ?_, ?_, ?_⟩
  · rw [← row_append (b := 2 * (rangeUp data.length e h / 2)) (by omega) (by omega),
      ← row_append (b := 2 * ((rangeLo s h + 1) / 2)) (by omega) (by omega), List.append_assoc,
      rangeLevel_append _ _ hfirst, rangeLevel_append _ _ hmid, hlast]
  · rw [hnext₃, rangeLo_succ]
  · rw [hpath₃, hpath₂, hpath₁, levelSiblings, List.append_assoc]
  · rw [rangeLo_succ, ← hpeak₁, ← hpeak₂]
    exact hpeak₃

end Level

/-! ## All levels -/

/-- The loop pushes the siblings of the remaining levels and ends at a peak. -/
theorem rangePathLoop_eq {s e : Nat} (hse : s ≤ e) :
    ∀ rounds {h : Nat} {level : RangeLevel H}, h + rounds = 64 →
      (∀ k, h ≤ k → ∀ j, pos k j ∈ level.covered ↔
        k = h ∧ rangeLo s h ≤ j ∧ j < rangeUp data.length e h) →
      (rangeLo s h < rangeUp data.length e h ∨
        ∃ p ∈ peaks data.length, level.peakIndex = pos p.1 p.2) →
      ∃ p ∈ peaks data.length,
        rangePathLoop (size data.length) rounds h
            (row h (rangeLo s h) (rangeUp data.length e h)) level m
          = (.ok (level.path ++ siblingsFrom hs data s e h, pos p.1 p.2), m) := by
  intro rounds
  induction rounds with
  | zero =>
    intro h level hrounds _ hpeak
    obtain rfl : h = 64 := by omega
    have hup := rangeUp_le (n := data.length) (e := e) (h := 64)
    have hsize := hm.size_lt
    have hdata := le_size data.length
    rw [Nat.div_eq_of_lt (show data.length < 2 ^ 64 by omega)] at hup
    rcases hpeak with hlt | ⟨p, hp, hpeak⟩
    · omega
    · refine ⟨p, hp, ?_⟩
      rw [rangePathLoop, if_pos (row_eq_nil_iff.mpr (by omega)), hpeak,
        siblingsFrom_eq_nil hs data hse (by omega), List.append_nil]
      rfl
  | succ rounds ih =>
    intro h level hrounds hcov hpeak
    by_cases hlt : rangeLo s h < rangeUp data.length e h
    · obtain ⟨level', hrun, hsets, hnext, hpath, hpeak'⟩ :=
        hm.rangeLevel_row (fun j => (hcov h (Nat.le_refl h) j).trans (and_iff_right rfl)) hlt
      -- one level up: what is covered is the next row
      have hcov' : ∀ k, h + 1 ≤ k → ∀ j, pos k j ∈ level'.covered ↔
          k = h + 1 ∧ rangeLo s (h + 1) ≤ j ∧ j < rangeUp data.length e (h + 1) := by
        intro k hk j
        rw [hsets.covered_iff, hnext, pos_mem_row, hcov k (by omega)]
        omega
      have hinv : rangeLo s (h + 1) < rangeUp data.length e (h + 1) ∨
          ∃ p ∈ peaks data.length, level'.peakIndex = pos p.1 p.2 := by
        rcases hpeak' with ⟨j, hj, heq⟩ | ⟨-, hlt'⟩
        · exact .inr ⟨(h, j), hj, heq⟩
        · exact .inl hlt'
      obtain ⟨p, hp, hloop⟩ := ih (by omega) hcov' hinv
      refine ⟨p, hp, ?_⟩
      have hsorted : (row h (rangeLo s h) (rangeUp data.length e h)).insertionSort (· ≤ ·)
          = row h (rangeLo s h) (rangeUp data.length e h) :=
        ((row_sorted _ _ _).imp Nat.le_of_lt).insertionSort_eq
      rw [rangePathLoop, if_neg (by rw [row_eq_nil_iff]; omega), hsorted, bind_of_ok hrun,
        hnext, hloop, hpath, List.append_assoc, ← siblingsFrom_succ hs data s e (by omega)]
    · rcases hpeak with hlt' | ⟨p, hp, hpeak⟩
      · exact absurd hlt' hlt
      · refine ⟨p, hp, ?_⟩
        rw [rangePathLoop, if_pos (row_eq_nil_iff.mpr (by omega)), hpeak,
          siblingsFrom_eq_nil hs data hse (by omega), List.append_nil]
        rfl

theorem loadHashes_eq {xs : List Nat} (hxs : ∀ x ∈ xs, x < data.length) :
    loadHashes (xs.map (pos 0)) m = (.ok (xs.map (subtreeHash hs data 0)), m) := by
  induction xs with
  | nil => rfl
  | cons x xs ih =>
    have hblock : (x + 1) * 2 ^ 0 ≤ data.length := by
      have := hxs x List.mem_cons_self
      omega
    rw [List.map_cons, loadHashes, bind_of_ok (onStore_get (hm.node_at hblock)),
      bind_of_ok (ih fun y hy => hxs y (List.mem_cons_of_mem _ hy))]
    rfl

omit hm in
theorem mapM_leafIndexOf {xs : List Nat} (hxs : ∀ x ∈ xs, x * 2 < 2 ^ 64) :
    xs.mapM leafIndexOf = .ok (xs.map (pos 0)) := by
  induction xs with
  | nil => rfl
  | cons x xs ih =>
    have hones := countOnes_le x
    have hindex : leafIndexOf x = .ok (pos 0 x) := by
      rw [leafIndexOf, checkedMul_eq_some (hxs x List.mem_cons_self), okOr_some, res_ok_bind,
        checkedSub, if_pos (by omega), unwrap_some, pos_zero, MountainRange.size, Nat.mul_comm]
    rw [List.mapM_cons, hindex, res_ok_bind, ih fun y hy => hxs y (List.mem_cons_of_mem _ hy)]
    rfl

def honestProof (hs : NodeHasher H) (data : List Bytes) (s e peakPosition : Nat) (root : H) :
    RangeProof H where
  startLeaf := s
  endLeaf := e
  leafIndices := row 0 s (e + 1)
  leafHashes := (List.range' s (e + 1 - s)).map (subtreeHash hs data 0)
  siblingPath := siblingsFrom hs data s e 0
  peaks := peakHashes hs data
  peakPosition
  mmrSize := size data.length
  root

theorem generateRangeProof_eq {s e : Nat} (hse : s ≤ e) (hen : e < data.length) {root : H}
    (hroot : m.getRoot hs = .ok root) :
    ∃ peakPosition,
      generateRangeProof hs s e m = (.ok (honestProof hs data s e peakPosition root), m) := by
  have hsize := hm.size_lt
  have hdata := le_size data.length
  have hup : rangeUp data.length e 0 = e + 1 := by simp [rangeUp]; omega
  have hlo : rangeLo s 0 = s := by simp [rangeLo]
  have hindices : m.getLeafIndices s e = .ok (row 0 s (e + 1)) := by
    rw [getLeafIndices, if_neg (by omega), hm.leafCount_eq, res_ok_bind, if_neg (by omega),
      mapM_leafIndexOf, row, show e - s + 1 = e + 1 - s by omega]
    intro x hx
    rw [List.mem_range'_1] at hx
    omega
  have hhashes := hm.loadHashes_eq fun x (hx : x ∈ List.range' s (e + 1 - s)) => by
    rw [List.mem_range'_1] at hx
    omega
  obtain ⟨p, hp, hpath⟩ := @Represents.rangePathLoop_eq _ _ _ _ hm _ _ hse 64 0
    ⟨row 0 s (e + 1), [], [], [], 0⟩ rfl (fun k _ j => by rw [pos_mem_row, hlo, hup])
    (.inl (by omega))
  rw [hlo, hup] at hpath
  obtain ⟨i, hidx, -⟩ := idxOf?_peak hp
  have hgenerate : generateRangeMerklePath (row 0 s (e + 1)) (MountainRange.size data.length) m
      = (.ok (siblingsFrom hs data s e 0, pos p.1 p.2), m) := by
    rw [generateRangeMerklePath, if_neg (by rw [row_eq_nil_iff]; omega)]
    exact hpath
  refine ⟨i, ?_⟩
  rw [generateRangeProof, honestProof, asks_bind, hm.size_eq, if_neg (by omega),
    lift_ok_bind, if_neg (by omega), lift_ok_bind, ← hm.size_eq, hm.leafCount_eq,
    lift_ok_bind,
    if_neg (by omega), lift_ok_bind, asks_bind, id_eq, hindices, lift_ok_bind,
    row, bind_of_ok hhashes, ← row, hm.size_eq, bind_of_ok hgenerate]
  dsimp only
  rw [getPeaks, lift_ok_bind, ← hm.size_eq, hm.findPeaks_eq, lift_ok_bind, hidx,
    okOr_some, lift_ok_bind, hroot, lift_ok_bind, hm.peakHashes_eq]
  rfl

end Represents

end WritersProof.Mmr
