/-
  WritersProof.Lib.MountainRange

  The arithmetic of Merkle mountain ranges: perfect binary trees laid out in
  post-order, one after the other, one for each bit of the number of leaves.

  `pos` enumerates the positions below `size n` exactly once
  (`pos_lt_size_iff`, `pos_injective`, `exists_pos`), and relates a node to its
  children and to its parent by constant offsets (`pos_left`, `pos_right`).
-/
import Mathlib.Data.Nat.Digits.Lemmas
import Mathlib.Tactic.Ring

namespace MountainRange

/-! ## Population count -/

def countOnes (n : Nat) : Nat := (Nat.digits 2 n).sum

@[simp] theorem countOnes_zero : countOnes 0 = 0 := by decide

@[simp] theorem countOnes_one : countOnes 1 = 1 := by decide

theorem countOnes_eq (n : Nat) : countOnes n = n % 2 + countOnes (n / 2) := by
  rcases Nat.eq_zero_or_pos n with rfl | hn
  · decide
  · rw [countOnes, Nat.digits_def' (by decide) hn, List.sum_cons, countOnes]

@[simp] theorem countOnes_two_mul (n : Nat) : countOnes (2 * n) = countOnes n := by
  rw [countOnes_eq, show 2 * n % 2 = 0 by omega, show 2 * n / 2 = n by omega, Nat.zero_add]

@[simp] theorem countOnes_two_mul_add_one (n : Nat) : countOnes (2 * n + 1) = countOnes n + 1 := by
  rw [countOnes_eq, show (2 * n + 1) % 2 = 1 by omega, show (2 * n + 1) / 2 = n by omega,
    Nat.add_comm]

variable {n j h r m h' j' p a b H i : Nat}

/-- The bits below and above position `h` are counted separately. -/
theorem countOnes_mul_two_pow_add (j : Nat) (hr : r < 2 ^ h) :
    countOnes (j * 2 ^ h + r) = countOnes j + countOnes r := by
  induction h generalizing r with
  | zero =>
    obtain rfl : r = 0 := by simpa using hr
    simp
  | succ h ih =>
    rw [Nat.pow_succ] at hr
    have hshift : (j * 2 ^ (h + 1) + r) / 2 = j * 2 ^ h + r / 2 := by
      rw [Nat.pow_succ, ← Nat.mul_assoc]
      omega
    have hlow : (j * 2 ^ (h + 1) + r) % 2 = r % 2 := by
      rw [Nat.pow_succ, ← Nat.mul_assoc]
      omega
    rw [countOnes_eq, hshift, hlow, ih (by omega), countOnes_eq r]
    omega

theorem countOnes_mul_two_pow (j h : Nat) : countOnes (j * 2 ^ h) = countOnes j := by
  simpa using countOnes_mul_two_pow_add j (r := 0) (Nat.two_pow_pos h)

theorem countOnes_two_pow_sub_one (h : Nat) : countOnes (2 ^ h - 1) = h := by
  induction h with
  | zero => decide
  | succ h ih =>
    have hpos := Nat.two_pow_pos h
    rw [show 2 ^ (h + 1) - 1 = 2 * (2 ^ h - 1) + 1 by rw [Nat.pow_succ]; omega,
      countOnes_two_mul_add_one, ih]

theorem countOnes_le (n : Nat) : countOnes n ≤ n := by
  induction n using Nat.strong_induction_on with
  | _ n ih =>
    rcases Nat.eq_zero_or_pos n with rfl | hn
    · simp
    · have := ih (n / 2) (by omega)
      rw [countOnes_eq]
      omega

theorem countOnes_pos (hn : 0 < n) : 0 < countOnes n := by
  induction n using Nat.strong_induction_on with
  | _ n ih =>
    rw [countOnes_eq]
    by_cases hodd : n % 2 = 1
    · omega
    · have := ih (n / 2) (by omega) (by omega)
      omega

theorem countOnes_succ_le (n : Nat) : countOnes (n + 1) ≤ countOnes n + 1 := by
  induction n using Nat.strong_induction_on with
  | _ n ih =>
    rw [countOnes_eq (n + 1), countOnes_eq n]
    by_cases hodd : n % 2 = 1
    · have := ih (n / 2) (by omega)
      rw [show (n + 1) % 2 = 0 by omega, show (n + 1) / 2 = n / 2 + 1 by omega]
      omega
    · rw [show (n + 1) % 2 = 1 by omega, show (n + 1) / 2 = n / 2 by omega]
      omega

/-! ## Carries -/

/-- The number of carries of the increment `n + 1`: the trailing ones of `n`. -/
def carries (n : Nat) : Nat := countOnes n + 1 - countOnes (n + 1)

theorem countOnes_succ (n : Nat) : countOnes (n + 1) + carries n = countOnes n + 1 := by
  have := countOnes_succ_le n
  unfold carries
  omega

theorem carries_even (hn : n % 2 = 0) : carries n = 0 := by
  have h := countOnes_succ n
  rw [countOnes_eq (n + 1), countOnes_eq n, show (n + 1) % 2 = 1 by omega,
    show (n + 1) / 2 = n / 2 by omega] at h
  omega

theorem carries_odd (hn : n % 2 = 1) : carries n = carries (n / 2) + 1 := by
  have h := countOnes_succ n
  have h' := countOnes_succ (n / 2)
  rw [countOnes_eq (n + 1), countOnes_eq n, show (n + 1) % 2 = 0 by omega,
    show (n + 1) / 2 = n / 2 + 1 by omega] at h
  omega

/-- The merges after leaf `n` are the levels whose block it completes. -/
theorem le_carries_iff : h ≤ carries n ↔ 2 ^ h ∣ n + 1 := by
  induction h generalizing n with
  | zero => simp
  | succ h ih =>
    by_cases hodd : n % 2 = 1
    · rw [carries_odd hodd, Nat.add_le_add_iff_right, ih, Nat.pow_succ']
      constructor
      · rintro ⟨c, hc⟩
        exact ⟨c, by rw [Nat.mul_assoc, ← hc]; omega⟩
      · rintro ⟨c, hc⟩
        exact ⟨c, by rw [Nat.mul_assoc] at hc; omega⟩
    · rw [carries_even (by omega), Nat.pow_succ']
      constructor
      · omega
      · rintro ⟨c, hc⟩
        rw [Nat.mul_assoc] at hc
        omega

/-! ## Sizes -/

/-- The number of nodes over `n` leaves, `2n - countOnes n`. It is also the position of leaf `n`
    (from 0). -/
def size (n : Nat) : Nat := 2 * n - countOnes n

theorem size_add_countOnes (n : Nat) : size n + countOnes n = 2 * n := by
  have := countOnes_le n
  unfold size
  omega

@[simp] theorem size_zero : size 0 = 0 := by decide

theorem size_succ (n : Nat) : size (n + 1) = size n + 1 + carries n := by
  have h1 := size_add_countOnes n
  have h2 := size_add_countOnes (n + 1)
  have h3 := countOnes_succ n
  omega

theorem size_strictMono : StrictMono size := by
  apply strictMono_nat_of_lt_succ
  intro n
  rw [size_succ]
  omega

theorem size_le_size (h : m ≤ n) : size m ≤ size n := size_strictMono.monotone h

theorem size_lt_size_iff : size m < size n ↔ m < n := size_strictMono.lt_iff_lt

theorem le_size (n : Nat) : n ≤ size n := size_strictMono.le_apply

theorem size_le_two_mul (n : Nat) : size n ≤ 2 * n := by
  have := size_add_countOnes n
  omega

theorem size_pos (h : 0 < n) : 0 < size n := Nat.lt_of_lt_of_le h (le_size n)

theorem size_two_pow (h : Nat) : size (2 ^ h) + 1 = 2 ^ (h + 1) := by
  have hcount : countOnes (2 ^ h) = 1 := by
    have := countOnes_mul_two_pow 1 h
    rwa [Nat.one_mul, countOnes_one] at this
  have := size_add_countOnes (2 ^ h)
  rw [Nat.pow_succ]
  omega

theorem size_mul_two_pow_add (j : Nat) (hr : r < 2 ^ h) :
    size (j * 2 ^ h + r) = size (j * 2 ^ h) + size r := by
  have h1 := size_add_countOnes (j * 2 ^ h + r)
  have h2 := size_add_countOnes (j * 2 ^ h)
  have h3 := size_add_countOnes r
  rw [countOnes_mul_two_pow_add j hr] at h1
  rw [countOnes_mul_two_pow] at h2
  omega

/-! ## Positions -/

/-- The position of the root over the leaves `[j * 2^h, (j+1) * 2^h)`. -/
def pos (h j : Nat) : Nat := size (j * 2 ^ h) + 2 ^ (h + 1) - 2

theorem pos_add (h j : Nat) : pos h j + countOnes j + 2 = (j + 1) * 2 ^ (h + 1) := by
  have hsize := size_add_countOnes (j * 2 ^ h)
  have hpow : 2 ≤ 2 ^ (h + 1) := Nat.one_lt_two_pow' h
  rw [countOnes_mul_two_pow] at hsize
  have hexp : (j + 1) * 2 ^ (h + 1) = 2 * (j * 2 ^ h) + 2 ^ (h + 1) := by
    rw [Nat.pow_succ]
    ring
  unfold pos
  omega

theorem pos_zero (j : Nat) : pos 0 j = size j := by
  simp [pos]

/-- A right child comes just before its parent. -/
theorem pos_right (h j : Nat) : pos h (2 * j + 1) + 1 = pos (h + 1) j := by
  have h1 := pos_add h (2 * j + 1)
  have h2 := pos_add (h + 1) j
  rw [countOnes_two_mul_add_one] at h1
  have hexp : (2 * j + 1 + 1) * 2 ^ (h + 1) = (j + 1) * 2 ^ (h + 1 + 1) := by
    rw [Nat.pow_succ 2 (h + 1)]
    ring
  omega

/-- A left child comes the size of a tree and one before its parent. -/
theorem pos_left (h j : Nat) : pos h (2 * j) + 2 ^ (h + 1) = pos (h + 1) j := by
  have h1 := pos_add h (2 * j)
  have h2 := pos_add (h + 1) j
  rw [countOnes_two_mul] at h1
  have hexp : (2 * j + 1) * 2 ^ (h + 1) + 2 ^ (h + 1) = (j + 1) * 2 ^ (h + 1 + 1) := by
    rw [Nat.pow_succ 2 (h + 1)]
    ring
  omega

theorem size_last_leaf (h j : Nat) : size ((j + 1) * 2 ^ h - 1) + h = pos h j := by
  have hpow := Nat.two_pow_pos h
  have hlast : (j + 1) * 2 ^ h - 1 = j * 2 ^ h + (2 ^ h - 1) := by
    rw [Nat.add_mul, Nat.one_mul]
    omega
  have hsize := size_add_countOnes (2 ^ h - 1)
  rw [countOnes_two_pow_sub_one] at hsize
  rw [hlast, size_mul_two_pow_add j (by omega), pos, Nat.pow_succ]
  omega

/-- The blocks that end with the last leaf lie next to each other at the end. -/
theorem pos_of_end (hend : (j + 1) * 2 ^ h = n) : pos h j = size (n - 1) + h := by
  subst hend
  exact (size_last_leaf h j).symm

theorem block_succ (h j : Nat) : (j + 1) * 2 ^ (h + 1) = (2 * j + 1 + 1) * 2 ^ h := by
  rw [Nat.pow_succ]
  ring

/-- The halves of a block end where it ends, or before. -/
theorem half_le (h j : Nat) : (2 * j + 1) * 2 ^ h ≤ (j + 1) * 2 ^ (h + 1)
    ∧ (2 * j + 1 + 1) * 2 ^ h ≤ (j + 1) * 2 ^ (h + 1) := by
  rw [block_succ]
  exact ⟨Nat.mul_le_mul_right _ (Nat.le_succ _), Nat.le_refl _⟩

theorem pos_lt_size_iff : pos h j < size n ↔ (j + 1) * 2 ^ h ≤ n := by
  have hpow := Nat.two_pow_pos h
  have hmul : 0 < (j + 1) * 2 ^ h := Nat.mul_pos (Nat.succ_pos j) hpow
  have hlast := size_last_leaf h j
  constructor
  · intro hlt
    by_contra hn
    have hmono := size_le_size (show n ≤ (j + 1) * 2 ^ h - 1 by omega)
    omega
  · intro hle
    have hmono := size_le_size hle
    have hsucc := size_succ ((j + 1) * 2 ^ h - 1)
    rw [Nat.sub_add_cancel hmul] at hsucc
    have hcarry : h ≤ carries ((j + 1) * 2 ^ h - 1) := by
      rw [le_carries_iff, Nat.sub_add_cancel hmul]
      exact Nat.dvd_mul_left _ _
    omega

theorem pos_injective (heq : pos h j = pos h' j') : h = h' ∧ j = j' := by
  have hpow := Nat.two_pow_pos h
  have hpow' := Nat.two_pow_pos h'
  have hmul : 0 < (j + 1) * 2 ^ h := Nat.mul_pos (Nat.succ_pos j) hpow
  have hmul' : 0 < (j' + 1) * 2 ^ h' := Nat.mul_pos (Nat.succ_pos j') hpow'
  have hend : (j + 1) * 2 ^ h = (j' + 1) * 2 ^ h' := by
    apply Nat.le_antisymm
    · exact pos_lt_size_iff.mp (heq ▸ pos_lt_size_iff.mpr (Nat.le_refl _))
    · exact pos_lt_size_iff.mp (heq ▸ pos_lt_size_iff.mpr (Nat.le_refl _))
  have hlast := size_last_leaf h j
  have hlast' := size_last_leaf h' j'
  rw [hend] at hlast
  obtain rfl : h = h' := by omega
  exact ⟨rfl, by simpa using Nat.eq_of_mul_eq_mul_right hpow hend⟩

/-- Every position below the size is the root of a complete subtree. -/
theorem exists_pos (hp : p < size n) : ∃ h j, p = pos h j ∧ (j + 1) * 2 ^ h ≤ n := by
  induction n with
  | zero => simp at hp
  | succ n ih =>
    by_cases hlt : p < size n
    · obtain ⟨h, j, hpos, hle⟩ := ih hlt
      exact ⟨h, j, hpos, by omega⟩
    · -- the node was added with leaf `n`, as the merge at height `p - size n`
      obtain ⟨h, rfl⟩ := Nat.exists_eq_add_of_le (Nat.le_of_not_lt hlt)
      rw [size_succ] at hp
      obtain ⟨c, hc⟩ := le_carries_iff.mp (show h ≤ carries n by omega)
      have hcpos : 0 < c := by
        rcases Nat.eq_zero_or_pos c with rfl | h0
        · simp at hc
        · exact h0
      have hblock : (c - 1 + 1) * 2 ^ h = n + 1 := by
        rw [Nat.sub_add_cancel hcpos, Nat.mul_comm, hc]
      refine ⟨h, c - 1, ?_, Nat.le_of_eq hblock⟩
      rw [← size_last_leaf, hblock, Nat.add_sub_cancel]

theorem pos_lt_pos (hlt : j < j') : pos h j < pos h j' := by
  have h1 := pos_add h j
  have h2 := pos_add h j'
  have hmono : size (j * 2 ^ h) < size (j' * 2 ^ h) :=
    size_strictMono (Nat.mul_lt_mul_of_pos_right hlt (Nat.two_pow_pos h))
  have hpow : 2 ≤ 2 ^ (h + 1) := Nat.one_lt_two_pow' h
  unfold pos
  omega

theorem pos_le_pos (hle : j ≤ j') : pos h j ≤ pos h j' := by
  rcases Nat.eq_or_lt_of_le hle with rfl | hlt
  · exact Nat.le_refl _
  · exact Nat.le_of_lt (pos_lt_pos hlt)

/-- The next node of the same height: the ancestors that end here and a tree come between. -/
theorem pos_succ (h j : Nat) : pos h (j + 1) + 1 = pos h j + 2 ^ (h + 1) + carries j := by
  have h1 := pos_add h j
  have h2 := pos_add h (j + 1)
  have h3 := countOnes_succ j
  rw [Nat.add_mul (j + 1) 1, Nat.one_mul] at h2
  omega

theorem size_block_end (h j : Nat) : size ((j + 1) * 2 ^ h) = pos h j + 1 + carries j := by
  have h1 := pos_succ h j
  have h2 : pos h (j + 1) = size ((j + 1) * 2 ^ h) + 2 ^ (h + 1) - 2 := rfl
  have hpow : 2 ≤ 2 ^ (h + 1) := Nat.one_lt_two_pow' h
  omega

/-- No node of the same height lies less than a tree behind a right child. -/
theorem pos_ne_of_odd (hodd : j % 2 = 1) (hlt : pos h j < p) (hp : p < pos h j + 2 ^ (h + 1)) :
    p ≠ pos h j' := by
  rintro rfl
  have hjj : j < j' := by
    by_contra hle
    have := pos_le_pos (h := h) (Nat.le_of_not_lt hle)
    omega
  have hnext : pos h (j + 1) ≤ pos h j' := pos_le_pos hjj
  have hsucc := pos_succ h j
  have hcarry := carries_odd hodd
  omega

/-- No node of the same height lies a tree behind a left child. -/
theorem pos_ne_of_even (heven : j % 2 = 0) (hp : p + 2 ^ (h + 1) = pos h j + 1) : p ≠ pos h j' := by
  rintro rfl
  have hpow : 2 ≤ 2 ^ (h + 1) := Nat.one_lt_two_pow' h
  have hjj : j' < j := by
    by_contra hge
    have := pos_le_pos (h := h) (Nat.le_of_not_lt hge)
    omega
  have hprev : pos h j' ≤ pos h (j - 1) := pos_le_pos (by omega)
  have hsucc := pos_succ h (j - 1)
  have hcarry := carries_odd (show (j - 1) % 2 = 1 by omega)
  rw [Nat.sub_add_cancel (by omega)] at hsucc
  omega

/-! ## Rows -/

/-- The positions of the blocks `[a, b)` of height `h`. -/
def row (h a b : Nat) : List Nat := (List.range' a (b - a)).map (pos h)

theorem mem_row : p ∈ row h a b ↔ ∃ j, p = pos h j ∧ a ≤ j ∧ j < b := by
  rw [row, List.mem_map]
  constructor
  · rintro ⟨j, hj, rfl⟩
    rw [List.mem_range'_1] at hj
    exact ⟨j, rfl, by omega, by omega⟩
  · rintro ⟨j, rfl, hlo, hhi⟩
    exact ⟨j, List.mem_range'_1.mpr (by omega), rfl⟩

theorem pos_mem_row : pos h j ∈ row h' a b ↔ h = h' ∧ a ≤ j ∧ j < b := by
  rw [mem_row]
  constructor
  · rintro ⟨j', heq, hrest⟩
    obtain ⟨rfl, rfl⟩ := pos_injective heq
    exact ⟨rfl, hrest⟩
  · rintro ⟨rfl, hrest⟩
    exact ⟨j, rfl, hrest⟩

theorem row_append {c : Nat} (hab : a ≤ b) (hbc : b ≤ c) : row h a b ++ row h b c = row h a c := by
  obtain ⟨x, rfl⟩ := Nat.exists_eq_add_of_le hab
  obtain ⟨y, rfl⟩ := Nat.exists_eq_add_of_le hbc
  rw [row, row, row, ← List.map_append, Nat.add_sub_cancel_left, Nat.add_sub_cancel_left,
    List.range'_append_1, Nat.add_assoc, Nat.add_sub_cancel_left]

@[simp] theorem row_self (h a : Nat) : row h a a = [] := by simp [row]

@[simp] theorem row_one (h a : Nat) : row h a (a + 1) = [pos h a] := by simp [row]

/-- The first two of a row -/
theorem row_pair (hab : a < b) :
    row h (2 * a) (2 * b) = pos h (2 * a) :: pos h (2 * a + 1) :: row h (2 * (a + 1)) (2 * b) := by
  rw [← row_append (b := 2 * a + 1) (by omega) (by omega),
    ← row_append (a := 2 * a + 1) (b := 2 * a + 1 + 1) (by omega) (by omega), row_one, row_one]
  rfl

/-- What is left of a row behind its pairs -/
theorem row_odd (hodd : b % 2 = 1) : row h (2 * (b / 2)) b = [pos h (b - 1)] := by
  rw [← row_one, show 2 * (b / 2) = b - 1 by omega, Nat.sub_add_cancel (by omega)]

theorem row_eq_nil_iff : row h a b = [] ↔ b ≤ a := by
  simp [row]
  omega

theorem row_sorted (h a b : Nat) : (row h a b).Pairwise (· < ·) := by
  rw [row, List.pairwise_map]
  exact List.Pairwise.imp (fun hlt => pos_lt_pos hlt) List.pairwise_lt_range'

/-! ## Peaks -/

/-- The peaks of height below `H`, left to right: one for each bit of `n`. -/
def peaksBelow : Nat → Nat → List (Nat × Nat)
  | 0, _ => []
  | h + 1, n => if n / 2 ^ h % 2 = 1 then (h, n / 2 ^ h - 1) :: peaksBelow h n else peaksBelow h n

/-- The roots `(h, j)` of the mountains over `n` leaves, left to right. -/
def peaks (n : Nat) : List (Nat × Nat) := peaksBelow (n.log2 + 1) n

theorem pred_of_odd {q : Nat} (h : q % 2 = 1) : q = q - 1 + 1 ∧ (q - 1) % 2 = 0 := by
  omega

theorem mem_peaksBelow : (h, j) ∈ peaksBelow H n ↔ h < H ∧ n / 2 ^ h = j + 1 ∧ j % 2 = 0 := by
  induction H with
  | zero => simp [peaksBelow]
  | succ H ih =>
    rw [peaksBelow]
    by_cases hbit : n / 2 ^ H % 2 = 1
    · rw [if_pos hbit, List.mem_cons, ih, Prod.mk.injEq]
      constructor
      · rintro (⟨rfl, rfl⟩ | ⟨hlt, hrest⟩)
        · exact ⟨Nat.lt_succ_self _, pred_of_odd hbit⟩
        · exact ⟨by omega, hrest⟩
      · rintro ⟨hlt, hdiv, heven⟩
        by_cases heq : h = H
        · subst heq
          exact .inl ⟨rfl, by omega⟩
        · exact .inr ⟨by omega, hdiv, heven⟩
    · rw [if_neg hbit, ih]
      constructor
      · rintro ⟨hlt, hrest⟩
        exact ⟨by omega, hrest⟩
      · rintro ⟨hlt, hdiv, heven⟩
        have hne : h ≠ H := by
          rintro rfl
          omega
        exact ⟨by omega, hdiv, heven⟩

/-- A bound above the highest bit does not matter. -/
theorem peaksBelow_eq_of_lt (hn : n < 2 ^ H) : ∀ k, peaksBelow (H + k) n = peaksBelow H n := by
  intro k
  induction k with
  | zero => rfl
  | succ k ih =>
    have hzero : n / 2 ^ (H + k) = 0 := by
      apply Nat.div_eq_of_lt
      exact Nat.lt_of_lt_of_le hn (Nat.pow_le_pow_right (by decide) (by omega))
    rw [← Nat.add_assoc, peaksBelow, hzero, if_neg (by decide), ih]

theorem peaksBelow_eq_peaks (hn : n < 2 ^ H) : peaksBelow H n = peaks n := by
  have hlog : n < 2 ^ (n.log2 + 1) := Nat.lt_log2_self
  rcases Nat.le_total H (n.log2 + 1) with hle | hle
  · obtain ⟨k, hk⟩ := Nat.exists_eq_add_of_le hle
    rw [peaks, hk, peaksBelow_eq_of_lt hn]
  · obtain ⟨k, rfl⟩ := Nat.exists_eq_add_of_le hle
    rw [peaks, peaksBelow_eq_of_lt hlog]

/-- A peak is a left child that has no sibling. -/
theorem mem_peaks : (h, j) ∈ peaks n ↔ n / 2 ^ h = j + 1 ∧ j % 2 = 0 := by
  rw [peaks, mem_peaksBelow]
  constructor
  · exact fun hmem => hmem.2
  · intro hmem
    refine ⟨?_, hmem⟩
    by_contra hge
    have hlt : n < 2 ^ h :=
      Nat.lt_of_lt_of_le Nat.lt_log2_self (Nat.pow_le_pow_right (by decide) (by omega))
    rw [Nat.div_eq_of_lt hlt] at hmem
    omega

theorem length_peaksBelow (H n : Nat) : (peaksBelow H n).length = countOnes (n % 2 ^ H) := by
  induction H with
  | zero => simp [peaksBelow, Nat.mod_one]
  | succ H ih =>
    have hmod : n % 2 ^ (H + 1) = (n / 2 ^ H % 2) * 2 ^ H + n % 2 ^ H := by
      rw [Nat.mod_pow_succ]
      ring
    have hlt : n % 2 ^ H < 2 ^ H := Nat.mod_lt _ (Nat.two_pow_pos H)
    rw [peaksBelow, hmod, countOnes_mul_two_pow_add _ hlt]
    by_cases hbit : n / 2 ^ H % 2 = 1
    · rw [if_pos hbit, List.length_cons, ih, hbit, countOnes_one, Nat.add_comm]
    · rw [if_neg hbit, ih, show n / 2 ^ H % 2 = 0 by omega, countOnes_zero, Nat.zero_add]

/-- There is one peak for each one in the binary expansion. -/
theorem length_peaks (n : Nat) : (peaks n).length = countOnes n := by
  rw [peaks, length_peaksBelow, Nat.mod_eq_of_lt Nat.lt_log2_self]

theorem length_peaks_le (hn : n < 2 ^ H) : (peaks n).length ≤ H := by
  have hle : ∀ b, (peaksBelow b n).length ≤ b := by
    intro b
    induction b with
    | zero => exact Nat.le_refl _
    | succ b ih =>
      rw [peaksBelow]
      split
      · rw [List.length_cons]
        omega
      · omega
  rw [← peaksBelow_eq_peaks hn]
  exact hle H

theorem peaksBelow_eq_nil (h : n % 2 ^ H = 0) : peaksBelow H n = [] := by
  rw [← List.length_eq_zero_iff, length_peaksBelow, h, countOnes_zero]

theorem peak_le (hmem : (h, j) ∈ peaks n) : (j + 1) * 2 ^ h ≤ n := by
  obtain ⟨hdiv, -⟩ := mem_peaks.mp hmem
  rw [← hdiv]
  exact Nat.div_mul_le_self _ _

/-- A left child whose sibling is not complete is a peak. -/
theorem mem_peaks_of_last (heven : j % 2 = 0) (hle : (j + 1) * 2 ^ h ≤ n)
    (hlast : ¬ (j + 2) * 2 ^ h ≤ n) : (h, j) ∈ peaks n := by
  have hpow := Nat.two_pow_pos h
  refine mem_peaks.mpr ⟨?_, heven⟩
  apply Nat.le_antisymm
  · exact Nat.lt_succ_iff.mp ((Nat.div_lt_iff_lt_mul hpow).mpr (Nat.lt_of_not_le hlast))
  · exact (Nat.le_div_iff_mul_le hpow).mpr hle

/-- The leaves left of a peak are the multiples of twice its width. -/
theorem peak_start (hmem : (h, j) ∈ peaks n) : j * 2 ^ h = n / 2 ^ (h + 1) * 2 ^ (h + 1) := by
  obtain ⟨hdiv, heven⟩ := mem_peaks.mp hmem
  have hhalf : n / 2 ^ (h + 1) = j / 2 := by
    rw [Nat.pow_succ, ← Nat.div_div_eq_div_mul, hdiv]
    omega
  rw [hhalf, Nat.pow_succ', ← Nat.mul_assoc, Nat.div_mul_cancel (Nat.dvd_of_mod_eq_zero heven)]

/-- The leaves of a peak come after the blocks of greater height. -/
theorem block_end_le_peak (hle : (j + 1) * 2 ^ h ≤ n) (hmem : (h', j') ∈ peaks n) (hlt : h' < h) :
    (j + 1) * 2 ^ h ≤ j' * 2 ^ h' := by
  rw [peak_start hmem]
  -- both sides clear low bits of `n`, the right side fewer of them
  have hpow : 2 ^ (h' + 1) ∣ 2 ^ h := Nat.pow_dvd_pow 2 (by omega)
  have hdvd : 2 ^ (h' + 1) ∣ (j + 1) * 2 ^ h := Dvd.dvd.mul_left hpow _
  calc (j + 1) * 2 ^ h = (j + 1) * 2 ^ h / 2 ^ (h' + 1) * 2 ^ (h' + 1) :=
        (Nat.div_mul_cancel hdvd).symm
    _ ≤ n / 2 ^ (h' + 1) * 2 ^ (h' + 1) :=
        Nat.mul_le_mul_right _ (Nat.div_le_div_right hle)

theorem size_le_pos (h j : Nat) : size (j * 2 ^ h) ≤ pos h j := by
  have hpow : 2 ≤ 2 ^ (h + 1) := Nat.one_lt_two_pow' h
  unfold pos
  omega

theorem block_lt_peak (hle : (j + 1) * 2 ^ h ≤ n) (hmem : (h', j') ∈ peaks n) (hlt : h' < h) :
    pos h j < pos h' j' :=
  Nat.lt_of_lt_of_le (pos_lt_size_iff.mpr (block_end_le_peak hle hmem hlt)) (size_le_pos h' j')

theorem peak_lt (hmem : (h, j) ∈ peaks n) (hmem' : (h', j') ∈ peaks n) (hlt : h' < h) :
    pos h j < pos h' j' := block_lt_peak (peak_le hmem) hmem' hlt

theorem peaksBelow_sorted (H n : Nat) :
    ((peaksBelow H n).map fun p => pos p.1 p.2).Pairwise (· < ·) := by
  induction H with
  | zero => exact List.Pairwise.nil
  | succ H ih =>
    rw [peaksBelow]
    by_cases hbit : n / 2 ^ H % 2 = 1
    · rw [if_pos hbit, List.map_cons, List.pairwise_cons]
      refine ⟨?_, ih⟩
      intro q hq
      obtain ⟨⟨h', j'⟩, hmem, rfl⟩ := List.mem_map.mp hq
      obtain ⟨hlt, hpeak⟩ := mem_peaksBelow.mp hmem
      exact peak_lt (mem_peaks.mpr (pred_of_odd hbit)) (mem_peaks.mpr hpeak) hlt
    · rw [if_neg hbit]
      exact ih

theorem peaks_sorted (n : Nat) : ((peaks n).map fun p => pos p.1 p.2).Pairwise (· < ·) :=
  peaksBelow_sorted _ n

/-- All mountains are higher than the low bits that are clear. -/
theorem lt_height_of_mem_peaks (hlow : m % 2 ^ (i + 1) = 0) (hmem : (h, j) ∈ peaks m) : i < h := by
  by_contra hle
  obtain ⟨hdiv, heven⟩ := mem_peaks.mp hmem
  obtain ⟨c, hc⟩ : 2 ^ (h + 1) ∣ m :=
    Dvd.dvd.trans (Nat.pow_dvd_pow 2 (by omega)) (Nat.dvd_of_mod_eq_zero hlow)
  rw [hc, Nat.pow_succ, Nat.mul_assoc, Nat.mul_div_cancel_left _ (Nat.two_pow_pos h)] at hdiv
  omega

/-- A mountain lower than all others comes last. -/
theorem peaks_add_two_pow (hlow : m % 2 ^ (i + 1) = 0) :
    peaks (m + 2 ^ i) = peaks m ++ [(i, m / 2 ^ i)] := by
  have hpow := Nat.two_pow_pos i
  have hmain : ∀ d, peaksBelow (i + 1 + d) (m + 2 ^ i)
      = peaksBelow (i + 1 + d) m ++ [(i, m / 2 ^ i)] := by
    intro d
    induction d with
    | zero =>
      have hmod : m % 2 ^ i = 0 :=
        Nat.mod_eq_zero_of_dvd (Dvd.dvd.trans (Nat.pow_dvd_pow 2 (Nat.le_succ i))
          (Nat.dvd_of_mod_eq_zero hlow))
      have heven : m / 2 ^ i % 2 = 0 := by
        obtain ⟨c, rfl⟩ := Nat.dvd_of_mod_eq_zero hlow
        rw [Nat.pow_succ, Nat.mul_assoc, Nat.mul_div_cancel_left _ hpow]
        omega
      rw [Nat.add_zero, peaksBelow_eq_nil hlow, List.nil_append, peaksBelow,
        Nat.add_div_right _ hpow, if_pos (by omega),
        peaksBelow_eq_nil (by rw [Nat.add_mod_right]; exact hmod), Nat.add_sub_cancel]
    | succ d ih =>
      have hdiv : (m + 2 ^ i) / 2 ^ (i + 1 + d) = m / 2 ^ (i + 1 + d) := by
        have hhigh : (m + 2 ^ i) / 2 ^ (i + 1) = m / 2 ^ (i + 1) := by
          obtain ⟨c, rfl⟩ := Nat.dvd_of_mod_eq_zero hlow
          rw [Nat.mul_add_div (Nat.two_pow_pos _), Nat.mul_div_cancel_left _ (Nat.two_pow_pos _),
            Nat.div_eq_of_lt (by rw [Nat.pow_succ]; omega), Nat.add_zero]
        rw [Nat.pow_add, ← Nat.div_div_eq_div_mul, hhigh, Nat.div_div_eq_div_mul]
      rw [← Nat.add_assoc, peaksBelow, peaksBelow, hdiv, ih]
      by_cases hbit : m / 2 ^ (i + 1 + d) % 2 = 1
      · rw [if_pos hbit, if_pos hbit, List.cons_append]
      · rw [if_neg hbit, if_neg hbit]
  have hlt : m + 2 ^ i < 2 ^ (i + 1 + (m + 2 ^ i)) :=
    Nat.lt_of_lt_of_le Nat.lt_two_pow_self (Nat.pow_le_pow_right (by decide) (by omega))
  have hfinal := hmain (m + 2 ^ i)
  rwa [peaksBelow_eq_peaks hlt, peaksBelow_eq_peaks (by omega)] at hfinal

end MountainRange
