/-
  WritersProof.Lib.Sampling

  Sampling without replacement from a stream of draws: a draw may be rejected,
  and a value that was drawn before is passed over.

  A sample is `drawn draw m` for the first `m` that is long enough
  (`sample_eq_some_iff`), so a smaller sample is the front of a larger one
  (`sample_take`).
-/
import Mathlib.Data.List.Basic
import Mathlib.Data.List.Infix
import Mathlib.Data.List.Nodup

namespace Sampling

variable {α : Type} [DecidableEq α]

/-- One more draw. -/
def add (acc : List α) : Option α → List α
  | none => acc
  | some a => if a ∈ acc then acc else acc ++ [a]

/-- The distinct values of the first draws. -/
def drawn (draw : Nat → Option α) : Nat → List α
  | 0 => []
  | j + 1 => add (drawn draw j) (draw j)

/-- Draw number `j` and the next ones, until there are `count` values. -/
def collect (draw : Nat → Option α) (count : Nat) : Nat → Nat → List α → Option (List α)
  | fuel, j, acc =>
    if count ≤ acc.length then some acc
    else
      match fuel with
      | 0 => none
      | fuel + 1 => collect draw count fuel (j + 1) (add acc (draw j))

/-- `count` distinct values of the stream, from at most `fuel` draws. -/
def sample (draw : Nat → Option α) (count fuel : Nat) : Option (List α) :=
  collect draw count fuel 0 []

variable {draw : Nat → Option α} {count fuel : Nat}

/-! ## Values drawn -/

@[simp] theorem add_none (acc : List α) : add acc none = acc := rfl

@[simp] theorem add_some (acc : List α) (a : α) :
    add acc (some a) = if a ∈ acc then acc else acc ++ [a] := rfl

theorem isPrefix_add (acc : List α) (a : Option α) : acc <+: add acc a := by
  cases a with
  | none => exact List.prefix_refl acc
  | some a =>
    rw [add_some]
    split
    · exact List.prefix_refl acc
    · exact List.prefix_append acc [a]

theorem length_add_le (acc : List α) (a : Option α) : (add acc a).length ≤ acc.length + 1 := by
  cases a with
  | none => exact Nat.le_succ _
  | some a =>
    rw [add_some]
    split
    · exact Nat.le_succ _
    · rw [List.length_append, List.length_singleton]

theorem mem_add {acc : List α} {a : Option α} {b : α} : b ∈ add acc a ↔ b ∈ acc ∨ a = some b := by
  cases a with
  | none => simp
  | some a =>
    rw [add_some]
    split
    next hmem =>
      constructor
      · exact .inl
      · rintro (hb | hb)
        · exact hb
        · cases hb
          exact hmem
    next => simp [eq_comm]

theorem nodup_drawn (j : Nat) : (drawn draw j).Nodup := by
  induction j with
  | zero => exact List.nodup_nil
  | succ j ih =>
    unfold drawn
    cases draw j with
    | none => exact ih
    | some a =>
      rw [add_some]
      split
      next => exact ih
      next hmem => exact ih.append (List.nodup_singleton a) (by simpa using hmem)

variable {a : α} {j i m c : Nat}

theorem drawn_isPrefix (h : i ≤ j) : drawn draw i <+: drawn draw j := by
  induction j with
  | zero =>
    obtain rfl : i = 0 := by omega
    exact List.prefix_refl _
  | succ j ih =>
    by_cases hij : i = j + 1
    · subst hij
      exact List.prefix_refl _
    · exact (ih (by omega)).trans (isPrefix_add _ _)

theorem length_drawn_mono (h : i ≤ j) : (drawn draw i).length ≤ (drawn draw j).length :=
  (drawn_isPrefix h).length_le

theorem mem_drawn : a ∈ drawn draw j ↔ ∃ i < j, draw i = some a := by
  induction j with
  | zero => simp [drawn]
  | succ j ih =>
    rw [drawn, mem_add, ih]
    constructor
    · rintro (⟨i, hi, ha⟩ | ha)
      · exact ⟨i, by omega, ha⟩
      · exact ⟨j, by omega, ha⟩
    · rintro ⟨i, hi, ha⟩
      by_cases hij : i = j
      · subst hij
        exact .inr ha
      · exact .inl ⟨i, by omega, ha⟩

theorem exists_new (h : a ∈ drawn draw m) : ∃ j < m, draw j = some a ∧ a ∉ drawn draw j := by
  induction m with
  | zero => cases h
  | succ m ih =>
    by_cases hold : a ∈ drawn draw m
    · obtain ⟨j, hj, hnew⟩ := ih hold
      exact ⟨j, by omega, hnew⟩
    · rw [drawn, mem_add] at h
      exact ⟨m, by omega, h.resolve_left hold, hold⟩

/-- The number of values grows by one at a time. -/
theorem exists_length_drawn (h : c ≤ (drawn draw m).length) :
    ∃ i ≤ m, (drawn draw i).length = c := by
  induction m with
  | zero =>
    have hzero : (drawn draw 0).length = 0 := rfl
    exact ⟨0, Nat.le_refl 0, by omega⟩
  | succ m ih =>
    by_cases hm : c ≤ (drawn draw m).length
    · obtain ⟨i, hi, hlen⟩ := ih hm
      exact ⟨i, by omega, hlen⟩
    · have hstep := length_add_le (drawn draw m) (draw m)
      rw [drawn] at h
      exact ⟨m + 1, Nat.le_refl _, by rw [drawn]; omega⟩

/-! ## Samples -/

variable {xs : List α}

theorem collect_eq_some_iff (hj : (drawn draw j).length ≤ count) :
    collect draw count fuel j (drawn draw j) = some xs
      ↔ ∃ m, j ≤ m ∧ m ≤ j + fuel ∧ xs = drawn draw m ∧ xs.length = count := by
  induction fuel generalizing j with
  | zero =>
    rw [collect]
    by_cases hdone : count ≤ (drawn draw j).length
    · rw [if_pos hdone]
      constructor
      · rintro ⟨⟩
        exact ⟨j, Nat.le_refl j, Nat.le_refl j, rfl, by omega⟩
      · rintro ⟨m, hjm, hmj, rfl, -⟩
        obtain rfl : m = j := by omega
        rfl
    · rw [if_neg hdone]
      constructor
      · rintro ⟨⟩
      · rintro ⟨m, hjm, hmj, rfl, hlen⟩
        obtain rfl : m = j := by omega
        omega
  | succ fuel ih =>
    rw [collect]
    by_cases hdone : count ≤ (drawn draw j).length
    · rw [if_pos hdone]
      constructor
      · rintro ⟨⟩
        exact ⟨j, Nat.le_refl j, by omega, rfl, by omega⟩
      · rintro ⟨m, hjm, hmj, rfl, hlen⟩
        -- no value was added after draw `j`
        have hpre : drawn draw j <+: drawn draw m := drawn_isPrefix hjm
        rw [hpre.eq_of_length (by omega)]
    · have hstep := length_add_le (drawn draw j) (draw j)
      rw [if_neg hdone, ← drawn, ih (by rw [drawn]; omega)]
      constructor
      · rintro ⟨m, hjm, hmj, hxs, hlen⟩
        exact ⟨m, by omega, by omega, hxs, hlen⟩
      · rintro ⟨m, hjm, hmj, rfl, hlen⟩
        have hne : m ≠ j := by
          rintro rfl
          omega
        exact ⟨m, by omega, by omega, rfl, hlen⟩

/-- A sample is what was drawn up to some point, and has the size asked for. -/
theorem sample_eq_some_iff :
    sample draw count fuel = some xs ↔ ∃ m ≤ fuel, xs = drawn draw m ∧ xs.length = count := by
  have hzero : (drawn draw 0).length ≤ count := Nat.zero_le _
  rw [sample, ← drawn, collect_eq_some_iff hzero]
  constructor
  · rintro ⟨m, -, hm, hxs, hlen⟩
    exact ⟨m, by omega, hxs, hlen⟩
  · rintro ⟨m, hm, hxs, hlen⟩
    exact ⟨m, by omega, by omega, hxs, hlen⟩

variable (h : sample draw count fuel = some xs)

include h

theorem length_of_sample : xs.length = count := by
  obtain ⟨m, -, -, hlen⟩ := sample_eq_some_iff.mp h
  exact hlen

theorem nodup_of_sample : xs.Nodup := by
  obtain ⟨m, -, rfl, -⟩ := sample_eq_some_iff.mp h
  exact nodup_drawn m

theorem drawn_of_mem_sample (ha : a ∈ xs) :
    ∃ j, draw j = some a := by
  obtain ⟨m, -, rfl, -⟩ := sample_eq_some_iff.mp h
  obtain ⟨j, -, hj⟩ := mem_drawn.mp ha
  exact ⟨j, hj⟩

/-- A smaller sample is the front of a larger one. -/
theorem sample_take (hc : c ≤ count) :
    sample draw c fuel = some (xs.take c) := by
  obtain ⟨m, hm, rfl, hlen⟩ := sample_eq_some_iff.mp h
  obtain ⟨i, hi, hilen⟩ : ∃ i ≤ m, (drawn draw i).length = c :=
    exists_length_drawn (by omega)
  have htake : (drawn draw m).take c = drawn draw i := by
    rw [← hilen]
    exact (List.prefix_iff_eq_take.mp (drawn_isPrefix hi)).symm
  rw [htake]
  exact sample_eq_some_iff.mpr ⟨i, by omega, rfl, hilen⟩

/-- A value is in a sample when it is drawn before `count` other values are. -/
theorem mem_sample_iff :
    a ∈ xs ↔ ∃ j, draw j = some a ∧ (drawn draw j).length < count := by
  obtain ⟨m, -, rfl, hlen⟩ := sample_eq_some_iff.mp h
  constructor
  · intro ha
    obtain ⟨j, hjm, hj, hnew⟩ := exists_new ha
    refine ⟨j, hj, ?_⟩
    have hgrow : (drawn draw (j + 1)).length = (drawn draw j).length + 1 := by
      rw [drawn, hj, add_some, if_neg hnew, List.length_append, List.length_singleton]
    have : (drawn draw (j + 1)).length ≤ (drawn draw m).length := length_drawn_mono hjm
    omega
  · rintro ⟨j, hj, hlt⟩
    have hjm : j < m := by
      by_contra hle
      have : (drawn draw m).length ≤ (drawn draw j).length := length_drawn_mono (by omega)
      omega
    exact mem_drawn.mpr ⟨j, hjm, hj⟩

end Sampling
