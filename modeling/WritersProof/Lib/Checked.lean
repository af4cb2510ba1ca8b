/-
  WritersProof.Lib.Checked

  Sums and differences of whole lists, checked as `overflow-checks` has them.

    * `addI64`, `subI64` — `a + b` and `a - b` of `i64`.
    * `addU32`, `subU32` — `a + b` and `a - b` of `u32`.
    * `addU128`, `mulU128`, `absI64` — `a + b` and `a * b` of `u128`, `a.abs()` of `i64`.

  Each has an iff that says when it returns, in terms of the numbers alone.
-/
import WritersProof.Lib.Time
import WritersProof.Lib.Vec
import Mathlib.Algebra.Ring.Nat

namespace Rust

variable {ε α β : Type} {x : Res ε α} {f : α → Res ε β} {xs : List α} {b c : Int} {a : UInt32}

/-- A number is an `i64`. -/
def FitsI64 (x : Int) : Prop := i64Min ≤ x ∧ x ≤ i64Max

instance (x : Int) : Decidable (FitsI64 x) := inferInstanceAs (Decidable (_ ∧ _))

def addI64 (a b : Int) : Res ε Int := if FitsI64 (a + b) then .ok (a + b) else abort

def subI64 (a b : Int) : Res ε Int := if FitsI64 (a - b) then .ok (a - b) else abort

/-- `iter().sum()`, onto what came before -/
def sumU64 : Nat → List Nat → Res ε Nat
  | total, [] => .ok total
  | total, x :: xs => do
    let total ← unwrap (checkedAdd total x)
    sumU64 total xs

/-- `xs[i] - xs[i - 1]`, for every `i` but the first. -/
def differences : List Int → Res ε (List Int)
  | [] => .ok []
  | [_] => .ok []
  | a :: b :: rest => do
    let d ← subI64 b a
    let ds ← differences (b :: rest)
    .ok (d :: ds)

/-- A number is an `i32`. -/
def FitsI32 (x : Int) : Prop := -(2 ^ 31) ≤ x ∧ x < 2 ^ 31

instance (x : Int) : Decidable (FitsI32 x) := inferInstanceAs (Decidable (_ ∧ _))

/-- `a - b` of `i32`. -/
def subI32 (a b : Int) : Res ε Int := if FitsI32 (a - b) then .ok (a - b) else abort

def addU32 (a b : UInt32) : Res ε UInt32 :=
  if a.toNat + b.toNat < 2 ^ 32 then .ok (a + b) else abort

def subU32 (a b : UInt32) : Res ε UInt32 := if b ≤ a then .ok (a - b) else abort

def addU128 (a b : Nat) : Res ε Nat := if a + b < 2 ^ 128 then .ok (a + b) else abort

def mulU128 (a b : Nat) : Res ε Nat := if a * b < 2 ^ 128 then .ok (a * b) else abort

/-- The least `i64` has no absolute value. -/
def absI64 (a : Int) : Res ε Nat := if a = i64Min then abort else .ok a.natAbs

/-! ## Calls that return -/

theorem exists_bind_eq_ok : (∃ b, (x >>= f) = .ok b) ↔ ∃ a, x = .ok a ∧ ∃ b, f a = .ok b := by
  simp only [res_bind_eq_ok]
  constructor
  · rintro ⟨b, a, hx, hf⟩
    exact ⟨a, hx, b, hf⟩
  · rintro ⟨a, hx, b, hf⟩
    exact ⟨b, a, hx, hf⟩

/-- A call that is followed by none that fails. -/
theorem exists_bind_pure {f : α → β} :
    (∃ b, (x >>= fun a => .ok (f a)) = .ok b) ↔ ∃ a, x = .ok a := by
  rw [exists_bind_eq_ok]
  constructor
  · rintro ⟨a, hx, -⟩
    exact ⟨a, hx⟩
  · rintro ⟨a, hx⟩
    exact ⟨a, hx, f a, rfl⟩

@[simp] theorem mapErr_ne_abort {δ : Type} (x : Except δ α) (f : δ → ε) : mapErr x f ≠ abort := by
  cases x with
  | ok a => exact nofun
  | error e => exact fail_ne_abort (f e)

theorem mapErr_bind_ne_abort {δ : Type} {x : Except δ α} {f : δ → ε} {g : α → Res ε β}
    (hg : ∀ a, g a ≠ abort) : (mapErr x f >>= g) ≠ abort :=
  res_bind_ne_abort (mapErr_ne_abort x f) fun a _ => hg a

theorem mapFault_ne_abort {δ : Type} {x : Res δ α} (h : x ≠ abort) (f : δ → ε) :
    mapFault x f ≠ abort := by
  rcases x with (e | _) | a
  · exact fail_ne_abort (f e)
  · exact absurd rfl h
  · exact nofun

theorem forEach_ne_abort {f : α → Res ε Unit} (h : ∀ x ∈ xs, f x ≠ abort) :
    forEach f xs ≠ abort := by
  intro habort
  obtain ⟨before, x, after, rfl, -, hx⟩ := forEach_eq_abort.mp habort
  exact h x (by simp) hx

/-- A loop returns when each of its calls does. -/
theorem exists_mapM_eq_ok : (∃ ys, xs.mapM f = .ok ys) ↔ ∀ x ∈ xs, ∃ y, f x = .ok y := by
  induction xs with
  | nil => simp
  | cons x xs ih =>
    rw [List.mapM_cons, exists_bind_eq_ok, List.forall_mem_cons, ← ih]
    simp only [res_pure, exists_bind_pure]
    constructor
    · rintro ⟨y, hy, hys⟩
      exact ⟨⟨y, hy⟩, hys⟩
    · rintro ⟨⟨y, hy⟩, hys⟩
      exact ⟨y, hy, hys⟩

/-- A call that gives no error aborts when it does not return. -/
theorem eq_abort_of_forall_ne_ok {x : Res Empty α} (h : ∀ a, x ≠ .ok a) : x = abort := by
  rcases x with (e | _) | a
  · exact e.elim
  · rfl
  · exact absurd rfl (h a)

/-! ## Sums and differences -/

/-- A reading of the clock is an `i64`. -/
theorem fitsI64_timestampNanosSafe (timestamp : DateTime) :
    FitsI64 (timestampNanosSafe timestamp) := by
  unfold timestampNanosSafe timestampNanosOpt FitsI64 i64Min i64Max
  split
  · simp only [Option.getD_some]
    omega
  · simp only [Option.getD_none]
    omega

theorem addI64_eq_ok {a : Int} : addI64 (ε := ε) a b = .ok c ↔ FitsI64 (a + b) ∧ c = a + b := by
  unfold addI64
  split
  · rename_i hfits
    rw [Except.ok.injEq, and_iff_right hfits]
    exact eq_comm
  · rename_i hfits
    exact iff_of_false (abort_ne_ok c) fun h => hfits h.1

theorem subI64_eq_ok {a : Int} : subI64 (ε := ε) a b = .ok c ↔ FitsI64 (a - b) ∧ c = a - b :=
  addI64_eq_ok (b := -b)

theorem exists_subI64 {a : Int} : (∃ d, subI64 (ε := ε) a b = .ok d) ↔ FitsI64 (a - b) := by
  unfold subI64
  split
  next h => simp [h]
  next h => simp [h]

/-- A sum returns unless it leaves its type; no part of it leaves it before the whole does. -/
theorem exists_sumU64 {total : Nat} {xs : List Nat} (h : total < 2 ^ 64) :
    (∃ n, sumU64 (ε := ε) total xs = .ok n) ↔ total + xs.sum < 2 ^ 64 := by
  induction xs generalizing total with
  | nil =>
    rw [List.sum_nil, Nat.add_zero]
    exact iff_of_true ⟨total, rfl⟩ h
  | cons x xs ih =>
    rw [sumU64, List.sum_cons, ← Nat.add_assoc]
    by_cases hadd : total + x < 2 ^ 64
    · rw [checkedAdd_eq_some hadd, unwrap_some, res_ok_bind]
      exact ih hadd
    · rw [checkedAdd, if_neg hadd, unwrap_none, res_abort_bind]
      refine ⟨?_, fun hsum => absurd (Nat.lt_of_le_of_lt (Nat.le_add_right _ _) hsum) hadd⟩
      rintro ⟨n, hn⟩
      exact absurd hn (abort_ne_ok n)

theorem exists_differences {xs : List Int} :
    (∃ ds, differences (ε := ε) xs = .ok ds) ↔ xs.IsChain fun a b => FitsI64 (b - a) := by
  induction xs with
  | nil => simp [differences]
  | cons a xs ih =>
    cases xs with
    | nil => simp [differences]
    | cons b rest =>
      rw [differences, exists_bind_eq_ok, List.isChain_cons_cons, ← ih, ← exists_subI64 (ε := ε)]
      simp only [exists_bind_pure]
      constructor
      · rintro ⟨d, hd, hds⟩
        exact ⟨⟨d, hd⟩, hds⟩
      · rintro ⟨⟨d, hd⟩, hds⟩
        exact ⟨d, hd, hds⟩

/-- The successor of a number that is not the largest. -/
theorem toNat_add_one {b : UInt32} (h : a < b) : (a + 1).toNat = a.toNat + 1 := by
  have hlt : a.toNat < b.toNat := UInt32.lt_iff_toNat_lt.mp h
  have hb := b.toNat_lt
  rw [UInt32.toNat_add, show (1 : UInt32).toNat = 1 from rfl]
  exact Nat.mod_eq_of_lt (by omega)

theorem addU32_one {b : UInt32} (h : a < b) : addU32 (ε := ε) a 1 = .ok (a + 1) := by
  apply if_pos
  rw [show (1 : UInt32).toNat = 1 from rfl, ← toNat_add_one h]
  exact (a + 1).toNat_lt

theorem one_le_of_ne_zero (h : a ≠ 0) : 1 ≤ a := by
  have hne : a.toNat ≠ 0 := fun hzero => h (UInt32.toNat_inj.mp hzero)
  exact UInt32.le_iff_toNat_le.mpr (Nat.one_le_iff_ne_zero.mpr hne)

theorem subU32_one (h : a ≠ 0) : subU32 (ε := ε) a 1 = .ok (a - 1) :=
  if_pos (one_le_of_ne_zero h)

theorem toNat_sub_one (h : a ≠ 0) : (a - 1).toNat = a.toNat - 1 :=
  UInt32.toNat_sub_of_le _ _ (one_le_of_ne_zero h)

end Rust
