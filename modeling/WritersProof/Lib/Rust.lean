/-
  WritersProof.Lib.Rust

  How a Rust call ends, for programs built with `overflow-checks` on and
  `panic = "abort"`: it returns a value, it returns an error, or it aborts.
  `Res` is the outcome of a call that touches no state, `Call` the outcome of a
  method that may also change the state behind `&self`.  A failed call keeps
  the state it reached, so what an early `?` leaves behind stays visible.

  Machine integers are `Nat`; the operations below carry the checks that the
  generated code makes on `u64` operands.
-/
import Mathlib.Algebra.Group.Int.Defs
import Mathlib.Algebra.Group.Nat.Defs

namespace Rust

/-- How a call ends when it returns no value. -/
inductive Fault (ε : Type) where
  | err (e : ε)
  | panic
  deriving DecidableEq, Repr

/-- `Result<α, ε>` of a call that may also abort. -/
abbrev Res (ε α : Type) := Except (Fault ε) α

instance {ε α : Type} [DecidableEq ε] [DecidableEq α] : DecidableEq (Res ε α)
  | .ok a, .ok b => decidable_of_iff (a = b) (by simp)
  | .error a, .error b => decidable_of_iff (a = b) (by simp)
  | .ok _, .error _ => .isFalse (by simp)
  | .error _, .ok _ => .isFalse (by simp)

def fail {ε α : Type} (e : ε) : Res ε α := .error (.err e)

/-- A checked operation or an index that goes out of bounds. -/
def abort {ε α : Type} : Res ε α := .error .panic

def okOr {ε α : Type} (opt : Option α) (e : ε) : Res ε α :=
  match opt with
  | some a => .ok a
  | none => fail e

@[simp] theorem okOr_some {ε α : Type} (a : α) (e : ε) : okOr (some a) e = .ok a := rfl

@[simp] theorem okOr_none {ε α : Type} (e : ε) : okOr (none : Option α) e = fail e := rfl

/-! ## Checked `u64` arithmetic -/

def checkedAdd (a b : Nat) : Option Nat :=
  if a + b < 2 ^ 64 then some (a + b) else none

def checkedSub (a b : Nat) : Option Nat :=
  if b ≤ a then some (a - b) else none

def checkedMul (a b : Nat) : Option Nat :=
  if a * b < 2 ^ 64 then some (a * b) else none

def checkedDiv (a b : Nat) : Option Nat := if b = 0 then none else some (a / b)

def saturatingAdd (a b : Nat) : Nat := min (a + b) (2 ^ 64 - 1)

theorem checkedAdd_eq_some {a b : Nat} (h : a + b < 2 ^ 64) : checkedAdd a b = some (a + b) := by
  rw [checkedAdd, if_pos h]

theorem checkedMul_eq_some {a b : Nat} (h : a * b < 2 ^ 64) : checkedMul a b = some (a * b) := by
  rw [checkedMul, if_pos h]

theorem checkedAdd_cases (a b : Nat) : checkedAdd a b = some (a + b) ∨ checkedAdd a b = none := by
  unfold checkedAdd
  split
  · exact .inl rfl
  · exact .inr rfl

def leadingZeros (x : Nat) : Nat := if x = 0 then 64 else 63 - x.log2

/-- `opt` of a plain operator: `None` aborts. -/
def unwrap {ε α : Type} (opt : Option α) : Res ε α :=
  match opt with
  | some a => .ok a
  | none => abort

@[simp] theorem unwrap_some {ε α : Type} (a : α) : unwrap (ε := ε) (some a) = .ok a := rfl

@[simp] theorem unwrap_none {ε α : Type} : unwrap (ε := ε) (none : Option α) = abort := rfl

/-! ## Outcomes without state -/

section Res

variable {ε α β : Type}

@[simp] theorem res_pure (a : α) : (pure a : Res ε α) = .ok a := rfl

@[simp] theorem res_ok_bind (a : α) (f : α → Res ε β) : (Except.ok a >>= f : Res ε β) = f a := rfl

@[simp] theorem res_fail_bind (e : ε) (f : α → Res ε β) : (fail e >>= f : Res ε β) = fail e := rfl

@[simp] theorem res_abort_bind (f : α → Res ε β) : (abort >>= f : Res ε β) = abort := rfl

@[simp] theorem fail_ne_ok (e : ε) (a : α) : (fail e : Res ε α) ≠ .ok a := by
  simp [fail]

@[simp] theorem abort_ne_ok (a : α) : (abort : Res ε α) ≠ .ok a := by
  simp [abort]

variable {x : Res ε α} {a : α} {f : α → Res ε β} {e : ε} {b : β} {opt : Option α} {c : Nat}
  {p : Prop}

/-- A sequence of two calls returns a value when both do. -/
theorem res_bind_eq_ok {x : Except ε α} {f : α → Except ε β} :
    (x >>= f) = .ok b ↔ ∃ a, x = .ok a ∧ f a = .ok b := by
  cases x with
  | error e =>
    constructor
    · intro h
      cases h
    · rintro ⟨a, h, -⟩
      cases h
  | ok a =>
    constructor
    · intro h
      exact ⟨a, rfl, h⟩
    · rintro ⟨a', h, h'⟩
      cases h
      exact h'

/-- A sequence of two calls aborts when the first does, or the second on its value. -/
theorem res_bind_eq_abort : (x >>= f) = abort ↔ x = abort ∨ ∃ a, x = .ok a ∧ f a = abort := by
  cases x with
  | ok a =>
    constructor
    · intro h
      exact .inr ⟨a, rfl, h⟩
    · rintro (h | ⟨a', h, h'⟩)
      · cases h
      · cases h
        exact h'
  | error fault =>
    constructor
    · intro h
      cases h
      exact .inl rfl
    · rintro (h | ⟨a, h, -⟩)
      · cases h
        rfl
      · cases h

/-- A sequence of two calls returns when the first does, and the second on its value. -/
theorem res_bind_ne_abort (hx : x ≠ abort) (hf : ∀ a, x = .ok a → f a ≠ abort) :
    (x >>= f) ≠ abort := by
  intro h
  obtain h | ⟨a, ha, h⟩ := res_bind_eq_abort.mp h
  · exact hx h
  · exact hf a ha h

@[simp] theorem fail_ne_abort (e : ε) : (fail e : Res ε α) ≠ abort := nofun

@[simp] theorem okOr_ne_abort (opt : Option α) (e : ε) : okOr opt e ≠ abort := by
  cases opt
  · exact fail_ne_abort e
  · exact nofun

theorem okOr_bind_ne_abort (hf : ∀ a, f a ≠ abort) :
    (okOr opt e >>= f) ≠ abort := res_bind_ne_abort (okOr_ne_abort opt e) fun a _ => hf a

@[simp] theorem okOr_eq_ok : okOr opt e = .ok a ↔ opt = some a := by
  cases opt with
  | none => simp
  | some b => simp

theorem unwrap_checkedAdd_eq_ok {a b : Nat} :
    unwrap (ε := ε) (checkedAdd a b) = .ok c ↔ a + b < 2 ^ 64 ∧ c = a + b := by
  by_cases h : a + b < 2 ^ 64
  · rw [checkedAdd_eq_some h, unwrap_some]
    exact ⟨fun hc => ⟨h, (Except.ok.inj hc).symm⟩, fun hc => by rw [hc.2]⟩
  · rw [checkedAdd, if_neg h]
    exact ⟨nofun, fun hc => absurd hc.1 h⟩

theorem okOr_checkedAdd_eq_ok {a b : Nat} (h : okOr (checkedAdd a b) e = .ok c) :
    a + b < 2 ^ 64 ∧ c = a + b := by
  unfold checkedAdd at h
  split at h
  · exact ⟨by assumption, (Except.ok.inj h).symm⟩
  · cases h

theorem guard_fail_eq_ok [Decidable p] : (if p then fail e else x) = .ok a ↔ ¬ p ∧ x = .ok a := by
  by_cases h : p <;> simp [h]

/-- A value that is checked to be in range. -/
theorem ite_abort_eq_ok [Decidable p] {b : α} :
    (if p then (.ok a : Res ε α) else abort) = .ok b ↔ p ∧ a = b := by
  by_cases h : p <;> simp [h]

/-- What a computation shows of the value that a call returns. -/
theorem exists_ok_of_toOption {f : α → β} (h : x.toOption.map f = some b) :
    ∃ a, x = .ok a ∧ f a = b := by
  cases x with
  | error e => cases h
  | ok a => exact ⟨a, rfl, Option.some.inj h⟩

/-- An error behind a branch that returns comes from the rest. -/
theorem ok_of_ite_ok [Decidable p] {b : α} (h : (if p then .ok a else x) = .ok b) :
    p ∧ a = b ∨ x = .ok b := by
  split at h
  next hp => exact .inl ⟨hp, Except.ok.inj h⟩
  next => exact .inr h

theorem error_of_ite_ok [Decidable p] {e : Fault ε} (h : (if p then .ok a else x) = .error e) :
    x = .error e := by
  by_cases hp : p
  · rw [if_pos hp] at h
    cases h
  · rwa [if_neg hp] at h

end Res

/-! ## Two runs of the same code -/

/-- Both calls fail alike, or both return, with related values. -/
def SameOutcome {ε α β : Type} (R : α → β → Prop) : Res ε α → Res ε β → Prop
  | .ok a, .ok b => R a b
  | .error e, .error e' => e = e'
  | _, _ => False

namespace SameOutcome

variable {ε α α' β β' : Type} {R : α → α' → Prop} {S : β → β' → Prop}

variable {x : Res ε α}

theorem refl : SameOutcome (· = ·) x x := by
  cases x with
  | ok a => exact rfl
  | error e => exact rfl

variable {x' : Res ε α'}

theorem bind {f : α → Res ε β} {f' : α' → Res ε β'} (hx : SameOutcome R x x')
    (hf : ∀ a a', R a a' → SameOutcome S (f a) (f' a')) :
    SameOutcome S (x >>= f) (x' >>= f') := by
  cases x with
  | ok a =>
    cases x' with
    | ok a' => exact hf a a' hx
    | error e => exact hx.elim
  | error e =>
    cases x' with
    | ok a' => exact hx.elim
    | error e' => exact hx

theorem ite {p : Prop} [Decidable p] {x y : Res ε α} {y' : Res ε α'} (hx : p → SameOutcome R x x')
    (hy : ¬ p → SameOutcome R y y') :
    SameOutcome R (if p then x else y) (if p then x' else y') := by
  by_cases h : p
  · rw [if_pos h, if_pos h]
    exact hx h
  · rw [if_neg h, if_neg h]
    exact hy h

theorem mono {R' : α → α' → Prop} (h : SameOutcome R x x') (hR : ∀ a a', R a a' → R' a a') :
    SameOutcome R' x x' := by
  cases x with
  | ok a =>
    cases x' with
    | ok a' => exact hR a a' h
    | error e => exact h.elim
  | error e =>
    cases x' with
    | ok a' => exact h.elim
    | error e' => exact h

theorem exists_of_ok {a : α} (h : SameOutcome R (.ok a) x') : ∃ a', x' = .ok a' ∧ R a a' := by
  cases x' with
  | ok a' => exact ⟨a', rfl, h⟩
  | error e => exact h.elim

theorem exists_of_ok' {a' : α'} (h : SameOutcome R x (.ok a')) : ∃ a, x = .ok a ∧ R a a' := by
  cases x with
  | ok a => exact ⟨a, rfl, h⟩
  | error e => exact h.elim

end SameOutcome

/-! ## Calls on a state -/

/-- A method behind `&self`: the outcome and the state it leaves. -/
def Call (σ ε α : Type) := σ → Res ε α × σ

namespace Call

variable {σ τ ε α β : Type}

instance : Monad (Call σ ε) where
  pure a := fun s => (.ok a, s)
  bind x f := fun s =>
    match x s with
    | (.ok a, s') => f a s'
    | (.error e, s') => (.error e, s')

def lift (r : Res ε α) : Call σ ε α := fun s => (r, s)

/-- Read from the state. -/
def asks (f : σ → α) : Call σ ε α := fun s => (.ok (f s), s)

/-- Change the state. -/
def modify (f : σ → σ) : Call σ ε Unit := fun s => (.ok (), f s)

/-- `if p { return Err(e); }` -/
def reject (p : Prop) [Decidable p] (e : ε) : Call σ ε Unit := fun s =>
  if p then (fail e, s) else (.ok (), s)

/-- Run `cleanup` when the call fails; its own outcome is dropped. -/
def onError (x : Call σ ε α) (cleanup : Call σ ε β) : Call σ ε α := fun s =>
  match x s with
  | (.ok a, s') => (.ok a, s')
  | (.error e, s') => (.error e, (cleanup s').2)

/-- Hold on to the `Result` of a call.  An abort still ends the program. -/
def attempt (x : Call σ ε α) : Call σ ε (Except ε α) := fun s =>
  match x s with
  | (.ok a, s') => (.ok (.ok a), s')
  | (.error (.err e), s') => (.ok (.error e), s')
  | (.error .panic, s') => (abort, s')

/-- Run the second call where the first one fails. -/
def orElse (x y : Call σ ε α) : Call σ ε α := fun s =>
  match x s with
  | (.ok a, s') => (.ok a, s')
  | (.error _, s') => y s'

/-- Run a call on one component of a larger state. -/
def zoom (get : τ → σ) (set : σ → τ → τ) (x : Call σ ε α) : Call τ ε α := fun t =>
  let (r, s) := x (get t)
  (r, set s t)

@[simp] theorem pure_apply (a : α) (s : σ) : (pure a : Call σ ε α) s = (.ok a, s) := rfl

@[simp] theorem lift_apply (r : Res ε α) (s : σ) : lift r s = (r, s) := rfl

@[simp] theorem modify_apply (f : σ → σ) (s : σ) :
    (modify f : Call σ ε Unit) s = (.ok (), f s) := rfl

variable {p : Prop} {x : Call σ ε α} {f : α → Call σ ε β}

theorem reject_neg [Decidable p] (h : ¬ p) (e : ε) (s : σ) : reject p e s = (.ok (), s) := by
  rw [reject, if_neg h]

theorem reject_pos [Decidable p] (h : p) (e : ε) (s : σ) : reject p e s = (fail e, s) := by
  rw [reject, if_pos h]

variable {a : α} {s s' : σ} {cleanup : Call σ ε β} {e : Fault ε} {b : β}

theorem onError_of_ok (h : x s = (.ok a, s')) : onError x cleanup s = (.ok a, s') := by
  rw [onError, h]

theorem onError_of_error (h : x s = (.error e, s')) :
    onError x cleanup s = (.error e, (cleanup s').2) := by
  rw [onError, h]

theorem attempt_of_ok (h : x s = (.ok a, s')) : attempt x s = (.ok (.ok a), s') := by
  rw [attempt, h]

theorem attempt_of_fail {e : ε} (h : x s = (fail e, s')) : attempt x s = (.ok (.error e), s') := by
  rw [attempt, h, fail]

theorem attempt_of_abort (h : x s = (abort, s')) : attempt x s = (abort, s') := by
  rw [attempt, h, abort]

/-- What a call that was held on to has done. -/
theorem attempt_cases (x : Call σ ε α) (s : σ) :
    (∃ a, x s = (.ok a, (x s).2) ∧ attempt x s = (.ok (.ok a), (x s).2))
      ∨ (∃ e, x s = (fail e, (x s).2) ∧ attempt x s = (.ok (.error e), (x s).2))
      ∨ x s = (abort, (x s).2) ∧ attempt x s = (abort, (x s).2) := by
  unfold attempt
  rcases x s with ⟨(e | _) | a, s'⟩
  · exact .inr (.inl ⟨e, rfl, rfl⟩)
  · exact .inr (.inr ⟨rfl, rfl⟩)
  · exact .inl ⟨a, rfl, rfl⟩

theorem bind_apply (x : Call σ ε α) (f : α → Call σ ε β) (s : σ) :
    (x >>= f) s = match x s with
      | (.ok a, s') => f a s'
      | (.error e, s') => (.error e, s') := rfl

/-- After a call that returned `a`, the rest runs on `a`. -/
theorem bind_of_ok (h : x s = (.ok a, s')) : (x >>= f) s = f a s' := by
  rw [bind_apply, h]

theorem asks_bind (g : σ → α) (f : α → Call σ ε β) (s : σ) : (asks g >>= f) s = f (g s) s := rfl

theorem asks_id_bind (f : σ → Call σ ε β) (s : σ) : (asks id >>= f) s = f s s := rfl

theorem lift_ok_bind (a : α) (f : α → Call σ ε β) (s : σ) : (lift (.ok a) >>= f) s = f a s := rfl

theorem lift_error_bind (e : Fault ε) (f : α → Call σ ε β) (s : σ) :
    (lift (.error e) >>= f) s = (.error e, s) := rfl

theorem bind_of_error (h : x s = (.error e, s')) : (x >>= f) s = (.error e, s') := by
  rw [bind_apply, h]

theorem reject_bind_pos [Decidable p] (h : p) (e : ε) (f : Unit → Call σ ε α) (s : σ) :
    (reject p e >>= f) s = (fail e, s) := bind_of_error (reject_pos h e s)

theorem reject_bind_neg [Decidable p] (h : ¬ p) (e : ε) (f : Unit → Call σ ε α) (s : σ) :
    (reject p e >>= f) s = f () s := bind_of_ok (reject_neg h e s)

/-- A sequence of two calls returns a value when both do. -/
theorem bind_eq_ok {s'' : σ} :
    (x >>= f) s = (.ok b, s'') ↔ ∃ a s', x s = (.ok a, s') ∧ f a s' = (.ok b, s'') := by
  rw [bind_apply]
  constructor
  · intro h
    rcases hx : x s with ⟨_ | a, s'⟩
    · rw [hx] at h
      cases h
    · rw [hx] at h
      exact ⟨a, s', rfl, h⟩
  · rintro ⟨a, s', hx, hf⟩
    rw [hx]
    exact hf

theorem lift_bind_eq_ok {r : Res ε α} :
    (lift r >>= f) s = (.ok b, s') ↔ ∃ a, r = .ok a ∧ f a s = (.ok b, s') := by
  cases r with
  | ok a =>
    rw [lift_ok_bind]
    constructor
    · exact fun h => ⟨a, rfl, h⟩
    · rintro ⟨_, ha, h⟩
      rwa [Except.ok.inj ha]
  | error e =>
    rw [lift_error_bind]
    constructor
    · intro h
      cases h
    · rintro ⟨_, ha, -⟩
      cases ha

theorem reject_bind_eq_ok [Decidable p] {e : ε} {f : Unit → Call σ ε β} :
    (reject p e >>= f) s = (.ok b, s') ↔ ¬ p ∧ f () s = (.ok b, s') := by
  by_cases h : p
  · rw [reject_bind_pos h]
    simp [h, fail]
  · rw [reject_bind_neg h]
    simp [h]

/-! ### What a call leaves alone -/

/-- The call leaves a part of the state as it is, however it ends. -/
def Keeps {π : Type} (part : σ → π) (x : Call σ ε α) : Prop := ∀ s, part (x s).2 = part s

section Keeps

variable {π : Type} {part : σ → π}

theorem keeps_pure (a : α) : Keeps part (pure a : Call σ ε α) := fun _ => rfl

theorem keeps_lift (r : Res ε α) : Keeps part (lift r : Call σ ε α) := fun _ => rfl

theorem keeps_asks (f : σ → α) : Keeps part (asks f : Call σ ε α) := fun _ => rfl

theorem keeps_reject (p : Prop) [Decidable p] (e : ε) :
    Keeps part (reject p e : Call σ ε Unit) := by
  intro s
  unfold reject
  split <;> rfl

theorem Keeps.bind {x : Call σ ε α} {f : α → Call σ ε β} (hx : Keeps part x)
    (hf : ∀ a, Keeps part (f a)) : Keeps part (x >>= f) := by
  intro s
  rw [bind_apply, ← hx s]
  rcases x s with ⟨_ | a, s'⟩
  · rfl
  · exact hf a s'

theorem Keeps.attempt {x : Call σ ε α} (hx : Keeps part x) : Keeps part (attempt x) := by
  intro s
  rw [← hx s]
  rcases attempt_cases x s with ⟨a, -, h⟩ | ⟨e, -, h⟩ | ⟨-, h⟩ <;> rw [h]

end Keeps

end Call

end Rust
