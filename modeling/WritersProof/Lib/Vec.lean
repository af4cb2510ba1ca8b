/-
  WritersProof.Lib.Vec

  Vectors and the calls that go over them: an index or an assignment out of
  range aborts, a loop stops at the first call that fails.
-/
import WritersProof.Lib.Rust
import Mathlib.Data.List.Basic

namespace Rust

variable {ε α β : Type}

def index (xs : List α) (i : Nat) : Res ε α := unwrap xs[i]?

def assign (xs : List α) (i : Nat) (x : α) : Res ε (List α) :=
  if i < xs.length then .ok (xs.set i x) else abort

def mapErr {δ : Type} (x : Except δ α) (f : δ → ε) : Res ε α :=
  match x with
  | .ok a => .ok a
  | .error e => fail (f e)

/-- `x.map_err(f)?` of a call that may abort -/
def mapFault {δ : Type} (x : Res δ α) (f : δ → ε) : Res ε α :=
  match x with
  | .ok a => .ok a
  | .error (.err e) => fail (f e)
  | .error .panic => abort

/-- `for (i, x) in xs.iter().enumerate() { v[k + i] = x; }` -/
def writeAll (v : List α) : Nat → List α → Res ε (List α)
  | _, [] => .ok v
  | k, x :: xs => do
    let v ← assign v k x
    writeAll v (k + 1) xs

/-- `for x in xs { f(x)?; }` -/
def forEach (f : α → Res ε Unit) : List α → Res ε Unit
  | [] => .ok ()
  | x :: xs => do
    f x
    forEach f xs

/-- `for (i, x) in xs.iter().enumerate()`, where `f` also sees the element before `x` -/
def forEachAfter (f : Nat → Option α → α → Res ε Unit) : Nat → Option α → List α → Res ε Unit
  | _, _, [] => .ok ()
  | i, prev, x :: xs => do
    f i prev x
    forEachAfter f (i + 1) (some x) xs

/-- Each element is right with respect to the one before it. -/
def EachAfter (R : Option α → α → Prop) : Option α → List α → Prop
  | _, [] => True
  | prev, x :: xs => R prev x ∧ EachAfter R (some x) xs

/-- `if p { return Err(e); }` -/
def reject (p : Prop) [Decidable p] (e : ε) : Res ε Unit := if p then fail e else .ok ()

/-- `Result::is_ok` of a call; an abort still ends the program. -/
def isOk {δ : Type} : Res δ α → Res ε Bool
  | .ok _ => .ok true
  | .error (.err _) => .ok false
  | .error .panic => abort

theorem isOk_eq_true {δ : Type} {x : Res δ α} : isOk (ε := ε) x = .ok true ↔ ∃ a, x = .ok a := by
  rcases x with (_ | _) | a
  · exact ⟨(fun h => nomatch h), (fun ⟨_, h⟩ => nomatch h)⟩
  · exact ⟨(fun h => nomatch h), (fun ⟨_, h⟩ => nomatch h)⟩
  · exact ⟨fun _ => ⟨a, rfl⟩, fun _ => rfl⟩

variable {xs : List α} {f : α → Res ε β} {R : Option α → α → Prop} {prev : Option α} {i k : Nat}
  {x a : α} {p : Prop} {e : ε} {b : β} {Q : Option α → α → Prop} {g : α → β} {ys : List β}

theorem index_eq_ok : index (ε := ε) xs i = .ok x ↔ xs[i]? = some x := by
  unfold index
  cases xs[i]? with
  | none => simp
  | some y => simp

theorem index_of_lt (h : i < xs.length) (d : α) : index (ε := ε) xs i = .ok (xs.getD i d) := by
  rw [index_eq_ok, List.getD_eq_getElem?_getD, List.getElem?_eq_getElem h, Option.getD_some]

theorem assign_of_lt (h : i < xs.length) (x : α) : assign (ε := ε) xs i x = .ok (xs.set i x) := by
  rw [assign, if_pos h]

@[simp] theorem mapErr_eq_ok {δ : Type} {x : Except δ α} {f : δ → ε} :
    mapErr x f = .ok a ↔ x = .ok a := by
  cases x with
  | ok b => simp [mapErr]
  | error e => simp [mapErr]

/-- What is written replaces as much of the vector. -/
theorem writeAll_eq (v : List α) (h : k + xs.length ≤ v.length) :
    writeAll (ε := ε) v k xs = .ok (v.take k ++ xs ++ v.drop (k + xs.length)) := by
  induction xs generalizing v k with
  | nil => simp [writeAll]
  | cons x xs ih =>
    rw [List.length_cons] at h
    have hset : v.set k x = v.take k ++ x :: v.drop (k + 1) := by
      rw [List.set_eq_take_append_cons_drop, if_pos (by omega)]
    have hk : (v.take k).length = k := by
      rw [List.length_take]
      omega
    have htake : (v.set k x).take (k + 1) = v.take k ++ [x] := by
      rw [hset, List.take_append, hk, List.take_of_length_le (by omega)]
      simp
    have hdrop : (v.set k x).drop (k + 1 + xs.length) = v.drop (k + 1 + xs.length) := by
      rw [List.drop_set_of_lt (by omega)]
    rw [writeAll, assign_of_lt (by omega), res_ok_bind, ih _ (by rw [List.length_set]; omega),
      htake, hdrop]
    simp [Nat.add_assoc, Nat.add_comm 1]

theorem writeAll_append (pre old post new : List α) (hk : k = pre.length)
    (hlen : old.length = new.length) :
    writeAll (ε := ε) (pre ++ old ++ post) k new = .ok (pre ++ new ++ post) := by
  subst hk
  have hafter : pre.length + new.length = (pre ++ old).length := by
    rw [List.length_append, hlen]
  rw [writeAll_eq _ (by rw [List.length_append]; omega), hafter, List.drop_left,
    List.append_assoc pre old, List.take_left]

@[simp] theorem reject_eq_ok [Decidable p] : reject p e = .ok () ↔ ¬ p := by
  rw [reject, guard_fail_eq_ok]
  simp

theorem reject_bind_eq_ok [Decidable p] {x : Unit → Res ε α} :
    (reject p e >>= x) = .ok a ↔ ¬ p ∧ x () = .ok a := by
  rw [res_bind_eq_ok]
  constructor
  · rintro ⟨⟨⟩, hp, hx⟩
    exact ⟨reject_eq_ok.mp hp, hx⟩
  · rintro ⟨hp, hx⟩
    exact ⟨(), reject_eq_ok.mpr hp, hx⟩

@[simp] theorem mapFault_eq_ok {δ : Type} {x : Res δ α} {f : δ → ε} :
    mapFault x f = .ok a ↔ x = .ok a := by
  cases x with
  | ok b => simp [mapFault]
  | error fault =>
    cases fault with
    | err e => simp [mapFault]
    | panic => simp [mapFault]

/-- A call that returns nothing, in front of another one. -/
theorem okOr_bind_eq_ok {opt : Option α} :
    (okOr opt e >>= f) = .ok b ↔ ∃ a, opt = some a ∧ f a = .ok b := by
  simp only [res_bind_eq_ok, okOr_eq_ok]

theorem mapErr_bind_eq_ok {δ : Type} {x : Except δ α} {g : δ → ε} :
    (mapErr x g >>= f) = .ok b ↔ ∃ a, x = .ok a ∧ f a = .ok b := by
  simp only [res_bind_eq_ok, mapErr_eq_ok]

theorem unit_bind_eq_ok {x : Res ε Unit} {f : Unit → Res ε α} :
    (x >>= f) = .ok a ↔ x = .ok () ∧ f () = .ok a := by
  rw [res_bind_eq_ok]
  constructor
  · rintro ⟨⟨⟩, hx, hf⟩
    exact ⟨hx, hf⟩
  · rintro ⟨hx, hf⟩
    exact ⟨(), hx, hf⟩

theorem forEach_eq_ok {f : α → Res ε Unit} : forEach f xs = .ok () ↔ ∀ x ∈ xs, f x = .ok () := by
  induction xs with
  | nil => simp [forEach]
  | cons x xs ih => rw [forEach, unit_bind_eq_ok, ih, List.forall_mem_cons]

@[simp] theorem reject_ne_abort [Decidable p] : reject p e ≠ abort := by
  unfold reject
  split <;> exact nofun

theorem reject_bind_ne_abort [Decidable p] {f : Unit → Res ε α} (hf : f () ≠ abort) :
    (reject p e >>= f) ≠ abort :=
  res_bind_ne_abort reject_ne_abort fun _ _ => hf

theorem reject_bind_eq_abort [Decidable p] {f : Unit → Res ε α} :
    (reject p e >>= f) = abort ↔ ¬ p ∧ f () = abort := by
  rw [res_bind_eq_abort, or_iff_right reject_ne_abort]
  constructor
  · rintro ⟨⟨⟩, hp, hf⟩
    exact ⟨reject_eq_ok.mp hp, hf⟩
  · rintro ⟨hp, hf⟩
    exact ⟨(), reject_eq_ok.mpr hp, hf⟩

theorem unit_bind_eq_abort {x : Res ε Unit} {f : Unit → Res ε α} :
    (x >>= f) = abort ↔ x = abort ∨ x = .ok () ∧ f () = abort := by
  rw [res_bind_eq_abort]
  constructor
  · rintro (h | ⟨⟨⟩, h⟩)
    · exact .inl h
    · exact .inr h
  · rintro (h | h)
    · exact .inl h
    · exact .inr ⟨(), h⟩

/-- An element of a list is the first one or behind it. -/
theorem exists_split_cons {p q : α → Prop} :
    (∃ before y after, x :: xs = before ++ y :: after ∧ (∀ z ∈ before, p z) ∧ q y) ↔
      q x ∨ p x ∧ ∃ before y after, xs = before ++ y :: after ∧ (∀ z ∈ before, p z) ∧ q y := by
  constructor
  · rintro ⟨before, y, after, hsplit, hbefore, hy⟩
    cases before with
    | nil =>
      cases hsplit
      exact .inl hy
    | cons z before =>
      cases hsplit
      rw [List.forall_mem_cons] at hbefore
      exact .inr ⟨hbefore.1, before, y, after, rfl, hbefore.2, hy⟩
  · rintro (hx | ⟨hx, before, y, after, rfl, hbefore, hy⟩)
    · exact ⟨[], x, xs, rfl, List.forall_mem_nil _, hx⟩
    · exact ⟨x :: before, y, after, rfl, List.forall_mem_cons.mpr ⟨hx, hbefore⟩, hy⟩

/-- A loop aborts at the first element that does not return. -/
theorem forEach_eq_abort {f : α → Res ε Unit} :
    forEach f xs = abort ↔ ∃ before x after, xs = before ++ x :: after
      ∧ (∀ y ∈ before, f y = .ok ()) ∧ f x = abort := by
  induction xs with
  | nil => simp [forEach, abort]
  | cons x xs ih => rw [forEach, unit_bind_eq_abort, ih, exists_split_cons]

theorem mapM_eq_abort :
    xs.mapM f = abort ↔ ∃ before x after, xs = before ++ x :: after
      ∧ (∀ y ∈ before, ∃ b, f y = .ok b) ∧ f x = abort := by
  have hreturn : ∀ (b : β) (ys : List α),
      (do let bs ← ys.mapM f; pure (b :: bs)) = abort ↔ ys.mapM f = abort := by
    intro b ys
    rw [res_bind_eq_abort]
    exact or_iff_left (by rintro ⟨bs, -, ⟨⟩⟩)
  induction xs with
  | nil => simp [abort, pure, Except.pure]
  | cons x xs ih =>
    rw [List.mapM_cons, res_bind_eq_abort, exists_split_cons]
    simp only [hreturn, ih, exists_and_right]

theorem forEachAfter_eq_ok {f : Nat → Option α → α → Res ε Unit}
    (h : ∀ i prev x, f i prev x = .ok () ↔ R prev x) :
    forEachAfter f i prev xs = .ok () ↔ EachAfter R prev xs := by
  induction xs generalizing i prev with
  | nil => exact iff_of_true rfl trivial
  | cons x xs ih => rw [forEachAfter, unit_bind_eq_ok, h, ih, EachAfter]

theorem eachAfter_append {xs ys : List α} :
    EachAfter R prev (xs ++ ys) ↔ EachAfter R prev xs ∧ EachAfter R (xs.getLast?.or prev) ys := by
  induction xs generalizing prev with
  | nil => simp [EachAfter]
  | cons x xs ih =>
    rw [List.cons_append, EachAfter, ih, EachAfter, and_assoc]
    cases xs with
    | nil => rfl
    | cons y xs => rw [List.getLast?_cons_cons, List.getLast?_cons]; rfl

theorem eachAfter_concat :
    EachAfter R prev (xs ++ [x]) ↔ EachAfter R prev xs ∧ R (xs.getLast?.or prev) x :=
  eachAfter_append.trans (and_congr_right fun _ => and_iff_left trivial)

theorem eachAfter_and :
    EachAfter (fun prev x => R prev x ∧ Q prev x) prev xs
      ↔ EachAfter R prev xs ∧ EachAfter Q prev xs := by
  induction xs generalizing prev with
  | nil => exact (and_self_iff).symm
  | cons x xs ih => rw [EachAfter, ih, EachAfter, EachAfter, and_and_and_comm]

theorem EachAfter.mono (h : ∀ prev x, R prev x → Q prev x) (hxs : EachAfter R prev xs) :
    EachAfter Q prev xs := by
  induction xs generalizing prev with
  | nil => trivial
  | cons x xs ih => exact ⟨h _ _ hxs.1, ih hxs.2⟩

theorem allM_eq_true {p : α → Res ε Bool} : xs.allM p = .ok true ↔ ∀ x ∈ xs, p x = .ok true := by
  induction xs with
  | nil => simp [List.allM]
  | cons x xs ih =>
    rw [List.allM, res_bind_eq_ok, List.forall_mem_cons, ← ih]
    constructor
    · rintro ⟨b, hb, h⟩
      cases b with
      | false => cases h
      | true => exact ⟨hb, h⟩
    · rintro ⟨hx, h⟩
      exact ⟨true, hx, h⟩

theorem mapM_eq_map (h : ∀ x ∈ xs, f x = .ok (g x)) : xs.mapM f = .ok (xs.map g) := by
  induction xs with
  | nil => rfl
  | cons x xs ih =>
    rw [List.forall_mem_cons] at h
    rw [List.mapM_cons, h.1, res_ok_bind, ih h.2, res_ok_bind, List.map_cons, res_pure]

/-- A loop over calls whose results are those of a function, where they return. -/
theorem mapM_eq_ok_iff (h : ∀ x y, f x = .ok y → y = g x) :
    xs.mapM f = .ok ys ↔ (∀ x ∈ xs, f x = .ok (g x)) ∧ ys = xs.map g := by
  constructor
  · intro hrun
    have hall : ∀ x ∈ xs, f x = .ok (g x) := by
      induction xs generalizing ys with
      | nil => simp
      | cons x xs ih =>
        rw [List.mapM_cons] at hrun
        obtain ⟨y, hy, hrun⟩ := res_bind_eq_ok.mp hrun
        obtain ⟨ys', hys, -⟩ := res_bind_eq_ok.mp hrun
        rw [List.forall_mem_cons]
        exact ⟨h x y hy ▸ hy, ih hys⟩
    rw [mapM_eq_map hall] at hrun
    exact ⟨hall, (Except.ok.inj hrun).symm⟩
  · rintro ⟨hall, rfl⟩
    exact mapM_eq_map hall

/-- A loop that returns pairs each entry with its result. -/
theorem mapM_forall₂ (h : xs.mapM f = .ok ys) : List.Forall₂ (fun x y => f x = .ok y) xs ys := by
  induction xs generalizing ys with
  | nil =>
    rw [List.mapM_nil] at h
    obtain rfl := Except.ok.inj h
    exact .nil
  | cons x xs ih =>
    rw [List.mapM_cons] at h
    obtain ⟨y, hy, h⟩ := res_bind_eq_ok.mp h
    obtain ⟨ys', hys, h⟩ := res_bind_eq_ok.mp h
    obtain rfl := Except.ok.inj h
    exact .cons hy (ih hys)

/-- An entry of the second of two related lists belongs to one of the first. -/
theorem exists_of_mem_right {R : α → β → Prop} (h : List.Forall₂ R xs ys) {y : β} (hy : y ∈ ys) :
    ∃ x ∈ xs, R x y := by
  induction h with
  | nil => cases hy
  | @cons a b xs ys hab _ ih =>
    rcases List.mem_cons.mp hy with rfl | hy
    · exact ⟨a, List.mem_cons_self, hab⟩
    · obtain ⟨x, hx, hxy⟩ := ih hy
      exact ⟨x, List.mem_cons_of_mem a hx, hxy⟩

end Rust
