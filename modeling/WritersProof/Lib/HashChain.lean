/-
  WritersProof.Lib.HashChain

  Lists in which each element names the hash of the one before it.

  Where hashes do not collide, no hash occurs twice in a linked list, and what is
  linked from some tip of the list can only be the elements that follow there.
-/
import Mathlib.Data.List.Nodup

namespace HashChain

variable {α H : Type} {prev hash : α → H}

section Defs

variable (prev hash)

/-- Each element names the hash of the one before it, the first one `h₀`. -/
def Linked : H → List α → Prop
  | _, [] => True
  | h₀, x :: xs => prev x = h₀ ∧ Linked (hash x) xs

omit prev in
/-- The hash of the last element, `h₀` when there is none. -/
def tip : H → List α → H
  | h₀, [] => h₀
  | _, x :: xs => tip (hash x) xs

end Defs

@[simp] theorem tip_nil (h₀ : H) : tip hash h₀ [] = h₀ := rfl

@[simp] theorem tip_cons (h₀ : H) (x : α) (xs : List α) :
    tip hash h₀ (x :: xs) = tip hash (hash x) xs := rfl

@[simp] theorem linked_nil (h₀ : H) : Linked prev hash h₀ [] := trivial

variable {xs : List α} {h₀ : H} {x : α}

@[simp] theorem linked_cons :
    Linked prev hash h₀ (x :: xs) ↔ prev x = h₀ ∧ Linked prev hash (hash x) xs := Iff.rfl

theorem tip_append (h₀ : H) (xs ys : List α) :
    tip hash h₀ (xs ++ ys) = tip hash (tip hash h₀ xs) ys := by
  induction xs generalizing h₀ with
  | nil => rfl
  | cons x xs ih => exact ih (hash x)

@[simp] theorem tip_concat (h₀ : H) (xs : List α) (x : α) : tip hash h₀ (xs ++ [x]) = hash x := by
  rw [tip_append]
  rfl

theorem linked_append {xs ys : List α} :
    Linked prev hash h₀ (xs ++ ys) ↔
      Linked prev hash h₀ xs ∧ Linked prev hash (tip hash h₀ xs) ys := by
  induction xs generalizing h₀ with
  | nil => simp
  | cons x xs ih => rw [List.cons_append, linked_cons, linked_cons, ih, tip_cons, and_assoc]

theorem linked_concat :
    Linked prev hash h₀ (xs ++ [x]) ↔ Linked prev hash h₀ xs ∧ prev x = tip hash h₀ xs := by
  rw [linked_append, linked_cons]
  simp

/-- Linked elements, wherever they start. -/
theorem Linked.isChain (h : Linked prev hash h₀ xs) : xs.IsChain fun a b => prev b = hash a := by
  induction xs generalizing h₀ with
  | nil => exact .nil
  | cons x xs ih =>
    cases xs with
    | nil => exact .singleton x
    | cons y ys => exact List.isChain_cons_cons.mpr ⟨h.2.1, ih h.2⟩

/-- An element of a linked list names the tip of what stands before it. -/
theorem Linked.prev_eq (h : Linked prev hash h₀ xs) {k : Nat} (hk : k < xs.length) :
    prev xs[k] = tip hash h₀ (xs.take k) := by
  have hsplit : Linked prev hash h₀ (xs.take k ++ xs[k] :: xs.drop (k + 1)) := by
    rwa [List.getElem_cons_drop, List.take_append_drop]
  exact (linked_append.mp hsplit).2.1

/-! ## Encodings -/

section Map

variable {β K : Type} {prev' hash' : β → K} {f : α → β} {g : H → K}

theorem tip_map (hhash : ∀ x, hash' (f x) = g (hash x)) (h₀ : H) (xs : List α) :
    tip hash' (g h₀) (xs.map f) = g (tip hash h₀ xs) := by
  induction xs generalizing h₀ with
  | nil => rfl
  | cons x xs ih => rw [List.map_cons, tip_cons, tip_cons, hhash, ih]

/-- Elements are linked when what they are encoded as is. -/
theorem linked_map (hprev : ∀ x, prev' (f x) = g (prev x)) (hhash : ∀ x, hash' (f x) = g (hash x))
    (hg : ∀ a b, g a = g b → a = b) {h₀ : H} {xs : List α} :
    Linked prev' hash' (g h₀) (xs.map f) ↔ Linked prev hash h₀ xs := by
  induction xs generalizing h₀ with
  | nil => simp
  | cons x xs ih =>
    rw [List.map_cons, linked_cons, linked_cons, hprev, hhash, ih]
    exact and_congr_left fun _ => ⟨hg _ _, congrArg g⟩

end Map

/-! ## Without collisions -/

/-- Elements with one hash name the same predecessor, and no hash is the start. -/
structure CollisionFree (prev hash : α → H) (h₀ : H) (xs : List α) : Prop where
  prev_eq : ∀ x ∈ xs, ∀ y ∈ xs, hash x = hash y → prev x = prev y
  hash_ne : ∀ x ∈ xs, hash x ≠ h₀

variable {ys : List α} {m : Nat}

/-- Two prefixes with one tip are one prefix: from equal hashes one goes back to
    equal hashes, until the start is reached. -/
theorem Linked.length_eq_of_tip_eq (hl : Linked prev hash h₀ xs)
    (hfree : CollisionFree prev hash h₀ xs) {n : Nat} (hm : m ≤ xs.length) (hn : n ≤ xs.length)
    (h : tip hash h₀ (xs.take m) = tip hash h₀ (xs.take n)) : m = n := by
  have htake : ∀ k (hk : k < xs.length), tip hash h₀ (xs.take (k + 1)) = hash xs[k] := by
    intro k hk
    rw [← List.take_append_getElem hk, tip_concat]
  induction m generalizing n with
  | zero =>
    cases n with
    | zero => rfl
    | succ n =>
      rw [htake n hn] at h
      exact absurd h.symm (hfree.hash_ne _ (List.getElem_mem hn))
  | succ m ih =>
    cases n with
    | zero =>
      rw [htake m hm] at h
      exact absurd h (hfree.hash_ne _ (List.getElem_mem hm))
    | succ n =>
      rw [htake m hm, htake n hn] at h
      have hback := hfree.prev_eq _ (List.getElem_mem hm) _ (List.getElem_mem hn) h
      rw [hl.prev_eq hm, hl.prev_eq hn] at hback
      rw [ih (Nat.le_of_succ_le hm) (Nat.le_of_succ_le hn) hback]

/-- A linked list splits in one way only where the tip is given. -/
theorem Linked.prefix_eq {xs' ys' : List α} (hl : Linked prev hash h₀ (xs ++ ys))
    (hfree : CollisionFree prev hash h₀ (xs ++ ys)) (heq : xs ++ ys = xs' ++ ys')
    (h : tip hash h₀ xs = tip hash h₀ xs') : xs = xs' ∧ ys = ys' := by
  have htake : (xs ++ ys).take xs.length = xs := List.take_left
  have htake' : (xs ++ ys).take xs'.length = xs' := by
    rw [heq, List.take_left]
  have hle' : xs'.length ≤ (xs ++ ys).length := by
    rw [heq, List.length_append]
    exact Nat.le_add_right _ _
  have hlength : xs.length = xs'.length := by
    refine hl.length_eq_of_tip_eq hfree ?_ hle' (by rw [htake, htake', h])
    rw [List.length_append]
    exact Nat.le_add_right _ _
  exact List.append_inj heq hlength

section

variable (hl : Linked prev hash h₀ xs) (hfree : CollisionFree prev hash h₀ xs) (hm : m ≤ xs.length)

include hl hfree hm

/-- In a linked list no two elements name the same predecessor. -/
theorem Linked.eq_of_prev_eq {x : α} (hx : x ∈ xs) (h : prev x = tip hash h₀ (xs.take m)) :
    xs[m]? = some x := by
  obtain ⟨n, hn, rfl⟩ := List.mem_iff_getElem.mp hx
  have hmn := hl.length_eq_of_tip_eq hfree hm (Nat.le_of_lt hn) (h.symm.trans (hl.prev_eq hn))
  rw [hmn, List.getElem?_eq_getElem hn]

/-- What is linked from the tip of a prefix, with elements of the list only, is what
    follows the prefix there. -/
theorem Linked.eq_take_drop (hmem : ∀ y ∈ ys, y ∈ xs)
    (hys : Linked prev hash (tip hash h₀ (xs.take m)) ys) :
    ys = (xs.drop m).take ys.length ∧ m + ys.length ≤ xs.length := by
  induction ys generalizing m with
  | nil => exact ⟨by simp, by simpa using hm⟩
  | cons y ys ih =>
    rw [List.forall_mem_cons] at hmem
    have hy := hl.eq_of_prev_eq hfree hm hmem.1 hys.1
    obtain ⟨hlt, hy⟩ := List.getElem?_eq_some_iff.mp hy
    have htip : hash y = tip hash h₀ (xs.take (m + 1)) := by
      rw [← List.take_append_getElem hlt, tip_concat, hy]
    obtain ⟨hrest, hlen⟩ := ih hlt hmem.2 (htip ▸ hys.2)
    refine ⟨?_, by rw [List.length_cons]; omega⟩
    rw [List.drop_eq_getElem_cons hlt, List.length_cons, List.take_succ_cons, ← hrest, hy]

end

/-- Where the last element of one kind is what the first one of the other kind names,
    all elements of the one kind stand before those of the other. -/
theorem Linked.filter_append {pre : List α} {p : α → Bool} (hl : Linked prev hash h₀ (pre ++ xs))
    (hfree : CollisionFree prev hash h₀ (pre ++ xs)) {a b : α}
    (ha : (xs.filter p).getLast? = some a) (hb : (xs.filter fun x => !p x).head? = some b)
    (hab : prev b = hash a) : xs.filter p ++ (xs.filter fun x => !p x) = xs := by
  rw [List.head?_filter] at hb
  obtain ⟨hnb, u, v, rfl, hu⟩ := List.find?_eq_some_iff_append.mp hb
  rw [List.getLast?_filter] at ha
  obtain ⟨hpa, v', u', hrev, hv'⟩ := List.find?_eq_some_iff_append.mp ha
  have hsplit : u ++ b :: v = u'.reverse ++ [a] ++ v'.reverse := by
    rw [← List.reverse_reverse (u ++ b :: v), hrev]
    simp
  -- what `b` names is the tip before it and the tip after `a`, so `b` follows `a`
  have hbefore : prev b = tip hash h₀ (pre ++ u) := by
    rw [← List.append_assoc] at hl
    exact (linked_append.mp hl).2.1
  have hafter : hash a = tip hash h₀ (pre ++ (u'.reverse ++ [a])) := by
    rw [← List.append_assoc, tip_concat]
  have hwhole : pre ++ u ++ b :: v = pre ++ (u'.reverse ++ [a]) ++ v'.reverse := by
    rw [List.append_assoc, hsplit, List.append_assoc pre]
  rw [← List.append_assoc] at hl hfree
  have hend := (hl.prefix_eq hfree hwhole (hbefore.symm.trans (hab.trans hafter))).2
  have hu : u.filter p = u := List.filter_eq_self.mpr fun x hx => by simpa using hu x hx
  have hv : (b :: v).filter p = [] := by
    rw [hend, List.filter_eq_nil_iff]
    intro x hx
    simpa using hv' x (List.mem_reverse.mp hx)
  have hu' : (u.filter fun x => !p x) = [] := by
    rw [← hu, List.filter_filter]
    simp
  have hv' : ((b :: v).filter fun x => !p x) = b :: v := by
    rw [List.filter_eq_self]
    intro x hx
    have := List.filter_eq_nil_iff.mp hv x hx
    simpa using this
  rw [List.filter_append, List.filter_append, hu, hv, hu', hv', List.append_nil, List.nil_append]

end HashChain
