/-
  WritersProof.Lib.MerkleHeap

  Perfect binary hash trees in heap order: the root at position 1, the children
  of `p` at `2p` and `2p + 1`, the leaves at `n .. 2n`.

  The siblings of a heap lead from a node to its ancestor (`climb_siblings`).
  Only the parities of `pos` on the way up matter (`climb_add_mul`), so a path
  may be checked against the index of a leaf or against its position.  A path binds
  its leaf as long as the combined pairs do not collide (`eq_of_climb_eq`).
-/
import WritersProof.Lib.Vec
import Mathlib.Data.Nat.Log
import Mathlib.Tactic.Ring

namespace MerkleHeap

variable {α : Type} (combine : α → α → α)

/-- The node that a path leads to from `cur` at `pos`. -/
def climb : Nat → α → List α → α
  | _, cur, [] => cur
  | pos, cur, sibling :: path =>
    climb (pos / 2) (if pos % 2 = 0 then combine cur sibling else combine sibling cur) path

def siblingOf (pos : Nat) : Nat := if pos % 2 = 0 then pos + 1 else pos - 1

/-- The siblings of `pos` and of its ancestors, `d` of them. -/
def siblings (get : Nat → α) : Nat → Nat → List α
  | 0, _ => []
  | d + 1, pos => get (siblingOf pos) :: siblings get d (pos / 2)

/-- Node number `j` at height `d` of the tree over the leaves `leaf 0, leaf 1, ..`. -/
def subtree (leaf : Nat → α) : Nat → Nat → α
  | 0, j => leaf j
  | d + 1, j => combine (subtree leaf d (2 * j)) (subtree leaf d (2 * j + 1))

/-- Every inner node but `q` combines its children. -/
def IsHeapExcept (get : Nat → α) (n q : Nat) : Prop :=
  ∀ p, 0 < p → p < n → p ≠ q → get p = combine (get (2 * p)) (get (2 * p + 1))

/-- Every inner node combines its children. -/
def IsHeap (get : Nat → α) (n : Nat) : Prop := IsHeapExcept combine get n 0

variable {combine} {get get' : Nat → α} {n : Nat}

@[simp] theorem length_siblings (d pos : Nat) : (siblings get d pos).length = d := by
  induction d generalizing pos with
  | zero => rfl
  | succ d ih => rw [siblings, List.length_cons, ih]

theorem IsHeap.eq (h : IsHeap combine get n) {p : Nat} (hp : 0 < p) (hpn : p < n) :
    get p = combine (get (2 * p)) (get (2 * p + 1)) :=
  h p hp hpn (Nat.ne_of_gt hp)

/-- The nodes of a heap are those of the tree over its leaves. -/
theorem IsHeap.eq_subtree {k d : Nat} (h : IsHeap combine get (2 ^ (k + d))) {j : Nat}
    (hj : j < 2 ^ k) :
    get (2 ^ k + j) = subtree combine (fun i => get (2 ^ (k + d) + i)) d j := by
  induction d generalizing k j with
  | zero => rfl
  | succ d ih =>
    have hpow : 2 ^ (k + 1) = 2 * 2 ^ k := Nat.pow_succ'
    have hlt : 2 ^ k + j < 2 ^ (k + (d + 1)) := by
      have : 2 ^ (k + 1) ≤ 2 ^ (k + (d + 1)) := Nat.pow_le_pow_right (by decide) (by omega)
      omega
    have hsum : k + (d + 1) = k + 1 + d := by omega
    rw [h.eq (by omega) hlt, subtree]
    rw [hsum] at h ⊢
    rw [← ih h (by omega), ← ih h (by omega), show 2 * (2 ^ k + j) = 2 ^ (k + 1) + 2 * j by omega,
      Nat.add_assoc]

variable {d pos : Nat}

theorem IsHeap.root_eq (h : IsHeap combine get (2 ^ d)) :
    get 1 = subtree combine (fun i => get (2 ^ d + i)) d 0 := by
  have hroot := @IsHeap.eq_subtree _ combine get 0 d (by rwa [Nat.zero_add]) 0 (by decide)
  rwa [Nat.zero_add] at hroot

/-- A subtree looks at the leaves below it. -/
theorem subtree_congr {leaf leaf' : Nat → α} {j : Nat}
    (h : ∀ i, j * 2 ^ d ≤ i → i < (j + 1) * 2 ^ d → leaf i = leaf' i) :
    subtree combine leaf d j = subtree combine leaf' d j := by
  induction d generalizing j with
  | zero =>
    rw [Nat.pow_zero, Nat.mul_one, Nat.mul_one] at h
    exact h j (Nat.le_refl j) (Nat.lt_succ_self j)
  | succ d ih =>
    have hlo : j * 2 ^ (d + 1) = 2 * j * 2 ^ d := by ring
    have hmid : (2 * j + 1) * 2 ^ d = 2 * j * 2 ^ d + 2 ^ d := by ring
    have hhi : (j + 1) * 2 ^ (d + 1) = (2 * j + 1 + 1) * 2 ^ d := by ring
    have hend : (2 * j + 1 + 1) * 2 ^ d = 2 * j * 2 ^ d + 2 * 2 ^ d := by ring
    rw [hlo, hhi] at h
    rw [subtree, subtree, ih (fun i h1 h2 => h i h1 (by omega)),
      ih (fun i h1 h2 => h i (by omega) h2)]

/-! ## Paths -/

theorem IsHeap.parent (h : IsHeap combine get n) (hlo : 1 < pos) (hhi : pos < 2 * n) :
    (if pos % 2 = 0 then combine (get pos) (get (siblingOf pos))
      else combine (get (siblingOf pos)) (get pos)) = get (pos / 2) := by
  have hparent := @IsHeap.eq _ _ _ _ h (pos / 2) (by omega) (by omega)
  by_cases heven : pos % 2 = 0
  · rw [if_pos heven, siblingOf, if_pos heven, hparent, show 2 * (pos / 2) = pos by omega]
  · rw [if_neg heven, siblingOf, if_neg heven, hparent, show 2 * (pos / 2) = pos - 1 by omega,
      show pos - 1 + 1 = pos by omega]

/-- The siblings of a node lead to its ancestor. -/
theorem IsHeap.climb_siblings (h : IsHeap combine get n) (hlo : 2 ^ d ≤ pos) (hhi : pos < 2 * n) :
    climb combine pos (get pos) (siblings get d pos) = get (pos / 2 ^ d) := by
  induction d generalizing pos with
  | zero => rw [siblings, climb, Nat.pow_zero, Nat.div_one]
  | succ d ih =>
    rw [Nat.pow_succ] at hlo
    have hpos := Nat.two_pow_pos d
    have hup : 2 ^ d ≤ pos / 2 := by omega
    rw [siblings, climb, h.parent (by omega) hhi, ih hup (by omega), Nat.div_div_eq_div_mul,
      Nat.pow_succ']

/-- A path looks at the parities of as many positions as it is long. -/
theorem climb_add_mul (path : List α) (pos k : Nat) (cur : α) :
    climb combine (pos + k * 2 ^ path.length) cur path = climb combine pos cur path := by
  induction path generalizing pos cur with
  | nil => rfl
  | cons sibling path ih =>
    have hsplit : pos + k * 2 ^ (path.length + 1) = pos + 2 * (k * 2 ^ path.length) := by
      rw [Nat.pow_succ]
      ring
    have hparity : (pos + 2 * (k * 2 ^ path.length)) % 2 = pos % 2 := by omega
    have hhalf : (pos + 2 * (k * 2 ^ path.length)) / 2 = pos / 2 + k * 2 ^ path.length := by
      omega
    rw [List.length_cons, hsplit, climb, climb, hparity, hhalf, ih]

/-- From leaf `i` of a heap of height `d` the siblings lead to the root. -/
theorem IsHeap.climb_leaf (h : IsHeap combine get (2 ^ d)) {i : Nat} (hi : i < 2 ^ d) :
    climb combine i (get (2 ^ d + i)) (siblings get d (2 ^ d + i)) = get 1 := by
  have hroot : (2 ^ d + i) / 2 ^ d = 1 := by
    rw [Nat.div_eq_of_lt_le] <;> omega
  have hclimb := h.climb_siblings (Nat.le_add_right (2 ^ d) i) (by omega)
  have hshift : climb combine (i + 1 * 2 ^ (siblings get d (2 ^ d + i)).length) (get (2 ^ d + i))
      (siblings get d (2 ^ d + i)) = climb combine i (get (2 ^ d + i))
        (siblings get d (2 ^ d + i)) := climb_add_mul _ _ _ _
  rw [length_siblings, Nat.one_mul, Nat.add_comm i] at hshift
  rw [← hshift, hclimb, hroot]

variable (combine) in
/-- The pairs that are combined on the way up. -/
def climbed : Nat → α → List α → List (α × α)
  | _, _, [] => []
  | pos, cur, sibling :: path =>
    let pair := if pos % 2 = 0 then (cur, sibling) else (sibling, cur)
    pair :: climbed (pos / 2) (combine pair.1 pair.2) path

/-- Where no two pairs collide, what a path of the right length leads to determines the node
and the path. -/
theorem eq_of_climb_eq {path path' : List α} {pos' : Nat} {a b : α}
    (hlen : path.length = path'.length) (hpos : pos % 2 ^ path.length = pos' % 2 ^ path.length)
    (hfree : ∀ x ∈ climbed combine pos a path, ∀ y ∈ climbed combine pos' b path',
      combine x.1 x.2 = combine y.1 y.2 → x = y)
    (h : climb combine pos a path = climb combine pos' b path') : a = b ∧ path = path' := by
  induction path generalizing path' pos pos' a b with
  | nil =>
    obtain rfl := List.length_eq_zero_iff.mp hlen.symm
    exact ⟨h, rfl⟩
  | cons sibling path ih =>
    obtain ⟨sibling', path', rfl⟩ := List.exists_cons_of_length_eq_add_one hlen.symm
    have htail : path.length = path'.length := Nat.succ.inj hlen
    rw [List.length_cons] at hpos
    have hparity : pos % 2 = pos' % 2 := by
      have hmod := congrArg (· % 2) hpos
      simpa only [Nat.pow_succ, Nat.mod_mul_left_mod] using hmod
    have hup : pos / 2 % 2 ^ path.length = pos' / 2 % 2 ^ path.length := by
      have hdiv := congrArg (· / 2) hpos
      simpa only [Nat.pow_succ', Nat.mod_mul_right_div_self] using hdiv
    rw [climbed, climbed, ← hparity] at hfree
    rw [climb, climb, ← hparity] at h
    -- the side of the node is the same on both ways up
    by_cases heven : pos % 2 = 0
    · simp only [if_pos heven] at hfree h
      obtain ⟨hparent, rfl⟩ :=
        ih htail hup (fun x hx y hy => hfree x (.tail _ hx) y (.tail _ hy)) h
      have hpair := hfree _ (.head _) _ (.head _) hparent
      injection hpair with hnode hsibling
      exact ⟨hnode, by rw [hsibling]⟩
    · simp only [if_neg heven] at hfree h
      obtain ⟨hparent, rfl⟩ :=
        ih htail hup (fun x hx y hy => hfree x (.tail _ hx) y (.tail _ hy)) h
      have hpair := hfree _ (.head _) _ (.head _) hparent
      injection hpair with hsibling hnode
      exact ⟨hnode, by rw [hsibling]⟩

/-- A node is none of the siblings on its way up. -/
theorem siblings_congr (hlo : 2 ^ d ≤ pos) (h : ∀ p, 0 < p → p ≠ pos → get' p = get p) :
    siblings get' d pos = siblings get d pos := by
  -- on the way up from a smaller position, the positions looked at stay smaller
  have hup : ∀ e q, 2 ^ e ≤ q → q ≤ pos / 2 → siblings get' e q = siblings get e q := by
    intro e
    induction e with
    | zero => intros; rfl
    | succ e ih =>
      intro q hq hhalf
      rw [Nat.pow_succ] at hq
      have hpos := Nat.two_pow_pos e
      have hsibling : 0 < siblingOf q ∧ siblingOf q ≠ pos := by
        unfold siblingOf
        split <;> omega
      rw [siblings, siblings, h _ hsibling.1 hsibling.2, ih (q / 2) (by omega) (by omega)]
  cases d with
  | zero => rfl
  | succ d =>
    rw [Nat.pow_succ] at hlo
    have hpos := Nat.two_pow_pos d
    have hsibling : 0 < siblingOf pos ∧ siblingOf pos ≠ pos := by
      unfold siblingOf
      split <;> omega
    rw [siblings, siblings, h _ hsibling.1 hsibling.2, hup d (pos / 2) (by omega) (Nat.le_refl _)]

/-! ## Changes -/

/-- Recomputing node `q` leaves its parent to be recomputed. -/
theorem IsHeapExcept.update {q : Nat} (h : IsHeapExcept combine get n q)
    (hq : get' q = combine (get (2 * q)) (get (2 * q + 1)))
    (hkeep : ∀ p, 0 < p → p ≠ q → get' p = get p) : IsHeapExcept combine get' n (q / 2) := by
  intro p hp hpn hne
  by_cases hpq : p = q
  · subst hpq
    rw [hq, hkeep _ (by omega) (by omega), hkeep _ (by omega) (by omega)]
  · rw [hkeep p hp hpq, hkeep _ (by omega) (by omega), hkeep _ (by omega) (by omega)]
    exact h p hp hpn hpq

/-- Two heaps over the same leaves are the same. -/
theorem IsHeap.unique (h : IsHeap combine get n) (h' : IsHeap combine get' n)
    (hleaves : ∀ p, n ≤ p → p < 2 * n → get p = get' p) {p : Nat} (hp : 0 < p)
    (hpn : p < 2 * n) : get p = get' p := by
  induction hk : 2 * n - p using Nat.strong_induction_on generalizing p with
  | _ k ih =>
    by_cases hleaf : n ≤ p
    · exact hleaves p hleaf hpn
    · rw [h.eq hp (by omega), h'.eq hp (by omega),
        ih (2 * n - 2 * p) (by omega) (by omega) (by omega) rfl,
        ih (2 * n - (2 * p + 1)) (by omega) (by omega) (by omega) rfl]

/-! ## Heaps in a vector -/

section Vector

open Rust

variable {ε : Type} (combine) (d : α)

/-- Node `p` of a heap whose root is at `v[1 - off]`. -/
def nodeAt (off : Nat) (v : List α) (p : Nat) : α := v.getD (p - off) d

/-- Compute the inner nodes from `k` up to the root:
    `v[p - off] = combine(v[2p - off], v[2p + 1 - off])`. -/
def combineNodes (off : Nat) : Nat → List α → Res ε (List α)
  | 0, v => .ok v
  | k + 1, v => do
    let left ← index v (2 * (k + 1) - off)
    let right ← index v (2 * (k + 1) + 1 - off)
    let v ← assign v (k + 1 - off) (combine left right)
    combineNodes off k v

variable {combine} {d} {off : Nat}

/-- An assignment changes one node. -/
theorem nodeAt_set {v : List α} {p q : Nat} {a : α} (hoff : off ≤ 1) (hq : 0 < q)
    (hp : 0 < p) (hlt : q - off < v.length) :
    nodeAt d off (v.set (q - off) a) p = if p = q then a else nodeAt d off v p := by
  unfold nodeAt
  by_cases hpq : p = q
  · subst hpq
    rw [if_pos rfl, List.getD_eq_getElem?_getD, List.getElem?_set_self hlt, Option.getD_some]
  · rw [if_neg hpq, List.getD_eq_getElem?_getD, List.getElem?_set_ne (by omega),
      List.getD_eq_getElem?_getD]

/-- The loop over the inner nodes makes a heap and keeps the leaves. -/
theorem combineNodes_spec (hoff : off ≤ 1) {n k : Nat} {v : List α}
    (hlen : v.length = 2 * n - off) (hk : k < n)
    (hheap : ∀ p, k < p → p < n →
      nodeAt d off v p = combine (nodeAt d off v (2 * p)) (nodeAt d off v (2 * p + 1))) :
    ∃ v', combineNodes (ε := ε) combine off k v = .ok v' ∧ v'.length = v.length
      ∧ IsHeap combine (nodeAt d off v') n
      ∧ ∀ p, n ≤ p → nodeAt d off v' p = nodeAt d off v p := by
  induction k generalizing v with
  | zero =>
    exact ⟨v, rfl, rfl, fun p hp hpn _ => hheap p hp hpn, fun _ _ => rfl⟩
  | succ k ih =>
    -- node `k + 1` is computed from children that the rest of the loop leaves alone
    let a := combine (nodeAt d off v (2 * (k + 1))) (nodeAt d off v (2 * (k + 1) + 1))
    have hset : ∀ p, 0 < p → nodeAt d off (v.set (k + 1 - off) a) p
        = if p = k + 1 then a else nodeAt d off v p := by
      intro p hp
      exact nodeAt_set hoff (Nat.succ_pos k) hp (by omega)
    obtain ⟨v', hrun, hlen', hheap', hleaves⟩ := ih (v := v.set (k + 1 - off) a)
      (by rw [List.length_set, hlen]) (by omega) (by
        intro p hp hpn
        rw [hset p (by omega), hset (2 * p) (by omega), hset (2 * p + 1) (by omega),
          if_neg (show 2 * p ≠ k + 1 by omega), if_neg (show 2 * p + 1 ≠ k + 1 by omega)]
        by_cases hpk : p = k + 1
        · subst hpk
          rw [if_pos rfl]
        · rw [if_neg hpk]
          exact hheap p (by omega) hpn)
    refine ⟨v', ?_, by rw [hlen', List.length_set], hheap', ?_⟩
    · rw [combineNodes, index_of_lt (by omega) d, res_ok_bind, index_of_lt (by omega) d,
        res_ok_bind, assign_of_lt (by omega), res_ok_bind]
      exact hrun
    · intro p hp
      rw [hleaves p hp, hset p (by omega), if_neg (by omega)]

end Vector

end MerkleHeap
