/-
  WritersProof.Lib.OrdMap

  A `BTreeMap` with integer keys: an association list with increasing keys.
  `Sorted` is the invariant, `mem_keys_insert` says which keys `insert` leaves, and on
  sorted maps a lookup is membership (`get?_eq_some_iff`).
-/
import Mathlib.Data.List.Forall2

abbrev OrdMap (α : Type) := List (Nat × α)

namespace OrdMap

variable {α : Type}

/-- `map.insert(key, value)`: an old value under the key is replaced. -/
def insert (key : Nat) (value : α) : OrdMap α → OrdMap α
  | [] => [(key, value)]
  | (k, v) :: rest =>
    if key < k then (key, value) :: (k, v) :: rest
    else if key = k then (key, value) :: rest
    else (k, v) :: insert key value rest

def keys (map : OrdMap α) : List Nat := map.map (·.1)

def get? (map : OrdMap α) (key : Nat) : Option α := map.lookup key

def Sorted (map : OrdMap α) : Prop := map.keys.Pairwise (· < ·)

@[simp] theorem keys_nil : keys ([] : OrdMap α) = [] := rfl

@[simp] theorem keys_cons (p : Nat × α) (map : OrdMap α) : keys (p :: map) = p.1 :: keys map := rfl

@[simp] theorem keys_append (a b : OrdMap α) : keys (a ++ b) = keys a ++ keys b :=
  List.map_append

variable {map : OrdMap α} {key : Nat} {value : α}

theorem mem_keys_of_mem (h : (key, value) ∈ map) :
    key ∈ map.keys := List.mem_map.mpr ⟨(key, value), h, rfl⟩

theorem exists_of_mem_keys (h : key ∈ map.keys) : ∃ value, (key, value) ∈ map := by
  obtain ⟨⟨k, v⟩, hmem, rfl⟩ := List.mem_map.mp h
  exact ⟨v, hmem⟩

/-! ## Insertion -/

theorem mem_keys_insert {key k : Nat} :
    k ∈ (insert key value map).keys ↔ k = key ∨ k ∈ map.keys := by
  induction map with
  | nil => simp [insert]
  | cons p rest ih =>
    obtain ⟨k', v'⟩ := p
    rw [insert]
    split
    · simp
    · split
      · rename_i heq
        simp [heq]
      · simp only [keys_cons, List.mem_cons, ih]
        tauto

/-- A key above all others goes to the end. -/
theorem insert_eq_append (value : α) (h : ∀ k ∈ map.keys, k < key) :
    insert key value map = map ++ [(key, value)] := by
  induction map with
  | nil => rfl
  | cons p rest ih =>
    obtain ⟨k, v⟩ := p
    have hk : k < key := h k List.mem_cons_self
    rw [insert, if_neg (by omega), if_neg (by omega),
      ih fun k' hk' => h k' (List.mem_cons_of_mem _ hk'), List.cons_append]

/-- Insertion in the order of the keys builds the list itself. -/
theorem foldl_insert_eq_append {entries : OrdMap α} :
    ∀ {map : OrdMap α}, (map ++ entries).Sorted →
      entries.foldl (fun m p => insert p.1 p.2 m) map = map ++ entries := by
  induction entries with
  | nil => exact fun _ => (List.append_nil _).symm
  | cons p rest ih =>
    intro map hsorted
    have hbelow : ∀ k ∈ map.keys, k < p.1 := by
      intro k hk
      rw [Sorted, keys_append, List.pairwise_append] at hsorted
      exact hsorted.2.2 k hk p.1 List.mem_cons_self
    rw [List.foldl_cons, insert_eq_append _ hbelow, ih, List.append_assoc]
    · rfl
    · rw [List.append_assoc]
      exact hsorted

/-! ## Lookup -/

theorem get?_eq_none_iff : map.get? key = none ↔ key ∉ map.keys := by
  induction map with
  | nil => simp [get?]
  | cons p rest ih =>
    obtain ⟨k, v⟩ := p
    rw [get?, List.lookup_cons, keys_cons, List.mem_cons]
    by_cases heq : key = k
    · simp [heq]
    · simp only [beq_eq_false_iff_ne.mpr heq, heq, false_or]
      exact ih

theorem mem_of_get? (h : map.get? key = some value) : (key, value) ∈ map := by
  induction map with
  | nil => cases h
  | cons p rest ih =>
    obtain ⟨k, v⟩ := p
    rw [get?, List.lookup_cons] at h
    by_cases heq : key = k
    · subst heq
      simp only [beq_self_eq_true] at h
      rw [Option.some.inj h]
      exact List.mem_cons_self
    · simp only [beq_eq_false_iff_ne.mpr heq] at h
      exact List.mem_cons_of_mem _ (ih h)

theorem get?_eq_some_iff (h : map.Sorted) : map.get? key = some value ↔ (key, value) ∈ map := by
  refine ⟨mem_of_get?, ?_⟩
  intro hmem
  induction map with
  | nil => cases hmem
  | cons p rest ih =>
    obtain ⟨k, v⟩ := p
    obtain ⟨hhead, hrest⟩ := List.pairwise_cons.mp h
    rw [get?, List.lookup_cons]
    rcases List.mem_cons.mp hmem with heq | hmem
    · obtain ⟨rfl, rfl⟩ := Prod.mk.inj heq
      simp
    · have hlt : k < key := hhead _ (mem_keys_of_mem hmem)
      simp only [beq_eq_false_iff_ne.mpr (Nat.ne_of_gt hlt)]
      exact ih hrest hmem

/-! ## Related maps -/

/-- The same keys, with related values. -/
def Related {β : Type} (R : α → β → Prop) : OrdMap α → OrdMap β → Prop :=
  List.Forall₂ fun x y => x.1 = y.1 ∧ R x.2 y.2

section Related

variable {β : Type} {R : α → β → Prop} {a : OrdMap α} {b : OrdMap β}

section

variable (h : Related R a b)

include h

theorem Related.keys_eq : a.keys = b.keys := by
  induction h with
  | nil => rfl
  | cons hx _ ih => rw [keys_cons, keys_cons, hx.1, ih]

theorem Related.insert (key : Nat) {x : α} {y : β} (hxy : R x y) :
    Related R (insert key x a) (insert key y b) := by
  induction h with
  | nil => exact .cons ⟨rfl, hxy⟩ .nil
  | @cons p q rest rest' hpq hrest ih =>
    obtain ⟨k, v⟩ := p
    obtain ⟨k', v'⟩ := q
    obtain ⟨hk, hv⟩ := hpq
    dsimp only at hk hv
    subst hk
    rw [OrdMap.insert, OrdMap.insert]
    split
    · exact .cons ⟨rfl, hxy⟩ (.cons ⟨rfl, hv⟩ hrest)
    · split
      · exact .cons ⟨rfl, hxy⟩ hrest
      · exact .cons ⟨rfl, hv⟩ ih

theorem Related.get? (key : Nat) : Option.Rel R (a.get? key) (b.get? key) := by
  induction h with
  | nil => exact .none
  | @cons p q rest rest' hpq hrest ih =>
    obtain ⟨k, v⟩ := p
    obtain ⟨k', v'⟩ := q
    obtain ⟨hk, hv⟩ := hpq
    dsimp only at hk hv
    subst hk
    rw [OrdMap.get?, OrdMap.get?, List.lookup_cons, List.lookup_cons]
    split
    · exact .some hv
    · exact ih

theorem Related.exists_left {x : Nat × α} (hx : x ∈ a) :
    ∃ y ∈ b, x.1 = y.1 ∧ R x.2 y.2 := by
  induction h with
  | nil => cases hx
  | @cons p q rest rest' hpq _ ih =>
    rcases List.mem_cons.mp hx with rfl | hx
    · exact ⟨q, List.mem_cons_self, hpq⟩
    · obtain ⟨y, hy, hxy⟩ := ih hx
      exact ⟨y, List.mem_cons_of_mem _ hy, hxy⟩

theorem Related.exists_right {y : Nat × β} (hy : y ∈ b) :
    ∃ x ∈ a, x.1 = y.1 ∧ R x.2 y.2 := by
  induction h with
  | nil => cases hy
  | @cons p q rest rest' hpq _ ih =>
    rcases List.mem_cons.mp hy with rfl | hy
    · exact ⟨p, List.mem_cons_self, hpq⟩
    · obtain ⟨x, hx, hxy⟩ := ih hy
      exact ⟨x, List.mem_cons_of_mem _ hx, hxy⟩

end

theorem Related.eq_map {f : α → β} (h : Related (fun x y => f x = y) a b) :
    b = a.map fun x => (x.1, f x.2) := by
  induction h with
  | nil => rfl
  | cons hpq _ ih => rw [List.map_cons, ← ih, hpq.1, hpq.2]

theorem related_zip {keys : List Nat} {xs : List α} {ys : List β} (hlen : xs.length = ys.length)
    (h : ∀ i (hx : i < xs.length) (hy : i < ys.length), R xs[i] ys[i]) :
    Related R (keys.zip xs) (keys.zip ys) := by
  rw [Related, List.forall₂_iff_get]
  refine ⟨by rw [List.length_zip, List.length_zip, hlen], ?_⟩
  intro i hi hi'
  rw [List.length_zip] at hi hi'
  simp only [List.get_eq_getElem, List.getElem_zip]
  exact ⟨trivial, h i (by omega) (by omega)⟩

theorem Related.foldl_insert {xs : OrdMap α} {ys : OrdMap β} (hxy : Related R xs ys) :
    ∀ {a : OrdMap α} {b : OrdMap β}, Related R a b →
      Related R (xs.foldl (fun map p => OrdMap.insert p.1 p.2 map) a)
        (ys.foldl (fun map p => OrdMap.insert p.1 p.2 map) b) := by
  induction hxy with
  | nil => exact fun h => h
  | @cons p q rest rest' hpq _ ih =>
    intro a b h
    rw [List.foldl_cons, List.foldl_cons, hpq.1]
    exact ih (h.insert q.1 hpq.2)

end Related

end OrdMap
