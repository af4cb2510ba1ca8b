/-
  WritersProof.Lib.SqlTable

  Tables of an SQL database with an `INTEGER PRIMARY KEY AUTOINCREMENT`: rows in the order of
  their ids, and the counter that the next id is taken from.

  An id is never used twice, so a row that is deleted and inserted again has a new one.
-/
import WritersProof.Lib.Vec
import WritersProof.Lib.Time
import Mathlib.Data.List.Sort

namespace Sql

open Rust

variable {α β σ ε : Type}

/-- A transaction that is dropped before its commit is rolled back. -/
def transaction (x : Call σ ε α) : Call σ ε α := fun s =>
  match x s with
  | (.ok a, s') => (.ok a, s')
  | (.error e, _) => (.error e, s)

theorem transaction_eq_ok {x : Call σ ε α} {s s' : σ} {a : α} :
    transaction x s = (.ok a, s') ↔ x s = (.ok a, s') := by
  rw [transaction]
  rcases x s with ⟨_ | b, t⟩
  · simp
  · exact Iff.rfl

theorem transaction_error {x : Call σ ε α} {s s' : σ} {e : Fault ε}
    (h : transaction x s = (.error e, s')) : s' = s := by
  rw [transaction] at h
  rcases hx : x s with ⟨_ | b, t⟩
  · rw [hx] at h
    exact (Prod.mk.inj h).2.symm
  · rw [hx] at h
    cases h

/-- Entries in strict order with one key are one entry. -/
theorem eq_of_key_eq {key : α → Int} {xs : List α} (h : xs.Pairwise fun a b => key a < key b)
    {a b : α} (ha : a ∈ xs) (hb : b ∈ xs) (heq : key a = key b) : a = b := by
  have hnodup : (xs.map key).Nodup := (List.pairwise_map.mpr h).imp fun hlt => Int.ne_of_lt hlt
  exact List.inj_on_of_nodup_map hnodup ha hb heq

structure Row (α : Type) where
  id : Int
  record : α
  deriving DecidableEq

/-- A table whose ids count up and never pass its counter. -/
structure Table (α : Type) where
  rows : List (Row α)
  sequence : Int
  ascending : rows.Pairwise fun a b => a.id < b.id
  bounded : ∀ row ∈ rows, row.id ≤ sequence

def Row.change (id : Int) (f : α → α) (row : Row α) : Row α :=
  if row.id = id then { row with record := f row.record } else row

@[simp] theorem Row.id_change (id : Int) (f : α → α) (row : Row α) :
    (Row.change id f row).id = row.id := by
  rw [Row.change]
  split <;> rfl

namespace Table

def empty : Table α := ⟨[], 0, List.Pairwise.nil, nofun⟩

/-- All records, in the order of their ids. -/
def records (t : Table α) : List α := t.rows.map Row.record

/-- `SELECT ... WHERE id = ?` -/
def get? (t : Table α) (id : Int) : Option α := (t.rows.find? (·.id = id)).map Row.record

/-- The table with one more row, under the next id. -/
def insert (t : Table α) (record : α) : Table α where
  rows := t.rows ++ [⟨t.sequence + 1, record⟩]
  sequence := t.sequence + 1
  ascending := by
    rw [List.pairwise_append]
    refine ⟨t.ascending, List.pairwise_singleton _ _, fun a ha b hb => ?_⟩
    rw [List.mem_singleton.mp hb]
    exact Int.lt_add_one_of_le (t.bounded a ha)
  bounded := by
    intro row hrow
    rcases List.mem_append.mp hrow with h | h
    · exact Int.le_of_lt (Int.lt_add_one_of_le (t.bounded row h))
    · exact Int.le_of_eq (congrArg Row.id (List.mem_singleton.mp h))

def delete (t : Table α) (id : Int) : Table α where
  rows := t.rows.filter (·.id ≠ id)
  sequence := t.sequence
  ascending := t.ascending.filter _
  bounded row hrow := t.bounded row (List.mem_filter.mp hrow).1

def update (t : Table α) (id : Int) (f : α → α) : Table α where
  rows := t.rows.map (Row.change id f)
  sequence := t.sequence
  ascending := by
    rw [List.pairwise_map]
    simpa only [Row.id_change] using t.ascending
  bounded := by
    intro row hrow
    obtain ⟨old, hold, rfl⟩ := List.mem_map.mp hrow
    rw [Row.id_change]
    exact t.bounded old hold

/-! ## Which records there are -/

variable {t : Table α} {id : Int} {record : α}

theorem find?_eq_some {row : Row α} :
    t.rows.find? (·.id = id) = some row ↔ row ∈ t.rows ∧ row.id = id := by
  constructor
  · intro h
    exact ⟨List.mem_of_find?_eq_some h, by simpa using List.find?_some h⟩
  · rintro ⟨hrow, rfl⟩
    obtain ⟨found, hfound⟩ : ∃ found, t.rows.find? (·.id = row.id) = some found := by
      rw [← Option.isSome_iff_exists, List.find?_isSome]
      exact ⟨row, hrow, by simp⟩
    have hid : found.id = row.id := by simpa using List.find?_some hfound
    rw [hfound, eq_of_key_eq t.ascending (List.mem_of_find?_eq_some hfound) hrow hid]

theorem get?_eq_some : t.get? id = some record ↔ ⟨id, record⟩ ∈ t.rows := by
  rw [get?, Option.map_eq_some_iff]
  constructor
  · rintro ⟨row, hrow, rfl⟩
    obtain ⟨hmem, rfl⟩ := find?_eq_some.mp hrow
    exact hmem
  · intro h
    exact ⟨_, find?_eq_some.mpr ⟨h, rfl⟩, rfl⟩

theorem mem_records_of_get? (h : t.get? id = some record) : record ∈ t.records :=
  List.mem_map.mpr ⟨_, get?_eq_some.mp h, rfl⟩

@[simp] theorem records_insert (t : Table α) (record : α) :
    (t.insert record).records = t.records ++ [record] := by
  simp only [records, insert, List.map_append, List.map_cons, List.map_nil]

theorem records_delete_sublist (t : Table α) (id : Int) :
    (t.delete id).records.Sublist t.records := List.filter_sublist.map _

/-- The new row is the only one under its id. -/
@[simp] theorem get?_insert_next (t : Table α) (record : α) :
    (t.insert record).get? (t.sequence + 1) = some record :=
  get?_eq_some.mpr (List.mem_append_right _ List.mem_cons_self)

theorem le_sequence_of_get? (h : t.get? id = some record) : id ≤ t.sequence :=
  t.bounded _ (get?_eq_some.mp h)

theorem get?_insert_of_le (t : Table α) (record : α) (h : id ≤ t.sequence) :
    (t.insert record).get? id = t.get? id := by
  apply Option.ext
  intro found
  rw [get?_eq_some, get?_eq_some, insert, List.mem_append, List.mem_singleton, Row.mk.injEq]
  constructor
  · rintro (hold | ⟨hid, -⟩)
    · exact hold
    · omega
  · exact Or.inl

@[simp] theorem get?_delete_self (t : Table α) (id : Int) : (t.delete id).get? id = none := by
  rw [Option.eq_none_iff_forall_ne_some]
  intro record h
  have hmem := get?_eq_some.mp h
  simp [delete] at hmem

theorem get?_update_self (t : Table α) (id : Int) (f : α → α) :
    (t.update id f).get? id = (t.get? id).map f := by
  apply Option.ext
  intro found
  rw [get?_eq_some, Option.map_eq_some_iff]
  simp only [get?_eq_some, update, List.mem_map]
  constructor
  · rintro ⟨⟨old, record⟩, hmem, hchange⟩
    have hid := congrArg Row.id hchange
    rw [Row.id_change] at hid
    obtain rfl : old = id := hid
    rw [Row.change, if_pos rfl] at hchange
    exact ⟨record, hmem, congrArg Row.record hchange⟩
  · rintro ⟨record, hmem, rfl⟩
    exact ⟨_, hmem, by rw [Row.change, if_pos rfl]⟩

/-- What an update does not change, it does not change in any record. -/
theorem map_records_update {g : α → β} (id : Int) (f : α → α) (h : ∀ a, g (f a) = g a) :
    (t.update id f).records.map g = t.records.map g := by
  rw [records, records, update, List.map_map, List.map_map, List.map_map]
  apply List.map_congr_left
  intro row _
  show g (Row.change id f row).record = g row.record
  rw [Row.change]
  split
  · exact h row.record
  · rfl

@[simp] theorem sequence_insert (t : Table α) (record : α) :
    (t.insert record).sequence = t.sequence + 1 := rfl

end Table

/-- `ORDER BY key ASC`: rows with the same key come in any order. -/
structure OrderBy (key : α → Int) where
  sort : List α → List α
  perm : ∀ xs, (sort xs).Perm xs
  ordered : ∀ xs, (sort xs).Pairwise fun a b => key a ≤ key b

/-- Rows whose keys go up stay where they are. -/
theorem OrderBy.sort_eq {key : α → Int} (order : OrderBy key) {xs : List α}
    (h : xs.Pairwise fun a b => key a < key b) : order.sort xs = xs := by
  have hle := h.imp fun hlt => Int.le_of_lt hlt
  refine List.Perm.eq_of_pairwise ?_ (order.ordered xs) hle (order.perm xs)
  intro a b ha hb hab hba
  have hkey : key a = key b := Int.le_antisymm hab hba
  exact eq_of_key_eq h ((order.perm xs).mem_iff.mp ha) hb hkey

/-- A stable sort is one. -/
instance (key : α → Int) : Inhabited (OrderBy key) where
  default :=
    { sort := fun xs => xs.insertionSort fun a b => key a ≤ key b
      perm := fun xs => List.perm_insertionSort _ xs
      ordered := fun xs => by
        have : Std.Total fun a b : α => key a ≤ key b := ⟨fun a b => Int.le_total (key a) (key b)⟩
        have : IsTrans α fun a b => key a ≤ key b := ⟨fun _ _ _ => Int.le_trans⟩
        exact List.pairwise_insertionSort _ xs }

end Sql
