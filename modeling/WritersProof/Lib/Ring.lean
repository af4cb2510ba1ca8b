/-
  WritersProof.Lib.Ring

  A ring buffer against the history of what was pushed into it.

  The slot of an element is its place in the history modulo the capacity, so
  the next slot of a full buffer is that of its oldest element
  (`Holds.oldest`), and a sum over the latest elements changes by the new
  element and that one (`sum_latest_full`, `sum_latest_partial`).
-/
import Mathlib.Algebra.Order.BigOperators.Group.List
import Mathlib.Algebra.Order.Ring.Nat
import Mathlib.Data.Nat.ModEq

namespace Ring

variable {α : Type}

/-- The last `cap` elements of a history, or all of them. -/
def latest (cap : Nat) (xs : List α) : List α := xs.drop (xs.length - cap)

theorem length_latest (cap : Nat) (xs : List α) : (latest cap xs).length = min xs.length cap := by
  rw [latest, List.length_drop]
  omega

variable {cap : Nat} {xs : List α}

/-- A short history is latest as a whole. -/
theorem latest_concat_of_lt (h : xs.length < cap) (x : α) :
    latest cap (xs ++ [x]) = latest cap xs ++ [x] := by
  have hbefore : xs.length - cap = 0 := by omega
  have hafter : (xs ++ [x]).length - cap = 0 := by
    rw [List.length_append, List.length_singleton]
    omega
  rw [latest, latest, hbefore, hafter, List.drop_zero, List.drop_zero]

/-- The oldest element leaves when another one comes. -/
theorem latest_concat_full (hcap : 0 < cap) (h : cap ≤ xs.length) (x : α) :
    ∃ old rest, xs[xs.length - cap]? = some old ∧ latest cap xs = old :: rest
      ∧ latest cap (xs ++ [x]) = rest ++ [x] := by
  have hlt : xs.length - cap < xs.length := by omega
  refine ⟨xs[xs.length - cap], xs.drop (xs.length - cap + 1), List.getElem?_eq_getElem hlt,
    List.drop_eq_getElem_cons hlt, ?_⟩
  have hlength : (xs ++ [x]).length - cap = xs.length - cap + 1 := by
    rw [List.length_append, List.length_singleton]
    omega
  rw [latest, hlength, List.drop_append_of_le_length (by omega)]

theorem sum_latest_partial (h : xs.length < cap) (f : α → Nat) (x : α) :
    ((latest cap (xs ++ [x])).map f).sum = ((latest cap xs).map f).sum + f x := by
  rw [latest_concat_of_lt h, List.map_append, List.sum_append, List.map_singleton,
    List.sum_singleton]

/-- The oldest element is part of the sum, so taking it away does not underflow. -/
theorem sum_latest_full {old : α} (hcap : 0 < cap) (h : cap ≤ xs.length)
    (hold : xs[xs.length - cap]? = some old) (f : α → Nat) (x : α) :
    f old ≤ ((latest cap xs).map f).sum
      ∧ ((latest cap (xs ++ [x])).map f).sum = ((latest cap xs).map f).sum - f old + f x := by
  obtain ⟨first, rest, hfirst, hbefore, hafter⟩ := latest_concat_full hcap h x
  have hsame : old = first := Option.some.inj (hold.symm.trans hfirst)
  rw [hbefore, hafter, hsame, List.map_cons, List.sum_cons, List.map_append, List.sum_append,
    List.map_singleton, List.sum_singleton]
  omega

theorem sum_latest_le {cap bound : Nat} {f : α → Nat} (h : ∀ x, f x ≤ bound) :
    ((latest cap xs).map f).sum ≤ cap * bound := by
  have hsum : ((latest cap xs).map f).sum ≤ ((latest cap xs).map f).length * bound := by
    apply List.sum_le_card_nsmul
    intro n hn
    obtain ⟨x, -, rfl⟩ := List.mem_map.mp hn
    exact h x
  rw [List.length_map, length_latest] at hsum
  exact Nat.le_trans hsum (Nat.mul_le_mul_right bound (Nat.min_le_right _ _))

/-- A buffer of `cap` slots, the slot for the next element and the number of slots in use, after the
    history `xs`. -/
structure Holds (cap : Nat) (buf : List α) (next count : Nat) (xs : List α) : Prop where
  size : buf.length = cap
  next_eq : next = xs.length % cap
  count_eq : count = min xs.length cap
  kept : ∀ j, xs.length ≤ j + cap → j < xs.length → buf[j % cap]? = xs[j]?

theorem Holds.empty {buf : List α} (h : buf.length = cap) : Holds cap buf 0 0 [] :=
  ⟨h, (Nat.zero_mod cap).symm, (Nat.zero_min cap).symm, nofun⟩

variable {next count : Nat} {buf : List α}

theorem Holds.next_lt (h : Holds cap buf next count xs) (hcap : 0 < cap) : next < buf.length := by
  rw [h.size, h.next_eq]
  exact Nat.mod_lt _ hcap

/-- A full buffer writes over its oldest element. -/
theorem Holds.oldest (h : Holds cap buf next count xs) (hcap : 0 < cap) (hfull : cap ≤ xs.length) :
    buf[next]? = xs[xs.length - cap]? := by
  have hslot : (xs.length - cap) % cap = next := by
    rw [h.next_eq]
    exact (Nat.mod_eq_sub_mod hfull).symm
  rw [← hslot]
  exact h.kept _ (by omega) (by omega)

/-- Two places less than the capacity apart have different slots. -/
theorem slot_ne {i n : Nat} (hlt : i < n) (hnear : n < i + cap) : n % cap ≠ i % cap := by
  intro hmod
  have hdvd : cap ∣ n - i := (Nat.modEq_iff_dvd' (Nat.le_of_lt hlt)).mp hmod.symm
  have hle : cap ≤ n - i := Nat.le_of_dvd (by omega) hdvd
  omega

theorem Holds.push (h : Holds cap buf next count xs) (hcap : 0 < cap) (x : α) :
    Holds cap (buf.set next x) ((next + 1) % cap) (if count = cap then count else count + 1)
      (xs ++ [x]) where
  size := by rw [List.length_set, h.size]
  next_eq := by
    rw [h.next_eq, List.length_append, List.length_singleton, Nat.mod_add_mod]
  count_eq := by
    rw [h.count_eq, List.length_append, List.length_singleton]
    split <;> omega
  kept := by
    intro j hnew hj
    rw [List.length_append, List.length_singleton] at hnew hj
    rw [h.next_eq]
    by_cases hlast : j = xs.length
    · rw [hlast, List.getElem?_set_self (by rw [h.size]; exact Nat.mod_lt _ hcap),
        List.getElem?_concat_length]
    · -- the slot written is that of an element no longer in the window
      have hne : xs.length % cap ≠ j % cap := slot_ne (by omega) (by omega)
      rw [List.getElem?_set_ne hne, List.getElem?_append_left (by omega)]
      exact h.kept j (by omega) (by omega)

end Ring
