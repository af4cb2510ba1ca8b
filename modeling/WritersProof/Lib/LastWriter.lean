/-
  WritersProof.Lib.LastWriter

  A memory that is written one cell at a time: step `t` writes cell `addr t`,
  for `t = 1, 2, ..`.

  A cell holds what its last writer wrote (`getElem?_of_pos`), or what it held
  at the beginning (`getElem?_of_zero`).
-/
import Mathlib.Data.List.Basic

namespace LastWriter

/-- The last step up to `t` that wrote `a`; 0 where there is none. -/
def lastWriter (addr : Nat → Nat) : Nat → Nat → Nat
  | 0, _ => 0
  | t + 1, a => if addr (t + 1) = a then t + 1 else lastWriter addr t a

variable {addr : Nat → Nat} {t a : Nat}

theorem lastWriter_le : lastWriter addr t a ≤ t := by
  induction t with
  | zero => exact Nat.le_refl 0
  | succ t ih =>
    rw [lastWriter]
    split
    · exact Nat.le_refl _
    · exact Nat.le_succ_of_le ih

/-- The step itself wrote the cell when it is its last writer. -/
theorem lastWriter_eq_self (ht : 0 < t) : lastWriter addr t a = t ↔ addr t = a := by
  obtain ⟨t, rfl⟩ : ∃ s, t = s + 1 := ⟨t - 1, by omega⟩
  rw [lastWriter]
  split
  next h => simp [h]
  next h =>
    have hle : lastWriter addr t a ≤ t := lastWriter_le
    constructor
    · intro heq
      omega
    · intro heq
      exact absurd heq h

section Memory

variable {α : Type} {memory : Nat → List α} {value : Nat → α}

variable (hstep : ∀ t, memory (t + 1) = (memory t).set (addr (t + 1)) (value (t + 1)))

include hstep

theorem length_eq :
    (memory t).length = (memory 0).length := by
  induction t with
  | zero => rfl
  | succ t ih => rw [hstep, List.length_set, ih]

/-- A cell without a writer is as it was. -/
theorem getElem?_of_zero (h : lastWriter addr t a = 0) : (memory t)[a]? = (memory 0)[a]? := by
  induction t with
  | zero => rfl
  | succ t ih =>
    rw [lastWriter] at h
    split at h
    next => cases h
    next hne => rw [hstep, List.getElem?_set_ne hne, ih h]

/-- A cell holds what its last writer put there. -/
theorem getElem?_of_pos (h : 0 < lastWriter addr t a) (ha : a < (memory 0).length) :
    addr (lastWriter addr t a) = a ∧ (memory t)[a]? = some (value (lastWriter addr t a)) := by
  induction t with
  | zero => exact absurd h (Nat.lt_irrefl 0)
  | succ t ih =>
    rw [lastWriter] at h ⊢
    by_cases hwrote : addr (t + 1) = a
    · rw [if_pos hwrote]
      have hlen : (memory t).length = (memory 0).length := length_eq hstep
      exact ⟨hwrote, by rw [hstep, hwrote, List.getElem?_set_self (by omega)]⟩
    · rw [if_neg hwrote] at h ⊢
      rw [hstep, List.getElem?_set_ne hwrote]
      exact ih h

end Memory

end LastWriter
