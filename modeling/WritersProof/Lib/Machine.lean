/-
  WritersProof.Lib.Machine

  Deterministic machines: a step takes an action and a state to a reply and the
  next state, a run takes a list of actions.

  Conditions on a run are always `Along` conditions, so a result about runs is
  one lemma about a step and one of the two rules.
-/
import Mathlib.Data.List.Basic

namespace Machine

variable {α β σ τ : Type}

/-- The replies of a run and the state it ends in. -/
def run (step : α → σ → β × σ) : List α → σ → List β × σ
  | [], s => ([], s)
  | a :: as, s =>
    let (reply, s') := step a s
    let (replies, s'') := run step as s'
    (reply :: replies, s'')

/-- Every action of the run meets a state that satisfies `P`. -/
def Along (step : α → σ → β × σ) (P : α → σ → Prop) : List α → σ → Prop
  | [], _ => True
  | a :: as, s => P a s ∧ Along step P as (step a s).2

instance decidableAlong (step : α → σ → β × σ) (P : α → σ → Prop) [∀ a s, Decidable (P a s)] :
    ∀ (as : List α) (s : σ), Decidable (Along step P as s)
  | [], _ => .isTrue trivial
  | a :: as, s =>
    haveI := decidableAlong step P as (step a s).2
    inferInstanceAs (Decidable (_ ∧ _))

variable {step : α → σ → β × σ} {P : α → σ → Prop}

theorem run_cons (a : α) (as : List α) (s : σ) :
    run step (a :: as) s
      = ((step a s).1 :: (run step as (step a s).2).1, (run step as (step a s).2).2) := rfl

theorem run_append (as bs : List α) (s : σ) :
    run step (as ++ bs) s
      = ((run step as s).1 ++ (run step bs (run step as s).2).1,
          (run step bs (run step as s).2).2) := by
  induction as generalizing s with
  | nil => rfl
  | cons a as ih =>
    rw [List.cons_append, run_cons, run_cons, ih]
    rfl

variable {as : List α} {s : σ} {Q : α → σ → Prop} {I : σ → Prop}

theorem along_append {bs : List α} :
    Along step P (as ++ bs) s ↔ Along step P as s ∧ Along step P bs (run step as s).2 := by
  induction as generalizing s with
  | nil => exact ⟨fun h => ⟨trivial, h⟩, fun h => h.2⟩
  | cons a as ih =>
    rw [List.cons_append, Along, ih, Along, and_assoc]
    rfl

/-- What holds of every action in every state holds along every run. -/
theorem along_of_forall (h : ∀ a s, P a s) (as : List α) (s : σ) : Along step P as s := by
  induction as generalizing s with
  | nil => trivial
  | cons a as ih => exact ⟨h a s, ih _⟩

/-- A condition on actions alone can be added to a condition along the run. -/
theorem along_and_of_forall {p : α → Prop} :
    ∀ {as : List α} {s : σ}, (∀ a ∈ as, p a) → Along step P as s →
      Along step (fun a s => p a ∧ P a s) as s := by
  intro as
  induction as with
  | nil =>
    intro s _ _
    trivial
  | cons a as ih =>
    intro s hp hP
    exact ⟨⟨hp a List.mem_cons_self, hP.1⟩, ih (fun b hb => hp b (List.mem_cons_of_mem _ hb)) hP.2⟩

/-- A predicate that every step keeps holds at the end of the run. -/
theorem run_invariant (hstep : ∀ a s, I s → P a s → I (step a s).2) :
    ∀ (as : List α) (s : σ), I s → Along step P as s → I (run step as s).2 := by
  intro as
  induction as with
  | nil =>
    intro s hs _
    exact hs
  | cons a as ih =>
    intro s hs halong
    exact ih _ (hstep a s hs halong.1) halong.2

/-- What every step from an invariant does holds along the run. -/
theorem along_of_invariant (hstep : ∀ a s, I s → P a s → I (step a s).2 ∧ Q a s) :
    ∀ (as : List α) (s : σ), I s → Along step P as s → Along step Q as s := by
  intro as
  induction as with
  | nil =>
    intro s _ _
    trivial
  | cons a as ih =>
    intro s hs halong
    obtain ⟨hs', hQ⟩ := hstep a s hs halong.1
    exact ⟨hQ, ih _ hs' halong.2⟩

/-- Two machines whose steps agree on related states agree on runs. -/
theorem run_simulates {step' : α → τ → β × τ} {Q : α → τ → Prop} {R : σ → τ → Prop}
    (hstep : ∀ a s t, R s t → P a s → Q a t →
      (step a s).1 = (step' a t).1 ∧ R (step a s).2 (step' a t).2) :
    ∀ (as : List α) (s : σ) (t : τ), R s t → Along step P as s → Along step' Q as t →
      (run step as s).1 = (run step' as t).1 ∧ R (run step as s).2 (run step' as t).2 := by
  intro as
  induction as with
  | nil =>
    intro s t hR _ _
    exact ⟨rfl, hR⟩
  | cons a as ih =>
    intro s t hR hP hQ
    obtain ⟨hreply, hR'⟩ := hstep a s t hR hP.1 hQ.1
    obtain ⟨hreplies, hR''⟩ := ih _ _ hR' hP.2 hQ.2
    rw [run_cons, run_cons]
    exact ⟨by rw [hreply, hreplies], hR''⟩

theorem along_of_replies {p : β → Prop} :
    ∀ (as : List α) (s : σ), (∀ reply ∈ (run step as s).1, p reply) →
      Along step (fun a s => p (step a s).1) as s := by
  intro as
  induction as with
  | nil =>
    intro s _
    trivial
  | cons a as ih =>
    intro s h
    rw [run_cons] at h
    exact ⟨h _ List.mem_cons_self, ih _ fun reply hmem => h reply (List.mem_cons_of_mem _ hmem)⟩

/-! ## Moves that may be disabled -/

/-- A run of a machine whose actions may be disabled. -/
def moves (step : α → σ → Option σ) (as : List α) (s : σ) : Option σ :=
  as.foldlM (fun s a => step a s) s

section Moves

variable {step : α → σ → Option σ}

theorem moves_cons {a : α} {as : List α} {s s'' : σ} (h : moves step (a :: as) s = some s'') :
    ∃ s', step a s = some s' ∧ moves step as s' = some s'' := by
  rw [moves, List.foldlM_cons] at h
  exact Option.bind_eq_some_iff.mp h

/-- A predicate that every move keeps holds after all of them. -/
theorem moves_invariant {I : σ → Prop} (hstep : ∀ a s s', I s → step a s = some s' → I s') :
    ∀ {as : List α} {s s' : σ}, I s → moves step as s = some s' → I s' := by
  intro as
  induction as with
  | nil =>
    intro s s' hs h
    cases h
    exact hs
  | cons a as ih =>
    intro s s' hs h
    obtain ⟨s₁, hfirst, hrest⟩ := moves_cons h
    exact ih (hstep a s s₁ hs hfirst) hrest

theorem length_le_of_moves {measure : σ → Nat}
    (hstep : ∀ a s s', step a s = some s' → measure s' < measure s) :
    ∀ {as : List α} {s s' : σ}, moves step as s = some s' → as.length ≤ measure s := by
  intro as
  induction as with
  | nil =>
    intro s _ _
    exact Nat.zero_le _
  | cons a as ih =>
    intro s s' h
    obtain ⟨s₁, hfirst, hrest⟩ := moves_cons h
    exact Nat.lt_of_le_of_lt (ih hrest) (hstep a s s₁ hfirst)

end Moves

end Machine
