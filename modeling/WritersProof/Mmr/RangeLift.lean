/-
  What one step of the range verifier can do, once and for all: `LiftStep` has
  one constructor for each way a position leaves its level.  `lift_of_step`
  runs a step, `lift_cases` inverts one; nothing above unfolds `Level.lift`.
-/
import WritersProof.Mmr.Prover

namespace WritersProof.Mmr.RangeProof

open Rust

variable {H : Type}

/-- An entry at `pos` with `hash` goes to `parent` with `combined`; it uses up the
    entries `marked`, and `rest` is left of the sibling path. -/
inductive LiftStep (hs : NodeHasher H) (peakSet : List Nat) (current : OrdMap H)
    (height pos : Nat) (hash : H) (siblings : List (ProofElement H)) :
    (parent : Nat) → (combined : H) → (marked : List Nat) → (rest : List (ProofElement H)) → Prop
  | peak (hpeak : pos ∈ peakSet) : LiftStep hs peakSet current height pos hash siblings
      pos hash [] siblings
  | right {sib : H} (hpeak : pos ∉ peakSet)
      (hright : current.get? (pos + 2 ^ (height + 1) - 1) = some sib) :
      LiftStep hs peakSet current height pos hash siblings
        (pos + 2 ^ (height + 1)) (hs.hashInternal (height + 1) hash sib)
        [pos + 2 ^ (height + 1) - 1] siblings
  | left {sib : H} (hpeak : pos ∉ peakSet)
      (hright : current.get? (pos + 2 ^ (height + 1) - 1) = none)
      (hoffset : 2 ^ (height + 1) ≤ pos + 1)
      (hleft : current.get? (pos + 1 - 2 ^ (height + 1)) = some sib) :
      LiftStep hs peakSet current height pos hash siblings
        (pos + 1) (hs.hashInternal (height + 1) sib hash) [pos + 1 - 2 ^ (height + 1)] siblings
  | pathLeft {elem : H} {rest : List (ProofElement H)} (hpeak : pos ∉ peakSet)
      (hright : current.get? (pos + 2 ^ (height + 1) - 1) = none)
      (hleft : 2 ^ (height + 1) ≤ pos + 1 → current.get? (pos + 1 - 2 ^ (height + 1)) = none)
      (hpath : siblings = ⟨elem, true⟩ :: rest) :
      LiftStep hs peakSet current height pos hash siblings
        (if 2 ^ (height + 1) ≤ pos + 1 then pos + 1 else pos + 2 ^ (height + 1))
        (hs.hashInternal (height + 1) elem hash) [] rest
  | pathRight {elem : H} {rest : List (ProofElement H)} (hpeak : pos ∉ peakSet)
      (hright : current.get? (pos + 2 ^ (height + 1) - 1) = none)
      (hleft : 2 ^ (height + 1) ≤ pos + 1 → current.get? (pos + 1 - 2 ^ (height + 1)) = none)
      (hpath : siblings = ⟨elem, false⟩ :: rest) :
      LiftStep hs peakSet current height pos hash siblings
        (pos + 2 ^ (height + 1)) (hs.hashInternal (height + 1) hash elem) [] rest
  | carry (hpeak : pos ∉ peakSet)
      (hright : current.get? (pos + 2 ^ (height + 1) - 1) = none)
      (hleft : 2 ^ (height + 1) ≤ pos + 1 → current.get? (pos + 1 - 2 ^ (height + 1)) = none)
      (hpath : siblings = []) :
      LiftStep hs peakSet current height pos hash siblings pos hash [] []

variable {hs : NodeHasher H} {peakSet : List Nat} {current : OrdMap H} {height pos : Nat}

theorem two_le_offset (height : Nat) : 2 ≤ 2 ^ (height + 1) :=
  Nat.one_lt_two_pow' height

namespace Level

variable {level level' : Level H}

theorem lift_processed (h : pos ∈ level.processed) :
    level.lift hs peakSet current height pos = .ok level := by
  rw [lift, if_pos h]

theorem lift_of_step {hash combined : H} {parent : Nat} {marked : List Nat}
    {rest : List (ProofElement H)} (hnew : pos ∉ level.processed)
    (hget : current.get? pos = some hash) (hmax : pos + 2 ^ (height + 1) < 2 ^ 64)
    (hstep : LiftStep hs peakSet current height pos hash level.siblings parent combined
      marked rest) :
    level.lift hs peakSet current height pos
      = .ok ⟨pos :: (marked ++ level.processed), level.next.insert parent combined, rest⟩ := by
  have htwo := two_le_offset height
  obtain ⟨processed, next, siblings⟩ := level
  have hadd : checkedAdd pos (2 ^ (height + 1)) = some (pos + 2 ^ (height + 1)) :=
    checkedAdd_eq_some hmax
  have hone : checkedAdd pos 1 = some (pos + 1) := checkedAdd_eq_some (by omega)
  have hsub : checkedSub (pos + 2 ^ (height + 1)) 1 = some (pos + 2 ^ (height + 1) - 1) := by
    rw [checkedSub, if_pos (by omega)]
  have hne : pos + 2 ^ (height + 1) - 1 ≠ pos := by omega
  rw [lift, if_neg hnew, hget, unwrap_some, res_ok_bind]
  dsimp only
  simp only [hadd, hsub, hone, okOr_some, res_ok_bind]
  cases hstep with
  | peak hpeak => rw [if_pos hpeak]; rfl
  | right hpeak hright =>
    rw [if_neg hpeak, hright]
    dsimp only
    rw [if_pos hne]
    rfl
  | left hpeak hright hoffset hleft =>
    rw [if_neg hpeak, hright]
    dsimp only
    rw [if_pos hoffset, hleft]
    rfl
  | pathLeft hpeak hright hleft hpath =>
    dsimp only at hpath
    rw [if_neg hpeak, hright, hpath]
    dsimp only
    by_cases hoffset : 2 ^ (height + 1) ≤ pos + 1
    · rw [if_pos hoffset, if_pos hoffset, hleft hoffset]
      rfl
    · rw [if_neg hoffset, if_neg hoffset]
      rfl
  | pathRight hpeak hright hleft hpath | carry hpeak hright hleft hpath =>
    dsimp only at hpath
    rw [if_neg hpeak, hright, hpath]
    dsimp only
    by_cases hoffset : 2 ^ (height + 1) ≤ pos + 1
    · rw [if_pos hoffset, hleft hoffset]
      rfl
    · rw [if_neg hoffset]
      rfl

/-- Everything a step can do. -/
theorem lift_cases (h : level.lift hs peakSet current height pos = .ok level') :
    pos ∈ level.processed ∧ level' = level ∨
    ∃ hash parent combined marked rest, pos ∉ level.processed ∧ current.get? pos = some hash
      ∧ LiftStep hs peakSet current height pos hash level.siblings parent combined marked rest
      ∧ level' = ⟨pos :: (marked ++ level.processed), level.next.insert parent combined, rest⟩ := by
  have htwo := two_le_offset height
  obtain ⟨processed, next, siblings⟩ := level
  rw [lift] at h
  by_cases hnew : pos ∈ processed
  · rw [if_pos hnew] at h
    exact .inl ⟨hnew, (Except.ok.inj h).symm⟩
  · rw [if_neg hnew] at h
    refine .inr ?_
    cases hget : current.get? pos with
    | none =>
      rw [hget] at h
      cases h
    | some hash =>
      rw [hget, unwrap_some, res_ok_bind] at h
      by_cases hpeak : pos ∈ peakSet
      · rw [if_pos hpeak] at h
        exact ⟨hash, _, _, _, _, hnew, rfl, .peak hpeak, (Except.ok.inj h).symm⟩
      · rw [if_neg hpeak] at h
        dsimp only at h
        obtain ⟨leftParent, hleftParent, h⟩ := res_bind_eq_ok.mp h
        obtain ⟨hmax, rfl⟩ := okOr_checkedAdd_eq_ok hleftParent
        have hsub : checkedSub (pos + 2 ^ (height + 1)) 1 = some (pos + 2 ^ (height + 1) - 1) := by
          rw [checkedSub, if_pos (by omega)]
        have hone : checkedAdd pos 1 = some (pos + 1) := checkedAdd_eq_some (by omega)
        have hne : pos + 2 ^ (height + 1) - 1 ≠ pos := by omega
        rw [hsub, okOr_some, res_ok_bind] at h
        cases hright : current.get? (pos + 2 ^ (height + 1) - 1) with
        | some sib =>
          rw [hright] at h
          dsimp only at h
          rw [if_pos hne] at h
          exact ⟨hash, _, _, _, _, hnew, rfl, .right hpeak hright, (Except.ok.inj h).symm⟩
        | none =>
          rw [hright] at h
          dsimp only at h
          rw [hone, okOr_some, res_ok_bind] at h
          have hpath : (2 ^ (height + 1) ≤ pos + 1 →
                current.get? (pos + 1 - 2 ^ (height + 1)) = none) →
              (Level.mk processed next siblings).useSibling hs pos hash height
                (if 2 ^ (height + 1) ≤ pos + 1 then pos + 1 else pos + 2 ^ (height + 1))
                (pos + 2 ^ (height + 1)) = level' →
              ∃ hash' parent combined marked rest, pos ∉ processed ∧ some hash = some hash'
                ∧ LiftStep hs peakSet current height pos hash' siblings parent combined marked rest
                ∧ level' = ⟨pos :: (marked ++ processed), next.insert parent combined, rest⟩ := by
            intro hleft huse
            subst huse
            rcases siblings with _ | ⟨⟨elem, _ | _⟩, rest⟩
            · exact ⟨hash, _, _, _, _, hnew, rfl, .carry hpeak hright hleft rfl, rfl⟩
            · exact ⟨hash, _, _, _, _, hnew, rfl, .pathRight hpeak hright hleft rfl, rfl⟩
            · exact ⟨hash, _, _, _, _, hnew, rfl, .pathLeft hpeak hright hleft rfl, rfl⟩
          by_cases hoffset : 2 ^ (height + 1) ≤ pos + 1
          · rw [if_pos hoffset] at h hpath
            cases hleft : current.get? (pos + 1 - 2 ^ (height + 1)) with
            | some sib =>
              rw [hleft] at h
              exact ⟨hash, _, _, _, _, hnew, rfl, .left hpeak hright hoffset hleft,
                (Except.ok.inj h).symm⟩
            | none =>
              rw [hleft] at h
              exact hpath (fun _ => hleft) (Except.ok.inj h)
          · rw [if_neg hoffset] at h hpath
            exact hpath (fun hle => absurd hle hoffset) (Except.ok.inj h)

end Level

/-- The keys of the first part, then those of the second. -/
theorem liftAll_append (xs ys : List Nat) (level : Level H) :
    liftAll hs peakSet current height (xs ++ ys) level
      = (liftAll hs peakSet current height xs level >>= liftAll hs peakSet current height ys) := by
  induction xs generalizing level with
  | nil => rfl
  | cons x xs ih =>
    rw [List.cons_append, liftAll, liftAll]
    cases hx : level.lift hs peakSet current height x with
    | error e => rfl
    | ok level' =>
      rw [res_ok_bind, res_ok_bind, ih]

variable {xs : List Nat} {level : Level H} {rounds : Nat}

theorem liftAll_cons_of_ok {level' : Level H} {rest : List Nat}
    (h : level.lift hs peakSet current height pos = .ok level') :
    liftAll hs peakSet current height (pos :: rest) level
      = liftAll hs peakSet current height rest level' := by
  rw [liftAll, h, res_ok_bind]

theorem liftAll_invariant {P : Level H → Prop}
    (hstep : ∀ x ∈ xs, ∀ level level', P level →
      level.lift hs peakSet current height x = .ok level' → P level') :
    ∀ {level level' : Level H}, P level →
      liftAll hs peakSet current height xs level = .ok level' → P level' := by
  induction xs with
  | nil =>
    intro level level' hP h
    cases h
    exact hP
  | cons x xs ih =>
    intro level level' hP h
    obtain ⟨mid, hmid, h⟩ := res_bind_eq_ok.mp h
    exact ih (fun y hy => hstep y (List.mem_cons_of_mem _ hy))
      (hstep x List.mem_cons_self level mid hP hmid) h

theorem liftAll_processed :
    ∀ {level level' : Level H}, liftAll hs peakSet current height xs level = .ok level' →
      (∀ x ∈ level.processed, x ∈ level'.processed) ∧ ∀ x ∈ xs, x ∈ level'.processed := by
  induction xs with
  | nil =>
    intro level level' h
    cases h
    exact ⟨fun _ hx => hx, fun x hx => absurd hx List.not_mem_nil⟩
  | cons x xs ih =>
    intro level level' h
    obtain ⟨mid, hmid, h⟩ := res_bind_eq_ok.mp h
    obtain ⟨hold, hrest⟩ := ih h
    obtain ⟨hx, hmono⟩ : x ∈ mid.processed ∧ ∀ y ∈ level.processed, y ∈ mid.processed := by
      rcases Level.lift_cases hmid with ⟨hx, rfl⟩ | ⟨_, _, _, marked, _, -, -, -, rfl⟩
      · exact ⟨hx, fun _ hy => hy⟩
      · refine ⟨List.mem_cons_self, fun y hy => ?_⟩
        exact List.mem_cons_of_mem _ (List.mem_append_right _ hy)
    refine ⟨fun y hy => hold y (hmono y hy), ?_⟩
    intro y hy
    rcases List.mem_cons.mp hy with rfl | hy
    · exact hold _ hx
    · exact hrest y hy

def Finished (peakSet : List Nat) (current : OrdMap H) (siblings : List (ProofElement H)) : Prop :=
  (∀ pos ∈ current.keys, pos ∈ peakSet) ∧ siblings = []

variable {siblings : List (ProofElement H)}

theorem climb_of_finished (h : Finished peakSet current siblings) (rounds : Nat) :
    climb hs peakSet rounds height current siblings = .ok (current, siblings) := by
  have hfin : (∀ pos ∈ current.keys, pos ∈ peakSet) ∧ siblings = [] := h
  rw [climb.eq_def, if_pos hfin, ite_self]

/-- The loop goes on to the next height. -/
theorem climb_succ (hmany : ¬ (current.length ≤ 1 ∧ siblings = []))
    (hopen : ¬ Finished peakSet current siblings)
    (hlevel : liftAll hs peakSet current height current.keys ⟨[], [], siblings⟩ = .ok level)
    (hnext : level.next ≠ []) :
    climb hs peakSet (rounds + 1) height current siblings
      = climb hs peakSet rounds (height + 1) level.next level.siblings := by
  have hfin : ¬ ((∀ pos ∈ current.keys, pos ∈ peakSet) ∧ siblings = []) := hopen
  rw [climb.eq_def, if_neg hmany, if_neg hfin]
  dsimp only
  rw [hlevel, res_ok_bind, if_neg hnext]

/-- The ways out of the loop: at once, after a level that leaves nothing, or later. -/
theorem climb_cases {final : OrdMap H × List (ProofElement H)}
    (h : climb hs peakSet rounds height current siblings = .ok final) :
    (siblings = [] ∧ (current.length ≤ 1 ∨ Finished peakSet current siblings)
      ∧ final = (current, siblings))
    ∨ ∃ rest level, rounds = rest + 1
      ∧ liftAll hs peakSet current height current.keys ⟨[], [], siblings⟩ = .ok level
      ∧ (level.next = [] ∧ final = (current, level.siblings)
        ∨ climb hs peakSet rest (height + 1) level.next level.siblings = .ok final) := by
  rw [climb.eq_def] at h
  split at h
  · rename_i hsingle
    exact .inl ⟨hsingle.2, .inl hsingle.1, (Except.ok.inj h).symm⟩
  · split at h
    · rename_i hfin
      exact .inl ⟨hfin.2, .inr hfin, (Except.ok.inj h).symm⟩
    · cases rounds with
      | zero => cases h
      | succ rest =>
        obtain ⟨level, hlevel, h⟩ := res_bind_eq_ok.mp h
        refine .inr ⟨rest, level, rfl, hlevel, ?_⟩
        split at h
        · rename_i hnil
          exact .inl ⟨hnil, (Except.ok.inj h).symm⟩
        · exact .inr h

theorem checkPeaks_eq_ok [DecidableEq H] {peaks : List H} {map : OrdMap H} :
    checkPeaks peakSet peaks map = .ok () → ∀ x ∈ map,
      ∃ i, peakSet.idxOf? x.1 = some i ∧ peaks[i]? = some x.2 := by
  induction map with
  | nil => exact fun _ x hx => absurd hx List.not_mem_nil
  | cons p rest ih =>
    obtain ⟨pos, hash⟩ := p
    intro h
    rw [checkPeaks] at h
    obtain ⟨i, hi, h⟩ := res_bind_eq_ok.mp h
    have hidx : peakSet.idxOf? pos = some i := by
      cases hfind : peakSet.idxOf? pos with
      | none =>
        rw [hfind] at hi
        cases hi
      | some k =>
        rw [hfind] at hi
        rw [Except.ok.inj hi]
    split at h
    · rename_i hpeak
      intro x hx
      rcases List.mem_cons.mp hx with rfl | hx
      · exact ⟨i, hidx, hpeak⟩
      · exact ih h x hx
    · cases h

end WritersProof.Mmr.RangeProof
