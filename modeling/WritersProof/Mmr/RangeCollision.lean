/-
  The range verifier after a collision.

  A carried peak that was taken for a sibling is merged one tree too far.  From
  then on one of three things is true of every level (`Doomed`): an entry lies
  past the last node, or only peaks are left but not the whole path was used, or
  one stray entry moves up by one position a level along a path of left siblings
  that is long enough to take it past the last node.  None of them lets the
  proof be accepted.
-/
import WritersProof.Mmr.RangeVerify

namespace WritersProof.Mmr.RangeProof

open Rust MountainRange OrdMap

variable {H : Type}

/-- The verifier's map and path before height `height`, once they are beyond repair. -/
inductive Doomed (n height : Nat) (current : OrdMap H) (siblings : List (ProofElement H)) : Prop
  | past {key : Nat} (hkey : key ∈ current.keys) (hpast : MountainRange.size n ≤ key)
  | settled (hpeaks : ∀ key ∈ current.keys, key ∈ peakSet n) (hpath : siblings ≠ [])
  | stray {w : Nat} (hw : w ∈ current.keys) (hstray : w ∉ peakSet n)
      (hothers : ∀ key ∈ current.keys, key = w ∨ key ∈ peakSet n)
      (hbelow : ∀ key ∈ current.keys, key + 1 < w + 2 ^ (height + 1))
      (habove : ∀ key ∈ current.keys, w + 1 < key + 2 ^ (height + 1))
      (hpath : siblings ≠ []) (hleft : ∀ elem ∈ siblings, elem.isLeft = true)
      (hreach : MountainRange.size n ≤ w + siblings.length)
      (hshort : siblings.length ≤ 2 ^ (height + 1))

theorem mem_peakSet_lt {n x : Nat} (h : x ∈ peakSet n) : x < MountainRange.size n := by
  obtain ⟨p, hp, rfl⟩ := List.mem_map.mp h
  exact pos_lt_size_iff.mpr (peak_le hp)

variable {hs : NodeHasher H} {n height : Nat} {current : OrdMap H}
  {siblings : List (ProofElement H)} {level : Level H}

/-! ## One level -/

theorem LiftStep.of_peak {peakSet marked : List Nat} {pos parent : Nat} {hash combined : H}
    {rest : List (ProofElement H)} (hpeak : pos ∈ peakSet)
    (h : LiftStep hs peakSet current height pos hash siblings parent combined marked rest) :
    parent = pos ∧ marked = [] ∧ rest = siblings := by
  cases h with
  | peak => exact ⟨rfl, rfl, rfl⟩
  | right h _ => exact absurd hpeak h
  | left h _ _ _ => exact absurd hpeak h
  | pathLeft h _ _ _ => exact absurd hpeak h
  | pathRight h _ _ _ => exact absurd hpeak h
  | carry h _ _ _ => exact absurd hpeak h

variable
  (hlevel : liftAll hs (peakSet n) current height current.keys ⟨[], [], siblings⟩ = .ok level)

include hlevel in
/-- Every entry goes up, or is used by one that goes up further. -/
theorem liftAll_past {key : Nat} (hkey : key ∈ current.keys) : ∃ k ∈ level.next.keys, key ≤ k := by
  have htwo := two_le_offset height
  have hinv : ∀ x ∈ level.processed, ∃ k ∈ level.next.keys, x ≤ k := by
    refine liftAll_invariant (P := fun l : Level H => ∀ x ∈ l.processed, ∃ k ∈ l.next.keys, x ≤ k)
      ?_ (fun x hx => absurd hx List.not_mem_nil) hlevel
    intro pos _ l l' hP hlift
    rcases Level.lift_cases hlift with ⟨-, rfl⟩ | ⟨_, parent, _, marked, _, -, -, hstep, rfl⟩
    · exact hP
    · have hmono : ∀ x, x = pos ∨ x ∈ marked → x ≤ parent := by
        intro x hx
        cases hstep with
        | peak => simp at hx; omega
        | right => simp at hx; omega
        | left => simp at hx; omega
        | pathLeft => simp at hx; split <;> omega
        | pathRight => simp at hx; omega
        | carry => simp at hx; omega
      intro x hx
      rw [List.mem_cons, List.mem_append, ← or_assoc] at hx
      rcases hx with hx | hx
      · exact ⟨parent, mem_keys_insert.mpr (.inl rfl), hmono x hx⟩
      · obtain ⟨k, hk, hle⟩ := hP x hx
        exact ⟨k, mem_keys_insert.mpr (.inr hk), hle⟩
  exact hinv key ((liftAll_processed hlevel).2 key hkey)

include hlevel in
/-- Peaks stay, and use nothing of the path. -/
theorem liftAll_settled (hpeaks : ∀ key ∈ current.keys, key ∈ peakSet n) :
    (∀ key ∈ level.next.keys, key ∈ peakSet n) ∧ level.siblings = siblings := by
  refine liftAll_invariant (P := fun l : Level H =>
    (∀ key ∈ l.next.keys, key ∈ peakSet n) ∧ l.siblings = siblings) ?_
    ⟨fun x hx => absurd hx List.not_mem_nil, rfl⟩ hlevel
  intro pos hpos l l' hP hlift
  have hpeak := hpeaks pos hpos
  rcases Level.lift_cases hlift with ⟨-, rfl⟩ | ⟨_, _, _, _, _, -, -, hstep, rfl⟩
  · exact hP
  · obtain ⟨rfl, rfl, rfl⟩ := hstep.of_peak hpeak
    refine ⟨?_, hP.2⟩
    intro key hkey
    rcases mem_keys_insert.mp hkey with rfl | hkey
    · exact hpeak
    · exact hP.1 key hkey

include hlevel in
/-- Among peaks, one entry `w` with a known step goes to its parent, the others stay. -/
theorem liftAll_single {w parent : Nat} {rest : List (ProofElement H)} (hw : w ∈ current.keys)
    (hstray : w ∉ peakSet n) (hothers : ∀ key ∈ current.keys, key = w ∨ key ∈ peakSet n)
    (hstep : ∀ hash parent' combined marked rest',
      LiftStep hs (peakSet n) current height w hash siblings parent' combined marked rest' →
      parent' = parent ∧ rest' = rest) :
    parent ∈ level.next.keys ∧ level.siblings = rest
      ∧ ∀ key ∈ level.next.keys, key = parent ∨ key ∈ current.keys ∧ key ∈ peakSet n := by
  -- before `w` the path is whole, from `w` on `rest` is left of it
  let P (l : Level H) : Prop :=
    (w ∉ l.processed ∧ l.siblings = siblings
      ∧ ∀ key ∈ l.next.keys, key ∈ current.keys ∧ key ∈ peakSet n)
    ∨ (w ∈ l.processed ∧ parent ∈ l.next.keys ∧ l.siblings = rest
      ∧ ∀ key ∈ l.next.keys, key = parent ∨ key ∈ current.keys ∧ key ∈ peakSet n)
  have hinv : P level := by
    refine liftAll_invariant ?_
      (.inl ⟨List.not_mem_nil, rfl, fun x hx => absurd hx List.not_mem_nil⟩) hlevel
    intro pos hpos l l' hP hlift
    rcases Level.lift_cases hlift with ⟨-, rfl⟩ | ⟨_, _, _, _, _, hnew, -, hpstep, rfl⟩
    · exact hP
    · by_cases hpw : pos = w
      · subst hpw
        rcases hP with ⟨-, hpath, hkeys⟩ | ⟨hdone, -⟩
        · rw [hpath] at hpstep
          obtain ⟨rfl, rfl⟩ := hstep _ _ _ _ _ hpstep
          refine .inr ⟨List.mem_cons_self, mem_keys_insert.mpr (.inl rfl), rfl, ?_⟩
          intro key hkey
          exact (mem_keys_insert.mp hkey).imp_right (hkeys key)
        · exact absurd hdone hnew
      · have hpeak := (hothers pos hpos).resolve_left hpw
        obtain ⟨rfl, rfl, rfl⟩ := hpstep.of_peak hpeak
        rcases hP with ⟨hw', hpath, hkeys⟩ | ⟨hw', hparent, hpath, hkeys⟩
        · refine .inl ⟨?_, hpath, ?_⟩
          · intro hmem
            rcases List.mem_cons.mp hmem with h | h
            · exact hpw h.symm
            · exact hw' h
          · intro key hkey
            rcases mem_keys_insert.mp hkey with rfl | hkey
            · exact ⟨hpos, hpeak⟩
            · exact hkeys key hkey
        · refine .inr ⟨List.mem_cons_of_mem _ hw', mem_keys_insert.mpr (.inr hparent),
            hpath, ?_⟩
          intro key hkey
          rcases mem_keys_insert.mp hkey with rfl | hkey
          · exact .inr ⟨hpos, hpeak⟩
          · exact hkeys key hkey
  rcases hinv with ⟨hw', -⟩ | ⟨-, hparent, hpath, hkeys⟩
  · exact absurd ((liftAll_processed hlevel).2 w hw) hw'
  · exact ⟨hparent, hpath, hkeys⟩

/-- The stray entry finds no neighbour and takes a left sibling. -/
theorem stray_step {w : Nat} {elem : ProofElement H} {rest : List (ProofElement H)}
    (hstray : w ∉ peakSet n) (hbelow : ∀ key ∈ current.keys, key + 1 < w + 2 ^ (height + 1))
    (habove : ∀ key ∈ current.keys, w + 1 < key + 2 ^ (height + 1)) (hleft : elem.isLeft = true)
    {hash combined : H} {parent : Nat} {marked : List Nat} {rest' : List (ProofElement H)}
    (hstep : LiftStep hs (peakSet n) current height w hash (elem :: rest) parent combined marked
      rest') :
    parent = (if 2 ^ (height + 1) ≤ w + 1 then w + 1 else w + 2 ^ (height + 1)) ∧ rest' = rest := by
  have htwo := two_le_offset height
  cases hstep with
  | peak h => exact absurd h hstray
  | right _ h =>
    have := hbelow _ (mem_keys_of_mem (mem_of_get? h))
    omega
  | left _ _ hoffset h =>
    have := habove _ (mem_keys_of_mem (mem_of_get? h))
    omega
  | pathLeft _ _ _ h =>
    obtain ⟨-, rfl⟩ := List.cons.inj h
    exact ⟨rfl, rfl⟩
  | pathRight _ _ _ h =>
    obtain ⟨rfl, -⟩ := List.cons.inj h
    cases hleft
  | carry _ _ _ h => cases h

/-- Entries that reach past the end, or peaks and one entry near them. -/
theorem doomed_of_near {w : Nat} (hw : w ∈ current.keys)
    (hothers : ∀ key ∈ current.keys, key = w ∨ key ∈ peakSet n)
    (hbelow : ∀ key ∈ current.keys, key + 1 < w + 2 ^ (height + 1))
    (habove : ∀ key ∈ current.keys, w + 1 < key + 2 ^ (height + 1))
    (hleft : ∀ elem ∈ siblings, elem.isLeft = true)
    (hreach : MountainRange.size n ≤ w + siblings.length)
    (hshort : siblings.length ≤ 2 ^ (height + 1)) : Doomed n height current siblings := by
  by_cases hpath : siblings = []
  · subst hpath
    exact .past hw hreach
  · by_cases hpeak : w ∈ peakSet n
    · refine .settled ?_ hpath
      intro key hkey
      rcases hothers key hkey with rfl | h
      · exact hpeak
      · exact h
    · exact .stray hw hpeak hothers hbelow habove hpath hleft hreach hshort

include hlevel in
/-- No level repairs the map. -/
theorem doomed_succ (hdoomed : Doomed n height current siblings) :
    Doomed n (height + 1) level.next level.siblings := by
  have htwo := two_le_offset height
  have hdouble : 2 ^ (height + 1 + 1) = 2 * 2 ^ (height + 1) := Nat.pow_succ'
  cases hdoomed with
  | past hkey hpast =>
    obtain ⟨k, hk, hle⟩ := liftAll_past hlevel hkey
    exact .past hk (Nat.le_trans hpast hle)
  | settled hpeaks hpath =>
    obtain ⟨hnext, hrest⟩ := liftAll_settled hlevel hpeaks
    refine .settled hnext ?_
    rw [hrest]
    exact hpath
  | @stray w hw hstray hothers hbelow habove hpath hleft hreach hshort =>
    match siblings with
    | [] => exact absurd rfl hpath
    | elem :: rest =>
      obtain ⟨hparent, hrest, hkeys⟩ := liftAll_single hlevel hw hstray hothers
        fun _ _ _ _ _ => stray_step hstray hbelow habove (hleft elem List.mem_cons_self)
      rw [List.length_cons] at hreach hshort
      rw [hrest]
      by_cases hoffset : 2 ^ (height + 1) ≤ w + 1
      · rw [if_pos hoffset] at hparent hkeys
        refine doomed_of_near hparent ?_ ?_ ?_ ?_ (by omega) (by omega)
        · exact fun key hkey => (hkeys key hkey).imp_right And.right
        · intro key hkey
          rcases hkeys key hkey with rfl | ⟨hold, -⟩
          · omega
          · have := hbelow key hold
            omega
        · intro key hkey
          rcases hkeys key hkey with rfl | ⟨hold, -⟩
          · omega
          · have := habove key hold
            omega
        · exact fun elem' hmem => hleft elem' (List.mem_cons_of_mem _ hmem)
      · rw [if_neg hoffset] at hparent
        exact .past hparent (by omega)

/-! ## The colliding level -/

section Collision

variable {data : List Bytes} {s e h : Nat}

/-- A collision happens at the last complete block of its height. -/
theorem last_of_collides (hse : s ≤ e) (hcollides : Collides n s e h) :
    n / 2 ^ h = rangeLo s h + 1 ∧ rangeUp n e h = rangeLo s h + 1 := by
  obtain ⟨hodd, p, hp, hat⟩ := hcollides
  obtain ⟨hpeak, hheight, -⟩ := mem_carriedPeaks.mp hp
  have hlt := mem_peakSet_lt (pos_mem_peakSet.mpr hpeak)
  have hmono : s / 2 ^ h ≤ e / 2 ^ h := Nat.div_le_div_right hse
  have htwo := two_le_offset h
  have hle : (rangeLo s h + 1) * 2 ^ h ≤ n := by
    rw [← pos_lt_size_iff]
    omega
  have hge : rangeLo s h + 1 ≤ n / 2 ^ h := (Nat.le_div_iff_mul_le (Nat.two_pow_pos h)).mpr hle
  -- with one more block of this height the peak would stand behind that block
  have hlast : ¬ rangeLo s h + 1 + 1 ≤ n / 2 ^ h := by
    intro hmore
    have hnext := block_lt_peak ((Nat.le_div_iff_mul_le (Nat.two_pow_pos h)).mp hmore) hpeak hheight
    have hsucc := pos_succ h (rangeLo s h)
    have hcarry := carries_odd hodd
    omega
  unfold rangeUp rangeLo at *
  omega

/-- At the end of the range the path holds left siblings, one for each carry. -/
theorem siblingsFrom_last (hse : s ≤ e) :
    ∀ rounds {h : Nat}, h + rounds = 64 → data.length / 2 ^ h = rangeLo s h + 1 →
      data.length < 2 ^ 64 →
      (siblingsFrom hs data s e h).length = carries (rangeLo s h)
        ∧ ∀ elem ∈ siblingsFrom hs data s e h, elem.isLeft = true := by
  intro rounds
  induction rounds with
  | zero =>
    intro h hrounds hend hsize
    obtain rfl : h = 64 := by omega
    rw [Nat.div_eq_of_lt hsize] at hend
    omega
  | succ rounds ih =>
    intro h hrounds hend hsize
    have hmono : s / 2 ^ h ≤ e / 2 ^ h := Nat.div_le_div_right hse
    have hup : rangeUp data.length e h = rangeLo s h + 1 := by
      unfold rangeUp rangeLo at *
      omega
    by_cases hodd : rangeLo s h % 2 = 1
    · have hnext : data.length / 2 ^ (h + 1) = rangeLo s (h + 1) + 1 := by
        rw [div_pow_succ, rangeLo_succ]
        omega
      obtain ⟨hlen, hleft⟩ := ih (by omega) hnext hsize
      rw [siblingsFrom_succ hs data s e (by omega), levelSiblings, if_pos (by omega),
        if_neg (by omega), List.append_nil, List.singleton_append]
      refine ⟨?_, ?_⟩
      · rw [List.length_cons, hlen, rangeLo_succ, carries_odd hodd]
      · intro elem hmem
        rcases List.mem_cons.mp hmem with rfl | hmem
        · rfl
        · exact hleft elem hmem
    · have hnil : siblingsFrom hs data s e (h + 1) = [] := by
        apply siblingsFrom_eq_nil hs data hse
        rw [rangeUp_succ, rangeLo_succ, if_pos (by omega)]
        omega
      rw [siblingsFrom_succ hs data s e (by omega), levelSiblings, if_neg (by omega),
        if_neg (by omega), hnil, carries_even (by omega)]
      exact ⟨rfl, fun elem hmem => absurd hmem List.not_mem_nil⟩

/-- The level at which a collision happens dooms the map. -/
theorem doomed_of_collides (hsize : data.length < 2 ^ 64) (hse : s ≤ e) (hh : h ≤ 64)
    (hcollides : Collides data.length s e h)
    (hlevel : liftAll hs (peakSet data.length) (honestMap hs data s e h) h
        (honestMap hs data s e h).keys ⟨[], [], siblingsFrom hs data s e h⟩ = .ok level) :
    Doomed data.length (h + 1) level.next level.siblings := by
  obtain ⟨hend, hup⟩ := last_of_collides hse hcollides
  obtain ⟨hlen, hleft⟩ := siblingsFrom_last hse (64 - h) (h := h) (by omega) hend hsize
  obtain ⟨hodd, p, hp, hat⟩ := hcollides
  obtain ⟨hpeak, hheight, -⟩ := mem_carriedPeaks.mp hp
  have htwo := two_le_offset h
  have hdouble : 2 ^ (h + 1 + 1) = 2 * 2 ^ (h + 1) := Nat.pow_succ'
  have hblock : (rangeLo s h + 1) * 2 ^ h ≤ data.length :=
    block_le_of_lt_rangeUp (e := e) (by omega)
  have hafter := size_block_end h (rangeLo s h)
  -- the peak stands behind the block, so there are few carries
  have hfew : carries (rangeLo s h) + 2 ≤ 2 ^ (h + 1) := by
    have hstart := size_le_size (block_end_le_peak hblock hpeak hheight)
    have hpos := size_le_pos p.1 p.2
    omega
  have hreach : MountainRange.size data.length
      ≤ pos h (rangeLo s h) + 2 ^ (h + 1) + carries (rangeLo s h) := by
    have hmod := Nat.mod_lt data.length (Nat.two_pow_pos h)
    have hsum : data.length = (rangeLo s h + 1) * 2 ^ h + data.length % 2 ^ h := by
      rw [← hend, Nat.mul_comm]
      exact (Nat.div_add_mod _ _).symm
    have hrest := size_le_two_mul (data.length % 2 ^ h)
    have hexp : 2 ^ (h + 1) = 2 * 2 ^ h := Nat.pow_succ'
    rw [hsum, size_mul_two_pow_add _ hmod]
    omega
  have hlo : pos h (rangeLo s h) ∈ (honestMap hs data s e h).keys :=
    mem_honestMap_keys.mpr (.inl ⟨_, rfl, Nat.le_refl _, by omega⟩)
  have hstray : pos h (rangeLo s h) ∉ peakSet data.length := by
    rw [pos_mem_peakSet, mem_peaks]
    omega
  have hkeysOf : ∀ key ∈ (honestMap hs data s e h).keys,
      key = pos h (rangeLo s h) ∨ pos h (rangeLo s h) < key ∧ key ∈ peakSet data.length := by
    intro key hkey
    rcases mem_honestMap_keys.mp hkey with ⟨j, rfl, hj, hj'⟩ | ⟨q, hq, rfl⟩
    · rw [show j = rangeLo s h by omega]
      exact .inl rfl
    · refine .inr ⟨row_lt_carried (j := rangeLo s h) (by omega) hq, ?_⟩
      exact pos_mem_peakSet.mpr (mem_carriedPeaks.mp hq).1
  -- the block takes the peak for its right sibling
  obtain ⟨hparent, hrest, hkeys⟩ := liftAll_single hlevel hlo hstray
    (fun key hkey => (hkeysOf key hkey).imp_right And.right)
    (by
      intro hash parent' combined marked rest' hstep
      have hget : (honestMap hs data s e h).get? (pos h (rangeLo s h) + 2 ^ (h + 1) - 1)
          = some (subtreeHash hs data p.1 p.2) := by
        rw [show pos h (rangeLo s h) + 2 ^ (h + 1) - 1 = pos p.1 p.2 by omega]
        exact honestMap_get?_carried hp
      cases hstep with
      | peak h => exact absurd h hstray
      | right _ _ => exact ⟨rfl, rfl⟩
      | left _ h _ _ =>
        rw [hget] at h
        cases h
      | pathLeft _ h _ _ =>
        rw [hget] at h
        cases h
      | pathRight _ h _ _ =>
        rw [hget] at h
        cases h
      | carry _ h _ _ =>
        rw [hget] at h
        cases h)
  rw [hrest]
  refine doomed_of_near hparent (fun key hkey => (hkeys key hkey).imp_right And.right) ?_ ?_ hleft
    (by omega) (by omega)
  · intro key hkey
    rcases hkeys key hkey with rfl | ⟨-, hmem⟩
    · omega
    · have := mem_peakSet_lt hmem
      omega
  · intro key hkey
    rcases hkeys key hkey with rfl | ⟨hold, -⟩
    · omega
    · rcases hkeysOf key hold with rfl | ⟨hlt, -⟩
      · omega
      · omega

end Collision

/-! ## The rest of the loop -/

def Refused (n : Nat) (current : OrdMap H) (siblings : List (ProofElement H)) : Prop :=
  siblings ≠ [] ∨ ∃ key ∈ current.keys, key ∉ peakSet n

theorem Doomed.refused (hdoomed : Doomed n height current siblings) :
    Refused n current siblings := by
  cases hdoomed with
  | past hkey hpast =>
    refine .inr ⟨_, hkey, fun hmem => ?_⟩
    have := mem_peakSet_lt hmem
    omega
  | settled _ hpath => exact .inl hpath
  | stray hw hstray => exact .inr ⟨_, hw, hstray⟩

theorem Doomed.path_ne_nil (hdoomed : Doomed n height [] siblings) : siblings ≠ [] := by
  cases hdoomed with
  | past hkey => exact absurd hkey List.not_mem_nil
  | settled _ hpath => exact hpath
  | stray hw => exact absurd hw List.not_mem_nil

theorem climb_refused :
    ∀ rounds {height : Nat} {current : OrdMap H} {siblings : List (ProofElement H)},
      Doomed n height current siblings → ∀ {final : OrdMap H × List (ProofElement H)},
      climb hs (peakSet n) rounds height current siblings = .ok final →
      Refused n final.1 final.2 := by
  intro rounds
  induction rounds with
  | zero =>
    intro height current siblings hdoomed final h
    rcases climb_cases h with ⟨-, -, rfl⟩ | ⟨_, _, hrounds, -⟩
    · exact hdoomed.refused
    · cases hrounds
  | succ rounds ih =>
    intro height current siblings hdoomed final h
    rcases climb_cases h with ⟨-, -, rfl⟩ | ⟨rest, level, hrounds, hlevel, hnext⟩
    · exact hdoomed.refused
    · obtain rfl : rounds = rest := by omega
      have hsucc := doomed_succ hlevel hdoomed
      rcases hnext with ⟨hnil, rfl⟩ | hclimb
      · rw [hnil] at hsucc
        exact .inl hsucc.path_ne_nil
      · exact ih hsucc hclimb

/-- The path is not used up before a collision. -/
theorem siblingsFrom_ne_nil {data : List Bytes} {s e h k : Nat} (hse : s ≤ e) (hk : k < 64)
    (hhk : h ≤ k) (hcollides : Collides data.length s e k) : siblingsFrom hs data s e h ≠ [] := by
  obtain ⟨-, hup⟩ := last_of_collides hse hcollides
  intro hnil
  rw [siblingsFrom, List.flatMap_eq_nil_iff] at hnil
  have hlevel := hnil k (List.mem_range'_1.mpr (by omega))
  rw [levelSiblings, if_pos ⟨by omega, hcollides.1⟩] at hlevel
  cases hlevel

/-- A collision at some height, and none before it, ends in a refusal. -/
theorem climb_collides {data : List Bytes} {s e k : Nat}
    (hsize : MountainRange.size data.length < 2 ^ 63) (hse : s ≤ e) (hen : e < data.length)
    (hk : k < 63) (hcollides : Collides data.length s e k) :
    ∀ rounds {h : Nat}, h + rounds = 63 → h ≤ k →
      (∀ k', h ≤ k' → k' < k → ¬ Collides data.length s e k') →
      ∀ {final : OrdMap H × List (ProofElement H)},
      climb hs (peakSet data.length) rounds h (honestMap hs data s e h)
        (siblingsFrom hs data s e h) = .ok final →
      Refused data.length final.1 final.2 := by
  have hdata := le_size data.length
  intro rounds
  induction rounds with
  | zero =>
    intro h hrounds hhk _ final _
    omega
  | succ rounds ih =>
    intro h hrounds hhk hfirst final hclimb
    have hpath := @siblingsFrom_ne_nil _ hs _ _ _ _ _ hse (by omega) hhk hcollides
    by_cases heq : h = k
    · subst heq
      rcases climb_cases hclimb with ⟨hnil, -⟩ | ⟨rest, level, hrest, hlevel, hnext⟩
      · exact absurd hnil hpath
      · have hdoomed := doomed_of_collides (by omega) hse (by omega) hcollides hlevel
        rcases hnext with ⟨hnil, rfl⟩ | hnext
        · rw [hnil] at hdoomed
          exact .inl hdoomed.path_ne_nil
        · exact climb_refused rest hdoomed hnext
    · rw [climb_honest_succ hsize hse hen (hfirst h (Nat.le_refl h) (by omega))
        (fun hfin => hpath hfin.2) hrounds] at hclimb
      exact ih (by omega) (by omega) (fun k' hlo hlt => hfirst k' (by omega) hlt) hclimb

theorem checkPeaks_keys [DecidableEq H] {peaks : List H} {map : OrdMap H} {peakSet : List Nat}
    (h : checkPeaks peakSet peaks map = .ok ()) : ∀ key ∈ map.keys, key ∈ peakSet := by
  intro key hkey
  obtain ⟨hash, hmem⟩ := exists_of_mem_keys hkey
  obtain ⟨i, hidx, -⟩ := checkPeaks_eq_ok h _ hmem
  exact List.mem_of_getElem? (getElem?_of_idxOf? hidx)

end WritersProof.Mmr.RangeProof
