/-
  `find_family` never takes a node of another subtree.  It looks at a fixed
  offset before and behind the node and compares heights; a right child never
  meets a node of its own height where its sibling would be if it were a left
  child, and behind a peak there is a leaf.
-/
import WritersProof.Mmr.Prover
import WritersProof.Mmr.Representation

namespace WritersProof.Mmr

set_option linter.dupNamespace false

open Rust MountainRange

variable {H : Type} {hs : NodeHasher H} {data : List Bytes} {m : Mmr (MemoryStore H) H}

/-- Sibling and parent of the block `(h, j)` over `n` leaves. -/
def blockFamily (n h j : Nat) : Option Family :=
  if j % 2 = 1 then some ⟨pos h (j - 1), pos (h + 1) (j / 2), true⟩
  else if (j + 2) * 2 ^ h ≤ n then some ⟨pos h (j + 1), pos (h + 1) (j / 2), false⟩
  else none

namespace Mmr

variable {isRight : Bool} {p sib par height size : Nat} {a b : Node H}

theorem familyAt_found (hsib : sib < size ∧ sib ≠ p) (ha : m.store.nodes[sib]? = some a)
    (hheight : a.height = height) (hpar : par < size) (hb : m.store.nodes[par]? = some b)
    (hparent : b.height = height + 1) :
    familyAt p sib par height size isRight m = (.ok (some ⟨sib, par, isRight⟩), m) := by
  rw [familyAt, if_pos hsib, Call.bind_of_ok (onStore_get ha), if_pos ⟨hheight, hpar⟩,
    Call.bind_of_ok (onStore_get hb), if_pos hparent]
  rfl

theorem familyAt_out (hout : size ≤ sib) :
    familyAt p sib par height size isRight m = (.ok none, m) := by
  rw [familyAt, if_neg (by omega)]
  rfl

theorem familyAt_height_ne (ha : sib < size → m.store.nodes[sib]? = some a)
    (hheight : a.height ≠ height) :
    familyAt p sib par height size isRight m = (.ok none, m) := by
  rw [familyAt]
  by_cases hsib : sib < size ∧ sib ≠ p
  · rw [if_pos hsib, Call.bind_of_ok (onStore_get (ha hsib.1)), if_neg (fun h => hheight h.1)]
    rfl
  · rw [if_neg hsib]
    rfl

theorem familyAt_parent_ne (ha : m.store.nodes[sib]? = some a)
    (hb : par < size → m.store.nodes[par]? = some b) (hparent : b.height ≠ height + 1) :
    familyAt p sib par height size isRight m = (.ok none, m) := by
  rw [familyAt]
  by_cases hsib : sib < size ∧ sib ≠ p
  · rw [if_pos hsib, Call.bind_of_ok (onStore_get ha)]
    by_cases hcond : a.height = height ∧ par < size
    · rw [if_pos hcond, Call.bind_of_ok (onStore_get (hb hcond.2)), if_neg hparent]
      rfl
    · rw [if_neg hcond]
      rfl
  · rw [if_neg hsib]
    rfl

end Mmr

/-- The positions of the level are far from the end of `u64`. -/
theorem pos_add_offset_lt {h j : Nat} (hsize : size data.length < 2 ^ 63) (hh : h < 63)
    (hle : (j + 1) * 2 ^ h ≤ data.length) : pos h j + 2 ^ (h + 1) < 2 ^ 64 := by
  have hpos := pos_lt_size_iff.mpr hle
  have hpow : 2 ^ (h + 1) ≤ 2 ^ 63 := Nat.pow_le_pow_right (by decide) (by omega)
  omega

namespace Represents

variable {h j : Nat}

variable (hm : Represents hs data m)

include hm

theorem height_lt (hle : (j + 1) * 2 ^ h ≤ data.length) : h < 63 := by
  have hsize := hm.size_lt
  have hdata := le_size data.length
  have hone : 1 * 2 ^ h ≤ (j + 1) * 2 ^ h := Nat.mul_le_mul_right _ (by omega)
  exact (Nat.pow_lt_pow_iff_right (by decide : 1 < 2)).mp (show 2 ^ h < 2 ^ 63 by omega)

theorem findFamily_right (hodd : j % 2 = 1) (hle : (j + 1) * 2 ^ h ≤ data.length) :
    Mmr.findFamily (pos h j) h (size data.length) m
      = (.ok (some ⟨pos h (j - 1), pos (h + 1) (j / 2), true⟩), m) := by
  have hheight := hm.height_lt hle
  have hpos := pos_lt_size_iff.mpr hle
  have hmax := pos_add_offset_lt hm.size_lt hheight hle
  have htwo : 2 ≤ 2 ^ (h + 1) := Nat.one_lt_two_pow' h
  have hj : j = 2 * (j / 2) + 1 := by omega
  have hparent : pos h j + 1 = pos (h + 1) (j / 2) := by
    conv_lhs => rw [hj]
    exact pos_right h (j / 2)
  have hleft : pos h (j - 1) + 2 ^ (h + 1) = pos (h + 1) (j / 2) := by
    rw [← pos_left h (j / 2), show 2 * (j / 2) = j - 1 by omega]
  have hsibling : pos h j + 1 - 2 ^ (h + 1) = pos h (j - 1) := by omega
  have hblock : (j / 2 + 1) * 2 ^ (h + 1) = (j + 1) * 2 ^ h := by
    rw [block_succ, show 2 * (j / 2) + 1 + 1 = j + 1 by omega]
  have hprev : (j - 1 + 1) * 2 ^ h ≤ data.length :=
    Nat.le_trans (Nat.mul_le_mul_right _ (by omega)) hle
  rw [Mmr.findFamily, if_neg (by omega)]
  simp only [checkedAdd_eq_some hmax]
  -- what stands where a right sibling would be has another height
  have hnone : Mmr.familyAt (pos h j) (pos h j + 2 ^ (h + 1) - 1) (pos h j + 2 ^ (h + 1)) h
      (size data.length) false m = (.ok none, m) := by
    by_cases hin : pos h j + 2 ^ (h + 1) - 1 < size data.length
    · obtain ⟨h', j', hp, hle'⟩ := exists_pos hin
      refine Mmr.familyAt_height_ne (fun _ => hp ▸ hm.node_at hle') ?_
      intro hsame
      obtain rfl : h' = h := hsame
      exact pos_ne_of_odd hodd (by omega) (by omega) hp
    · exact Mmr.familyAt_out (Nat.le_of_not_lt hin)
  rw [Call.bind_of_ok hnone, checkedAdd_eq_some (by omega)]
  dsimp only
  have hin := pos_lt_size_iff.mpr (hblock ▸ hle)
  rw [if_pos (by omega), hsibling, hparent]
  refine Mmr.familyAt_found ⟨pos_lt_size_iff.mpr hprev, ?_⟩ (hm.node_at hprev) rfl hin
    (hm.node_at (hblock ▸ hle)) rfl
  omega

theorem findFamily_left (heven : j % 2 = 0) (hle : (j + 2) * 2 ^ h ≤ data.length) :
    Mmr.findFamily (pos h j) h (size data.length) m
      = (.ok (some ⟨pos h (j + 1), pos (h + 1) (j / 2), false⟩), m) := by
  have hself : (j + 1) * 2 ^ h ≤ data.length :=
    Nat.le_trans (Nat.mul_le_mul_right _ (by omega)) hle
  have hheight := hm.height_lt hself
  have hpos := pos_lt_size_iff.mpr hself
  have hmax := pos_add_offset_lt hm.size_lt hheight hself
  have htwo : 2 ≤ 2 ^ (h + 1) := Nat.one_lt_two_pow' h
  have hj : 2 * (j / 2) = j := by omega
  have hparent : pos h j + 2 ^ (h + 1) = pos (h + 1) (j / 2) := by
    have hleft := pos_left h (j / 2)
    rwa [hj] at hleft
  have hsibling : pos (h + 1) (j / 2) - 1 = pos h (j + 1) := by
    have hright := pos_right h (j / 2)
    rw [hj] at hright
    omega
  have hblock : (j / 2 + 1) * 2 ^ (h + 1) = (j + 2) * 2 ^ h := by
    rw [block_succ, show 2 * (j / 2) + 1 + 1 = j + 2 by omega]
  have hin := pos_lt_size_iff.mpr (hblock ▸ hle)
  have hfound : Mmr.familyAt (pos h j) (pos h (j + 1)) (pos (h + 1) (j / 2)) h (size data.length)
      false m = (.ok (some ⟨pos h (j + 1), pos (h + 1) (j / 2), false⟩), m) :=
    Mmr.familyAt_found ⟨by omega, by omega⟩ (hm.node_at hle) rfl hin (hm.node_at (hblock ▸ hle)) rfl
  rw [Mmr.findFamily, if_neg (by omega)]
  simp only [checkedAdd_eq_some hmax, hparent, hsibling]
  rw [Call.bind_of_ok hfound]
  rfl

/-- A peak finds nothing: the node behind it is a leaf. -/
theorem findFamily_peak (hpeak : (h, j) ∈ peaks data.length) :
    Mmr.findFamily (pos h j) h (size data.length) m = (.ok none, m) := by
  obtain ⟨hdiv, heven⟩ := mem_peaks.mp hpeak
  have hself := peak_le hpeak
  have hheight := hm.height_lt hself
  have hpos := pos_lt_size_iff.mpr hself
  have hmax := pos_add_offset_lt hm.size_lt hheight hself
  have htwo : 2 ≤ 2 ^ (h + 1) := Nat.one_lt_two_pow' h
  have hparent : pos h j + 2 ^ (h + 1) - 1 = pos h (j + 1) := by
    have hsucc := pos_succ h j
    rw [carries_even heven] at hsucc
    omega
  -- the sibling is not there
  have hout : size data.length ≤ pos h (j + 1) := by
    by_contra hlt
    have hle := pos_lt_size_iff.mp (Nat.lt_of_not_le hlt)
    have := (Nat.le_div_iff_mul_le (Nat.two_pow_pos h)).mpr hle
    omega
  rw [Mmr.findFamily, if_neg (by omega)]
  simp only [checkedAdd_eq_some hmax, hparent]
  rw [Call.bind_of_ok (Mmr.familyAt_out hout), checkedAdd_eq_some (by omega)]
  dsimp only
  by_cases hoffset : 2 ^ (h + 1) ≤ pos h j + 1
  · rw [if_pos hoffset]
    obtain ⟨h', j', hp, hle'⟩ :=
      exists_pos (show pos h j + 1 - 2 ^ (h + 1) < size data.length by omega)
    have hsib := hp ▸ hm.node_at hle'
    -- the node behind the peak is the leaf that follows
    have hleaf : pos h j + 1 = pos 0 ((j + 1) * 2 ^ h) := by
      rw [pos_zero, size_block_end, carries_even heven]
    refine Mmr.familyAt_parent_ne (b := subtreeNode hs data 0 ((j + 1) * 2 ^ h)) hsib ?_
      (Nat.succ_ne_zero h).symm
    intro hin
    rw [hleaf] at hin ⊢
    exact hm.node_at (pos_lt_size_iff.mp hin)
  · rw [if_neg hoffset]
    rfl

theorem findFamily_eq (hle : (j + 1) * 2 ^ h ≤ data.length) :
    Mmr.findFamily (pos h j) h (size data.length) m = (.ok (blockFamily data.length h j), m) := by
  rw [blockFamily]
  by_cases hodd : j % 2 = 1
  · rw [if_pos hodd]
    exact hm.findFamily_right hodd hle
  · have heven : j % 2 = 0 := by omega
    rw [if_neg hodd]
    by_cases hsib : (j + 2) * 2 ^ h ≤ data.length
    · rw [if_pos hsib]
      exact hm.findFamily_left heven hsib
    · rw [if_neg hsib]
      exact hm.findFamily_peak (mem_peaks_of_last heven hle hsib)

end Represents

end WritersProof.Mmr
