/-
  `find_peaks`, `highest_peak` and `leaf_count_from_size`
  (crates/cpoe/src/mmr/mmr.rs).  Both loops peel off the largest perfect tree
  that fits, again and again.  On the size of a mountain range this greedy
  search finds its mountains, and it still does when the range is followed by
  one more tree that is no higher than its last mountain — the sizes that
  `append` passes through while it merges.

  The Merkle mountain range over a `Store`: opening, appending with its merge
  loop and cached peaks, the root, and the lookups of leaf indices
  (crates/cpoe/src/mmr/mmr.rs).

  The state lock of the source serializes the writers, so `append` is one
  atomic `Call` on the store and the state together.
-/
import WritersProof.Lib.MountainRange
import WritersProof.Mmr.Store

namespace WritersProof.Mmr

open Rust MountainRange

variable {ε : Type} {h m i n : Nat}

/-- Aborts on `u64::MAX`, where `size + 1` overflows. -/
def highestPeak (size : Nat) : Res ε Nat :=
  if size = 0 then .ok 0
  else do
    let next ← unwrap (checkedAdd size 1)
    .ok (63 - leadingZeros next - 1)

/-- The loop of `find_peaks`; `iterations` counts down from the cap. -/
def findPeaksLoop : (iterations size offset : Nat) → Res ε (List Nat)
  | 0, _, _ => .ok []
  | iterations + 1, size, offset =>
    if size = 0 then .ok []
    else do
      let h ← highestPeak size
      let treeSize := 2 ^ (h + 1) - 1
      if treeSize > size then .ok []
      else
        let peaks ← findPeaksLoop iterations (size - treeSize) (offset + treeSize)
        .ok ((offset + treeSize - 1) :: peaks)

def findPeaks (size : Nat) : Res ε (List Nat) := findPeaksLoop 64 size 0

/-- The loop of `leaf_count_from_size`; each round makes `size` smaller, so
    `size` rounds are enough. -/
def leafCountLoop : (rounds size count : Nat) → Res ε Nat
  | 0, _, count => .ok count
  | rounds + 1, size, count =>
    if size = 0 then .ok count
    else do
      let h ← highestPeak size
      let rest ← unwrap (checkedSub size (2 ^ (h + 1) - 1))
      leafCountLoop rounds rest (count + 2 ^ h)

def leafCountFromSize (size : Nat) : Res ε Nat := leafCountLoop size size 0

/-! ## The greedy search -/

theorem highestPeak_eq {s : Nat} (hlow : 2 ^ (h + 1) ≤ s + 1) (hhigh : s + 1 < 2 ^ (h + 2))
    (hmax : s + 1 < 2 ^ 64) : highestPeak (ε := ε) s = .ok h := by
  have hpow : 2 ≤ 2 ^ (h + 1) := Nat.one_lt_two_pow' h
  have hlog : (s + 1).log2 = h + 1 := (Nat.log2_eq_iff (by omega)).mpr ⟨hlow, hhigh⟩
  have hbound : h + 1 < 64 := by
    rw [← hlog]
    exact (Nat.log2_lt (by omega)).mpr hmax
  rw [highestPeak, if_neg (by omega), checkedAdd_eq_some hmax, unwrap_some, res_ok_bind,
    leadingZeros, if_neg (by omega), hlog]
  congr 1
  omega

/-- `size` of the range below bit `h`, plus a tree no higher than its lowest
    mountain, is less than a tree of height `h`. -/
theorem size_low_add_lt {extra : Nat} (hih : i ≤ h) (hlow : m % 2 ^ i = 0)
    (hextra : extra = 0 ∨ extra + 1 = 2 ^ (i + 1)) :
    size (m % 2 ^ h) + extra < 2 ^ (h + 1) := by
  have hpow := Nat.two_pow_pos h
  have hsplit : 2 ^ h = 2 ^ (h - i) * 2 ^ i := by rw [← Nat.pow_add, Nat.sub_add_cancel hih]
  -- the bits of `m % 2 ^ h` are all at or above `i`
  have hmod : m % 2 ^ h ≤ (2 ^ (h - i) - 1) * 2 ^ i := by
    have hdvd : 2 ^ i ∣ m % 2 ^ h :=
      (Nat.dvd_mod_iff (Nat.pow_dvd_pow 2 hih)).mpr (Nat.dvd_of_mod_eq_zero hlow)
    obtain ⟨c, hc⟩ := hdvd
    have hlt : m % 2 ^ h < 2 ^ h := Nat.mod_lt _ hpow
    rw [hc, hsplit, Nat.mul_comm (2 ^ i) c] at hlt
    have hclt := Nat.lt_of_mul_lt_mul_right hlt
    rw [hc, Nat.mul_comm]
    exact Nat.mul_le_mul_right _ (by omega)
  have hsize := size_le_size hmod
  have hones := size_add_countOnes ((2 ^ (h - i) - 1) * 2 ^ i)
  rw [countOnes_mul_two_pow, countOnes_two_pow_sub_one, Nat.sub_mul, ← hsplit, Nat.one_mul] at hones
  rw [Nat.sub_mul, ← hsplit, Nat.one_mul] at hsize
  have hpowi := Nat.two_pow_pos i
  have hile : 2 ^ i ≤ 2 ^ h := Nat.pow_le_pow_right (by decide) hih
  rw [Nat.pow_succ] at hextra
  rw [Nat.pow_succ]
  omega

/-- The loop, started at the mountains below bit `H`. -/
theorem findPeaksLoop_eq {m i extra : Nat} (hlow : m % 2 ^ i = 0)
    (hextra : extra = 0 ∨ extra + 1 = 2 ^ (i + 1)) (d : Nat) :
    ∀ iterations, d + 1 ≤ iterations →
      size (m % 2 ^ (i + d)) + extra + 1 < 2 ^ 64 →
      findPeaksLoop (ε := ε) iterations (size (m % 2 ^ (i + d)) + extra)
          (size (m / 2 ^ (i + d) * 2 ^ (i + d)))
        = .ok ((peaksBelow (i + d) m).map (fun p => pos p.1 p.2)
            ++ if extra = 0 then [] else [pos i (m / 2 ^ i)]) := by
  induction d with
  | zero =>
    intro iterations hiter hmax
    obtain ⟨iterations, rfl⟩ : ∃ k, iterations = k + 1 := ⟨iterations - 1, by omega⟩
    simp only [Nat.add_zero, hlow, size_zero, Nat.zero_add] at hmax ⊢
    rw [findPeaksLoop, peaksBelow_eq_nil hlow, List.map_nil, List.nil_append]
    -- what is left is nothing or one mountain
    rcases hextra with rfl | hextra
    · rw [if_pos rfl, if_pos rfl]
    · have hpow : 2 ≤ 2 ^ (i + 1) := Nat.one_lt_two_pow' i
      have hnext : extra + 1 < 2 ^ (i + 2) := by
        rw [Nat.pow_succ]
        omega
      rw [if_neg (by omega), highestPeak_eq (by omega) hnext hmax, res_ok_bind,
        if_neg (show ¬ extra = 0 by omega)]
      simp only [show 2 ^ (i + 1) - 1 = extra by omega, gt_iff_lt, Nat.lt_irrefl, if_false,
        Nat.sub_self]
      have hdone : findPeaksLoop (ε := ε) iterations 0
          (size (m / 2 ^ i * 2 ^ i) + extra) = .ok [] := by
        cases iterations with
        | zero => rfl
        | succ k => rw [findPeaksLoop, if_pos rfl]
      rw [hdone, res_ok_bind, pos]
      congr 2
      omega
  | succ d ih =>
    intro iterations hiter hmax
    have hpow := Nat.two_pow_pos (i + d)
    rw [← Nat.add_assoc] at hmax ⊢
    have hmod : m % 2 ^ (i + d + 1) = (m / 2 ^ (i + d) % 2) * 2 ^ (i + d) + m % 2 ^ (i + d) := by
      rw [Nat.mod_pow_succ]
      ring
    have hstart : m / 2 ^ (i + d) * 2 ^ (i + d)
        = m / 2 ^ (i + d + 1) * 2 ^ (i + d + 1) + m / 2 ^ (i + d) % 2 * 2 ^ (i + d) := by
      rw [Nat.pow_succ, Nat.mul_comm _ 2, ← Nat.mul_assoc, ← Nat.add_mul, Nat.mul_comm 2,
        ← Nat.div_div_eq_div_mul, Nat.div_add_mod']
    have hlt : m % 2 ^ (i + d) < 2 ^ (i + d) := Nat.mod_lt _ hpow
    have hbelow := size_low_add_lt (Nat.le_add_right i d) hlow hextra
    by_cases hbit : m / 2 ^ (i + d) % 2 = 1
    · -- bit `i + d` is set: the loop emits its mountain
      obtain ⟨iterations, rfl⟩ : ∃ k, iterations = k + 1 := ⟨iterations - 1, by omega⟩
      have htop := size_two_pow (i + d)
      rw [hmod, hbit, size_mul_two_pow_add 1 hlt, Nat.one_mul] at hmax ⊢
      have hnext : size (2 ^ (i + d))
          + size (m % 2 ^ (i + d)) + extra + 1 < 2 ^ (i + d + 2) := by
        rw [Nat.pow_succ]
        omega
      rw [findPeaksLoop, if_neg (by omega), highestPeak_eq (by omega) hnext hmax, res_ok_bind]
      have htree : 2 ^ (i + d + 1) - 1 = size (2 ^ (i + d)) := by omega
      simp only [htree]
      have hoffset : size (m / 2 ^ (i + d + 1) * 2 ^ (i + d + 1))
            + size (2 ^ (i + d))
          = size (m / 2 ^ (i + d) * 2 ^ (i + d)) := by
        rw [hstart, hbit, Nat.one_mul, size_mul_two_pow_add]
        exact Nat.pow_lt_pow_right (by decide) (by omega)
      have hpeak : pos (i + d) (m / 2 ^ (i + d) - 1)
          = size (m / 2 ^ (i + d + 1) * 2 ^ (i + d + 1))
            + size (2 ^ (i + d)) - 1 := by
        have hmem : (i + d, m / 2 ^ (i + d) - 1) ∈ peaks m := mem_peaks.mpr (pred_of_odd hbit)
        rw [pos, peak_start hmem]
        omega
      rw [if_neg (by omega), hoffset,
        show size (2 ^ (i + d)) + size (m % 2 ^ (i + d)) + extra
            - size (2 ^ (i + d))
          = size (m % 2 ^ (i + d)) + extra by omega,
        ih iterations (by omega) (by omega), res_ok_bind, peaksBelow, if_pos hbit, List.map_cons,
        List.cons_append, hpeak, hoffset]
    · -- bit `i + d` is clear: same state one bit lower
      have hzero : m / 2 ^ (i + d) % 2 = 0 := by omega
      rw [hmod, hzero, Nat.zero_mul, Nat.zero_add] at hmax ⊢
      rw [hzero, Nat.zero_mul, Nat.add_zero] at hstart
      rw [← hstart, ih iterations (by omega) hmax, peaksBelow, if_neg hbit]

/-- `find_peaks` on a mountain range followed by a tree of height `i`, no
    higher than the last mountain. -/
theorem findPeaks_size_add_tree (hlow : m % 2 ^ i = 0)
    (hmax : size m + 2 ^ (i + 1) < 2 ^ 64) :
    findPeaks (ε := ε) (size m + (2 ^ (i + 1) - 1))
      = .ok ((peaks m).map (fun p => pos p.1 p.2) ++ [pos i (m / 2 ^ i)]) := by
  have hpow := Nat.two_pow_pos (i + 1)
  have hi : i < 63 := by
    by_contra hge
    have : 2 ^ 64 ≤ 2 ^ (i + 1) := Nat.pow_le_pow_right (by decide) (by omega)
    omega
  have hm : m < 2 ^ (i + (63 - i)) := by
    rw [show i + (63 - i) = 63 by omega]
    by_contra hge
    have hsize := size_le_size (Nat.le_of_not_lt hge)
    have := size_two_pow 63
    omega
  have hmain := @findPeaksLoop_eq (ε) _ _ (2 ^ (i + 1) - 1) hlow (.inr (by omega)) (63 - i) 64
      (by omega) (by rw [Nat.mod_eq_of_lt hm]; omega)
  rw [Nat.mod_eq_of_lt hm, Nat.div_eq_of_lt hm, Nat.zero_mul, size_zero,
    peaksBelow_eq_peaks hm] at hmain
  have hpow1 : 2 ^ (i + 1) = 2 * 2 ^ i := Nat.pow_succ'
  have hpowi := Nat.two_pow_pos i
  rw [if_neg (show ¬ 2 ^ (i + 1) - 1 = 0 by omega)] at hmain
  exact hmain

theorem findPeaks_size (hmax : size n + 1 < 2 ^ 64) :
    findPeaks (ε := ε) (size n) = .ok ((peaks n).map fun p => pos p.1 p.2) := by
  have hn : n < 2 ^ 63 := by
    by_contra hge
    have hsize := size_le_size (Nat.le_of_not_lt hge)
    have := size_two_pow 63
    omega
  have hmain := findPeaksLoop_eq (ε := ε) (m := n) (i := 0) (by omega) (.inl rfl)
    63 64 (by decide) (by rwa [Nat.zero_add, Nat.mod_eq_of_lt hn])
  rw [Nat.zero_add, Nat.mod_eq_of_lt hn, Nat.div_eq_of_lt hn, Nat.zero_mul, size_zero,
    peaksBelow_eq_peaks hn, if_pos rfl, List.append_nil] at hmain
  exact hmain

/-- The loop of `leaf_count_from_size`, started at the mountains below bit `H`. -/
theorem leafCountLoop_eq (n H : Nat) :
    ∀ rounds count, size (n % 2 ^ H) ≤ rounds →
      size (n % 2 ^ H) + 1 < 2 ^ 64 →
      leafCountLoop (ε := ε) rounds (size (n % 2 ^ H)) count
        = .ok (count + n % 2 ^ H) := by
  induction H with
  | zero =>
    intro rounds count _ _
    rw [Nat.pow_zero, Nat.mod_one, size_zero]
    cases rounds with
    | zero => rfl
    | succ k => rw [leafCountLoop, if_pos rfl, Nat.add_zero]
  | succ H ih =>
    intro rounds count hrounds hmax
    have hpow := Nat.two_pow_pos H
    have hmod : n % 2 ^ (H + 1) = (n / 2 ^ H % 2) * 2 ^ H + n % 2 ^ H := by
      rw [Nat.mod_pow_succ]
      ring
    have hlt : n % 2 ^ H < 2 ^ H := Nat.mod_lt _ hpow
    have hbelow := size_low_add_lt (m := n) (Nat.zero_le H) (by omega) (.inl rfl)
    by_cases hbit : n / 2 ^ H % 2 = 1
    · have htop := size_two_pow H
      rw [hmod, hbit, size_mul_two_pow_add 1 hlt, Nat.one_mul] at hrounds hmax ⊢
      have hpos := size_pos hpow
      obtain ⟨rounds, rfl⟩ : ∃ k, rounds = k + 1 := ⟨rounds - 1, by omega⟩
      have hnext : size (2 ^ H) + size (n % 2 ^ H) + 1
          < 2 ^ (H + 2) := by
        rw [Nat.pow_succ]
        omega
      rw [leafCountLoop, if_neg (by omega), highestPeak_eq (by omega) hnext hmax, res_ok_bind,
        checkedSub, if_pos (by omega), unwrap_some, res_ok_bind,
        show size (2 ^ H) + size (n % 2 ^ H) - (2 ^ (H + 1) - 1)
          = size (n % 2 ^ H) by omega,
        ih rounds (count + 2 ^ H) (by omega) (by omega), Nat.add_assoc]
    · have hzero : n / 2 ^ H % 2 = 0 := by omega
      rw [hmod, hzero, Nat.zero_mul, Nat.zero_add] at hrounds hmax ⊢
      exact ih rounds count hrounds hmax

theorem leafCountFromSize_size (hmax : size n + 1 < 2 ^ 64) :
    leafCountFromSize (ε := ε) (size n) = .ok n := by
  have hn : n < 2 ^ n := Nat.lt_two_pow_self
  have hmain := leafCountLoop_eq (ε := ε) n n (size n) 0
  rw [Nat.mod_eq_of_lt hn, Nat.zero_add] at hmain
  exact hmain (Nat.le_refl _) hmax

set_option linter.dupNamespace false

structure Peak (H : Type) where
  index : Nat
  hash : H
  deriving DecidableEq

structure MmrState (H : Type) where
  size : Nat
  peaks : List (Peak H)
  deriving DecidableEq

structure Mmr (S H : Type) where
  store : S
  state : MmrState H
  deriving DecidableEq

def bagPeaks {H : Type} (hs : NodeHasher H) (peaks : List H) (last : H) : H :=
  peaks.dropLast.foldr hs.hashBag last

/-- The MMR index of a leaf: `checked_mul(2)`, then minus `count_ones`. -/
def leafIndexOf (ordinal : Nat) : Res MmrError Nat := do
  let twice ← okOr (checkedMul ordinal 2) .indexOutOfRange
  unwrap (checkedSub twice (countOnes ordinal))

namespace Mmr

variable {S H : Type} [Store S H]

def onStore {α : Type} (call : Call S MmrError α) : Call (Mmr S H) MmrError α :=
  Call.zoom (·.store) (fun store m => { m with store := store }) call

def loadPeaks : List Nat → Call S MmrError (List (Peak H))
  | [] => pure []
  | idx :: rest => do
    let node ← Store.get idx
    let peaks ← loadPeaks rest
    pure (⟨idx, node.hash⟩ :: peaks)

def openState : Call S MmrError (MmrState H) := do
  let size ← Store.size
  if size = 0 then pure ⟨size, []⟩
  else do
    let indices ← Call.lift (findPeaks size)
    let peaks ← loadPeaks indices
    pure ⟨size, peaks⟩

def new (store : S) : Res MmrError (Mmr S H) :=
  match openState store with
  | (.ok state, store) => .ok ⟨store, state⟩
  | (.error fault, _) => .error fault

def empty : Mmr (MemoryStore H) H := ⟨MemoryStore.new, 0, []⟩

/-! ## Append -/

/-- `state.size += 1` -/
def bumpSize : Call (Mmr S H) MmrError Unit := fun m =>
  match checkedAdd m.state.size 1 with
  | some size => (.ok (), { m with state := { m.state with size := size } })
  | none => (abort, m)

def cachePeaks (peakIndices : List Nat) : Call (Mmr S H) MmrError Unit := do
  let newPeaks ← onStore (loadPeaks peakIndices)
  Call.modify fun m => { m with state := { m.state with peaks := newPeaks } }

def peaksChanged (peaks : List (Peak H)) (peakIndices : List Nat) : Bool :=
  peaks.length != peakIndices.length || (peaks.zip peakIndices).any fun p => p.1.index != p.2

def mergeLoop (hs : NodeHasher H) : (rounds : Nat) → Call (Mmr S H) MmrError Unit
  | 0 => Call.lift abort
  | rounds + 1 => do
    let size ← Call.asks (·.state.size)
    let peakIndices ← Call.lift (findPeaks size)
    match peakIndices.reverse with
    | lastIdx :: prevIdx :: _ => do
      let last ← onStore (Store.get lastIdx)
      let prev ← onStore (Store.get prevIdx)
      if last.height ≠ prev.height then cachePeaks peakIndices
      else do
        -- `last.height + 1` on `u8`
        let height ← Call.lift (if last.height + 1 < 2 ^ 8 then .ok (last.height + 1) else abort)
        onStore (Store.append (Node.newInternal hs size height prev last))
        bumpSize
        mergeLoop hs rounds
    | _ => do
      let cached ← Call.asks (·.state.peaks)
      if peaksChanged cached peakIndices ∨ size = 1 then cachePeaks peakIndices else pure ()

def append (hs : NodeHasher H) (data : Bytes) : Call (Mmr S H) MmrError Nat := do
  let leafIndex ← Call.asks (·.state.size)
  onStore (Store.append (Node.newLeaf hs leafIndex data))
  bumpSize
  mergeLoop hs (2 ^ 64)
  pure leafIndex

/-- Append one leaf after the other; the indices they were given. -/
def appendAll (hs : NodeHasher H) : List Bytes → Call (Mmr S H) MmrError (List Nat)
  | [] => pure []
  | data :: rest => do
    let index ← append hs data
    let indices ← appendAll hs rest
    pure (index :: indices)

/-! ## Reading -/

def getPeaks (m : Mmr S H) : Res MmrError (List H) := .ok (m.state.peaks.map (·.hash))

def getRoot (hs : NodeHasher H) (m : Mmr S H) : Res MmrError H :=
  match m.state.peaks with
  | [] => fail .empty
  | [peak] => .ok peak.hash
  | peak :: rest =>
    .ok (bagPeaks hs ((peak :: rest).map (·.hash)) ((peak :: rest).getLast (by simp)).hash)

def size (m : Mmr S H) : Nat := m.state.size

def leafCount (m : Mmr S H) : Res MmrError Nat := leafCountFromSize m.state.size

def get (index : Nat) : Call (Mmr S H) MmrError (Node H) := fun m =>
  if m.state.size ≤ index then (fail .indexOutOfRange, m)
  else onStore (Store.get index) m

def getLeafIndex (m : Mmr S H) (leafOrdinal : Nat) : Res MmrError Nat :=
  if m.state.size = 0 then fail .empty
  else do
    let leafCount ← leafCountFromSize m.state.size
    if leafCount ≤ leafOrdinal then fail .indexOutOfRange
    else leafIndexOf leafOrdinal

def getLeafIndices (m : Mmr S H) (start «end» : Nat) : Res MmrError (List Nat) :=
  if start > «end» then fail .invalidProof
  else do
    let leafCount ← leafCountFromSize m.state.size
    if leafCount ≤ «end» then fail .indexOutOfRange
    else (List.range' start («end» - start + 1)).mapM leafIndexOf

end Mmr

end WritersProof.Mmr
