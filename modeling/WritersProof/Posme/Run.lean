/-
  The computation that a proof is about, as a function of the seed, the
  parameters and the jitter samples (`Setup`): the arena and the transcript
  after every step, and the step that wrote a block last.  Here the root of an
  arena is that of the tree over its blocks; nothing is updated.
-/
import WritersProof.Posme.Tree
import WritersProof.Lib.LastWriter

namespace WritersProof.Posme

open Rust MerkleHeap LastWriter

variable (P : Prims)

/-! ## Arenas -/

/-- The addresses of the reads from `j` on, and the cursor that they lead to. -/
def chase (arena : List Block) : Nat → Nat → Digest → List Nat × Digest
  | 0, _, cursor => ([], cursor)
  | remaining + 1, j, cursor =>
    let a := addrFrom P cursor j arena.length
    let rest := chase arena remaining (j + 1) (nextCursor P cursor (arena.getD a Block.zeroed))
    (a :: rest.1, rest.2)

def arenaRoot (arena : List Block) : Digest :=
  subtree (internalHash P) (fun i => leafHash P (arena.getD i Block.zeroed)) arena.length.log2 0

/-- The root of the tree over some roots, padded with zeros. -/
def chainRoot (roots : List Digest) : Digest :=
  subtree (internalHash P) (fun i => roots.getD i zeroDigest) (Nat.clog 2 roots.length) 0

def initialBlock (seed : Bytes) (blocks : List Block) (i : Nat) : Block where
  data :=
    if i = 0 then posmeHash P [dstInit, seed, i2osp 0]
    else posmeHash P [dstInit, seed, i2osp i, (blocks.getD (i - 1) Block.zeroed).data.val,
      (blocks.getD (i / 2) Block.zeroed).data.val]
  causal := posmeHash P [dstCausal, seed, i2osp i]

def initialArena (seed : Bytes) : Nat → List Block
  | 0 => []
  | i + 1 => initialArena seed i ++ [initialBlock P seed (initialArena seed i) i]

/-! ## Steps -/

/-- What there is between two steps. -/
structure Moment where
  arena : List Block
  transcript : Digest

namespace Moment

variable (d : Nat) (m : Moment)

def readAddrs : List Nat := (chase P m.arena d 0 m.transcript).1

def cursor : Digest := (chase P m.arena d 0 m.transcript).2

def writeAddr : Nat := addrFrom P (m.cursor P d) d m.arena.length

def oldBlock : Block := m.arena.getD (m.writeAddr P d) Block.zeroed

/-- What step `t` writes. -/
def newBlock (t : Nat) : Block := writtenBlock P (m.oldBlock P d) (m.cursor P d) t

def written (t : Nat) : List Block := m.arena.set (m.writeAddr P d) (m.newBlock P d t)

/-- The transcript of step `t`, without jitter. -/
def stepped (t : Nat) : Digest :=
  stepTranscript P m.transcript t (m.cursor P d) (arenaRoot P (m.written P d t))

end Moment

/-! ## Runs -/

/-- What a run depends on. -/
structure Setup where
  seed : Bytes
  params : PosmeParams
  samples : List Digest

namespace Setup

variable (c : Setup)

def interval : Nat := c.params.totalSteps / c.samples.length

variable (t : Nat)

/-- The sample that is mixed in after step `t`. -/
def jitterAt : Option Digest :=
  if t % c.interval = 0 then c.samples[t / c.interval - 1]? else none

def mixed (transcript : Digest) : Digest :=
  match c.jitterAt t with
  | some jh => entangled P transcript jh
  | none => transcript

/-- The arena and the transcript after step `t`. -/
def moment : Nat → Moment
  | 0 =>
    let arena := initialArena P c.seed c.params.arenaBlocks
    ⟨arena, posmeHash P [dstTranscript, c.seed, (arenaRoot P arena).val]⟩
  | t + 1 =>
    let m := moment t
    ⟨m.written P c.params.readsPerStep (t + 1),
      c.mixed P (t + 1) (m.stepped P c.params.readsPerStep (t + 1))⟩

def arena : List Block := (c.moment P t).arena

def root : Digest := arenaRoot P (c.arena P t)

/-- What there is before step `t`. -/
def before : Moment := c.moment P (t - 1)

def readAddrs : List Nat := (c.before P t).readAddrs P c.params.readsPerStep

def writeAddr : Nat := (c.before P t).writeAddr P c.params.readsPerStep

def newBlock : Block := (c.before P t).newBlock P c.params.readsPerStep t

/-- The last step up to `t` that wrote the block at `a`, or 0. -/
def writer (t a : Nat) : Nat := lastWriter (c.writeAddr P) t a

def roots : List Digest := (List.range (c.params.totalSteps + 1)).map (c.root P)

def commitment : Digest := chainRoot P (c.roots P)

/-- The steps that the proof has to show. -/
def challenges : Res PosmeError (List Nat) :=
  deriveChallenges P (c.moment P c.params.totalSteps).transcript (c.commitment P) c.params

/-- The indices of the initial blocks that the proof has to show. -/
def initIndices : Res PosmeError (List Nat) :=
  initWitnessIndices P c.seed (c.root P 0) c.params.arenaBlocks

/-- No step reads the block that it writes, from step `t` back over `depth` writers. -/
def Straight : Nat → Nat → Prop
  | 0, _ => True
  | depth + 1, t => c.writeAddr P t ∉ c.readAddrs P t
    ∧ ∀ a ∈ c.readAddrs P t, 0 < c.writer P t a → Straight depth (c.writer P t a)

end Setup

variable {P}

/-! ## The arena of a run -/

theorem length_initialArena (seed : Bytes) (n : Nat) : (initialArena P seed n).length = n := by
  induction n with
  | zero => rfl
  | succ n ih => rw [initialArena, List.length_append, List.length_singleton, ih]

theorem getElem?_initialArena {seed : Bytes} {n i : Nat} (h : i < n) :
    (initialArena P seed n)[i]? = some (initialBlock P seed (initialArena P seed i) i) := by
  induction n with
  | zero => exact absurd h (Nat.not_lt_zero i)
  | succ n ih =>
    have hlen : (initialArena P seed n).length = n := length_initialArena seed n
    by_cases hi : i = n
    · subst hi
      rw [initialArena, List.getElem?_append_right (by omega), hlen, Nat.sub_self]
      rfl
    · rw [initialArena, List.getElem?_append_left (by omega), ih (by omega)]

namespace Setup

variable {c : Setup}

theorem arena_zero : c.arena P 0 = initialArena P c.seed c.params.arenaBlocks := rfl

theorem arena_succ (t : Nat) :
    c.arena P (t + 1) = (c.arena P t).set (c.writeAddr P (t + 1)) (c.newBlock P (t + 1)) := rfl

@[simp] theorem length_arena (t : Nat) : (c.arena P t).length = c.params.arenaBlocks := by
  have hlen : (c.arena P t).length = (c.arena P 0).length := length_eq arena_succ
  rw [hlen, arena_zero, length_initialArena]

theorem writer_le (t a : Nat) : c.writer P t a ≤ t := lastWriter_le

theorem writer_eq_self {t a : Nat} (ht : 0 < t) : c.writer P t a = t ↔ c.writeAddr P t = a :=
  lastWriter_eq_self ht

theorem writer_pred {t a : Nat} (ht : 0 < t) (h : c.writeAddr P t ≠ a) :
    c.writer P (t - 1) a = c.writer P t a := by
  obtain ⟨t, rfl⟩ : ∃ s, t = s + 1 := ⟨t - 1, by omega⟩
  exact (if_neg h).symm

theorem arena_of_unwritten {t a : Nat} (h : c.writer P t a = 0) :
    (c.arena P t)[a]? = (c.arena P 0)[a]? :=
  getElem?_of_zero arena_succ h

theorem arena_of_written {t a : Nat} (ha : a < c.params.arenaBlocks) (h : 0 < c.writer P t a) :
    c.writeAddr P (c.writer P t a) = a
      ∧ (c.arena P t)[a]? = some (c.newBlock P (c.writer P t a)) := by
  apply getElem?_of_pos arena_succ h
  rwa [length_arena]

end Setup

/-! ## Roots -/

theorem Over.arenaRoot_eq {e : Nat} {tree : MerkleTree} {arena : List Block}
    (h : Over P e tree arena) : heapNode tree.nodes 1 = arenaRoot P arena := by
  rw [arenaRoot, h.len, Nat.log2_two_pow, h.heap.root_eq]
  apply subtree_congr
  intro i _ hi
  rw [Nat.zero_add, Nat.one_mul, ← h.len] at hi
  exact h.leaf i _ (by rw [List.getD_eq_getElem?_getD, List.getElem?_eq_getElem hi]; rfl)

/-! ## Jitter -/

namespace Setup

variable (c : Setup)

def pointsAt (t : Nat) : List (Nat × Digest) :=
  (List.range t).filterMap fun s => (c.jitterAt (s + 1)).map fun jh => (s + 1, jh)

def used (t : Nat) : Nat := min (t / c.interval) c.samples.length

variable {c}

theorem jitterAt_of_nil (h : c.samples = []) (t : Nat) : c.jitterAt t = none := by
  unfold jitterAt
  split
  · rw [h, List.getElem?_nil]
  · rfl

/-- The sample of the next step is the next one. -/
theorem jitterAt_succ (t : Nat) : c.jitterAt (t + 1)
    = if (t + 1) % c.interval = 0 then c.samples[c.used t]? else none := by
  unfold jitterAt used
  split
  next hdvd =>
    rw [Nat.succ_div, if_pos (Nat.dvd_of_mod_eq_zero hdvd), Nat.add_sub_cancel]
    by_cases hlen : t / c.interval ≤ c.samples.length
    · rw [Nat.min_eq_left hlen]
    · rw [Nat.min_eq_right (by omega), List.getElem?_eq_none (by omega),
        List.getElem?_eq_none (Nat.le_refl _)]
  next => rfl

variable {t : Nat}

theorem used_succ_of_some {jh : Digest} (h : c.jitterAt (t + 1) = some jh) :
    c.used (t + 1) = c.used t + 1 := by
  rw [jitterAt_succ] at h
  split at h
  next hdvd =>
    obtain ⟨hlt, -⟩ := List.getElem?_eq_some_iff.mp h
    unfold used at hlt ⊢
    rw [Nat.succ_div, if_pos (Nat.dvd_of_mod_eq_zero hdvd)]
    omega
  next => cases h

theorem used_succ_of_none (h : c.jitterAt (t + 1) = none) : c.used (t + 1) = c.used t := by
  rw [jitterAt_succ] at h
  unfold used at h ⊢
  split at h
  next hdvd =>
    have hfull := List.getElem?_eq_none_iff.mp h
    rw [Nat.succ_div, if_pos (Nat.dvd_of_mod_eq_zero hdvd)]
    omega
  next hdvd =>
    rw [Nat.succ_div, if_neg fun hd => hdvd (Nat.mod_eq_zero_of_dvd hd), Nat.add_zero]

theorem pointsAt_succ_of_some {jh : Digest} (h : c.jitterAt (t + 1) = some jh) :
    c.pointsAt (t + 1) = c.pointsAt t ++ [(t + 1, jh)] := by
  rw [pointsAt, List.range_succ, List.filterMap_append, ← pointsAt]
  simp [h]

theorem pointsAt_succ_of_none (h : c.jitterAt (t + 1) = none) :
    c.pointsAt (t + 1) = c.pointsAt t := by
  rw [pointsAt, List.range_succ, List.filterMap_append, ← pointsAt]
  simp [h]

theorem map_snd_pointsAt (t : Nat) : (c.pointsAt t).map (·.2) = c.samples.take (c.used t) := by
  induction t with
  | zero =>
    rw [used, Nat.zero_div, Nat.zero_min, List.take_zero]
    rfl
  | succ t ih =>
    cases h : c.jitterAt (t + 1) with
    | none => rw [pointsAt_succ_of_none h, used_succ_of_none h, ih]
    | some jh =>
      have hnext : c.samples[c.used t]? = some jh := by
        rw [jitterAt_succ] at h
        split at h
        next => exact h
        next => cases h
      rw [pointsAt_succ_of_some h, used_succ_of_some h, List.map_append, ih, List.take_add_one,
        hnext]
      rfl

theorem pos_of_mem_pointsAt {point : Nat × Digest} (h : point ∈ c.pointsAt t) :
    0 < point.1 ∧ point.1 ≤ t := by
  obtain ⟨s, hs, hpoint⟩ := List.mem_filterMap.mp h
  obtain ⟨jh, -, rfl⟩ := Option.map_eq_some_iff.mp hpoint
  have hlt := List.mem_range.mp hs
  exact ⟨Nat.succ_pos s, hlt⟩

theorem nodup_pointsAt (t : Nat) : ((c.pointsAt t).map (·.1)).Nodup := by
  induction t with
  | zero => exact List.nodup_nil
  | succ t ih =>
    cases h : c.jitterAt (t + 1) with
    | none => rwa [pointsAt_succ_of_none h]
    | some jh =>
      rw [pointsAt_succ_of_some h, List.map_append]
      apply ih.append (List.nodup_singleton _)
      intro s hs hs'
      obtain ⟨point, hpoint, rfl⟩ := List.mem_map.mp hs
      have hlt := (pos_of_mem_pointsAt hpoint).2
      have heq : point.1 = t + 1 := List.mem_singleton.mp hs'
      omega

/-- The jitter of a step is found among the points. -/
theorem find?_pointsAt {s t : Nat} (hs : 0 < s) (hst : s ≤ t) :
    (c.pointsAt t).find? (fun point => point.1 = s) = (c.jitterAt s).map fun jh => (s, jh) := by
  induction t with
  | zero => omega
  | succ t ih =>
    by_cases heq : s = t + 1
    · subst heq
      have hnone : (c.pointsAt t).find? (fun point => point.1 = t + 1) = none := by
        rw [List.find?_eq_none]
        intro point hpoint
        have hlt := (pos_of_mem_pointsAt hpoint).2
        simp only [decide_eq_true_eq]
        omega
      cases h : c.jitterAt (t + 1) with
      | none => rw [pointsAt_succ_of_none h, hnone, Option.map_none]
      | some jh =>
        rw [pointsAt_succ_of_some h, List.find?_append, hnone]
        simp
    · cases h : c.jitterAt (t + 1) with
      | none => rw [pointsAt_succ_of_none h, ih (by omega)]
      | some jh =>
        have hskip : [(t + 1, jh)].find? (fun point => decide (point.1 = s)) = none := by
          simp [Ne.symm heq]
        rw [pointsAt_succ_of_some h, List.find?_append, ih (by omega), hskip, Option.or_none]

end Setup

end WritersProof.Posme
