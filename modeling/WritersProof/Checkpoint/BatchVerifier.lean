/-
  WritersProof.Checkpoint.BatchVerifier

  Delay proofs that are verified on worker threads (crates/cpoe/src/vdf/params.rs).

  The main thread spawns a thread for each chunk of the proofs and joins them in the order in
  which it has spawned them.  A thread waits for a permit, verifies its proofs, stores each
  outcome under the lock of the results, and gives the permit back.
-/
import WritersProof.Checkpoint.Vdf
import WritersProof.Lib.Machine
import Mathlib.Algebra.Order.Group.Nat
import Mathlib.Algebra.BigOperators.Group.List.Basic

namespace WritersProof.Checkpoint

open Rust

/-! ## The code -/

/-- Maximum number of threads the batch verifier will spawn, regardless of
    available parallelism, to prevent resource exhaustion on large proof sets. -/
def maxBatchThreads : Nat := 16

structure BatchVerifier where
  workers : Nat
  pos : 0 < workers

/-- 0 workers stand for the parallelism of the machine, if that is known. -/
def BatchVerifier.new (availableParallelism : Option ℕ+) (workers : Nat) : BatchVerifier where
  workers :=
    min (if workers = 0 then (availableParallelism.getD 1).val else workers) maxBatchThreads
  pos := by
    refine Nat.lt_min.mpr ⟨?_, by decide⟩
    split
    · exact (availableParallelism.getD 1).pos
    · exact Nat.pos_of_ne_zero ‹_›

structure VerifyResult where
  index : Nat
  valid : Bool
  error : Option String

/-- A part of the proofs with their indices -/
abbrev Chunk := List (Nat × Option VdfProof)

def chunkSize (len workers : Nat) : Nat :=
  let maxThreads := min len workers
  max ((checkedDiv (saturatingAdd len (maxThreads - 1)) (max maxThreads 1)).getD 1) 1

/-- `(0..len).step_by(size)` -/
def stepBy (len size : Nat) : List Nat := List.range' 0 ((len + size - 1) / size) size

/-- Since a slice has less than `2 ^ 63` elements, `chunk_start + chunk_size` does not overflow. -/
def chunkFrom (proofs : List (Option VdfProof)) (size chunkStart : Nat) : Chunk :=
  let chunkEnd := min (chunkStart + size) proofs.length
  ((proofs.drop chunkStart).take (chunkEnd - chunkStart)).mapIdx fun i p => (chunkStart + i, p)

def chunks (workers : Nat) (proofs : List (Option VdfProof)) : List Chunk :=
  let size := chunkSize proofs.length workers
  (stepBy proofs.length size).map (chunkFrom proofs size)

/-- Where a worker thread stands, with the proofs that it has not verified yet -/
inductive Worker where
  | waiting (chunk : Chunk)
  | verifying (chunk : Chunk)
  | finished
  | panicked

structure Batch where
  results : List VerifyResult
  /-- The count of the semaphore -/
  permits : Nat
  /-- The threads that are spawned, in the order of their handles -/
  workers : List Worker
  unspawned : List Chunk
  joined : Nat

def BatchVerifier.start (v : BatchVerifier) (proofs : List (Option VdfProof)) : Batch where
  results := List.replicate proofs.length { index := 0, valid := false, error := none }
  permits := v.workers
  workers := []
  unspawned := chunks v.workers proofs
  joined := 0

/-- A step of one thread; a list of turns is an interleaving. -/
inductive Turn where
  | spawn
  | work (thread : Nat)
  | join

section Turns

variable (sha256 : Bytes → Digest)

def verifyOne (index : Nat) : Option VdfProof → VerifyResult
  | some p => { index, valid := p.verify sha256, error := none }
  | none => { index, valid := false, error := some "nil proof" }

/-- Worker thread panicked; mark all unprocessed results as errored -/
def markPanic (r : VerifyResult) : VerifyResult :=
  if r.error = none ∧ ¬ r.valid then { r with error := some "worker thread panic" } else r

/-- A step of a thread; none if it has to wait or has ended. -/
def Batch.turn (b : Batch) : Turn → Option Batch
  | .spawn =>
    match b.unspawned with
    | [] => none
    | chunk :: rest => some { b with workers := b.workers ++ [.waiting chunk], unspawned := rest }
  | .work t =>
    match b.workers[t]? with
    | some (.waiting chunk) =>
      if b.permits = 0 then none
      else
        some { b with
          permits := b.permits - 1, workers := b.workers.set t (.verifying chunk) }
    | some (.verifying ((index, proof) :: rest)) =>
      if index < b.results.length then
        some { b with
          results := b.results.set index (verifyOne sha256 index proof)
          workers := b.workers.set t (.verifying rest) }
      else some { b with workers := b.workers.set t .panicked }
    | some (.verifying []) =>
      some { b with permits := b.permits + 1, workers := b.workers.set t .finished }
    | _ => none
  | .join =>
    if b.unspawned ≠ [] then none
    else
      match b.workers[b.joined]? with
      | some .finished => some { b with joined := b.joined + 1 }
      | some .panicked =>
        some { b with joined := b.joined + 1, results := b.results.map markPanic }
      | _ => none

/-- The main thread has joined all of them, and returns the results. -/
def Batch.Returned (b : Batch) : Prop := b.unspawned = [] ∧ b.joined = b.workers.length

instance (b : Batch) : Decidable b.Returned := inferInstanceAs (Decidable (_ ∧ _))

end Turns

/-! ## Chunks -/

section Chunks

variable {proofs : List (Option VdfProof)}

/-- A chunk is a part of the proofs with their indices. -/
theorem chunkFrom_eq (size chunkStart : Nat) :
    chunkFrom proofs size chunkStart = ((proofs.mapIdx Prod.mk).drop chunkStart).take size := by
  apply List.ext_getElem?
  intro i
  rw [chunkFrom]
  simp only [List.getElem?_mapIdx, List.getElem?_take, List.getElem?_drop]
  by_cases hi : i < size
  · rw [if_pos hi]
    split
    · rfl
    · rw [List.getElem?_eq_none (by omega)]
  · rw [if_neg hi, if_neg (by omega)]
    rfl

/-- Parts of one size, one after the other, are a part of the whole. -/
theorem flatten_parts {α : Type} (xs : List α) (size count : Nat) (first : Nat) :
    ((List.range' first count size).map fun k => (xs.drop k).take size).flatten
      = (xs.drop first).take (count * size) := by
  induction count generalizing first with
  | zero => simp
  | succ count ih =>
    rw [List.range'_succ, List.map_cons, List.flatten_cons, ih, Nat.succ_mul,
      Nat.add_comm (count * size), List.take_add, List.drop_drop]

theorem chunkSize_pos (len workers : Nat) : 0 < chunkSize len workers :=
  Nat.lt_of_lt_of_le Nat.one_pos (Nat.le_max_right _ _)

/-- The chunks are all the proofs with their indices, each of them once. -/
theorem chunks_partition (workers : Nat) (proofs : List (Option VdfProof)) :
    (chunks workers proofs).flatten = proofs.mapIdx Prod.mk := by
  have hpos := chunkSize_pos proofs.length workers
  rw [chunks]
  simp only [stepBy, funext (@chunkFrom_eq proofs (chunkSize proofs.length workers))]
  rw [flatten_parts, List.drop_zero, List.take_of_length_le]
  rw [List.length_mapIdx]
  have hdiv := Nat.div_add_mod (proofs.length + chunkSize proofs.length workers - 1)
    (chunkSize proofs.length workers)
  have hmod := Nat.mod_lt (proofs.length + chunkSize proofs.length workers - 1) hpos
  rw [Nat.mul_comm] at hdiv
  omega

end Chunks

/-! ## Turns -/

section Steps

variable {sha256 : Bytes → Digest} {b b' : Batch} {t : Nat}

/-- What a turn can do. -/
inductive Batch.Step (sha256 : Bytes → Digest) (b : Batch) : Batch → Prop where
  | spawn {chunk : Chunk} {rest : List Chunk} : b.unspawned = chunk :: rest →
    Step sha256 b { b with workers := b.workers ++ [.waiting chunk], unspawned := rest }
  | acquire {t : Nat} {chunk : Chunk} : b.workers[t]? = some (.waiting chunk) → 0 < b.permits →
    Step sha256 b { b with
      permits := b.permits - 1, workers := b.workers.set t (.verifying chunk) }
  | verify {t index : Nat} {proof : Option VdfProof} {rest : Chunk} :
    b.workers[t]? = some (.verifying ((index, proof) :: rest)) → index < b.results.length →
    Step sha256 b { b with
      results := b.results.set index (verifyOne sha256 index proof)
      workers := b.workers.set t (.verifying rest) }
  | panic {t index : Nat} {proof : Option VdfProof} {rest : Chunk} :
    b.workers[t]? = some (.verifying ((index, proof) :: rest)) → b.results.length ≤ index →
    Step sha256 b { b with workers := b.workers.set t .panicked }
  | release {t : Nat} : b.workers[t]? = some (.verifying []) →
    Step sha256 b { b with permits := b.permits + 1, workers := b.workers.set t .finished }
  | join : b.workers[b.joined]? = some .finished → Step sha256 b { b with joined := b.joined + 1 }
  | joinPanicked : b.workers[b.joined]? = some .panicked →
    Step sha256 b { b with joined := b.joined + 1, results := b.results.map markPanic }

theorem Batch.step_of_turn {turn : Turn} (h : b.turn sha256 turn = some b') :
    b.Step sha256 b' := by
  cases turn with
  | spawn =>
    rw [Batch.turn] at h
    split at h
    next => cases h
    next chunk rest hunspawned =>
      cases h
      exact .spawn hunspawned
  | work t =>
    rw [Batch.turn] at h
    split at h
    next chunk hworker =>
      split at h
      next => cases h
      next hpermits =>
        cases h
        exact .acquire hworker (Nat.pos_of_ne_zero hpermits)
    next index proof rest hworker =>
      split at h
      next hindex =>
        cases h
        exact .verify hworker hindex
      next hindex =>
        cases h
        exact .panic hworker (Nat.le_of_not_lt hindex)
    next hworker =>
      cases h
      exact .release hworker
    next => cases h
  | join =>
    rw [Batch.turn] at h
    split at h
    next => cases h
    next =>
      split at h
      next hworker =>
        cases h
        exact .join hworker
      next hworker =>
        cases h
        exact .joinPanicked hworker
      next => cases h

/-- An element that is replaced leaves what is before it and what is behind it. -/
theorem exists_replaced {α : Type} {xs : List α} {x : α} (h : xs[t]? = some x) :
    ∃ before behind, xs = before ++ x :: behind ∧ ∀ y, xs.set t y = before ++ y :: behind := by
  obtain ⟨ht, rfl⟩ := List.getElem?_eq_some_iff.mp h
  refine ⟨xs.take t, xs.drop (t + 1), ?_, fun y => ?_⟩
  · rw [List.getElem_cons_drop, List.take_append_drop]
  · rw [List.set_eq_take_append_cons_drop, if_pos ht]

/-! ## What is left to do -/

/-- The turns that a worker takes yet -/
def Worker.left : Worker → Nat
  | .waiting chunk => chunk.length + 2
  | .verifying chunk => chunk.length + 1
  | .finished | .panicked => 0

/-- A bound on the turns to come: a chunk is spawned, verified and joined. -/
def Batch.left (b : Batch) : Nat :=
  (b.unspawned.map fun chunk => chunk.length + 4).sum + (b.workers.map Worker.left).sum
    + (b.workers.length - b.joined)

theorem Batch.left_work {w v : Worker} (h : b.workers[t]? = some w) (hless : v.left < w.left)
    (results : List VerifyResult) (permits : Nat) :
    Batch.left { b with results, permits, workers := b.workers.set t v } < b.left := by
  obtain ⟨before, behind, hworkers, hset⟩ := exists_replaced h
  rw [Batch.left, Batch.left, hset, hworkers]
  simp only [List.map_append, List.map_cons, List.sum_append, List.sum_cons, List.length_append,
    List.length_cons]
  omega

theorem Batch.Step.left_lt (h : b.Step sha256 b') : b'.left < b.left := by
  have hjoin : ∀ {w}, b.workers[b.joined]? = some w → b.joined < b.workers.length := fun hw =>
    (List.getElem?_eq_some_iff.mp hw).1
  cases h with
  | spawn hunspawned =>
    rw [Batch.left, Batch.left, hunspawned]
    simp only [List.map_append, List.map_cons, List.map_nil, List.sum_append, List.sum_cons,
      List.sum_nil, List.length_append, List.length_cons, List.length_nil, Worker.left]
    omega
  | acquire hworker => exact Batch.left_work hworker (Nat.lt_succ_self _) _ _
  | verify hworker => exact Batch.left_work hworker (Nat.lt_succ_self _) _ _
  | panic hworker => exact Batch.left_work (v := .panicked) hworker (Nat.succ_pos _) _ _
  | release hworker => exact Batch.left_work (v := .finished) hworker (Nat.succ_pos _) _ _
  | join hworker =>
    have hlt := hjoin hworker
    simp only [Batch.left]
    omega
  | joinPanicked hworker =>
    have hlt := hjoin hworker
    simp only [Batch.left]
    omega

/-! ## What every interleaving keeps -/

def Worker.chunk : Worker → Chunk
  | .waiting chunk | .verifying chunk => chunk
  | .finished | .panicked => []

def Worker.holdsPermit : Worker → Bool
  | .verifying _ => true
  | .waiting _ | .finished | .panicked => false

/-- The proofs that are still to be verified, with their indices -/
def Batch.remaining (b : Batch) : Chunk := b.unspawned.flatten ++ b.workers.flatMap Worker.chunk

/-- A proof is still to be verified, or its result is stored. -/
structure Batch.Inv (sha256 : Bytes → Digest) (v : BatchVerifier)
    (proofs : List (Option VdfProof)) (b : Batch) : Prop where
  length_eq : b.results.length = proofs.length
  own : ∀ task ∈ b.remaining, proofs[task.1]? = some task.2
  settled : ∀ i proof, proofs[i]? = some proof →
    (i, proof) ∈ b.remaining ∨ b.results[i]? = some (verifyOne sha256 i proof)
  healthy : .panicked ∉ b.workers
  permits : b.permits + b.workers.countP Worker.holdsPermit = v.workers
  joined : ∀ t < b.joined, b.workers[t]? = some .finished

namespace Batch.Inv

variable {v : BatchVerifier} {proofs : List (Option VdfProof)}

theorem start : Batch.Inv sha256 v proofs (v.start proofs) := by
  have hremaining : (v.start proofs).remaining = proofs.mapIdx Prod.mk := by
    rw [Batch.remaining]
    exact (List.append_nil _).trans (chunks_partition v.workers proofs)
  constructor
  · exact List.length_replicate
  · intro task htask
    rw [hremaining] at htask
    obtain ⟨i, hi, rfl⟩ := List.mem_mapIdx.mp htask
    exact List.getElem?_eq_getElem hi
  · intro i proof hproof
    obtain ⟨hi, rfl⟩ := List.getElem?_eq_some_iff.mp hproof
    rw [hremaining]
    exact .inl (List.mem_mapIdx.mpr ⟨i, hi, rfl⟩)
  · exact List.not_mem_nil
  · rfl
  · intro t ht
    exact absurd ht (Nat.not_lt_zero t)

variable {w : Worker}

/-- What the other threads have to verify stays as it is. -/
theorem remaining_work (h : b.workers[t]? = some w) :
    ∃ others : Chunk, (∀ task, task ∈ b.remaining ↔ task ∈ w.chunk ∨ task ∈ others)
      ∧ ∀ w' results permits task,
        task ∈ Batch.remaining { b with results, permits, workers := b.workers.set t w' }
          ↔ task ∈ w'.chunk ∨ task ∈ others := by
  obtain ⟨before, behind, hworkers, hset⟩ := exists_replaced h
  refine ⟨b.unspawned.flatten ++ (before.flatMap Worker.chunk ++ behind.flatMap Worker.chunk),
    fun task => ?_, fun w' results permits task => ?_⟩
  · rw [Batch.remaining, hworkers]
    simp only [List.flatMap_append, List.flatMap_cons, List.mem_append]
    tauto
  · rw [Batch.remaining, hset]
    simp only [List.flatMap_append, List.flatMap_cons, List.mem_append]
    tauto

variable (h : Inv sha256 v proofs b)

include h

/-- A worker goes on, and may store the results of proofs that it was to verify. -/
theorem work {w' : Worker} {results : List VerifyResult} {permits : Nat}
    (hworker : b.workers[t]? = some w) (hbusy : w ≠ .finished) (hhealthy : w' ≠ .panicked)
    (hlength : results.length = b.results.length) (hchunk : ∀ task ∈ w'.chunk, task ∈ w.chunk)
    (htaken : ∀ i proof, (i, proof) ∈ w.chunk →
      (i, proof) ∈ w'.chunk ∨ results[i]? = some (verifyOne sha256 i proof))
    (hstored : ∀ i proof, proofs[i]? = some proof →
      b.results[i]? = some (verifyOne sha256 i proof) →
        results[i]? = some (verifyOne sha256 i proof))
    (hpermits : permits + w'.holdsPermit.toNat = b.permits + w.holdsPermit.toNat) :
    Inv sha256 v proofs { b with results, permits, workers := b.workers.set t w' } := by
  obtain ⟨others, hbefore, hafter⟩ := remaining_work hworker
  obtain ⟨before, behind, hworkers, hset⟩ := exists_replaced hworker
  constructor
  · exact hlength.trans h.length_eq
  · intro task htask
    refine h.own task ((hbefore task).mpr ?_)
    exact ((hafter w' results permits task).mp htask).imp_left (hchunk task)
  · intro i proof hproof
    rw [hafter]
    rcases h.settled i proof hproof with hmem | hresult
    · rcases (hbefore _).mp hmem with hmem | hmem
      · exact (htaken i proof hmem).imp_left .inl
      · exact .inl (.inr hmem)
    · exact .inr (hstored i proof hproof hresult)
  · intro hmem
    rcases List.mem_or_eq_of_mem_set hmem with hmem | heq
    · exact h.healthy hmem
    · exact hhealthy heq.symm
  · have hall := h.permits
    rw [hworkers] at hall
    show permits + (b.workers.set t w').countP Worker.holdsPermit = v.workers
    rw [hset]
    have hone : ∀ holds : Bool, (if holds = true then 1 else 0) = holds.toNat := by decide
    simp only [List.countP_append, List.countP_cons, hone] at hall ⊢
    omega
  · intro k hk
    have hdone := h.joined k hk
    show (b.workers.set t w')[k]? = some .finished
    rw [List.getElem?_set_ne]
    · exact hdone
    · rintro rfl
      exact hbusy (Option.some.inj (hworker.symm.trans hdone))

/-- The proofs of a spawned chunk are still to be verified. -/
theorem spawn {chunk : Chunk} {rest : List Chunk} (hunspawned : b.unspawned = chunk :: rest) :
    Inv sha256 v proofs
      { b with workers := b.workers ++ [.waiting chunk], unspawned := rest } := by
  have hremaining : ∀ task, task ∈ Batch.remaining
      { b with workers := b.workers ++ [.waiting chunk], unspawned := rest }
        ↔ task ∈ b.remaining := by
    intro task
    rw [Batch.remaining, Batch.remaining, hunspawned]
    simp only [List.flatMap_append, List.flatMap_cons, List.flatMap_nil, List.flatten_cons,
      List.mem_append, Worker.chunk, List.append_nil]
    tauto
  constructor
  · exact h.length_eq
  · exact fun task htask => h.own task ((hremaining task).mp htask)
  · intro i proof hproof
    rw [hremaining]
    exact h.settled i proof hproof
  · intro hmem
    rcases List.mem_append.mp hmem with hmem | hmem
    · exact h.healthy hmem
    · cases List.mem_singleton.mp hmem
  · show b.permits + (b.workers ++ [Worker.waiting chunk]).countP Worker.holdsPermit = v.workers
    rw [List.countP_append]
    exact h.permits
  · intro k hk
    have hdone := h.joined k hk
    obtain ⟨hlt, -⟩ := List.getElem?_eq_some_iff.mp hdone
    show (b.workers ++ [Worker.waiting chunk])[k]? = some .finished
    rw [List.getElem?_append_left hlt, hdone]

/-- Every turn keeps the invariant. -/
theorem step (hstep : b.Step sha256 b') : Inv sha256 v proofs b' := by
  cases hstep with
  | spawn hunspawned => exact h.spawn hunspawned
  | acquire hworker hpermits =>
    refine h.work hworker nofun nofun rfl (fun _ h => h) (fun _ _ h => .inl h) (fun _ _ _ h => h) ?_
    exact Nat.sub_add_cancel hpermits
  | @verify t index proof rest hworker hindex =>
    obtain ⟨others, hbefore, -⟩ := remaining_work hworker
    have hown : proofs[index]? = some proof :=
      h.own (index, proof) ((hbefore _).mpr (.inl List.mem_cons_self))
    have hset : (b.results.set index (verifyOne sha256 index proof))[index]?
        = some (verifyOne sha256 index proof) := List.getElem?_set_self hindex
    refine h.work hworker nofun nofun List.length_set (fun _ => List.mem_cons_of_mem _) ?_ ?_ rfl
    · intro i proof' hmem
      rcases List.mem_cons.mp hmem with heq | hmem
      · cases heq
        exact .inr hset
      · exact .inl hmem
    · intro i proof' hproof hresult
      by_cases hi : index = i
      · subst hi
        cases hown.symm.trans hproof
        exact hset
      · rw [List.getElem?_set_ne hi, hresult]
  | @panic t index proof rest hworker hindex =>
    -- a task of a chunk is one of the proofs, and there is a result for each of them
    obtain ⟨others, hbefore, -⟩ := remaining_work hworker
    have hown := h.own (index, proof) ((hbefore _).mpr (.inl List.mem_cons_self))
    obtain ⟨hlt, -⟩ := List.getElem?_eq_some_iff.mp hown
    exact absurd hlt (Nat.not_lt.mpr (h.length_eq ▸ hindex))
  | release hworker =>
    exact h.work hworker nofun nofun rfl nofun nofun (fun _ _ _ h => h) rfl
  | join hworker =>
    refine ⟨h.length_eq, h.own, h.settled, h.healthy, h.permits, fun k hk => ?_⟩
    rcases Nat.lt_succ_iff_lt_or_eq.mp hk with hlt | rfl
    · exact h.joined k hlt
    · exact hworker
  | joinPanicked hworker => exact absurd (List.mem_of_getElem? hworker) h.healthy

/-- All proofs are verified when the threads are joined. -/
theorem results_eq (hreturned : b.Returned) :
    b.results = proofs.mapIdx (verifyOne sha256) := by
  obtain ⟨hunspawned, hjoined⟩ := hreturned
  have hnone : b.remaining = [] := by
    rw [Batch.remaining, hunspawned, List.flatten_nil, List.nil_append, List.flatMap_eq_nil_iff]
    intro w hw
    obtain ⟨k, hk, rfl⟩ := List.getElem_of_mem hw
    have hdone := h.joined k (hjoined ▸ hk)
    rw [List.getElem?_eq_getElem hk] at hdone
    rw [Option.some.inj hdone]
    rfl
  apply List.ext_getElem?
  intro i
  rw [List.getElem?_mapIdx]
  cases hproof : proofs[i]? with
  | none =>
    rw [List.getElem?_eq_none_iff] at hproof
    rw [List.getElem?_eq_none (h.length_eq ▸ hproof)]
    rfl
  | some proof =>
    rcases h.settled i proof hproof with hmem | hresult
    · rw [hnone] at hmem
      cases hmem
    · exact hresult

/-- Some thread can go on until all of them are joined. -/
theorem progress (hreturned : ¬ b.Returned) :
    ∃ turn b', b.turn sha256 turn = some b' := by
  cases hunspawned : b.unspawned with
  | cons chunk rest => exact ⟨.spawn, _, by rw [Batch.turn, hunspawned]⟩
  | nil =>
    -- a thread that holds a permit never has to wait
    have hholder : ∀ {t : Nat} {chunk}, b.workers[t]? = some (Worker.verifying chunk) →
        ∃ turn b', b.turn sha256 turn = some b' := by
      intro t chunk hworker
      refine ⟨.work t, ?_⟩
      rw [Batch.turn, hworker]
      cases chunk with
      | nil => exact ⟨_, rfl⟩
      | cons task rest =>
        simp only
        split
        · exact ⟨_, rfl⟩
        · exact ⟨_, rfl⟩
    have hlt : b.joined < b.workers.length := by
      by_contra hge
      refine hreturned ⟨hunspawned, Nat.le_antisymm ?_ (Nat.le_of_not_lt hge)⟩
      by_contra hgt
      have hdone := h.joined b.workers.length (Nat.lt_of_not_le hgt)
      rw [List.getElem?_eq_none (Nat.le_refl _)] at hdone
      cases hdone
    have hworker : b.workers[b.joined]? = some b.workers[b.joined] :=
      List.getElem?_eq_getElem hlt
    cases hw : b.workers[b.joined] with
    | finished =>
      rw [hw] at hworker
      exact ⟨.join, _, by rw [Batch.turn, if_neg (not_not.mpr hunspawned), hworker]⟩
    | panicked => exact absurd (hw ▸ List.getElem_mem hlt) h.healthy
    | verifying chunk => exact hholder (hworker.trans (congrArg some hw))
    | waiting chunk =>
      rw [hw] at hworker
      by_cases hpermits : b.permits = 0
      · -- the permits are all held, and there is one at least
        have hall := h.permits
        rw [hpermits, Nat.zero_add] at hall
        obtain ⟨w, hmem, hholds⟩ := List.countP_pos_iff.mp (hall ▸ v.pos)
        obtain ⟨t, ht⟩ := List.getElem?_of_mem hmem
        cases w with
        | verifying chunk => exact hholder ht
        | waiting _ | finished | panicked => cases hholds
      · exact ⟨.work b.joined, _, by rw [Batch.turn, hworker]; exact if_neg hpermits⟩

end Batch.Inv

/-- **Every interleaving gives the results of verifying one proof after the other.**
    The chunks cover each index once; whatever the order of the turns, some
    thread can go on until all are joined, which happens after a bounded number
    of turns, and then the results are those of the proofs on their own. -/
theorem verifyAll_sequential (sha256 : Bytes → Digest) (availableParallelism : Option ℕ+)
    (workers : Nat) (proofs : List (Option VdfProof)) :
    let v := BatchVerifier.new availableParallelism workers
    (chunks v.workers proofs).flatten = proofs.mapIdx Prod.mk
      ∧ ∀ turns b, Machine.moves (fun turn b => Batch.turn sha256 b turn) turns (v.start proofs)
          = some b →
        turns.length ≤ (v.start proofs).left
          ∧ (¬ b.Returned → ∃ turn b', b.turn sha256 turn = some b')
          ∧ (b.Returned → b.results = proofs.mapIdx (verifyOne sha256)) := by
  intro v
  refine ⟨chunks_partition v.workers proofs, fun turns b hmoves => ?_⟩
  have hinv : Batch.Inv sha256 v proofs b :=
    Machine.moves_invariant (fun _ _ _ h hturn => h.step (Batch.step_of_turn hturn))
      Batch.Inv.start hmoves
  refine ⟨?_, hinv.progress, hinv.results_eq⟩
  exact Machine.length_le_of_moves (fun _ _ _ hturn => (Batch.step_of_turn hturn).left_lt) hmoves

end Steps

/-- Three proofs, two of them missing, on two threads that take turns -/
def mixedBatch : Option Batch :=
  Machine.moves (fun turn b => Batch.turn (fun _ => default) b turn)
    [.spawn, .work 0, .work 0, .spawn, .work 1, .work 1, .work 0, .work 1, .work 0, .join, .join]
    ((BatchVerifier.new none 2).start [none, some ⟨default, default, 1, 0⟩, none])

/-- One proof between two that are missing -/
theorem verifyAll_sequential_mixed :
    (mixedBatch.get (by decide)).results
      = [⟨0, false, some "nil proof"⟩, ⟨1, true, none⟩, ⟨2, false, some "nil proof"⟩] :=
  ((verifyAll_sequential (fun _ => default) none 2
    [none, some ⟨default, default, 1, 0⟩, none]).2 _ _ (Option.some_get _).symm).2.2 (by decide)

end WritersProof.Checkpoint
