/-
  Appends whose store fails (crates/cpoe/src/mmr/mmr.rs, crates/cpoe/src/mmr/store.rs).

  An append first writes its leaf and moves the size, then goes on with reads and writes
  that depend on the data, each behind a `?`.  A failure of the first write leaves the
  range as it was; one of a later call finds the size moved.
-/
import WritersProof.Mmr.Inclusion

namespace WritersProof.Mmr

set_option linter.dupNamespace false

open Rust MountainRange

/-! ## Intact ranges -/

section Intact

variable {H : Type} [DecidableEq H]

/-- The proof of a leaf is generated and verifies. -/
def Provable (hs : NodeHasher H) (k : Nat) (d : Bytes) (m : Mmr (MemoryStore H) H) : Prop :=
  ∃ index root proof, m.getLeafIndex k = .ok index ∧ m.getRoot hs = .ok root
    ∧ Mmr.generateProof hs index m = (.ok proof, m) ∧ proof.root = root
    ∧ proof.verify hs d = .ok ()

/-- The range represents the leaves, and each of them is provable. -/
def Intact (hs : NodeHasher H) (data : List Bytes) (m : Mmr (MemoryStore H) H) : Prop :=
  Represents hs data m ∧ ∀ k d, data[k]? = some d → Provable hs k d m

theorem Represents.intact {hs : NodeHasher H} {data : List Bytes} {m : Mmr (MemoryStore H) H}
    (hm : Represents hs data m) : Intact hs data m := by
  refine ⟨hm, fun k d hd => ?_⟩
  obtain ⟨hk, -⟩ := List.getElem?_eq_some_iff.mp hd
  obtain ⟨root, hroot⟩ := hm.exists_root (by omega)
  obtain ⟨path, i, peak, hproof, hpeak, -, hfold⟩ := hm.generateProof_eq hd hroot
  exact ⟨size k, root, _, hm.getLeafIndex_eq hk, hroot, hproof, rfl,
    hm.verify_generated hroot hpeak hfold⟩

end Intact

/-! ## Failing stores -/

/-- The call that fails, among the `append` and `get` calls to come.  A failed `append` may have
kept its node: `FileStore::append` also fails when the node is in and the automatic sync fails. -/
structure Fault where
  call : Nat
  kept : Bool

/-- Nothing is stored before the first call fails. -/
def Fault.AtStart (fault : Fault) : Prop := fault.call = 0 ∧ fault.kept = false

/-- A store one of whose calls fails. -/
structure FaultyStore (S : Type) where
  store : S
  fault : Option Fault

namespace FaultyStore

variable {S H : Type} [Store S H] {s s' : S} {node : Node H}

def pass {α : Type} (fault : Option Fault) (call : Call S MmrError α) :
    Call (FaultyStore S) MmrError α := fun s =>
  let (r, store) := call s.store
  (r, { store, fault })

def append (node : Node H) : Call (FaultyStore S) MmrError Unit := fun s =>
  match s.fault with
  | none => pass none (Store.append node) s
  | some ⟨0, false⟩ => (fail .io, { s with fault := none })
  | some ⟨0, true⟩ => (do pass none (Store.append node); Call.lift (fail .io)) s
  | some ⟨n + 1, kept⟩ => pass (some ⟨n, kept⟩) (Store.append node) s

def get (index : Nat) : Call (FaultyStore S) MmrError (Node H) := fun s =>
  match s.fault with
  | none => pass none (Store.get index) s
  | some ⟨0, _⟩ => (fail .io, { s with fault := none })
  | some ⟨n + 1, kept⟩ => pass (some ⟨n, kept⟩) (Store.get index) s

/-- Only `append` and `get` are called by an append of the range, and fail. -/
instance : Store (FaultyStore S) H where
  append := append
  get := get
  size := fun s => pass s.fault Store.size s
  sync := fun s => pass s.fault Store.sync s
  close := fun s => pass s.fault Store.close s

theorem append_kept (h : Store.append node s = (.ok (), s')) :
    Store.append node (⟨s, some ⟨0, true⟩⟩ : FaultyStore S) = (fail .io, ⟨s', none⟩) := by
  have hpass : pass none (Store.append node) (⟨s, some ⟨0, true⟩⟩ : FaultyStore S)
      = (.ok (), ⟨s', none⟩) := by
    rw [pass, h]
  exact Call.bind_of_ok hpass

theorem append_kept_error {fault : Rust.Fault MmrError}
    (h : Store.append node s = (.error fault, s')) :
    Store.append node (⟨s, some ⟨0, true⟩⟩ : FaultyStore S) = (.error fault, ⟨s', none⟩) := by
  have hpass : pass none (Store.append node) (⟨s, some ⟨0, true⟩⟩ : FaultyStore S)
      = (.error fault, ⟨s', none⟩) := by
    rw [pass, h]
  exact Call.bind_of_error hpass

theorem append_later {r : Res MmrError Unit} {n : Nat} {kept : Bool}
    (h : Store.append node s = (r, s')) :
    Store.append node (⟨s, some ⟨n + 1, kept⟩⟩ : FaultyStore S) = (r, ⟨s', some ⟨n, kept⟩⟩) := by
  show pass (some ⟨n, kept⟩) (Store.append node) _ = _
  rw [pass, h]

end FaultyStore

namespace Mmr

variable {H : Type}

/-- An append during which a call of the store fails -/
def appendWith (hs : NodeHasher H) (fault : Option Fault) (data : Bytes) :
    Call (Mmr (MemoryStore H) H) MmrError Nat := fun m =>
  let (r, m') := append hs data (⟨⟨m.store, fault⟩, m.state⟩ : Mmr (FaultyStore (MemoryStore H)) H)
  (r, ⟨m'.store.store, m'.state⟩)

/-! ## The size -/

section Size

variable {S : Type}

/-- A call does not make the range smaller. -/
def Grows {α : Type} (x : Call (Mmr S H) MmrError α) : Prop :=
  ∀ m, m.state.size ≤ (x m).2.state.size

theorem Grows.of_keeps {α : Type} {x : Call (Mmr S H) MmrError α}
    (h : ∀ m, (x m).2.state.size = m.state.size) : Grows x := fun m => Nat.le_of_eq (h m).symm

theorem Grows.bind {α β : Type} {x : Call (Mmr S H) MmrError α}
    {f : α → Call (Mmr S H) MmrError β} (hx : Grows x) (hf : ∀ a, Grows (f a)) :
    Grows (x >>= f) := by
  intro m
  have hle := hx m
  rw [Call.bind_apply]
  rcases hrun : x m with ⟨_ | a, m'⟩
  · rw [hrun] at hle
    exact hle
  · rw [hrun] at hle
    exact hle.trans (hf a m')

theorem grows_onStore {α : Type} (call : Call S MmrError α) : Grows (H := H) (onStore call) :=
  .of_keeps fun _ => rfl

/-- The size moves by one, unless the program aborts. -/
theorem bumpSize_cases (m : Mmr S H) :
    bumpSize m = (.ok (), { m with state := { m.state with size := m.state.size + 1 } })
      ∨ bumpSize m = (abort, m) := by
  unfold bumpSize
  rcases checkedAdd_cases m.state.size 1 with hsome | hnone
  · rw [hsome]
    exact .inl rfl
  · rw [hnone]
    exact .inr rfl

theorem grows_bumpSize : Grows (S := S) (H := H) bumpSize := by
  intro m
  rcases bumpSize_cases m with h | h
  · rw [h]
    exact Nat.le_succ _
  · rw [h]

variable [Store S H]

theorem grows_cachePeaks (peakIndices : List Nat) :
    Grows (S := S) (H := H) (cachePeaks peakIndices) :=
  (grows_onStore _).bind fun _ => .of_keeps fun _ => rfl

theorem grows_mergeLoop (hs : NodeHasher H) (rounds : Nat) :
    Grows (S := S) (H := H) (mergeLoop hs rounds) := by
  induction rounds with
  | zero => exact .of_keeps fun _ => rfl
  | succ rounds ih =>
    unfold mergeLoop
    refine Grows.bind (.of_keeps fun _ => rfl) fun size => ?_
    refine Grows.bind (.of_keeps fun _ => rfl) fun peakIndices => ?_
    split
    · refine (grows_onStore _).bind fun last => (grows_onStore _).bind fun prev => ?_
      split
      · exact grows_cachePeaks _
      · refine Grows.bind (.of_keeps fun _ => rfl) fun height => ?_
        exact (grows_onStore _).bind fun _ => grows_bumpSize.bind fun _ => ih
    · refine Grows.bind (.of_keeps fun _ => rfl) fun cached => ?_
      split
      · exact grows_cachePeaks _
      · exact .of_keeps fun _ => rfl

end Size

/-! ## One append -/

section Append

variable {hs : NodeHasher H} {data : List Bytes} {m m' : Mmr (MemoryStore H) H} {d : Bytes}

theorem onStore_of {S α : Type} {call : Call S MmrError α} {m : Mmr S H} {r : Res MmrError α}
    {store : S} (h : call m.store = (r, store)) : onStore call m = (r, { m with store }) := by
  rw [onStore, Call.zoom, h]

/-- The write of the next leaf: it goes to the end, or the memory is full. -/
theorem append_leaf_cases (hm : Represents hs data m) (d : Bytes) :
    Store.append (Node.newLeaf hs m.state.size d) m.store
        = (.ok (), ⟨m.store.nodes ++ [Node.newLeaf hs m.state.size d]⟩)
      ∨ Store.append (Node.newLeaf hs m.state.size d) m.store = (abort, m.store) := by
  have hindex : (Node.newLeaf hs m.state.size d).index = m.store.nodes.length :=
    hm.size_eq.trans hm.length_eq.symm
  by_cases hroom : m.store.nodes.length < MemoryStore.maxNodes
  · exact .inl (MemoryStore.append_eq hindex hroom)
  · right
    show MemoryStore.append _ _ = _
    rw [MemoryStore.append, if_neg (not_not.mpr hindex), if_pos (Nat.le_of_not_lt hroom)]

/-- What an append does with the outcome of its first write -/
theorem append_of_error {S : Type} [Store S H] {m : Mmr S H} {store : S}
    {fault : Rust.Fault MmrError}
    (h : Store.append (Node.newLeaf hs m.state.size d) m.store = (.error fault, store)) :
    append hs d m = (.error fault, { m with store }) := by
  rw [append, Call.asks_bind, Call.bind_of_error (onStore_of h)]

theorem append_of_ok {S : Type} [Store S H] {m : Mmr S H} {store : S}
    (h : Store.append (Node.newLeaf hs m.state.size d) m.store = (.ok (), store)) :
    append hs d m = (do
      bumpSize
      mergeLoop hs (2 ^ 64)
      pure m.state.size) { m with store } := by
  rw [append, Call.asks_bind, Call.bind_of_ok (onStore_of h)]

theorem appendWith_atStart (m : Mmr (MemoryStore H) H) (d : Bytes) :
    appendWith hs (some ⟨0, false⟩) d m = (fail .io, m) := rfl

/-- The leaf is stored and the append fails: the store is ahead of the range. -/
theorem appendWith_kept (hm : Represents hs data m) {e : MmrError}
    (h : appendWith hs (some ⟨0, true⟩) d m = (fail e, m')) :
    m'.state = m.state ∧ m'.store.nodes.length = m.store.nodes.length + 1 := by
  rcases append_leaf_cases hm d with happ | happ
  · rw [appendWith, append_of_error (FaultyStore.append_kept happ)] at h
    cases h
    refine ⟨rfl, ?_⟩
    rw [List.length_append, List.length_singleton]
  · rw [appendWith, append_of_error (FaultyStore.append_kept_error happ)] at h
    cases h

/-- Past the write of the leaf, the size has moved. -/
theorem size_lt_of_appendWith (hm : Represents hs data m) {n : Nat} {kept : Bool} {e : MmrError}
    (h : appendWith hs (some ⟨n + 1, kept⟩) d m = (fail e, m')) : m.state.size < m'.state.size := by
  rcases append_leaf_cases hm d with happ | happ
  · rw [appendWith, append_of_ok (FaultyStore.append_later happ)] at h
    rcases bumpSize_cases (⟨⟨⟨m.store.nodes ++ [Node.newLeaf hs m.state.size d]⟩, some ⟨n, kept⟩⟩,
      m.state⟩ : Mmr (FaultyStore (MemoryStore H)) H) with hbump | hbump
    · rw [Call.bind_of_ok hbump] at h
      have hgrows := (grows_mergeLoop (S := FaultyStore (MemoryStore H)) hs (2 ^ 64)).bind
        (f := fun _ => pure m.state.size) fun _ => .of_keeps fun _ => rfl
      have hle := hgrows ⟨⟨⟨m.store.nodes ++ [Node.newLeaf hs m.state.size d]⟩, some ⟨n, kept⟩⟩,
        { m.state with size := m.state.size + 1 }⟩
      have hsize := congrArg (fun p : Res MmrError Nat × Mmr (MemoryStore H) H => p.2.state.size) h
      exact Nat.lt_of_lt_of_eq (Nat.lt_of_succ_le hle) hsize
    · rw [Call.bind_of_error hbump] at h
      cases h
  · rw [appendWith, append_of_error (FaultyStore.append_later happ)] at h
    cases h

end Append

/-! ## Atomic appends -/

/-- A failed append from `m` to `m'` is atomic: what the range over `data` shows is what it was, and
every later sequence of appends that the memory suffices for succeeds and leaves an intact range
over all leaves. -/
structure Atomic [DecidableEq H] (hs : NodeHasher H) (data : List Bytes)
    (m m' : Mmr (MemoryStore H) H) : Prop where
  size : m'.size = m.size
  leafCount : m'.leafCount = m.leafCount
  peaks : m'.getPeaks = m.getPeaks
  root : m'.getRoot hs = m.getRoot hs
  recovers : ∀ rest, rest ≠ [] → ∀ r m'', appendAll hs rest m' = (r, m'') →
    r = abort ∨ (∃ indices, r = .ok indices) ∧ Intact hs (data ++ rest) m''

/-- The ranges over the leaves that were appended, when stores have only failed before anything was
stored -/
inductive Reachable (hs : NodeHasher H) : List Bytes → Mmr (MemoryStore H) H → Prop where
  | new : Reachable hs [] empty
  | appended {data : List Bytes} {m m' : Mmr (MemoryStore H) H} {d : Bytes} {index : Nat} :
    Reachable hs data m → append hs d m = (.ok index, m') → Reachable hs (data ++ [d]) m'
  | failed {data : List Bytes} {m m' : Mmr (MemoryStore H) H} {d : Bytes} {fault : Fault}
    {e : MmrError} : Reachable hs data m → fault.AtStart →
    appendWith hs (some fault) d m = (fail e, m') → Reachable hs data m'
  | reopened {data : List Bytes} {m m' : Mmr (MemoryStore H) H} :
    Reachable hs data m → Mmr.new m.store = .ok m' → Reachable hs data m'

section Atomicity

variable {hs : NodeHasher H} {data : List Bytes} {m m' : Mmr (MemoryStore H) H}

theorem Reachable.represents (h : Reachable hs data m) : Represents hs data m := by
  induction h with
  | new => exact represents_nil
  | @appended data m m' d index _ happ ih =>
    have hstep := append_represents ih d
    rw [happ] at hstep
    split at hstep
    · obtain ⟨m₁, hrun, hrep⟩ := hstep
      cases hrun
      exact hrep
    · obtain ⟨m₁, hrun⟩ := hstep
      cases hrun
  | @failed data m m' d fault e _ hfault happ ih =>
    obtain ⟨call, kept⟩ := fault
    obtain ⟨rfl, rfl⟩ : call = 0 ∧ kept = false := hfault
    cases (appendWith_atStart m d).symm.trans happ
    exact ih
  | reopened _ hnew ih =>
    cases ih.new_store.symm.trans hnew
    exact ih

/-- From a range over `data`, later appends go on as they should. -/
theorem recovers_of_represents [DecidableEq H] (hm : Represents hs data m) (rest : List Bytes)
    {r : Res MmrError (List Nat)} {m'' : Mmr (MemoryStore H) H}
    (h : appendAll hs rest m = (r, m'')) :
    r = abort ∨ (∃ indices, r = .ok indices) ∧ Intact hs (data ++ rest) m'' := by
  have hrun := appendAll_represents rest hm
  rw [h] at hrun
  split at hrun
  · obtain ⟨m₁, hok, hrep⟩ := hrun
    cases hok
    exact .inr ⟨⟨_, rfl⟩, hrep.intact⟩
  · obtain ⟨m₁, habort⟩ := hrun
    cases habort
    exact .inl rfl

theorem append_of_ahead (hsize : m.store.nodes.length = m.state.size + 1) (d : Bytes) :
    append hs d m = (fail .corruptedStore, m) := by
  have happ : Store.append (Node.newLeaf hs m.state.size d) m.store
      = (fail .corruptedStore, m.store) := by
    show MemoryStore.append _ _ = _
    rw [MemoryStore.append, if_pos]
    show m.state.size ≠ m.store.nodes.length
    omega
  exact append_of_error happ

/-- An append that fails is atomic exactly if the call that failed was the write of its leaf and the
store has not kept the leaf. -/
theorem atomic_iff [DecidableEq H] (hm : Reachable hs data m) {fault : Fault} {d : Bytes}
    {e : MmrError}
    (hfail : appendWith hs (some fault) d m = (fail e, m')) :
    Atomic hs data m m' ↔ fault.AtStart := by
  have hrep := hm.represents
  obtain ⟨call, kept⟩ := fault
  constructor
  · intro h
    cases call with
    | succ n =>
      have hlt := size_lt_of_appendWith hrep hfail
      exact absurd h.size (Nat.ne_of_gt hlt)
    | zero =>
      cases kept with
      | false => exact ⟨rfl, rfl⟩
      | true =>
        obtain ⟨hstate, hlength⟩ := appendWith_kept hrep hfail
        have hahead : m'.store.nodes.length = m'.state.size + 1 := by
          rw [hlength, hstate, hrep.length_eq, hrep.size_eq]
        have hnext : appendAll hs [[]] m' = (fail .corruptedStore, m') := by
          rw [appendAll, Call.bind_of_error (append_of_ahead hahead [])]
          rfl
        rcases h.recovers [[]] (List.cons_ne_nil _ _) _ _ hnext with habort | ⟨⟨_, hok⟩, -⟩
        · cases habort
        · cases hok
  · rintro ⟨hcall, hkept⟩
    obtain rfl : call = 0 := hcall
    obtain rfl : kept = false := hkept
    cases (appendWith_atStart m d).symm.trans hfail
    exact ⟨rfl, rfl, rfl, rfl, fun rest _ _ _ h => recovers_of_represents hrep rest h⟩

end Atomicity

/-! ### A range of one leaf -/

def oneLeaf : Mmr (MemoryStore Term) Term := (append termHasher [1] empty).2

theorem oneLeaf_reachable : Reachable termHasher [[1]] oneLeaf :=
  .appended .new (show append termHasher [1] empty = (.ok 0, oneLeaf) by decide +kernel)

/-- The store fails at its first call. -/
theorem atomic_oneLeaf : ∃ m', appendWith termHasher (some ⟨0, false⟩) [2] oneLeaf = (fail .io, m')
    ∧ (Atomic termHasher [[1]] oneLeaf m' ↔ (⟨0, false⟩ : Fault).AtStart) :=
  ⟨oneLeaf, rfl, atomic_iff oneLeaf_reachable (appendWith_atStart oneLeaf [2])⟩

/-- The read of the last peak fails. -/
theorem not_atomic_oneLeaf :
    ∃ m', appendWith termHasher (some ⟨1, false⟩) [2] oneLeaf = (fail .io, m')
      ∧ ¬ Atomic termHasher [[1]] oneLeaf m' := by
  refine ⟨(appendWith termHasher (some ⟨1, false⟩) [2] oneLeaf).2, by decide +kernel, ?_⟩
  intro h
  have hsize := h.size
  revert hsize
  decide +kernel

end Mmr

end WritersProof.Mmr
