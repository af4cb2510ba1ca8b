/-
  Stores any of whose calls may fail (crates/cpoe/src/mmr/store.rs), and what a range
  over one of them does.

  A call that succeeds over such a store has done what it does over a reliable one.
-/
import WritersProof.Mmr.Failing

namespace WritersProof.Mmr

set_option linter.dupNamespace false

open Rust MountainRange Call

/-- What becomes of a write: it is done, it is refused, or it is done and fails all the same, as an
append to a `FileStore` whose automatic sync fails. -/
inductive WriteOutcome where
  | done
  | refused
  | kept
  deriving DecidableEq

/-- What becomes of the calls to come, kind by kind; calls past the end of a list are done. -/
structure Outages where
  appends : List WriteOutcome
  gets : List Bool
  syncs : List Bool

structure UnreliableStore (S : Type) where
  store : S
  outages : Outages

namespace UnreliableStore

variable {S H : Type} [Store S H]

def pass {α : Type} (outages : Outages) (call : Call S MmrError α) :
    Call (UnreliableStore S) MmrError α := fun s =>
  let (r, store) := call s.store
  (r, { store, outages })

def append (node : Node H) : Call (UnreliableStore S) MmrError Unit := fun s =>
  let outages := { s.outages with appends := s.outages.appends.tail }
  match s.outages.appends.head?.getD .done with
  | .done => pass outages (Store.append node) s
  | .refused => (fail .io, { s with outages })
  | .kept =>
    let (r, s') := pass outages (Store.append node) s
    (r >>= fun _ => fail .io, s')

def get (index : Nat) : Call (UnreliableStore S) MmrError (Node H) := fun s =>
  let outages := { s.outages with gets := s.outages.gets.tail }
  if s.outages.gets.head? = some true then (fail .io, { s with outages })
  else pass outages (Store.get index) s

def sync : Call (UnreliableStore S) MmrError Unit := fun s =>
  let outages := { s.outages with syncs := s.outages.syncs.tail }
  if s.outages.syncs.head? = some true then (fail .io, { s with outages })
  else pass outages (Store.sync (S := S)) s

instance : Store (UnreliableStore S) H where
  append := append
  get := get
  size := fun s => pass s.outages Store.size s
  sync := sync
  close := sync

end UnreliableStore

namespace Mmr

variable {S H : Type}

def behind (m : Mmr (UnreliableStore S) H) : Mmr S H := ⟨m.store.store, m.state⟩

/-- The range over a store whose calls may fail -/
def withOutages (m : Mmr S H) (outages : Outages) : Mmr (UnreliableStore S) H :=
  ⟨⟨m.store, outages⟩, m.state⟩

/-! ## Following -/

section Follows

variable {α β : Type} {x : Call (Mmr (UnreliableStore S) H) MmrError α}
  {y : Call (Mmr S H) MmrError α}

/-- The call fails for its store, or does what `y` does to the range behind. -/
def Follows (x : Call (Mmr (UnreliableStore S) H) MmrError α) (y : Call (Mmr S H) MmrError α) :
    Prop :=
  ∀ m, (x m).1 = fail .io ∨ (x m).1 = (y m.behind).1 ∧ (x m).2.behind = (y m.behind).2

theorem Follows.eq_of_ok (h : Follows x y) {m m' : Mmr (UnreliableStore S) H} {a : α}
    (hok : x m = (.ok a, m')) : y m.behind = (.ok a, m'.behind) := by
  have hm := h m
  rw [hok] at hm
  rcases hm with hfail | ⟨hvalue, hstate⟩
  · cases hfail
  · exact Prod.ext hvalue.symm hstate.symm

theorem follows_lift (r : Res MmrError α) : Follows (S := S) (H := H) (lift r) (lift r) :=
  fun _ => .inr ⟨rfl, rfl⟩

theorem follows_pure (a : α) : Follows (S := S) (H := H) (pure a) (pure a) :=
  fun _ => .inr ⟨rfl, rfl⟩

theorem Follows.bind {f : α → Call (Mmr (UnreliableStore S) H) MmrError β}
    {g : α → Call (Mmr S H) MmrError β} (hx : Follows x y) (hf : ∀ a, Follows (f a) (g a)) :
    Follows (x >>= f) (y >>= g) := by
  intro m
  rw [bind_apply, bind_apply]
  have hm := hx m
  rcases hrun : x m with ⟨(e | _) | a, m'⟩
  · rw [hrun] at hm
    rcases hm with hfail | ⟨hvalue, hstate⟩
    · cases hfail
      exact .inl rfl
    · rcases hy : y m.behind with ⟨r, m₁⟩
      rw [hy] at hvalue hstate
      subst hvalue hstate
      exact .inr ⟨rfl, rfl⟩
  · rw [hrun] at hm
    rcases hm with hfail | ⟨hvalue, hstate⟩
    · cases hfail
    · rcases hy : y m.behind with ⟨r, m₁⟩
      rw [hy] at hvalue hstate
      subst hvalue hstate
      exact .inr ⟨rfl, rfl⟩
  · rw [hx.eq_of_ok hrun]
    exact hf a m'

theorem follows_asks (f : MmrState H → α) :
    Follows (S := S) (asks fun m => f m.state) (asks fun m => f m.state) :=
  fun _ => .inr ⟨rfl, rfl⟩

theorem follows_modify (f : MmrState H → MmrState H) :
    Follows (S := S) (modify fun m => { m with state := f m.state })
      (modify fun m => { m with state := f m.state }) :=
  fun _ => .inr ⟨rfl, rfl⟩

theorem onStore_bind (x : Call S MmrError α) (f : α → Call S MmrError β) :
    onStore (H := H) (x >>= f) = (onStore x >>= fun a => onStore (f a)) := by
  funext m
  simp only [onStore, zoom, bind_apply]
  rcases x m.store with ⟨_ | a, store⟩
  · rfl
  · rfl

theorem follows_bumpSize : Follows (S := S) (H := H) bumpSize bumpSize := by
  intro m
  unfold bumpSize behind
  cases checkedAdd m.state.size 1 with
  | none => exact .inr ⟨rfl, rfl⟩
  | some size => exact .inr ⟨rfl, rfl⟩

variable [Store S H]

theorem follows_append (node : Node H) :
    Follows (S := S) (H := H) (onStore (Store.append node)) (onStore (Store.append node)) := by
  intro m
  show (UnreliableStore.append node m.store).1 = _ ∨ (UnreliableStore.append node m.store).1 = _
    ∧ (⟨(UnreliableStore.append node m.store).2.store, m.state⟩ : Mmr S H) = _
  unfold UnreliableStore.append
  cases m.store.outages.appends.head?.getD .done with
  | done => exact .inr ⟨rfl, rfl⟩
  | refused => exact .inl rfl
  | kept =>
    -- it fails, as it does over the store behind or for its own store
    show ((Store.append node m.store.store).1 >>= fun _ => fail .io) = fail .io
      ∨ ((Store.append node m.store.store).1 >>= fun _ => fail .io)
        = (Store.append node m.store.store).1 ∧ _
    cases (Store.append node m.store.store).1 with
    | error e => exact .inr ⟨rfl, rfl⟩
    | ok u => exact .inl rfl

theorem follows_get (index : Nat) :
    Follows (S := S) (H := H) (onStore (Store.get index)) (onStore (Store.get index)) := by
  intro m
  show (UnreliableStore.get index m.store).1 = _ ∨ (UnreliableStore.get index m.store).1 = _
    ∧ (⟨(UnreliableStore.get index m.store).2.store, m.state⟩ : Mmr S H) = _
  unfold UnreliableStore.get
  split
  next => exact .inl rfl
  next => exact .inr ⟨rfl, rfl⟩

theorem follows_loadPeaks (indices : List Nat) :
    Follows (S := S) (H := H) (onStore (loadPeaks indices)) (onStore (loadPeaks indices)) := by
  induction indices with
  | nil => exact follows_pure []
  | cons idx rest ih =>
    unfold loadPeaks
    rw [onStore_bind, onStore_bind]
    refine (follows_get idx).bind fun node => ?_
    rw [onStore_bind, onStore_bind]
    exact ih.bind fun peaks => follows_pure _

theorem follows_cachePeaks (peakIndices : List Nat) :
    Follows (S := S) (H := H) (cachePeaks peakIndices) (cachePeaks peakIndices) :=
  (follows_loadPeaks _).bind fun newPeaks =>
    follows_modify fun state => { state with peaks := newPeaks }

theorem follows_mergeLoop (hs : NodeHasher H) (rounds : Nat) :
    Follows (S := S) (mergeLoop hs rounds) (mergeLoop hs rounds) := by
  induction rounds with
  | zero => exact follows_lift _
  | succ rounds ih =>
    unfold mergeLoop
    refine (follows_asks MmrState.size).bind fun size => (follows_lift _).bind fun peakIndices => ?_
    split
    · refine (follows_get _).bind fun last => (follows_get _).bind fun prev => ?_
      split
      · exact follows_cachePeaks _
      · refine (follows_lift _).bind fun height => ?_
        exact (follows_append _).bind fun _ => follows_bumpSize.bind fun _ => ih
    · refine (follows_asks MmrState.peaks).bind fun cached => ?_
      split
      · exact follows_cachePeaks _
      · exact follows_pure _

theorem follows_appendLeaf (hs : NodeHasher H) (data : Bytes) :
    Follows (S := S) (append hs data) (append hs data) := by
  unfold append
  refine (follows_asks MmrState.size).bind fun leafIndex => ?_
  exact (follows_append _).bind fun _ => follows_bumpSize.bind fun _ =>
    (follows_mergeLoop hs _).bind fun _ => follows_pure _

end Follows

/-! ## Reading -/

section Reads

variable {α β : Type}

/-- The range behind, and what becomes of the writes to come -/
def written (m : Mmr (UnreliableStore S) H) : Mmr S H × List WriteOutcome :=
  (m.behind, m.store.outages.appends)

/-- The call follows `y` and writes nothing. -/
structure Reads (x : Call (Mmr (UnreliableStore S) H) MmrError α) (y : Call (Mmr S H) MmrError α) :
    Prop where
  follows : Follows x y
  keeps : Call.Keeps written x

theorem reads_lift (r : Res MmrError α) : Reads (S := S) (H := H) (lift r) (lift r) :=
  ⟨follows_lift r, keeps_lift r⟩

theorem reads_pure (a : α) : Reads (S := S) (H := H) (pure a) (pure a) :=
  ⟨follows_pure a, keeps_pure a⟩

theorem Reads.bind {x : Call (Mmr (UnreliableStore S) H) MmrError α}
    {y : Call (Mmr S H) MmrError α} {f : α → Call (Mmr (UnreliableStore S) H) MmrError β}
    {g : α → Call (Mmr S H) MmrError β} (hx : Reads x y) (hf : ∀ a, Reads (f a) (g a)) :
    Reads (x >>= f) (y >>= g) :=
  ⟨hx.follows.bind fun a => (hf a).follows, hx.keeps.bind fun a => (hf a).keeps⟩

theorem Reads.bind_asks {f : MmrState H → α} {g : α → Call (Mmr (UnreliableStore S) H) MmrError β}
    {g' : α → Call (Mmr S H) MmrError β} (h : ∀ a, Reads (g a) (g' a)) :
    Reads (asks (fun m => f m.state) >>= g) (asks (fun m => f m.state) >>= g') :=
  Reads.bind ⟨follows_asks f, keeps_asks _⟩ h

theorem Reads.bind_id {f : Mmr (UnreliableStore S) H → Call (Mmr (UnreliableStore S) H) MmrError β}
    {g : Mmr S H → Call (Mmr S H) MmrError β} (h : ∀ m, Reads (f m) (g m.behind)) :
    Reads (asks id >>= f) (asks id >>= g) :=
  ⟨fun m => (h m).follows m, fun m => (h m).keeps m⟩

theorem reads_get (index : Nat) :
    Reads (S := MemoryStore H) (H := H) (onStore (Store.get index))
      (onStore (Store.get index)) := by
  refine ⟨follows_get index, fun m => ?_⟩
  show ((⟨(UnreliableStore.get index m.store).2.store, m.state⟩ : Mmr (MemoryStore H) H),
    (UnreliableStore.get index m.store).2.outages.appends) = m.written
  unfold UnreliableStore.get
  split
  · rfl
  · show ((⟨(MemoryStore.get index m.store.store).2, m.state⟩ : Mmr (MemoryStore H) H), _)
      = m.written
    unfold MemoryStore.get
    split
    · rfl
    · rfl

theorem keeps_sync : Call.Keeps (behind (S := MemoryStore H) (H := H)) (onStore Store.sync) := by
  intro m
  show (⟨(UnreliableStore.sync m.store).2.store, m.state⟩ : Mmr (MemoryStore H) H) = m.behind
  unfold UnreliableStore.sync
  split
  · rfl
  · rfl

theorem reads_familyAt (pos siblingPos parentPos height size : Nat) (isRightChild : Bool) :
    Reads (S := MemoryStore H) (familyAt pos siblingPos parentPos height size isRightChild)
      (familyAt pos siblingPos parentPos height size isRightChild) := by
  unfold familyAt
  split
  · refine (reads_get _).bind fun sibling => ?_
    split
    · refine (reads_get _).bind fun parent => ?_
      split
      · exact reads_pure _
      · exact reads_pure _
    · exact reads_pure _
  · exact reads_pure _

theorem reads_findFamily (pos height size : Nat) :
    Reads (S := MemoryStore H) (findFamily pos height size) (findFamily pos height size) := by
  unfold findFamily
  split
  · exact reads_pure _
  · dsimp only
    split
    · exact reads_pure _
    · refine (reads_familyAt _ _ _ _ _ _).bind fun family => ?_
      split
      · exact reads_pure _
      · split
        · exact reads_pure _
        · split
          · exact reads_familyAt _ _ _ _ _ _
          · exact reads_pure _

theorem reads_merklePathLoop (size rounds : Nat) : ∀ pos height : Nat,
    Reads (S := MemoryStore H) (merklePathLoop size rounds pos height)
      (merklePathLoop size rounds pos height) := by
  induction rounds with
  | zero => exact fun _ _ => reads_lift _
  | succ rounds ih =>
    intro pos height
    unfold merklePathLoop
    refine (reads_findFamily _ _ _).bind fun family => ?_
    split
    · exact reads_pure _
    · exact (reads_get _).bind fun sibling => (ih _ _).bind fun path => reads_pure _

theorem reads_generateProof (hs : NodeHasher H) (leafIndex : Nat) :
    Reads (S := MemoryStore H) (generateProof hs leafIndex) (generateProof hs leafIndex) := by
  unfold generateProof generateMerklePath
  refine Reads.bind_asks fun size => (reads_lift _).bind fun _ => (reads_lift _).bind fun _ => ?_
  refine (reads_get _).bind fun node => (reads_lift _).bind fun _ => ?_
  refine ((reads_get _).bind fun _ => reads_merklePathLoop _ _ _ _).bind fun path => ?_
  refine Reads.bind_id fun m => (reads_lift _).bind fun peaks => ?_
  refine (reads_lift _).bind fun indices => ?_
  exact (reads_lift _).bind fun position => (reads_lift _).bind fun root => reads_pure _

end Reads

/-! ## One append -/

section Append

variable {hs : NodeHasher H} {data : List Bytes} {d : Bytes}

def Grew (m m' : Mmr (MemoryStore H) H) : Prop :=
  m.state.size < m'.state.size
    ∨ m'.state = m.state ∧ m'.store.nodes.length = m.store.nodes.length + 1

/-- A range that has moved on does not represent its leaves any more. -/
theorem Grew.not_represents {m m' : Mmr (MemoryStore H) H} (h : Grew m m')
    (hm : Represents hs data m) : ¬ Represents hs data m' := by
  intro hm'
  rcases h with hsize | ⟨-, hlength⟩
  · rw [hm.size_eq, hm'.size_eq] at hsize
    exact absurd hsize (Nat.lt_irrefl _)
  · rw [hm.length_eq, hm'.length_eq] at hlength
    omega

variable {m m' : Mmr (UnreliableStore (MemoryStore H)) H}

theorem append_of_refused (hs : NodeHasher H)
    (h : m.store.outages.appends.head? = some .refused) (d : Bytes) :
    ∃ m', append hs d m = (fail .io, m') ∧ m'.behind = m.behind := by
  have happ : Store.append (Node.newLeaf hs m.state.size d) m.store
      = (fail .io, { m.store with
        outages := { m.store.outages with appends := m.store.outages.appends.tail } }) := by
    show UnreliableStore.append _ _ = _
    rw [UnreliableStore.append, h]
    rfl
  exact ⟨_, append_of_error happ, rfl⟩

/-- Past the write of its leaf, an append has moved the range. -/
theorem size_lt_of_written {store : UnreliableStore (MemoryStore H)} {r : Res MmrError Nat}
    (hwrite : Store.append (Node.newLeaf hs m.state.size d) m.store = (.ok (), store))
    (h : append hs d m = (r, m')) : r = abort ∨ m.state.size < m'.state.size := by
  rw [append_of_ok hwrite] at h
  rcases bumpSize_cases ({ m with store } : Mmr (UnreliableStore (MemoryStore H)) H) with
    hbump | hbump
  · rw [bind_of_ok hbump] at h
    have hgrows := (grows_mergeLoop (S := UnreliableStore (MemoryStore H)) hs (2 ^ 64)).bind
      (f := fun _ => pure m.state.size) fun _ => .of_keeps fun _ => rfl
    have hle := hgrows { store, state := { m.state with size := m.state.size + 1 } }
    rw [h] at hle
    exact .inr (Nat.lt_of_succ_le hle)
  · rw [bind_of_error hbump] at h
    cases h
    exact .inl rfl

/-- Any write of a leaf that is not refused moves the range or its store, whatever comes of the
append. -/
theorem grew_of_append (hm : Represents hs data m.behind)
    (hrefused : m.store.outages.appends.head? ≠ some .refused) {r : Res MmrError Nat}
    (h : append hs d m = (r, m')) : r = abort ∨ Grew m.behind m'.behind := by
  have hunfold : Store.append (Node.newLeaf hs m.state.size d) m.store
      = UnreliableStore.append (Node.newLeaf hs m.state.size d) m.store := rfl
  rw [UnreliableStore.append] at hunfold
  have hleaf : Store.append (Node.newLeaf hs m.state.size d) m.store.store
        = (.ok (), ⟨m.store.store.nodes ++ [Node.newLeaf hs m.state.size d]⟩)
      ∨ Store.append (Node.newLeaf hs m.state.size d) m.store.store = (abort, m.store.store) :=
    append_leaf_cases hm d
  cases houtcome : m.store.outages.appends.head?.getD .done with
  | refused =>
    cases hhead : m.store.outages.appends.head? with
    | none =>
      rw [hhead] at houtcome
      cases houtcome
    | some outcome =>
      rw [hhead] at houtcome
      obtain rfl : outcome = .refused := houtcome
      exact absurd hhead hrefused
  | done =>
    rw [houtcome] at hunfold
    simp only [UnreliableStore.pass] at hunfold
    rcases hleaf with happ | happ
    · rw [happ] at hunfold
      exact (size_lt_of_written hunfold h).imp_right .inl
    · rw [happ] at hunfold
      rw [append_of_error hunfold] at h
      cases h
      exact .inl rfl
  | kept =>
    rw [houtcome] at hunfold
    simp only [UnreliableStore.pass] at hunfold
    rcases hleaf with happ | happ
    · rw [happ] at hunfold
      rw [append_of_error hunfold] at h
      cases h
      refine .inr (.inr ⟨rfl, ?_⟩)
      show (m.store.store.nodes ++ [_]).length = _
      rw [List.length_append]
      rfl
    · rw [happ] at hunfold
      rw [append_of_error hunfold] at h
      cases h
      exact .inl rfl

theorem represents_of_append (hm : Represents hs data m.behind) {index : Nat}
    (h : append hs d m = (.ok index, m')) :
    index = MountainRange.size data.length ∧ Represents hs (data ++ [d]) m'.behind := by
  have hbehind := (follows_appendLeaf hs d).eq_of_ok h
  have hstep := append_represents hm d
  split at hstep
  · obtain ⟨m₁, hrun, hrep⟩ := hstep
    rw [hbehind] at hrun
    cases hrun
    exact ⟨rfl, hrep⟩
  · obtain ⟨m₁, hrun⟩ := hstep
    rw [hbehind] at hrun
    cases hrun

end Append

end Mmr

end WritersProof.Mmr
