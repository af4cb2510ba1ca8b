/-
  WritersProof.Content.Mmr

  The mountain range over the segments of a session's texts (crates/cpoe/src/content/mmr.rs).

  A segment's hash is the data of a leaf.  `Reached` is what calls of the two witnessing
  functions lead to; its ranges represent hashes of segments of the texts that were witnessed.
-/
import WritersProof.Content.Segmentation
import WritersProof.Mmr.Inclusion
import WritersProof.Lib.Vec

namespace WritersProof.Content

set_option linter.dupNamespace false

open Rust Mmr MountainRange Call

inductive Error where
  | config (sessionId : String)
  | mmr (e : MmrError)
  deriving DecidableEq

/-- Per-session content Merkle tree for content-level witnessing. -/
structure ContentMmr (S H : Type) where
  mmr : Mmr S H
  granularity : ContentGranularity
  sessionId : String
  deriving DecidableEq

structure WitnessedSegment (H : Type) where
  segment : ContentSegment
  leafIndex : Nat
  proof : InclusionProof H
  deriving DecidableEq

namespace ContentMmr

variable {S H : Type} [Store S H]

/-- `open`, on what `FileStore::open` returned -/
def «open» (store : S) (sessionId : String) (granularity : ContentGranularity) :
    Res Error (ContentMmr S H) :=
  if sessionId = "" ∨ sessionId.toList.any fun c => c = '/' ∨ c = '\\' ∨ c = '\x00' then
    fail (.config sessionId)
  else do
    let mmr ← mapFault (Mmr.new store) .mmr
    .ok ⟨mmr, granularity, sessionId⟩

def inMemory (sessionId : String) (granularity : ContentGranularity) :
    Res Error (ContentMmr (MemoryStore H) H) := do
  let mmr ← mapFault (Mmr.new MemoryStore.new) .mmr
  .ok ⟨mmr, granularity, sessionId⟩

def onMmr {α : Type} (call : Call (Mmr S H) MmrError α) : Call (ContentMmr S H) Error α := fun m =>
  let (r, mmr) := call m.mmr
  (mapFault r .mmr, { m with mmr })

/-- What is computed from the range, with its error wrapped -/
def readMmr {α : Type} (f : Mmr S H → Res MmrError α) : Call (ContentMmr S H) Error α :=
  onMmr fun mmr => (f mmr, mmr)

def sync : Call (ContentMmr S H) Error Unit := onMmr (Mmr.onStore Store.sync)

/-! ## Witnessing -/

def witnessSegments (hs : NodeHasher H) :
    List ContentSegment → Call (ContentMmr S H) Error (List (WitnessedSegment H))
  | [] => pure []
  | segment :: rest => do
    let leafIndex ← onMmr (Mmr.append hs segment.hash.val)
    sync
    let proof ← onMmr (Mmr.generateProof hs leafIndex)
    let witnessed ← witnessSegments hs rest
    pure (⟨segment, leafIndex, proof⟩ :: witnessed)

/-- Segment text and append all segments to the MMR. Returns the segments
    with their inclusion proofs. -/
def witnessText (C : Crates) (hs : NodeHasher H) (text : List Char) :
    Call (ContentMmr S H) Error (List (WitnessedSegment H)) := do
  let granularity ← asks (·.granularity)
  witnessSegments hs (C.segmentAndHash text granularity)

section Search

variable [DecidableEq H] (hs : NodeHasher H) (segHash : SegmentHash)

/-- The first of the given leaves that has the hash of the segment -/
def findLeaf : (ordinals : List Nat) → Call (ContentMmr S H) Error (Option (Nat × Nat))
  | [] => pure none
  | ord :: rest => do
    let idx ← readMmr (·.getLeafIndex ord)
    let node ← onMmr (Mmr.get idx)
    if node.hash = hs.hashLeaf idx segHash.val then pure (some (ord, idx)) else findLeaf rest

/-- Check whether a segment hash already exists as a leaf in the MMR. -/
def hasSegment : Call (ContentMmr S H) Error Bool := do
  let leafCount ← readMmr Mmr.leafCount
  let found ← findLeaf hs segHash (List.range leafCount)
  pure found.isSome

end Search

/-- The loop of `witness_text_if_changed`: how many segments were appended -/
def addSegments [DecidableEq H] (hs : NodeHasher H) :
    (added : Nat) → List ContentSegment → Call (ContentMmr S H) Error Nat
  | added, [] => pure added
  | added, segment :: rest => do
    if ← hasSegment hs segment.hash then addSegments hs added rest
    else
      let _ ← onMmr (Mmr.append hs segment.hash.val)
      addSegments hs (added + 1) rest

/-- `last` is what was read from the sidecar file, if it could be read.  Returns the count of new
segments appended, and what is written to the sidecar file; the write may fail unnoticed. -/
def witnessTextIfChanged [DecidableEq H] (C : Crates) (hs : NodeHasher H) (last : Option Bytes)
    (text : List Char) : Call (ContentMmr S H) Error (Nat × Option SegmentHash) := do
  let textHash := C.sha256 (Text.bytes text)
  if last = some textHash.val then pure (0, none)
  else
    let granularity ← asks (·.granularity)
    let added ← addSegments hs 0 (C.segmentAndHash text granularity)
    if 0 < added then sync else pure ()
    pure (added, some textHash)

/-! ## Reading -/

def root (hs : NodeHasher H) (m : ContentMmr S H) : Res Error H := mapFault (m.mmr.getRoot hs) .mmr

def leafCount (m : ContentMmr S H) : Res Error Nat := mapFault m.mmr.leafCount .mmr

end ContentMmr

/-! ## What calls lead to -/

section Calls

namespace ContentMmr

variable {H : Type} {hs : NodeHasher H} {data : List Bytes} {m : ContentMmr (MemoryStore H) H}
  {mmr : Mmr (MemoryStore H) H}

theorem onMmr_of_ok {α : Type} {call : Call (Mmr (MemoryStore H) H) MmrError α} {a : α}
    (h : call m.mmr = (.ok a, mmr)) :
    onMmr call m = (.ok a, { m with mmr }) := by
  rw [onMmr, h]
  rfl

theorem onMmr_of_abort {α : Type} {call : Call (Mmr (MemoryStore H) H) MmrError α}
    (h : call m.mmr = (abort, mmr)) :
    onMmr call m = (abort, { m with mmr }) := by
  rw [onMmr, h]
  rfl

theorem readMmr_of_ok {α : Type} {f : Mmr (MemoryStore H) H → Res MmrError α} {a : α}
    (h : f m.mmr = .ok a) : readMmr f m = (.ok a, m) :=
  onMmr_of_ok (by rw [h])

/-- An append adds a leaf, or the memory is full. -/
theorem append_cases (hm : Represents hs data m.mmr) (d : Bytes) :
    (∃ index mmr, onMmr (Mmr.append hs d) m = (.ok index, { m with mmr })
        ∧ index = MountainRange.size data.length ∧ Represents hs (data ++ [d]) mmr)
      ∨ ∃ mmr, onMmr (Mmr.append hs d) m = (abort, { m with mmr }) := by
  have hstep := Mmr.append_represents hm d
  split at hstep
  · obtain ⟨mmr, hrun, hrep⟩ := hstep
    exact .inl ⟨_, mmr, onMmr_of_ok hrun, rfl, hrep⟩
  · obtain ⟨mmr, hrun⟩ := hstep
    exact .inr ⟨mmr, onMmr_of_abort hrun⟩

theorem sync_eq : sync m = (.ok (), m) := rfl

/-- The segments become leaves in their order, or the call aborts. -/
theorem witnessSegments_spec (segments : List ContentSegment) (hm : Represents hs data m.mmr) :
    (∃ witnessed mmr, witnessSegments hs segments m = (.ok witnessed, { m with mmr })
        ∧ Represents hs (data ++ segments.map fun s => s.hash.val) mmr)
      ∨ ∃ m', witnessSegments hs segments m = (abort, m') := by
  induction segments generalizing data m with
  | nil => exact .inl ⟨[], m.mmr, rfl, by rwa [List.map_nil, List.append_nil]⟩
  | cons segment rest ih =>
    rcases append_cases hm segment.hash.val with ⟨index, mmr, happ, rfl, hrep⟩ | ⟨mmr, happ⟩
    · have hd : (data ++ [segment.hash.val])[data.length]? = some segment.hash.val := by simp
      obtain ⟨root, hroot⟩ := hrep.exists_root (by simp)
      obtain ⟨path, i, peak, hproof, -⟩ := hrep.generateProof_eq hd hroot
      have hproof' := onMmr_of_ok (m := { m with mmr }) hproof
      have hrest := @ih _ { m with mmr } hrep
      rw [List.append_assoc] at hrest
      rw [witnessSegments, bind_of_ok happ, bind_of_ok sync_eq, bind_of_ok hproof']
      rcases hrest with ⟨witnessed, mmr', hrun, hrep'⟩ | ⟨m', hrun⟩
      · rw [bind_of_ok hrun]
        exact .inl ⟨_, mmr', rfl, hrep'⟩
      · rw [bind_of_error hrun]
        exact .inr ⟨m', rfl⟩
    · rw [witnessSegments, bind_of_error happ]
      exact .inr ⟨_, rfl⟩

section Search

variable [DecidableEq H] (segHash : SegmentHash)

/-- The scan ends at a leaf with the hash of the segment, or there is none among the leaves. -/
theorem findLeaf_spec (hm : Represents hs data m.mmr) (ordinals : List Nat)
    (hlt : ∀ ord ∈ ordinals, ord < data.length) :
    (∃ ord d, findLeaf hs segHash ordinals m = (.ok (some (ord, MountainRange.size ord)), m)
        ∧ data[ord]? = some d
        ∧ hs.hashLeaf (MountainRange.size ord) d = hs.hashLeaf (MountainRange.size ord) segHash.val)
      ∨ findLeaf hs segHash ordinals m = (.ok none, m) := by
  induction ordinals with
  | nil => exact .inr rfl
  | cons ord rest ih =>
    rw [List.forall_mem_cons] at hlt
    have hd : data[ord]? = some data[ord] := List.getElem?_eq_getElem hlt.1
    have hindex : readMmr (·.getLeafIndex ord) m = (.ok (MountainRange.size ord), m) :=
      readMmr_of_ok (hm.getLeafIndex_eq hlt.1)
    have hnode := onMmr_of_ok (m := m) (hm.get_leaf hd)
    rw [findLeaf, bind_of_ok hindex, bind_of_ok hnode]
    split
    · rename_i heq
      exact .inl ⟨ord, _, rfl, hd, heq⟩
    · exact ih hlt.2

theorem hasSegment_ok (hm : Represents hs data m.mmr) :
    ∃ found, hasSegment hs segHash m = (.ok found, m) := by
  have hcount : readMmr Mmr.leafCount m = (.ok data.length, m) := readMmr_of_ok hm.leafCount_eq
  rw [hasSegment, bind_of_ok hcount]
  rcases findLeaf_spec segHash hm (List.range data.length)
    (fun ord hord => List.mem_range.mp hord) with ⟨ord, d, hrun, -⟩ | hrun
  · rw [bind_of_ok hrun]
    exact ⟨_, rfl⟩
  · rw [bind_of_ok hrun]
    exact ⟨_, rfl⟩

theorem addSegments_spec (segments : List ContentSegment) (added : Nat)
    (hm : Represents hs data m.mmr) :
    (∃ added' mmr new, addSegments hs added segments m = (.ok added', { m with mmr })
        ∧ Represents hs (data ++ new) mmr
        ∧ ∀ d ∈ new, ∃ segment ∈ segments, d = segment.hash.val)
      ∨ ∃ m', addSegments hs added segments m = (abort, m') := by
  induction segments generalizing data m added with
  | nil => exact .inl ⟨added, m.mmr, [], rfl, by rwa [List.append_nil], fun _ h => nomatch h⟩
  | cons segment rest ih =>
    obtain ⟨found, hfound⟩ := hasSegment_ok segment.hash hm
    rw [addSegments, bind_of_ok hfound]
    cases found with
    | true =>
      rw [if_pos rfl]
      rcases ih added hm with ⟨added', mmr, new, hrun, hrep, hnew⟩ | habort
      · refine .inl ⟨added', mmr, new, hrun, hrep, fun d hd => ?_⟩
        obtain ⟨s, hs, hd⟩ := hnew d hd
        exact ⟨s, List.mem_cons_of_mem _ hs, hd⟩
      · exact .inr habort
    | false =>
      rw [if_neg Bool.false_ne_true]
      rcases append_cases hm segment.hash.val with ⟨index, mmr, happ, -, hrep⟩ | ⟨mmr, happ⟩
      · rw [bind_of_ok happ]
        rcases @ih _ { m with mmr } (added + 1) hrep with
          ⟨added', mmr', new, hrun, hrep', hnew⟩ | habort
        · refine .inl ⟨added', mmr', segment.hash.val :: new, hrun, ?_, ?_⟩
          · rwa [List.append_assoc, List.singleton_append] at hrep'
          · intro d hd
            rcases List.mem_cons.mp hd with rfl | hd
            · exact ⟨segment, List.mem_cons_self, rfl⟩
            · obtain ⟨s, hs, hd⟩ := hnew d hd
              exact ⟨s, List.mem_cons_of_mem _ hs, hd⟩
        · exact .inr habort
      · rw [bind_of_error happ]
        exact .inr ⟨_, rfl⟩

end Search

end ContentMmr

/-- The texts that were given to the witnessing functions, with the granularity at that time, and
the tree they have led to.  Between two calls the tree may be opened again from its store, and the
sidecar file may hold anything. -/
inductive Reached {H : Type} [DecidableEq H] (C : Crates) (hs : NodeHasher H) :
    List (List Char × ContentGranularity) → ContentMmr (MemoryStore H) H → Prop where
  | inMemory {sessionId : String} {granularity : ContentGranularity}
    {m : ContentMmr (MemoryStore H) H} :
    ContentMmr.inMemory sessionId granularity = .ok m → Reached C hs [] m
  | «open» {texts : List (List Char × ContentGranularity)} {m m' : ContentMmr (MemoryStore H) H}
    {sessionId : String} {granularity : ContentGranularity} :
    Reached C hs texts m → ContentMmr.open m.mmr.store sessionId granularity = .ok m' →
    Reached C hs texts m'
  | witnessText {texts : List (List Char × ContentGranularity)}
    {m m' : ContentMmr (MemoryStore H) H} {text : List Char}
    {r : Res Error (List (WitnessedSegment H))} :
    Reached C hs texts m → m.witnessText C hs text = (r, m') → r ≠ abort →
    Reached C hs (texts ++ [(text, m.granularity)]) m'
  | witnessTextIfChanged {texts : List (List Char × ContentGranularity)}
    {m m' : ContentMmr (MemoryStore H) H} {last : Option Bytes} {text : List Char}
    {r : Res Error (Nat × Option SegmentHash)} :
    Reached C hs texts m → m.witnessTextIfChanged C hs last text = (r, m') → r ≠ abort →
    Reached C hs (texts ++ [(text, m.granularity)]) m'

end Calls

end WritersProof.Content
