/-
  How far `FileStore` refines `MemoryStore`.

  `Refines f m` is the simulation relation: the file followed by the writer's
  buffer holds the encoded nodes of `m`, and the cache holds nodes of `m`.  A
  step keeps it as long as buffered bytes reach the file at its end.  Nothing
  in the source makes sure of that: a cache miss of `get` seeks the handle that
  the writer shares its cursor with, and the next flush writes where the read
  stopped.  `StepMeets` is the condition that this does not happen.
-/
import WritersProof.Mmr.Store

namespace WritersProof.Mmr

open Rust

def encodeNodes (nodes : List (Node Hash32)) : Bytes := nodes.flatMap Node.serialize

theorem encodeNodes_append_singleton (nodes : List (Node Hash32)) (node : Node Hash32) :
    encodeNodes (nodes ++ [node]) = encodeNodes nodes ++ node.serialize := by
  simp [encodeNodes]

/-- The node of an append is in the range of its machine types. -/
def StoreOp.Fits : StoreOp Hash32 → Prop
  | .append node => node.Fits
  | _ => True

instance : (op : StoreOp Hash32) → Decidable op.Fits
  | .append node => inferInstanceAs (Decidable node.Fits)
  | .get _ | .size | .sync | .close => .isTrue trivial

namespace FileStore

/-- The operation moves bytes from the writer's buffer to the file. -/
def WritesOut (s : FileStore) : StoreOp Hash32 → Prop
  | .append node =>
    node.index = s.size ∧
      (s.io.Overflows writerCapacity node.serialize ∧ s.io.buf ≠ [] ∨
        autoSyncThreshold ≤ s.appendCount)
  | .get index => index < s.size ∧ s.cache.lookup index = none ∧ s.io.buf ≠ []
  | .size => False
  | .sync | .close => s.io.buf ≠ []

instance (s : FileStore) : (op : StoreOp Hash32) → Decidable (s.WritesOut op)
  | .append _ => inferInstanceAs (Decidable (_ ∧ (_ ∨ _)))
  | .get _ => inferInstanceAs (Decidable (_ ∧ _))
  | .size => .isFalse id
  | .sync | .close => inferInstanceAs (Decidable (_ ≠ _))

/-- If the operation writes to the file, then the shared cursor is at its end. -/
def StepMeets (op : StoreOp Hash32) (s : FileStore) : Prop :=
  s.WritesOut op → s.io.file.AtEnd

instance (op : StoreOp Hash32) (s : FileStore) : Decidable (StepMeets op s) :=
  inferInstanceAs (Decidable (_ → _))

/-- `StepMeets` holds of every operation of the run. -/
def RunMeets (ops : List (StoreOp Hash32)) (s : FileStore) : Prop :=
  Machine.Along (StoreOp.run (S := FileStore)) StepMeets ops s

instance (ops : List (StoreOp Hash32)) (s : FileStore) : Decidable (RunMeets ops s) :=
  inferInstanceAs (Decidable (Machine.Along _ _ _ _))

end FileStore

structure Refines (f : FileStore) (m : MemoryStore Hash32) : Prop where
  size_eq : f.size = m.nodes.length
  logical_eq : f.io.logical = encodeNodes m.nodes
  cached : ∀ index node, f.cache.lookup index = some node → m.nodes[index]? = some node
  fits : ∀ node ∈ m.nodes, node.Fits
  room : m.nodes.length ≤ MemoryStore.maxNodes

namespace Refines

variable {f : FileStore} {m : MemoryStore Hash32}

theorem of_open_empty {fs : FileStore} (hopen : FileStore.open [] = .ok fs) :
    Refines fs MemoryStore.new := by
  rw [FileStore.open, if_neg (by simp)] at hopen
  obtain rfl := Except.ok.inj hopen
  refine ⟨rfl, rfl, ?_, ?_, Nat.zero_le _⟩
  · intro _ _ h
    cases h
  · intro _ h
    exact (List.not_mem_nil h).elim

/-! ## One step -/

theorem flush (hR : Refines f m) (hend : f.io.buf ≠ [] → f.io.file.AtEnd)
    {cache : List (Nat × Node Hash32)} {n : Nat}
    (hcache : ∀ index node, cache.lookup index = some node → m.nodes[index]? = some node) :
    Refines ⟨f.io.flush, f.size, cache, n⟩ m where
  size_eq := hR.size_eq
  logical_eq := by rw [BufferedFile.logical_flush hend, hR.logical_eq]
  cached := hcache
  fits := hR.fits
  room := hR.room

theorem sync (hR : Refines f m) (hend : f.io.buf ≠ [] → f.io.file.AtEnd) :
    Refines (FileStore.sync f).2 m :=
  hR.flush hend fun _ _ h => by cases h

variable {index : Nat} {node : Node Hash32}

variable (hR : Refines f m)

include hR

theorem readNode_eq (hend : f.io.buf ≠ [] → f.io.file.AtEnd) (hnode : m.nodes[index]? = some node) :
    (FileStore.readNode index f).1 = .ok node ∧ Refines (FileStore.readNode index f).2 m := by
  obtain ⟨hi, -⟩ := List.getElem?_eq_some_iff.mp hnode
  have hoffset : index * nodeSize < 2 ^ 64 := by
    have hroom := hR.room
    unfold MemoryStore.maxNodes at hroom
    unfold nodeSize
    omega
  have hcontent : f.io.flush.file.content
      = encodeNodes (m.nodes.take index) ++ node.serialize
          ++ encodeNodes (m.nodes.drop (index + 1)) := by
    rw [BufferedFile.flush_content hend, hR.logical_eq]
    exact Bytes.flatMap_split m.nodes hnode
  have hpos : index * nodeSize = (encodeNodes (m.nodes.take index)).length := by
    rw [encodeNodes, Bytes.length_flatMap_records Node.length_serialize, List.length_take,
      Nat.min_eq_left (Nat.le_of_lt hi)]
  have hread : (f.io.flush.file.seek (index * nodeSize)).readExact nodeSize
      = (some node.serialize, ⟨f.io.flush.file.content, index * nodeSize + nodeSize⟩) := by
    rw [OpenFile.seek, hcontent, hpos]
    exact Node.length_serialize node ▸ OpenFile.readExact_append _ _ _
  have hfits : node.Fits := hR.fits node (List.mem_of_getElem? hnode)
  rw [FileStore.readNode, checkedMul_eq_some hoffset]
  simp only [hread]
  refine ⟨Node.deserialize_serialize hfits, ?_⟩
  have hflush := hR.flush hend (n := f.appendCount) hR.cached
  exact ⟨hflush.size_eq, hflush.logical_eq, hR.cached, hR.fits, hR.room⟩

theorem get (hmeets : FileStore.StepMeets (.get index) f) :
    (FileStore.get index f).1 = (MemoryStore.get index m).1 ∧
      Refines (FileStore.get index f).2 (MemoryStore.get index m).2 := by
  by_cases hsize : f.size ≤ index
  · have hnone : m.nodes[index]? = none := by
      rw [List.getElem?_eq_none_iff, ← hR.size_eq]
      exact hsize
    rw [FileStore.get, if_pos hsize, MemoryStore.get, hnone]
    exact ⟨rfl, hR⟩
  · have hlt : index < m.nodes.length := by
      have := hR.size_eq
      omega
    rw [FileStore.get, if_neg hsize]
    cases hlookup : f.cache.lookup index with
    | some node =>
      rw [MemoryStore.get_eq (hR.cached index node hlookup)]
      exact ⟨rfl, hR⟩
    | none =>
      have hnode : m.nodes[index]? = some m.nodes[index] := List.getElem?_eq_getElem hlt
      rw [MemoryStore.get_eq hnode]
      -- a cache miss is the only read that writes the buffer out first
      apply hR.readNode_eq _ hnode
      intro hbuf
      exact hmeets ⟨by omega, hlookup, hbuf⟩

theorem append (hfits : node.Fits) (hmeets : FileStore.StepMeets (.append node) f)
    (hroom : (MemoryStore.append node m).1 ≠ abort) :
    (FileStore.append node f).1 = (MemoryStore.append node m).1 ∧
      Refines (FileStore.append node f).2 (MemoryStore.append node m).2 := by
  by_cases hindex : node.index = f.size
  · have hindex' : node.index = m.nodes.length := hindex.trans hR.size_eq
    have hlt : m.nodes.length < MemoryStore.maxNodes := by
      by_contra hge
      rw [MemoryStore.append, if_neg (by simpa using hindex'), if_pos (by omega)] at hroom
      exact hroom rfl
    rw [MemoryStore.append_eq hindex' hlt, FileStore.append, if_neg (by simpa using hindex)]
    have hshort : node.serialize.length < FileStore.writerCapacity := by
      rw [Node.length_serialize]
      decide
    have hlogical : (f.io.writeAll FileStore.writerCapacity node.serialize).logical
        = encodeNodes (m.nodes ++ [node]) := by
      rw [encodeNodes_append_singleton, ← hR.logical_eq]
      apply BufferedFile.logical_writeAll hshort
      intro hover hbuf
      exact hmeets ⟨hindex, .inl ⟨hover, hbuf⟩⟩
    have hnext : Refines
        { io := f.io.writeAll FileStore.writerCapacity node.serialize
          cache := (node.index, node) :: f.cache
          size := f.size + 1
          appendCount := (f.appendCount + 1) % 2 ^ 32 } ⟨m.nodes ++ [node]⟩ := by
      refine ⟨by simp [hR.size_eq], hlogical, ?_, ?_, by simp; omega⟩
      · intro i n hlookup
        rw [List.lookup_cons] at hlookup
        by_cases hi : i = node.index
        · subst hi
          rw [beq_self_eq_true] at hlookup
          obtain rfl := Option.some.inj hlookup
          simp [hindex']
        · rw [beq_eq_false_iff_ne.mpr hi] at hlookup
          have hold := hR.cached i n hlookup
          obtain ⟨hi', -⟩ := List.getElem?_eq_some_iff.mp hold
          rw [List.getElem?_append_left hi', hold]
      · intro n hn
        rcases List.mem_append.mp hn with hn | hn
        · exact hR.fits n hn
        · rw [List.mem_singleton.mp hn]
          exact hfits
    by_cases hauto : FileStore.autoSyncThreshold ≤ f.appendCount
    · rw [if_pos hauto]
      -- the automatic sync may come right after an overflow, which left the cursor at the end
      have hend : f.io.file.AtEnd := hmeets ⟨hindex, .inr hauto⟩
      refine ⟨rfl, hnext.sync fun _ => ?_⟩
      rw [BufferedFile.writeAll_short hshort]
      split
      · exact OpenFile.atEnd_write hend _
      · exact hend
    · rw [if_neg hauto]
      exact ⟨rfl, hnext⟩
  · rw [FileStore.append, if_pos (by simpa using hindex), MemoryStore.append,
      if_pos (by simpa [← hR.size_eq] using hindex)]
    exact ⟨rfl, hR⟩

/-- Both stores answer alike, and stay in step. -/
theorem step {op : StoreOp Hash32} (hfits : op.Fits) (hmeets : FileStore.StepMeets op f)
    (hroom : (op.run m).1 ≠ .done abort) :
    (op.run f).1 = (op.run m).1 ∧ Refines (op.run f).2 (op.run m).2 := by
  cases op with
  | append node =>
    have hroom' : (MemoryStore.append node m).1 ≠ abort := fun h => hroom (congrArg _ h)
    obtain ⟨hreply, hnext⟩ := hR.append hfits hmeets hroom'
    exact ⟨congrArg _ hreply, hnext⟩
  | get index =>
    obtain ⟨hreply, hnext⟩ := hR.get hmeets
    exact ⟨congrArg _ hreply, hnext⟩
  | size => exact ⟨congrArg (fun n => StoreReply.size (.ok n)) hR.size_eq, hR⟩
  | sync => exact ⟨rfl, hR.sync hmeets⟩
  | close => exact ⟨rfl, hR.sync hmeets⟩

theorem runs {ops : List (StoreOp Hash32)} (hfits : ∀ op ∈ ops, op.Fits)
    (hmeets : FileStore.RunMeets ops f) (hroom : .done abort ∉ (runOps ops m).1) :
    (runOps ops f).1 = (runOps ops m).1 ∧ Refines (runOps ops f).2 (runOps ops m).2 := by
  have hroom' : Machine.Along (StoreOp.run (S := MemoryStore Hash32))
      (fun op m => (op.run m).1 ≠ .done abort) ops m := by
    apply Machine.along_of_replies (p := fun reply => reply ≠ StoreReply.done abort)
    intro reply hreply habort
    exact hroom (habort ▸ hreply)
  have hfits' : Machine.Along (StoreOp.run (S := FileStore))
      (fun op f => op.Fits ∧ FileStore.StepMeets op f) ops f :=
    Machine.along_and_of_forall hfits hmeets
  exact Machine.run_simulates (fun op s t hst hP hQ => hst.step hP.1 hP.2 hQ) ops f m hR
    hfits' hroom'

end Refines

/-! ## Whole runs -/

def appendedNodes (ops : List (StoreOp Hash32)) : List (Node Hash32) :=
  ops.filterMap fun
    | .append node => some node
    | _ => none

@[simp] theorem appendedNodes_append (node : Node Hash32) (ops : List (StoreOp Hash32)) :
    appendedNodes (.append node :: ops) = node :: appendedNodes ops := rfl

def AppendsNext (ops : List (StoreOp Hash32)) : Prop :=
  (appendedNodes ops).map Node.index = List.range' 0 (appendedNodes ops).length

instance (ops : List (StoreOp Hash32)) : Decidable (AppendsNext ops) :=
  inferInstanceAs (Decidable (_ = _))

theorem AppendsNext.of_append {pre post : List (StoreOp Hash32)} (h : AppendsNext (pre ++ post)) :
    AppendsNext pre := by
  unfold AppendsNext at *
  rw [appendedNodes, List.filterMap_append, List.map_append, List.length_append,
    ← List.range'_append_1] at h
  exact List.append_inj_left h (by simp)

theorem MemoryStore.runOps_nodes :
    ∀ (ops : List (StoreOp Hash32)) (m : MemoryStore Hash32),
      (appendedNodes ops).map Node.index = List.range' m.nodes.length (appendedNodes ops).length →
      .done abort ∉ (runOps ops m).1 →
      (runOps ops m).2.nodes = m.nodes ++ appendedNodes ops := by
  intro ops
  induction ops with
  | nil =>
    intro m _ _
    exact (List.append_nil _).symm
  | cons op ops ih =>
    intro m hnext hroom
    rw [runOps, Machine.run_cons, List.mem_cons, not_or] at hroom
    rw [runOps, Machine.run_cons]
    obtain ⟨hfirst, hrest⟩ := hroom
    cases op with
    | append node =>
      simp only [appendedNodes_append, List.map_cons, List.length_cons, List.range'_succ,
        List.cons.injEq] at hnext
      obtain ⟨hindex, hnext⟩ := hnext
      have hlt : m.nodes.length < MemoryStore.maxNodes := by
        by_contra hge
        apply hfirst
        simp only [StoreOp.run, Store.append, MemoryStore.append]
        rw [if_neg (by simpa using hindex), if_pos (by omega)]
      have happend := MemoryStore.append_eq hindex hlt
      simp only [StoreOp.run, Store.append, happend] at hrest ⊢
      have hnodes := ih ⟨m.nodes ++ [node]⟩ (by simpa using hnext) hrest
      rw [runOps] at hnodes
      rw [hnodes, appendedNodes_append, List.append_assoc, List.singleton_append]
    | get index =>
      have hsame : ((StoreOp.get index).run m).2 = m := by
        simp only [StoreOp.run, Store.get, MemoryStore.get]
        split <;> rfl
      rw [hsame] at hrest ⊢
      exact ih m hnext hrest
    | size => exact ih m hnext hrest
    | sync => exact ih m hnext hrest
    | close => exact ih m hnext hrest

theorem FileStore.buf_nil_of_sync {op : StoreOp Hash32} (hop : op = .sync ∨ op = .close)
    (pre : List (StoreOp Hash32)) (fs : FileStore) :
    (runOps (pre ++ [op]) fs).2.io.buf = [] := by
  rw [runOps, Machine.run_append]
  rcases hop with rfl | rfl <;> rfl

/-- **A file store refines the memory store while its writes land at the end.**
    Opened on an empty file, it gives the replies of a memory store to every
    sequence of operations in which the bytes that leave the writer's buffer
    find the shared cursor at the end of the file, and after each sync or close
    the file holds the encoded nodes in index order. -/
theorem fileStore_refines_memoryStore {fs : FileStore} (hopen : FileStore.open [] = .ok fs)
    (ops : List (StoreOp Hash32)) (hfits : ∀ op ∈ ops, op.Fits) (hnext : AppendsNext ops)
    (hroom : .done abort ∉ (runOps ops (MemoryStore.new (H := Hash32))).1)
    (hmeets : fs.RunMeets ops) :
    (runOps ops fs).1 = (runOps ops MemoryStore.new).1 ∧
      (runOps ops (MemoryStore.new (H := Hash32))).2.nodes = appendedNodes ops ∧
      ∀ pre op post, ops = pre ++ [op] ++ post → (op = .sync ∨ op = .close) →
        (runOps (pre ++ [op]) fs).2.io.file.content = encodeNodes (appendedNodes pre) := by
  have hstart := Refines.of_open_empty hopen
  refine ⟨(hstart.runs hfits hmeets hroom).1,
    MemoryStore.runOps_nodes ops MemoryStore.new hnext hroom, ?_⟩
  rintro pre op post rfl hop
  -- the run up to the sync meets all the conditions of the whole run
  have hfits' : ∀ o ∈ pre ++ [op], o.Fits := fun o ho => hfits o (List.mem_append_left _ ho)
  have hmeets' : fs.RunMeets (pre ++ [op]) := (Machine.along_append.mp hmeets).1
  have hroom' : .done abort ∉ (runOps (pre ++ [op]) (MemoryStore.new (H := Hash32))).1 := by
    intro habort
    apply hroom
    rw [runOps, Machine.run_append]
    exact List.mem_append_left _ habort
  have hnodes := MemoryStore.runOps_nodes (pre ++ [op]) MemoryStore.new hnext.of_append hroom'
  have hlogical := (hstart.runs hfits' hmeets' hroom').2.logical_eq
  rw [BufferedFile.logical, FileStore.buf_nil_of_sync hop, List.append_nil, hnodes] at hlogical
  rw [hlogical]
  rcases hop with rfl | rfl <;> simp [appendedNodes, MemoryStore.new]

def filledHash (byte : UInt8) : Hash32 := FixedBytes.filled hashSize byte

/-- Two leaves synced, the last one read back, their parent appended: every
    write finds the cursor at the end, since the read ends there too. -/
theorem fileStore_refines_memoryStore_readLast :
    let ops := [.append ⟨0, 0, filledHash 1⟩, .append ⟨1, 0, filledHash 2⟩, .sync, .get 1,
      .append ⟨2, 1, filledHash 3⟩, .get 2, .sync]
    let fs : FileStore := ⟨⟨⟨[], 0⟩, []⟩, 0, [], 0⟩
    (runOps ops fs).1 = (runOps ops MemoryStore.new).1 ∧
      (runOps ops (MemoryStore.new (H := Hash32))).2.nodes = appendedNodes ops ∧
      ∀ pre op post, ops = pre ++ [op] ++ post → (op = .sync ∨ op = .close) →
        (runOps (pre ++ [op]) fs).2.io.file.content = encodeNodes (appendedNodes pre) :=
  fileStore_refines_memoryStore (by decide) _ (by decide) (by decide) (by decide +kernel)
    (by decide +kernel)

/-- Two leaves synced, the first one read back, their parent appended and
    synced: the parent lands on the second leaf, and `get(1)` returns it. -/
theorem fileStore_get_after_seek :
    ¬ ∀ (fs : FileStore) (ops : List (StoreOp Hash32)), FileStore.open [] = .ok fs →
      (∀ op ∈ ops, op.Fits) → AppendsNext ops →
      .done abort ∉ (runOps ops (MemoryStore.new (H := Hash32))).1 →
      (runOps ops fs).1 = (runOps ops MemoryStore.new).1 := by
  intro h
  have hrun := h ⟨⟨⟨[], 0⟩, []⟩, 0, [], 0⟩
    [.append ⟨0, 0, filledHash 1⟩, .append ⟨1, 0, filledHash 2⟩, .sync, .get 0,
      .append ⟨2, 1, filledHash 3⟩, .sync, .get 1]
    (by decide) (by decide) (by decide) (by decide +kernel)
  exact absurd hrun (by decide +kernel)

end WritersProof.Mmr
