/-
  Nodes of the Merkle mountain range, their three hash functions and their
  41-byte encoding (crates/cpoe/src/mmr/node.rs, errors.rs).

  Everything above this file is generic in the type `H` of hashes and in the
  three functions (`NodeHasher`).  `sha256Hasher` is the source's choice; the
  soundness results are about hashers that are `Ideal`, which no function into
  32 bytes is, and `Term` is the hasher that has this property by construction.

  The `Store` trait and its two implementations (crates/cpoe/src/mmr/store.rs).

  `MemoryStore` is a vector of nodes.  `FileStore` keeps a read handle, a
  `BufWriter` on a clone of it, a cache of the nodes appended since the last
  sync and two counters.  The locks of the source serialize the methods, so
  each method is one atomic `Call`.
-/
import WritersProof.Lib.File
import WritersProof.Lib.Machine

namespace WritersProof.Mmr

open Rust

/-- Errors from Merkle mountain range operations. -/
inductive MmrError where
  | empty
  | corruptedStore
  | indexOutOfRange
  | invalidNodeData
  | invalidProof
  | hashMismatch
  | nodeNotFound
  | proofTooLarge
  | io
  deriving DecidableEq, Repr

def hashSize : Nat := 32

def nodeSize : Nat := 41

abbrev Hash32 := FixedBytes hashSize

/-! ## Hash functions -/

/-- The three hash functions of the mountain range. -/
structure NodeHasher (H : Type) where
  hashLeaf : (index : Nat) → (data : Bytes) → H
  hashInternal : (height : Nat) → (left right : H) → H
  hashBag : (left right : H) → H

def leafPrefix : UInt8 := 0x00

def internalPrefix : UInt8 := 0x01

/-- `b"cpoe-mmr-leaf-v1"` -/
def leafDst : Bytes :=
  [0x63, 0x70, 0x6f, 0x65, 0x2d, 0x6d, 0x6d, 0x72, 0x2d, 0x6c, 0x65, 0x61, 0x66, 0x2d, 0x76, 0x31]

/-- `b"cpoe-mmr-node-v1"` -/
def nodeDst : Bytes :=
  [0x63, 0x70, 0x6f, 0x65, 0x2d, 0x6d, 0x6d, 0x72, 0x2d, 0x6e, 0x6f, 0x64, 0x65, 0x2d, 0x76, 0x31]

/-- `b"cpoe-mmr-bag-v1"` -/
def bagDst : Bytes :=
  [0x63, 0x70, 0x6f, 0x65, 0x2d, 0x6d, 0x6d, 0x72, 0x2d, 0x62, 0x61, 0x67, 0x2d, 0x76, 0x31]

/-- The source's hash functions, over SHA-256 of the domain-separated input. -/
def sha256Hasher (sha256 : Bytes → Hash32) : NodeHasher Hash32 where
  hashLeaf index data := sha256 (leafDst ++ [leafPrefix] ++ Bytes.toBE 8 index ++ data)
  hashInternal height left right :=
    sha256 (nodeDst ++ [internalPrefix] ++ [UInt8.ofNat height] ++ left.val ++ right.val)
  hashBag left right := sha256 (bagDst ++ left.val ++ right.val)

/-- The hash functions are injective and their ranges are pairwise disjoint. -/
structure NodeHasher.Ideal {H : Type} (hs : NodeHasher H) : Prop where
  leaf_inj : ∀ {i j d e}, hs.hashLeaf i d = hs.hashLeaf j e → i = j ∧ d = e
  internal_inj : ∀ {h k l r l' r'}, hs.hashInternal h l r = hs.hashInternal k l' r' →
    h = k ∧ l = l' ∧ r = r'
  bag_inj : ∀ {l r l' r'}, hs.hashBag l r = hs.hashBag l' r' → l = l' ∧ r = r'
  leaf_ne_internal : ∀ {i d h l r}, hs.hashLeaf i d ≠ hs.hashInternal h l r
  leaf_ne_bag : ∀ {i d l r}, hs.hashLeaf i d ≠ hs.hashBag l r
  internal_ne_bag : ∀ {h l r l' r'}, hs.hashInternal h l r ≠ hs.hashBag l' r'

/-- Hash expressions that have not been evaluated. -/
inductive Term where
  | leaf (index : Nat) (data : Bytes)
  | internal (height : Nat) (left right : Term)
  | bag (left right : Term)
  deriving DecidableEq

def termHasher : NodeHasher Term where
  hashLeaf := .leaf
  hashInternal := .internal
  hashBag := .bag

theorem termHasher_ideal : termHasher.Ideal where
  leaf_inj h := by simpa [termHasher] using h
  internal_inj h := by simpa [termHasher] using h
  bag_inj h := by simpa [termHasher] using h
  leaf_ne_internal h := by simp [termHasher] at h
  leaf_ne_bag h := by simp [termHasher] at h
  internal_ne_bag h := by simp [termHasher] at h

/-! ## Nodes -/

structure Node (H : Type) where
  index : Nat
  height : Nat
  hash : H
  deriving DecidableEq

namespace Node

variable {H : Type}

def newLeaf (hs : NodeHasher H) (index : Nat) (data : Bytes) : Node H where
  index := index
  height := 0
  hash := hs.hashLeaf index data

def newInternal (hs : NodeHasher H) (index height : Nat) (left right : Node H) : Node H where
  index := index
  height := height
  hash := hs.hashInternal height left.hash right.hash

/-- The fields are in the range of their machine types. -/
def Fits (node : Node H) : Prop := node.index < 2 ^ 64 ∧ node.height < 2 ^ 8

instance (node : Node H) : Decidable node.Fits := inferInstanceAs (Decidable (_ ∧ _))

def serialize (node : Node Hash32) : Bytes :=
  Bytes.toBE 8 node.index ++ [UInt8.ofNat node.height] ++ node.hash.val

def deserialize (data : Bytes) : Res MmrError (Node Hash32) :=
  if h : data.length < nodeSize then fail .invalidNodeData
  else
    .ok {
      index := Bytes.ofBE (data.take 8)
      height := (data.get ⟨8, by unfold nodeSize at h; omega⟩).toNat
      hash := ⟨(data.drop 9).take 32, by
        unfold nodeSize at h
        simp only [List.length_take, List.length_drop, hashSize]
        omega⟩ }

@[simp] theorem length_serialize (node : Node Hash32) : node.serialize.length = nodeSize := by
  simp [serialize, nodeSize, hashSize]

theorem deserialize_serialize {node : Node Hash32} (h : node.Fits) :
    deserialize node.serialize = .ok node := by
  obtain ⟨hindex, hheight⟩ := h
  obtain ⟨index, height, hash⟩ := node
  have hlen : ¬ (serialize ⟨index, height, hash⟩).length < nodeSize := by simp
  rw [deserialize, dif_neg hlen]
  have htake : (serialize ⟨index, height, hash⟩).take 8 = Bytes.toBE 8 index := by
    simp [serialize]
  have hget : (serialize ⟨index, height, hash⟩).get ⟨8, by simp [nodeSize]⟩
      = UInt8.ofNat height := by
    simp [serialize]
  have hdrop : ((serialize ⟨index, height, hash⟩).drop 9).take 32 = hash.val := by
    rw [serialize, List.drop_left' (by simp), List.take_of_length_le (by simp [hashSize])]
  have hbyte : (UInt8.ofNat height).toNat = height := by
    rw [UInt8.toNat_ofNat', Nat.mod_eq_of_lt hheight]
  simp only [htake, hget, hdrop, hbyte, Bytes.ofBE_toBE_of_lt (w := 8) hindex]

end Node

/-- The `Store` trait. -/
class Store (S : Type) (H : outParam Type) where
  append : Node H → Call S MmrError Unit
  get : (index : Nat) → Call S MmrError (Node H)
  size : Call S MmrError Nat
  sync : Call S MmrError Unit
  close : Call S MmrError Unit

/-! ## MemoryStore -/

structure MemoryStore (H : Type) where
  nodes : List (Node H)
  deriving DecidableEq

namespace MemoryStore

variable {H : Type} {s : MemoryStore H} {node : Node H}

def new : MemoryStore H := ⟨[]⟩

/-- The most nodes of 48 bytes that a `Vec`, which never exceeds `isize::MAX`
    bytes, can hold. -/
def maxNodes : Nat := (2 ^ 63 - 1) / 48

/-- `Vec::push` past the capacity limit aborts. -/
def append (node : Node H) : Call (MemoryStore H) MmrError Unit := fun s =>
  if node.index ≠ s.nodes.length then (fail .corruptedStore, s)
  else if maxNodes ≤ s.nodes.length then (abort, s)
  else (.ok (), ⟨s.nodes ++ [node]⟩)

def get (index : Nat) : Call (MemoryStore H) MmrError (Node H) := fun s =>
  match s.nodes[index]? with
  | none => (fail .indexOutOfRange, s)
  | some node => (.ok node, s)

instance : Store (MemoryStore H) H where
  append := append
  get := get
  size := Call.asks (·.nodes.length)
  sync := pure ()
  close := pure ()

theorem append_eq (hindex : node.index = s.nodes.length) (hroom : s.nodes.length < maxNodes) :
    append node s = (.ok (), ⟨s.nodes ++ [node]⟩) := by
  rw [append, if_neg (by simpa using hindex), if_neg (by omega)]

theorem get_eq {index : Nat} (h : s.nodes[index]? = some node) : get index s = (.ok node, s) := by
  rw [get, h]

end MemoryStore

/-! ## FileStore -/

structure FileStore where
  /-- `file` and `writer`: both handles of the file, and the writer's buffer. -/
  io : BufferedFile
  size : Nat
  cache : List (Nat × Node Hash32)
  appendCount : Nat
  deriving DecidableEq

namespace FileStore

def autoSyncThreshold : Nat := 100

/-- `BufWriter::with_capacity(4096, append_file)` -/
def writerCapacity : Nat := 4096

def «open» (content : Bytes) : Res MmrError FileStore :=
  if content.length % nodeSize ≠ 0 then fail .corruptedStore
  else
    .ok {
      io := ⟨OpenFile.seekEnd ⟨content, 0⟩, []⟩
      size := content.length / nodeSize
      cache := []
      appendCount := 0 }

def sync : Call FileStore MmrError Unit :=
  Call.modify fun s => { s with io := s.io.flush, cache := [], appendCount := 0 }

def append (node : Node Hash32) : Call FileStore MmrError Unit := fun s =>
  if node.index ≠ s.size then (fail .corruptedStore, s)
  else
    let s' : FileStore :=
      { io := s.io.writeAll writerCapacity node.serialize
        cache := (node.index, node) :: s.cache
        size := s.size + 1
        appendCount := (s.appendCount + 1) % 2 ^ 32 }
    if autoSyncThreshold ≤ s.appendCount then sync s' else (.ok (), s')

/-- What `get` does on a cache miss: flush the writer, then seek and read
    through the handle that shares its cursor. -/
def readNode (index : Nat) : Call FileStore MmrError (Node Hash32) := fun s =>
  let io := s.io.flush
  match checkedMul index nodeSize with
  | none => (abort, { s with io := io })
  | some offset =>
    let (buf, file) := (io.file.seek offset).readExact nodeSize
    let s' := { s with io := { io with file := file } }
    match buf with
    | none => (fail .io, s')
    | some buf => (Node.deserialize buf, s')

def get (index : Nat) : Call FileStore MmrError (Node Hash32) := fun s =>
  if s.size ≤ index then (fail .indexOutOfRange, s)
  else
    match s.cache.lookup index with
    | some node => (.ok node, s)
    | none => readNode index s

instance : Store FileStore Hash32 where
  append := append
  get := get
  size := Call.asks (·.size)
  sync := sync
  close := sync

end FileStore

/-! ## Sequences of store operations -/

inductive StoreOp (H : Type) where
  | append (node : Node H)
  | get (index : Nat)
  | size
  | sync
  | close

/-- What an operation returns. -/
inductive StoreReply (H : Type) where
  | done (r : Res MmrError Unit)
  | node (r : Res MmrError (Node H))
  | size (r : Res MmrError Nat)
  deriving DecidableEq

section Run

variable {S H : Type} [Store S H]

def StoreOp.run (op : StoreOp H) (s : S) : StoreReply H × S :=
  match op with
  | .append node => let (r, s') := Store.append node s; (.done r, s')
  | .get index => let (r, s') := Store.get index s; (.node r, s')
  | .size => let (r, s') := Store.size s; (.size r, s')
  | .sync => let (r, s') := Store.sync s; (.done r, s')
  | .close => let (r, s') := Store.close s; (.done r, s')

def runOps (ops : List (StoreOp H)) (s : S) : List (StoreReply H) × S :=
  Machine.run StoreOp.run ops s

end Run

end WritersProof.Mmr
