/-
  The part that the formats of inclusion and range proofs have in common
  (crates/cpoe/src/mmr/proof.rs): a path, the peaks, a position among them, the size and the
  root.

  A direction byte that is not 1 means right, so one path has many encodings.
-/
import WritersProof.Mmr.Proof

namespace WritersProof.Mmr

open Rust InclusionProof Bytes

/-! ## Positions in the data -/

def u16At (data : Bytes) (offset : Nat) : Nat := ofBE ((data.drop offset).take 2)

def directions : Nat → Bytes → Bytes
  | 0, _ => []
  | n + 1, bytes => (bytes.drop 32).take 1 ++ directions n (bytes.drop 33)

/-- Where the number of peaks stands, if the number of path elements stands at `offset` -/
def peaksOffset (data : Bytes) (offset : Nat) : Nat := offset + 2 + 33 * u16At data offset

def positionOffset (data : Bytes) (offset : Nat) : Nat :=
  peaksOffset data offset + 2 + 32 * u16At data (peaksOffset data offset)

def endOffset (data : Bytes) (offset : Nat) : Nat := positionOffset data offset + 2 + 8 + 32

/-- Nothing stands behind the root, and each direction is 0 or 1. -/
structure Canonical (data : Bytes) (offset : Nat) : Prop where
  length_eq : data.length = endOffset data offset
  directions : ∀ d ∈ directions (u16At data offset) (data.drop (offset + 2)), d = 0 ∨ d = 1

/-! ## Paths -/

/-- Every byte but 1 stands for the right side. -/
def Directed (elem : ProofElement Hash32) (d : UInt8) : Prop := elem.isLeft = (d == 1)

def pathBytes (path : List (ProofElement Hash32)) (ds : Bytes) : Bytes :=
  (List.zipWith (fun elem d => elem.hash.val ++ [d]) path ds).flatten

def directionByte (elem : ProofElement Hash32) : UInt8 := if elem.isLeft then 1 else 0

section Path

variable {path : List (ProofElement Hash32)} {ds : Bytes}

theorem pathBytes_cons (elem : ProofElement Hash32) (path : List (ProofElement Hash32))
    (d : UInt8) (ds : Bytes) :
    pathBytes (elem :: path) (d :: ds) = elem.hash.val ++ d :: pathBytes path ds := by
  show (elem.hash.val ++ [d]) ++ pathBytes path ds = _
  rw [List.append_assoc]
  rfl

theorem pathBytes_directionByte (path : List (ProofElement Hash32)) :
    pathBytes path (path.map directionByte) = path.flatMap encodeElement := by
  induction path with
  | nil => rfl
  | cons elem path ih =>
    rw [List.map_cons, pathBytes_cons, ih, List.flatMap_cons, encodeElement, List.append_assoc]
    rfl

section

variable (h : List.Forall₂ Directed path ds)

include h

theorem length_pathBytes :
    (pathBytes path ds).length = 33 * path.length := by
  induction h with
  | nil => rfl
  | @cons elem d path ds _ _ ih =>
    have hhash : elem.hash.val.length = 32 := elem.hash.length_val
    rw [pathBytes_cons, List.length_append, List.length_cons, ih, hhash, List.length_cons]
    omega

theorem directions_pathBytes (rest : Bytes) :
    directions path.length (pathBytes path ds ++ rest) = ds := by
  induction h with
  | nil => rfl
  | @cons elem d path ds _ _ ih =>
    have hhash : elem.hash.val.length = 32 := elem.hash.length_val
    rw [pathBytes_cons, List.append_assoc, List.length_cons, directions, List.drop_left' hhash]
    have hdrop : (elem.hash.val ++ (d :: pathBytes path ds ++ rest)).drop 33
        = pathBytes path ds ++ rest := by
      rw [show 33 = 32 + 1 from rfl, ← List.drop_drop, List.drop_left' hhash]
      rfl
    rw [hdrop, ih]
    rfl

theorem eq_directionByte_iff :
    ds = path.map directionByte ↔ ∀ d ∈ ds, d = 0 ∨ d = 1 := by
  induction h with
  | nil => exact ⟨fun _ => nofun, fun _ => rfl⟩
  | @cons elem d path ds hd _ ih =>
    have hbyte : d = directionByte elem ↔ d = 0 ∨ d = 1 := by
      rw [directionByte, hd]
      by_cases hone : d = 1
      · subst hone
        exact iff_of_true rfl (.inr rfl)
      · rw [beq_eq_false_iff_ne.mpr hone, if_neg Bool.false_ne_true]
        exact ⟨.inl, fun h => h.resolve_right hone⟩
    rw [List.map_cons, List.cons.injEq, ih, hbyte, List.forall_mem_cons]

end

theorem exists_directions {records : List Bytes}
    (h : List.Forall₂ (fun (elem : ProofElement Hash32) bytes =>
      ∃ d, Directed elem d ∧ bytes = elem.hash.val ++ [d]) path records) :
    ∃ ds, List.Forall₂ Directed path ds ∧ records.flatten = pathBytes path ds := by
  induction h with
  | nil => exact ⟨[], .nil, rfl⟩
  | @cons elem bytes path records hd _ ih =>
    obtain ⟨d, hdirected, rfl⟩ := hd
    obtain ⟨ds, hall, hflatten⟩ := ih
    refine ⟨d :: ds, .cons hdirected hall, ?_⟩
    rw [List.flatten_cons, hflatten, pathBytes_cons, List.append_assoc]
    rfl

theorem reads_directed {elem : ProofElement Hash32} {d : UInt8} (h : Directed elem d) :
    Reader.Reads readElement (elem.hash.val ++ [d]) elem := by
  let finish (hash : Hash32) (direction : UInt8) : Reader MmrError (ProofElement Hash32) :=
    pure ⟨hash, direction == 1⟩
  have hpure : Reader.Reads (finish elem.hash d) [] elem := by
    show Reader.Reads (pure ⟨elem.hash, d == 1⟩) [] elem
    rw [← h]
    exact Reader.reads_pure elem
  have hflag := (Reader.reads_byte d).bind (f := finish elem.hash) hpure
  have hboth := (Reader.reads_fixed elem.hash).bind
    (f := fun hash => Reader.byte >>= finish hash) hflag
  rw [List.append_nil] at hboth
  refine Reader.Reads.need hboth ?_
  simp [hashSize]

theorem reads_path (h : List.Forall₂ Directed path ds) :
    Reader.Reads (Reader.times readElement path.length) (pathBytes path ds) path := by
  rw [pathBytes]
  apply Reader.reads_times_of_forall
  induction h with
  | nil => exact .nil
  | cons hd _ ih => exact .cons (reads_directed hd) ih

theorem forall₂_directionByte (path : List (ProofElement Hash32)) :
    List.Forall₂ Directed path (path.map directionByte) := by
  induction path with
  | nil => exact .nil
  | cons elem path ih =>
    refine .cons ?_ ih
    obtain ⟨hash, isLeft⟩ := elem
    cases isLeft
    · rfl
    · rfl

end Path

/-! ## The common part of the formats -/

def tailBytes (path : List (ProofElement Hash32)) (ds : Bytes) (peaks : List Hash32)
    (peakPosition mmrSize : Nat) (root : Hash32) : Bytes :=
  toBE 2 path.length ++ (pathBytes path ds ++ (toBE 2 peaks.length
    ++ (peaks.flatMap FixedBytes.val ++ (toBE 2 peakPosition
    ++ (toBE 8 mmrSize ++ root.val)))))

section Tail

variable {data pre rest : Bytes} {path : List (ProofElement Hash32)} {ds : Bytes}
  {peaks : List Hash32} {peakPosition mmrSize : Nat} {root : Hash32}

theorem u16At_of_drop {offset n : Nat} {rest : Bytes} (hn : n < 2 ^ 16)
    (h : data.drop offset = toBE 2 n ++ rest) : u16At data offset = n := by
  rw [u16At, h, List.take_left' (length_toBE _ _), ofBE_toBE_of_lt hn]

variable (hdata : data = pre ++ (tailBytes path ds peaks peakPosition mmrSize root ++ rest))
  (hds : List.Forall₂ Directed path ds) (hpath : path.length < 2 ^ 16)
  (hpeaks : peaks.length < 2 ^ 16)

include hdata hds hpath hpeaks

/-- Where everything stands in data that begin with a proof -/
theorem endOffset_eq :
    u16At data pre.length = path.length
      ∧ endOffset data pre.length + rest.length = data.length
      ∧ directions (u16At data pre.length) (data.drop (pre.length + 2)) = ds := by
  have hdrop : data.drop pre.length = toBE 2 path.length ++ (pathBytes path ds
      ++ (toBE 2 peaks.length ++ (peaks.flatMap FixedBytes.val
      ++ (toBE 2 peakPosition ++ (toBE 8 mmrSize ++ (root.val ++ rest)))))) := by
    rw [hdata, List.drop_left' rfl]
    simp only [tailBytes, List.append_assoc]
  have hcount := u16At_of_drop hpath hdrop
  have hdrop2 : data.drop (pre.length + 2) = pathBytes path ds ++ (toBE 2 peaks.length
      ++ (peaks.flatMap FixedBytes.val ++ (toBE 2 peakPosition ++ (toBE 8 mmrSize
      ++ (root.val ++ rest))))) := by
    rw [← List.drop_drop, hdrop, List.drop_left' (length_toBE _ _)]
  have hpeaksOffset : peaksOffset data pre.length = pre.length + 2 + 33 * path.length := by
    rw [peaksOffset, hcount]
  have hdrop3 : data.drop (peaksOffset data pre.length) = toBE 2 peaks.length
      ++ (peaks.flatMap FixedBytes.val ++ (toBE 2 peakPosition ++ (toBE 8 mmrSize
      ++ (root.val ++ rest)))) := by
    rw [hpeaksOffset, ← List.drop_drop, hdrop2, List.drop_left' (length_pathBytes hds)]
  have hcount3 := u16At_of_drop hpeaks hdrop3
  have hpeaksLen : (peaks.flatMap FixedBytes.val).length = peaks.length * 32 :=
    length_flatMap_records FixedBytes.length_val _
  have hroot : root.val.length = 32 := root.length_val
  have hpathLen := length_pathBytes hds
  refine ⟨hcount, ?_, ?_⟩
  · rw [endOffset, positionOffset, hcount3, hpeaksOffset, hdata]
    simp only [tailBytes, List.length_append, length_toBE, hpathLen, hpeaksLen, hroot]
    omega
  · rw [hcount, hdrop2, directions_pathBytes hds]

theorem eq_encoding_iff :
    pre ++ tailBytes path (path.map directionByte) peaks peakPosition mmrSize root = data
      ↔ Canonical data pre.length := by
  obtain ⟨hcount, hend, hdirections⟩ := endOffset_eq hdata hds hpath hpeaks
  have hlen : (pathBytes path (path.map directionByte)).length = (pathBytes path ds).length := by
    rw [length_pathBytes hds, pathBytes_directionByte,
      length_flatMap_records length_encodeElement, Nat.mul_comm]
  constructor
  · intro heq
    have hlengths := congrArg List.length (heq.trans hdata)
    simp only [tailBytes, List.length_append, hlen] at hlengths
    have hrest : rest = [] := List.eq_nil_of_length_eq_zero (by omega)
    refine ⟨by rw [← hend, hrest]; rfl, ?_⟩
    rw [hdirections, ← eq_directionByte_iff hds]
    -- Both tails have their direction bytes at the same places.
    have htails := List.append_cancel_left (heq.trans hdata)
    rw [hrest, List.append_nil] at htails
    have hpaths := (List.append_inj (List.append_cancel_left htails) hlen).1
    have hsame := directions_pathBytes (forall₂_directionByte path) []
    rw [hpaths, directions_pathBytes hds] at hsame
    exact hsame
  · intro hcanonical
    have hrest : rest = [] := by
      have hlength := hcanonical.length_eq
      exact List.eq_nil_of_length_eq_zero (by omega)
    have hwritten := hcanonical.directions
    rw [hdirections, ← eq_directionByte_iff hds] at hwritten
    rw [hdata, hrest, List.append_nil, ← hwritten]

end Tail

end WritersProof.Mmr
