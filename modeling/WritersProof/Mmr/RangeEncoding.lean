/-
  The binary format of range proofs (crates/cpoe/src/mmr/proof.rs).

  From the number of path elements on it is the format of inclusion proofs; before it stand
  the bounds of the range and a list of indices and one of hashes, of one length.
-/
import WritersProof.Mmr.Prover
import WritersProof.Mmr.Layout

namespace WritersProof.Mmr

open Rust InclusionProof Reader Bytes FixedBytes

def proofTypeRange : UInt8 := 0x02

namespace RangeProof

/-! ## Serialization -/

variable (proof : RangeProof Hash32)

def written (leavesLen pathLen peaksLen peakPos : Nat) : Bytes :=
  [proofVersion] ++ ([proofTypeRange] ++ (toBE 8 proof.startLeaf
    ++ (toBE 8 proof.endLeaf ++ (toBE 2 leavesLen
    ++ (proof.leafIndices.flatMap (toBE 8) ++ (proof.leafHashes.flatMap val
    ++ (toBE 2 pathLen ++ (proof.siblingPath.flatMap encodeElement
    ++ (toBE 2 peaksLen ++ (proof.peaks.flatMap val
    ++ (toBE 2 peakPos ++ (toBE 8 proof.mmrSize ++ proof.root.val))))))))))))

def serialize : Res MmrError Bytes := do
  let leavesLen ← tryU16 proof.leafHashes.length
  let pathLen ← tryU16 proof.siblingPath.length
  let peaksLen ← tryU16 proof.peaks.length
  let peakPos ← tryU16 proof.peakPosition
  let total := 1 + 1 + 8 + 8 + 2 + proof.leafHashes.length * 8 + proof.leafHashes.length * 32 + 2
    + proof.siblingPath.length * 33 + 2 + proof.peaks.length * 32 + 2 + 8 + 32
  let bytes := proof.written leavesLen pathLen peaksLen peakPos
  -- The buffer has room for as many indices as there are hashes; zeros are left of missing ones.
  if total < bytes.length then abort
  else .ok (bytes ++ List.replicate (total - bytes.length) 0)

/-! ## Deserialization -/

def readIndex : Reader MmrError Nat := do
  need 8 .invalidNodeData
  be 8

/-- What is read before the checks on the range -/
structure Lists where
  startLeaf : Nat
  endLeaf : Nat
  leafIndices : List Nat
  leafHashes : List Hash32
  siblingPath : List (ProofElement Hash32)
  peaks : List Hash32
  peakPosition : Nat

def readLists : Reader MmrError Lists := do
  let version ← byte
  Reader.reject (version ≠ proofVersion) .invalidProof
  let proofType ← byte
  Reader.reject (proofType ≠ proofTypeRange) .invalidProof
  let startLeaf ← be 8
  let endLeaf ← be 8
  let leavesLen ← be 2
  let leafIndices ← times readIndex leavesLen
  let leafHashes ← times readPeak leavesLen
  need 2 .invalidNodeData
  let pathLen ← be 2
  let siblingPath ← times readElement pathLen
  need 2 .invalidNodeData
  let peaksLen ← be 2
  let peaks ← times readPeak peaksLen
  need 2 .invalidNodeData
  let peakPosition ← be 2
  Reader.reject (peaks = [] ∨ peaks.length ≤ peakPosition) .invalidProof
  pure { startLeaf, endLeaf, leafIndices, leafHashes, siblingPath, peaks, peakPosition }

/-- The leaf count has to match the indices, the hashes and the declared range. -/
def readRest (lists : Lists) : Reader MmrError (RangeProof Hash32) := do
  Reader.reject (lists.leafIndices.length ≠ lists.leafHashes.length) .invalidProof
  Reader.reject (lists.endLeaf < lists.startLeaf) .invalidProof
  -- `end_leaf - start_leaf + 1`
  let expectedCount ← lift (unwrap (checkedAdd (lists.endLeaf - lists.startLeaf) 1))
  Reader.reject (lists.leafIndices.length ≠ expectedCount) .invalidProof
  need (8 + 32) .invalidNodeData
  let mmrSize ← be 8
  let root ← fixed hashSize
  pure
    { startLeaf := lists.startLeaf, endLeaf := lists.endLeaf, leafIndices := lists.leafIndices
      leafHashes := lists.leafHashes, siblingPath := lists.siblingPath, peaks := lists.peaks
      peakPosition := lists.peakPosition, mmrSize, root }

def deserialize (data : Bytes) : Res MmrError (RangeProof Hash32) :=
  if data.length < 1 + 1 + 8 + 8 + 2 + 2 + 2 + 8 + 32 then fail .invalidNodeData
  else run (readLists >>= readRest) data

/-! ## Round trip -/

/-- The fields are in the range of the encoded integers, and the leaves are those of the range. -/
structure Fits (proof : RangeProof Hash32) : Prop where
  end_lt : proof.endLeaf < 2 ^ 64
  indices_lt : ∀ index ∈ proof.leafIndices, index < 2 ^ 64
  hashes_lt : proof.leafHashes.length < 2 ^ 16
  path_lt : proof.siblingPath.length < 2 ^ 16
  peaks_lt : proof.peaks.length < 2 ^ 16
  position_lt : proof.peakPosition < proof.peaks.length
  size_lt : proof.mmrSize < 2 ^ 64
  range : proof.startLeaf ≤ proof.endLeaf
  indices_eq : proof.leafIndices.length = proof.endLeaf - proof.startLeaf + 1
  hashes_eq : proof.leafHashes.length = proof.endLeaf - proof.startLeaf + 1

def encoding : Bytes :=
  proof.written proof.leafHashes.length proof.siblingPath.length proof.peaks.length
    proof.peakPosition

theorem length_encoding :
    proof.encoding.length = 66 + proof.leafIndices.length * 8 + proof.leafHashes.length * 32
      + proof.siblingPath.length * 33 + proof.peaks.length * 32 := by
  have hindices : (proof.leafIndices.flatMap (toBE 8)).length
      = proof.leafIndices.length * 8 := length_flatMap_records (length_toBE 8) _
  have hhashes : (proof.leafHashes.flatMap val).length = proof.leafHashes.length * 32 :=
    length_flatMap_records length_val _
  have hpath : (proof.siblingPath.flatMap encodeElement).length = proof.siblingPath.length * 33 :=
    length_flatMap_records length_encodeElement _
  have hpeaks : (proof.peaks.flatMap val).length = proof.peaks.length * 32 :=
    length_flatMap_records length_val _
  have hroot : proof.root.val.length = 32 := proof.root.length_val
  simp only [encoding, written, List.length_append, List.length_singleton, length_toBE,
    hindices, hhashes, hpath, hpeaks, hroot]
  omega

variable {proof : RangeProof Hash32}

theorem serialize_eq (h : proof.Fits) : proof.serialize = .ok proof.encoding := by
  have hpos : proof.peakPosition < 2 ^ 16 := Nat.lt_trans h.position_lt h.peaks_lt
  have hlen := length_encoding proof
  have hcount := h.indices_eq.trans h.hashes_eq.symm
  rw [serialize, tryU16, if_pos h.hashes_lt, tryU16, if_pos h.path_lt, tryU16, if_pos h.peaks_lt,
    tryU16, if_pos hpos]
  simp only [res_ok_bind]
  show (if _ < proof.encoding.length then abort
    else .ok (proof.encoding ++ List.replicate (_ - proof.encoding.length) 0)) = _
  rw [if_neg (by omega), Nat.sub_eq_zero_of_le (by omega), List.replicate_zero, List.append_nil]

theorem reads_index {index : Nat} (h : index < 2 ^ 64) :
    Reader.Reads readIndex (toBE 8 index) index := by
  refine Reader.Reads.need (f := fun _ => be 8) (reads_be h) ?_
  rw [length_toBE]

/-- The bytes before the number of path elements -/
def rangeBytes (lists : Lists) : Bytes :=
  [proofVersion] ++ ([proofTypeRange] ++ (toBE 8 lists.startLeaf
    ++ (toBE 8 lists.endLeaf ++ (toBE 2 lists.leafHashes.length
    ++ (lists.leafIndices.flatMap (toBE 8) ++ lists.leafHashes.flatMap val)))))

def listsBytes (lists : Lists) (ds : Bytes) : Bytes :=
  rangeBytes lists ++ (toBE 2 lists.siblingPath.length ++ (pathBytes lists.siblingPath ds
    ++ (toBE 2 lists.peaks.length ++ (lists.peaks.flatMap val
    ++ toBE 2 lists.peakPosition))))

/-- The lists are in the range of the encoded integers and pass the check on the peaks. -/
structure Lists.Fits (lists : Lists) : Prop where
  start_lt : lists.startLeaf < 2 ^ 64
  end_lt : lists.endLeaf < 2 ^ 64
  indices_lt : ∀ index ∈ lists.leafIndices, index < 2 ^ 64
  indices_eq : lists.leafIndices.length = lists.leafHashes.length
  hashes_lt : lists.leafHashes.length < 2 ^ 16
  path_lt : lists.siblingPath.length < 2 ^ 16
  peaks_lt : lists.peaks.length < 2 ^ 16
  position_lt : lists.peakPosition < lists.peaks.length

def lists (proof : RangeProof Hash32) : Lists :=
  ⟨proof.startLeaf, proof.endLeaf, proof.leafIndices, proof.leafHashes, proof.siblingPath,
    proof.peaks, proof.peakPosition⟩

theorem encoding_eq (proof : RangeProof Hash32) :
    proof.encoding = listsBytes proof.lists (proof.siblingPath.map directionByte)
      ++ (toBE 8 proof.mmrSize ++ proof.root.val) := by
  simp only [encoding, written, listsBytes, rangeBytes, lists, pathBytes_directionByte,
    List.append_assoc]

theorem Fits.lists (h : proof.Fits) : proof.lists.Fits where
  start_lt := Nat.lt_of_le_of_lt h.range h.end_lt
  end_lt := h.end_lt
  indices_lt := h.indices_lt
  indices_eq := h.indices_eq.trans h.hashes_eq.symm
  hashes_lt := h.hashes_lt
  path_lt := h.path_lt
  peaks_lt := h.peaks_lt
  position_lt := h.position_lt

theorem reads_lists {lists : Lists} (h : lists.Fits) {ds : Bytes}
    (hds : List.Forall₂ Directed lists.siblingPath ds) :
    Reader.Reads readLists (listsBytes lists ds) lists := by
  have hpos : lists.peakPosition < 2 ^ 16 := Nat.lt_trans h.position_lt h.peaks_lt
  have hcheck : ¬ (lists.peaks = [] ∨ lists.peaks.length ≤ lists.peakPosition) := by
    rintro (hnil | hle)
    · have hlt := h.position_lt
      rw [hnil] at hlt
      exact Nat.not_lt_zero _ hlt
    · exact Nat.not_lt.mpr hle h.position_lt
  -- The last field is followed by a check alone.
  let last (peakPosition : Nat) : Reader MmrError Lists := do
    Reader.reject (lists.peaks = [] ∨ lists.peaks.length ≤ peakPosition) .invalidProof
    pure { lists with peakPosition }
  have hlast : Reader.Reads (be 2 >>= last) (toBE 2 lists.peakPosition) lists := by
    have hread := (reads_be (ε := MmrError) (w := 2) hpos).bind (f := last)
      (Reader.Reads.reject (reads_pure lists) hcheck)
    rwa [List.append_nil] at hread
  have hindices : Reader.Reads (times readIndex lists.leafHashes.length)
      (lists.leafIndices.flatMap (toBE 8)) lists.leafIndices := by
    rw [← h.indices_eq]
    exact reads_times_of_mem fun index hmem => reads_index (h.indices_lt index hmem)
  unfold readLists listsBytes
  simp only [rangeBytes, List.append_assoc]
  refine (reads_byte _).bind (Reader.Reads.reject ?_ (by simp))
  refine (reads_byte _).bind (Reader.Reads.reject ?_ (by simp))
  refine (reads_be h.start_lt).bind ((reads_be h.end_lt).bind ?_)
  refine (reads_be h.hashes_lt).bind ?_
  refine hindices.bind ((reads_times reads_peak _).bind ?_)
  refine Reader.Reads.need ((reads_be h.path_lt).bind ?_) (by simp)
  refine (reads_path hds).bind (Reader.Reads.need ?_ (by simp))
  refine (reads_be h.peaks_lt).bind ((reads_times reads_peak _).bind ?_)
  exact Reader.Reads.need hlast (by simp)

theorem reads_rest (h : proof.Fits) :
    Reader.Reads (readRest proof.lists) (toBE 8 proof.mmrSize ++ proof.root.val) proof := by
  have hroot : Reader.Reads (fixed (ε := MmrError) hashSize >>= fun root => pure
      { proof with root := root }) proof.root.val proof := by
    have hread := (reads_fixed (ε := MmrError) proof.root).bind
      (f := fun root => pure { proof with root := root }) (reads_pure proof)
    rwa [List.append_nil] at hread
  have hcount : Reader.Reads (lift (ε := MmrError) (unwrap (checkedAdd
      (proof.endLeaf - proof.startLeaf) 1))) [] (proof.endLeaf - proof.startLeaf + 1) := by
    have hlt := h.hashes_lt
    rw [h.hashes_eq] at hlt
    intro pre post
    rw [lift, checkedAdd_eq_some (by omega)]
    rfl
  unfold readRest
  have hcheck : proof.leafIndices.length = proof.leafHashes.length :=
    h.indices_eq.trans h.hashes_eq.symm
  refine Reader.Reads.reject (Reader.Reads.reject ?_ (Nat.not_lt.mpr h.range)) (not_not.mpr hcheck)
  refine hcount.bind (Reader.Reads.reject ?_ (not_not.mpr h.indices_eq))
  refine Reader.Reads.need ((reads_be h.size_lt).bind hroot) ?_
  simp [hashSize]

theorem deserialize_encoding (h : proof.Fits) : deserialize proof.encoding = .ok proof := by
  have hlen := length_encoding proof
  rw [deserialize, if_neg (by omega), encoding_eq]
  exact ((reads_lists h.lists (forall₂_directionByte _)).bind (reads_rest h)).run_eq

end RangeProof

end WritersProof.Mmr
