/-
  Inclusion proofs: verification and the versioned binary format
  (crates/cpoe/src/mmr/proof.rs).
-/
import WritersProof.Mmr.Mmr
import WritersProof.Lib.Reader

namespace WritersProof.Mmr

open Rust Reader Bytes

def proofVersion : UInt8 := 1

def proofTypeInclusion : UInt8 := 0x01

/-- Single sibling hash in a Merkle proof path. -/
structure ProofElement (H : Type) where
  hash : H
  isLeft : Bool
  deriving DecidableEq

/-- Proof that a single leaf is included in the MMR. -/
structure InclusionProof (H : Type) where
  leafIndex : Nat
  leafHash : H
  merklePath : List (ProofElement H)
  peaks : List H
  peakPosition : Nat
  mmrSize : Nat
  root : H
  deriving DecidableEq

/-- The last part of both `verify` functions: the peaks bag to the root. -/
def checkRoot {H : Type} [DecidableEq H] (hs : NodeHasher H) (peaks : List H) (root : H) :
    Res MmrError Unit :=
  match peaks with
  | [] => abort  -- `peaks.len() - 1`
  | [peak] => if peak ≠ root then fail .invalidProof else .ok ()
  | peak :: rest =>
    if bagPeaks hs (peak :: rest) ((peak :: rest).getLast (by simp)) ≠ root then fail .invalidProof
    else .ok ()

namespace InclusionProof

section Verify

variable {H : Type}

def foldPath (hs : NodeHasher H) : (height : Nat) → (current : H) → List (ProofElement H) → H
  | _, current, [] => current
  | height, current, elem :: path =>
    foldPath hs (min (height + 1) 255)
      (if elem.isLeft then hs.hashInternal height elem.hash current
        else hs.hashInternal height current elem.hash)
      path

def verify [DecidableEq H] (hs : NodeHasher H) (proof : InclusionProof H) (leafData : Bytes) :
    Res MmrError Unit :=
  if hs.hashLeaf proof.leafIndex leafData ≠ proof.leafHash then fail .hashMismatch
  else
    let current := foldPath hs 1 proof.leafHash proof.merklePath
    match proof.peaks[proof.peakPosition]? with
    | none => fail .invalidProof
    | some peak =>
      if current ≠ peak then fail .invalidProof else checkRoot hs proof.peaks proof.root

end Verify

/-! ## Binary format -/

/-- `u16::try_from(len).map_err(|_| ProofTooLarge)` -/
def tryU16 (len : Nat) : Res MmrError Nat := if len < 2 ^ 16 then .ok len else fail .proofTooLarge

def encodeElement (elem : ProofElement Hash32) : Bytes :=
  elem.hash.val ++ [if elem.isLeft then 1 else 0]

def serialize (proof : InclusionProof Hash32) : Res MmrError Bytes := do
  let pathLen ← tryU16 proof.merklePath.length
  let peaksLen ← tryU16 proof.peaks.length
  let peakPos ← tryU16 proof.peakPosition
  .ok ([proofVersion] ++ [proofTypeInclusion] ++ toBE 8 proof.leafIndex ++ proof.leafHash.val
    ++ toBE 2 pathLen ++ proof.merklePath.flatMap encodeElement
    ++ toBE 2 peaksLen ++ proof.peaks.flatMap FixedBytes.val
    ++ toBE 2 peakPos ++ toBE 8 proof.mmrSize ++ proof.root.val)

def readElement : Reader MmrError (ProofElement Hash32) := do
  need 33 .invalidNodeData
  let hash ← fixed hashSize
  let direction ← byte
  pure ⟨hash, direction == 1⟩

def readPeak : Reader MmrError Hash32 := do
  need 32 .invalidNodeData
  fixed hashSize

/-- `deserialize` after the check of the minimal length. -/
def reader : Reader MmrError (InclusionProof Hash32) := do
  let version ← byte
  Reader.reject (version ≠ proofVersion) .invalidProof
  let proofType ← byte
  Reader.reject (proofType ≠ proofTypeInclusion) .invalidProof
  let leafIndex ← be 8
  let leafHash ← fixed hashSize
  let pathLen ← be 2
  need (pathLen * 33) .invalidNodeData
  let merklePath ← times readElement pathLen
  need 2 .invalidNodeData
  let peaksLen ← be 2
  let peaks ← times readPeak peaksLen
  need 2 .invalidNodeData
  let peakPosition ← be 2
  Reader.reject (peaks = [] ∨ peaks.length ≤ peakPosition) .invalidProof
  need (8 + 32) .invalidNodeData
  let mmrSize ← be 8
  let root ← fixed hashSize
  pure { leafIndex, leafHash, merklePath, peaks, peakPosition, mmrSize, root }

def deserialize (data : Bytes) : Res MmrError (InclusionProof Hash32) :=
  if data.length < 86 then fail .invalidNodeData else run reader data

/-- The fields are in the range of the encoded integers. -/
structure Fits (proof : InclusionProof Hash32) : Prop where
  leafIndex_lt : proof.leafIndex < 2 ^ 64
  path_lt : proof.merklePath.length < 2 ^ 16
  peaks_lt : proof.peaks.length < 2 ^ 16
  position_lt : proof.peakPosition < proof.peaks.length
  size_lt : proof.mmrSize < 2 ^ 64

def encoding (proof : InclusionProof Hash32) : Bytes :=
  [proofVersion] ++ ([proofTypeInclusion] ++ (toBE 8 proof.leafIndex ++ (proof.leafHash.val
    ++ (toBE 2 proof.merklePath.length ++ (proof.merklePath.flatMap encodeElement
    ++ (toBE 2 proof.peaks.length ++ (proof.peaks.flatMap FixedBytes.val
    ++ (toBE 2 proof.peakPosition ++ (toBE 8 proof.mmrSize ++ proof.root.val)))))))))

variable {proof : InclusionProof Hash32}

theorem serialize_eq (h : proof.Fits) : proof.serialize = .ok proof.encoding := by
  have hpos : proof.peakPosition < 2 ^ 16 := Nat.lt_trans h.position_lt h.peaks_lt
  rw [serialize, tryU16, if_pos h.path_lt, tryU16, if_pos h.peaks_lt, tryU16, if_pos hpos]
  simp only [res_ok_bind, encoding, List.append_assoc]

theorem length_encodeElement (elem : ProofElement Hash32) : (encodeElement elem).length = 33 := by
  simp [encodeElement, hashSize]

theorem reads_element (elem : ProofElement Hash32) :
    Reader.Reads readElement (encodeElement elem) elem := by
  obtain ⟨hash, isLeft⟩ := elem
  let finish (hash : Hash32) (direction : UInt8) : Reader MmrError (ProofElement Hash32) :=
    pure ⟨hash, direction == 1⟩
  have hpure : Reader.Reads (finish hash (if isLeft then 1 else 0)) [] ⟨hash, isLeft⟩ := by
    cases isLeft
    · exact reads_pure _
    · exact reads_pure _
  have hflag := (reads_byte (if isLeft then 1 else 0)).bind (f := finish hash) hpure
  have hboth := (reads_fixed hash).bind (f := fun hash => byte >>= finish hash) hflag
  rw [List.append_nil] at hboth
  refine Reader.Reads.need hboth (Nat.le_of_eq ?_)
  rw [length_encodeElement]

theorem reads_peak (peak : Hash32) : Reader.Reads readPeak peak.val peak := by
  refine Reader.Reads.need (f := fun _ => fixed hashSize) (reads_fixed peak) ?_
  simp [hashSize]

theorem reads_encoding (h : proof.Fits) : Reader.Reads reader proof.encoding proof := by
  have hpos : proof.peakPosition < 2 ^ 16 := Nat.lt_trans h.position_lt h.peaks_lt
  have hroot : Reader.Reads (fixed (ε := MmrError) hashSize >>= fun root => pure
      { proof with root := root }) proof.root.val proof := by
    have := (reads_fixed (ε := MmrError) proof.root).bind
      (f := fun root => pure { proof with root := root }) (reads_pure proof)
    rwa [List.append_nil] at this
  unfold reader encoding
  refine (reads_byte _).bind (Reader.Reads.reject ?_ (by simp))
  refine (reads_byte _).bind (Reader.Reads.reject ?_ (by simp))
  refine (reads_be h.leafIndex_lt).bind ((reads_fixed _).bind ?_)
  refine (reads_be h.path_lt).bind (Reader.Reads.need ?_ ?_)
  · refine (reads_times reads_element _).bind (Reader.Reads.need ?_ (by simp))
    refine (reads_be h.peaks_lt).bind ?_
    refine (reads_times reads_peak _).bind (Reader.Reads.need ?_ (by simp))
    refine (reads_be hpos).bind (Reader.Reads.reject (Reader.Reads.need ?_ ?_) ?_)
    · exact (reads_be h.size_lt).bind hroot
    · simp [hashSize]
    · have := h.position_lt
      rintro (hnil | hle)
      · rw [hnil] at this
        exact Nat.not_lt_zero _ this
      · omega
  · rw [List.length_append, length_flatMap_records length_encodeElement]
    omega

theorem deserialize_encoding (h : proof.Fits) : deserialize proof.encoding = .ok proof := by
  have hpeaks : (proof.peaks.flatMap FixedBytes.val).length = proof.peaks.length * hashSize :=
    length_flatMap_records FixedBytes.length_val proof.peaks
  have hlen : ¬ proof.encoding.length < 86 := by
    have hone := h.position_lt
    simp only [encoding, List.length_append, List.length_singleton, length_toBE,
      FixedBytes.length_val, hpeaks]
    simp only [hashSize]
    omega
  rw [deserialize, if_neg hlen, (reads_encoding h).run_eq]

end InclusionProof

end WritersProof.Mmr
