/-
  WritersProof.Checkpoint.Vdf

  Delay proofs, what they are computed from, and the previous hash of a first checkpoint
  (crates/cpoe/src/vdf/proof.rs, vdf/params.rs, checkpoint/chain_helpers.rs).
-/
import WritersProof.Declaration.Signing

namespace WritersProof.Checkpoint

open Rust

/-- VDF computation parameters: iteration rate and bounds. -/
structure Parameters where
  iterationsPerSecond : Nat
  minIterations : Nat
  maxIterations : Nat
  deriving DecidableEq

def defaultParameters : Parameters :=
  { iterationsPerSecond := 1000000, minIterations := 100000, maxIterations := 3600000000 }

section Defs

variable (sha256 : Bytes → Digest)

def computeChain (hash : Digest) : Nat → Digest
  | 0 => hash
  | n + 1 => computeChain (sha256 hash.val) n

/-- Proofs without work are rejected. -/
def VdfProof.verify (proof : VdfProof) : Bool :=
  proof.iterations ≠ 0 && computeChain sha256 proof.input proof.iterations = proof.output

def chainInput (contentHash previousHash : Digest) (ordinal : Nat) : Digest :=
  sha256 (Bytes.utf8 "cpoe-vdf-v1" ++ contentHash.val ++ previousHash.val ++ Bytes.toBE 8 ordinal)

def chainInputEntangled (previousVdfOutput jitterHash contentHash : Digest) (ordinal : Nat) :
    Digest :=
  sha256 (Bytes.utf8 "cpoe-vdf-entangled-v1" ++ previousVdfOutput.val ++ jitterHash.val
    ++ contentHash.val ++ Bytes.toBE 8 ordinal)

def mixPhysicsSeed (baseInput : Digest) : Option Digest → Digest
  | some seed => sha256 (Bytes.utf8 "witnessd-physics-mix-v1" ++ baseInput.val ++ seed.val)
  | none => baseInput

end Defs

def VdfProof.minElapsedTime {ε : Type} (proof : VdfProof) (params : Parameters) : Res ε Nat :=
  if params.iterationsPerSecond = 0 then .ok 0
  else
    Binary64.durationFromSecs (Binary64.div (Binary64.ofNat proof.iterations)
      (Binary64.ofNat params.iterationsPerSecond))

/-! ## Genesis -/

/-- What a first checkpoint says of its document.  It is never salted. -/
structure DocumentRef where
  contentHash : Digest
  filename : Option String
  byteLength : Nat
  charCount : Nat

/-- `Path::new(path).file_name()`: the last component, unless that is `..` -/
def fileName (path : String) : Option String :=
  let components := (path.toList.splitOn (Char.ofNat 47)).filter fun part =>
    part ≠ [] && part ≠ [Char.ofNat 46]
  match components.getLast? with
  | some part => if part = [Char.ofNat 46, Char.ofNat 46] then none else some (String.ofList part)
  | none => none

def genesisPrevHash (sha256 : Bytes → Digest) (encode : DocumentRef → Except String Bytes)
    (contentHash : Digest) (contentSize : Nat) (documentPath : String) : Res Error Digest := do
  let docRef : DocumentRef :=
    { contentHash, filename := fileName documentPath, byteLength := contentSize
      charCount := contentSize }
  let cborBytes ← mapErr (encode docRef) fun e => .checkpoint ("genesis CBOR encode: " ++ e)
  .ok (sha256 (Bytes.utf8 "witnessd-genesis-v1" ++ cborBytes))

end WritersProof.Checkpoint
