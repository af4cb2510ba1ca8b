/-
  WritersProof.C2pa.Types

  C2PA manifests of the protocol crate
  (crates/authorproof-protocol/src/c2pa/types.rs, c2pa/mod.rs) and the CBOR form of the
  parts that the claim and the hash binding are made of.

  SHA-256 over data with byte ranges zeroed
  (`hash_with_exclusions`, crates/authorproof-protocol/src/c2pa/embed.rs).
-/
import WritersProof.Protocol.Cose
import WritersProof.Lib.SortByKey

namespace WritersProof.C2pa

open Rust Protocol

def ASSERTION_LABEL_ACTIONS : String := "c2pa.actions.v2"

def ASSERTION_LABEL_HASH_DATA : String := "c2pa.hash.data"

/-! ## Claims -/

structure ClaimGeneratorInfo where
  name : String
  version : Option String
  specVersion : Option String

/-- An entry of a map for a field that is left out when there is none. -/
def optional (key : String) (value : Option String) : List (Cbor × Cbor) :=
  (value.map fun s => (Cbor.text key, Cbor.text s)).toList

def ClaimGeneratorInfo.toCbor (info : ClaimGeneratorInfo) : Cbor :=
  .map ((.text "name", .text info.name)
    :: (optional "version" info.version ++ optional "specVersion" info.specVersion))

/-- The hash is over a superbox without its 8-byte header. -/
structure HashedUri where
  url : String
  hash : Bytes
  alg : Option String

def HashedUri.toCbor (uri : HashedUri) : Cbor :=
  .map ([(.text "url", .text uri.url), (.text "hash", .bytes uri.hash)] ++ optional "alg" uri.alg)

structure C2paClaim where
  claimGeneratorInfo : ClaimGeneratorInfo
  instanceId : String
  signature : String
  alg : Option String
  createdAssertions : List HashedUri

def C2paClaim.toCbor (claim : C2paClaim) : Cbor :=
  .map ([(.text "claim_generator_info", claim.claimGeneratorInfo.toCbor),
      (.text "instanceID", .text claim.instanceId), (.text "signature", .text claim.signature)]
    ++ optional "alg" claim.alg
    ++ [(.text "created_assertions", .array (claim.createdAssertions.map HashedUri.toCbor))])

/-- The claim as it was signed stands next to what it says. -/
structure C2paManifest where
  claim : C2paClaim
  claimCbor : Bytes
  manifestLabel : String
  assertionBoxes : List Bytes
  signature : Bytes

/-! ## Hash binding -/

structure ExclusionRange where
  start : UInt64
  length : UInt64

def ExclusionRange.toCbor (range : ExclusionRange) : Cbor :=
  .map [(.text "start", .uint range.start), (.text "length", .uint range.length)]

structure HashDataAssertion where
  name : String
  hash : Bytes
  algorithm : String
  exclusions : List ExclusionRange
  pad : Bytes

def HashDataAssertion.toCbor (assertion : HashDataAssertion) : Cbor :=
  .map ([(.text "name", .text assertion.name), (.text "hash", .bytes assertion.hash),
      (.text "alg", .text assertion.algorithm)]
    ++ (if assertion.exclusions = [] then []
        else [(.text "exclusions", .array (assertion.exclusions.map ExclusionRange.toCbor))])
    ++ [(.text "pad", .bytes assertion.pad)])

/-! ## Signatures -/

/-- COSE algorithm identifiers, by what the verifier tells apart. -/
inductive Algorithm where
  | edDSA
  | es256
  | other (debug : String)

inductive Label where
  | int (n : Int)
  | text (s : String)
  deriving DecidableEq

/-- A header value: the certificate chain must be a byte string. -/
inductive HeaderValue where
  | bytes (bs : Bytes)
  | other

structure Header where
  alg : Option Algorithm
  rest : List (Label × HeaderValue)

/-- A parsed COSE_Sign1 with its protected header, as it was received and as it reads. -/
structure Sign1 extends CoseSign1 where
  header : Header

/-- The label of the certificate chain (RFC 9360). -/
def X5CHAIN : Label := .int 33

/-- The crates that manifests rest on besides those of evidence packets. -/
structure Crates extends Protocol.Crates where
  sha384 : Bytes → FixedBytes 48
  sha512 : Bytes → FixedBytes 64
  P256Key : Type
  /-- `P256VerifyingKey::from_sec1_bytes` -/
  p256FromSec1 : Bytes → Except String P256Key
  p256Verify : P256Key → Bytes → Bytes → Except String Unit
  /-- Algorithm and raw public key in the certificate that `Certificate::from_der` reads -/
  certPublicKey : Bytes → Except String (String × Bytes)
  /-- `coset::CoseSign1::from_slice` -/
  parseSign1 : Bytes → Except String Sign1
  /-- `ciborium::from_reader` of a claim -/
  claimReader : Bytes → Except String C2paClaim
  /-- `ciborium::from_reader` of a hash binding -/
  hashDataReader : Bytes → Except String HashDataAssertion

open Rust

/-- A byte range of `usize` bounds. -/
structure HashExclusion where
  start : Nat
  length : Nat

/-- The part of a range inside the data, if it starts there and ends in the address space. -/
def HashExclusion.within (len : Nat) (e : HashExclusion) : Option (Nat × Nat) :=
  match checkedAdd e.start e.length with
  | none => none
  | some stop => if e.start < len then some (e.start, min stop len) else none

/-- What the hasher is fed: the data, with zeros for the ranges; `pos` is how far it got. -/
def feed (data : Bytes) : Nat → List (Nat × Nat) → Bytes
  | pos, [] => data.drop pos
  | pos, (start, stop) :: ranges =>
    (data.take start).drop pos ++ List.replicate (stop - max start pos) 0
      ++ feed data (max stop pos) ranges

def zeroed (data : Bytes) (exclusions : List HashExclusion) : Bytes :=
  feed data 0 ((exclusions.filterMap (HashExclusion.within data.length)).insertionSort
    fun a b => a.1 ≤ b.1)

def hashWithExclusions (C : Crates) (data : Bytes) (exclusions : List HashExclusion) :
    FixedBytes 32 :=
  if exclusions = [] then C.sha256 data else C.sha256 (zeroed data exclusions)

variable {data : Bytes} {start length : Nat}

/-- One range: everything else is hashed as it is. -/
theorem zeroed_singleton (hstart : start < data.length) (hmax : start + length < 2 ^ 64) :
    zeroed data [⟨start, length⟩]
      = data.take start ++ List.replicate (min (start + length) data.length - start) 0
        ++ data.drop (start + length) := by
  have hwithin : HashExclusion.within data.length ⟨start, length⟩
      = some (start, min (start + length) data.length) := by
    rw [HashExclusion.within, checkedAdd_eq_some hmax]
    exact if_pos hstart
  rw [zeroed, List.filterMap_cons, hwithin]
  simp only [List.filterMap_nil, List.insertionSort_cons, List.insertionSort_nil,
    List.orderedInsert_nil, feed, List.drop_zero, Nat.max_zero]
  congr 1
  by_cases hle : start + length ≤ data.length
  · rw [Nat.min_eq_left hle]
  · rw [Nat.min_eq_right (by omega), List.drop_of_length_le (Nat.le_refl _),
      List.drop_of_length_le (by omega)]

theorem zeroed_singleton_of_le (hstart : data.length ≤ start) :
    zeroed data [⟨start, length⟩] = data := by
  have hwithin : HashExclusion.within data.length ⟨start, length⟩ = none := by
    rw [HashExclusion.within]
    split
    · rfl
    · exact if_neg (Nat.not_lt.mpr hstart)
  rw [zeroed, List.filterMap_cons, hwithin]
  exact List.drop_zero

theorem hashWithExclusions_singleton (C : Crates) (data : Bytes) (e : HashExclusion) :
    hashWithExclusions C data [e] = C.sha256 (zeroed data [e]) := if_neg (List.cons_ne_nil _ _)

theorem zeroed_append (front range : Bytes) (hpos : 0 < range.length)
    (hmax : front.length + range.length < 2 ^ 64) :
    zeroed (front ++ range) [⟨front.length, range.length⟩]
      = front ++ List.replicate range.length 0 := by
  rw [zeroed_singleton (by rw [List.length_append]; omega) hmax, List.length_append, Nat.min_self,
    List.take_left, Nat.add_sub_cancel_left, List.drop_of_length_le (by rw [List.length_append]),
    List.append_nil]

theorem eq_append_of_zeroed {front : Bytes} (hpos : 0 < length)
    (hmax : front.length + length < 2 ^ 64)
    (h : zeroed data [⟨front.length, length⟩] = front ++ List.replicate length 0) :
    ∃ range, data = front ++ range ∧ range.length = length := by
  by_cases hstart : front.length < data.length
  · rw [zeroed_singleton hstart hmax] at h
    have hlen := congrArg List.length h
    simp only [List.length_append, List.length_take, List.length_replicate,
      List.length_drop] at hlen
    have hfront : data.take front.length = front := by
      rw [List.append_assoc] at h
      have htake := congrArg (List.take front.length) h
      rw [List.take_left' (by rw [List.length_take]; omega), List.take_left] at htake
      exact htake
    refine ⟨data.drop front.length, ?_, ?_⟩
    · conv_lhs => rw [← List.take_append_drop front.length data, hfront]
    · rw [List.length_drop]
      omega
  · rw [zeroed_singleton_of_le (by omega)] at h
    have hlen := congrArg List.length h
    rw [List.length_append, List.length_replicate] at hlen
    omega

end WritersProof.C2pa
