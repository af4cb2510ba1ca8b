/-
  Entries, headers, errors and limits of the write-ahead log
  (crates/cpoe/src/wal/types.rs).

  BLAKE3 and Ed25519 are parameters (`Crypto`).  A `blake3::Hasher` is the bytes
  it was fed so far: two updates are one update with both inputs.
-/
import WritersProof.Lib.Bytes

namespace WritersProof.Wal

open Rust

/-! ## Limits -/

def version : Nat := 2

/-- `b"SWAL"` -/
def magic : FixedBytes 4 := ⟨[0x53, 0x57, 0x41, 0x4c], rfl⟩

def headerSize : Nat := 64

/-- 16 MiB -/
def maxEntrySize : Nat := 16 * 1024 * 1024

def maxWalEntries : Nat := 10000000

/-- 256 MiB -/
def maxWalSize : Nat := 256 * 1024 * 1024

/-! ## Errors -/

/-- The kinds of `std::io::Error` that the source tells apart. -/
inductive IoError where
  | unexpectedEof
  | other
  deriving DecidableEq, Repr

inductive WalError where
  | invalidMagic
  | invalidVersion (version : Nat)
  | corruptedEntry
  | brokenChain
  | cumulativeMismatch
  | invalidSignature
  | timestampRegression
  | closed
  | sequenceGap
  | invalidEntryType (value : UInt8)
  | tooManyEntries (max : Nat)
  | tooLarge (size : Nat)
  | sessionMismatch
  | io (e : IoError)
  | serialization (text : String)
  | inconsistent
  | unrecoverable
  deriving DecidableEq

/-! ## Entries -/

inductive EntryType where
  | keystrokeBatch
  | documentHash
  | jitterSample
  | heartbeat
  | sessionStart
  | sessionEnd
  | checkpoint
  | pathChange
  | textFragmentInsert
  | exportEvent
  | compileStarted
  | compileFinished
  | dictationBegin
  | dictationFragment
  | dictationEnd
  deriving DecidableEq, Repr

namespace EntryType

def toByte : EntryType → UInt8
  | keystrokeBatch => 1
  | documentHash => 2
  | jitterSample => 3
  | heartbeat => 4
  | sessionStart => 5
  | sessionEnd => 6
  | checkpoint => 7
  | pathChange => 8
  | textFragmentInsert => 9
  | exportEvent => 10
  | compileStarted => 11
  | compileFinished => 12
  | dictationBegin => 13
  | dictationFragment => 14
  | dictationEnd => 15

def tryFrom (value : UInt8) : Res WalError EntryType :=
  if value = 1 then .ok keystrokeBatch
  else if value = 2 then .ok documentHash
  else if value = 3 then .ok jitterSample
  else if value = 4 then .ok heartbeat
  else if value = 5 then .ok sessionStart
  else if value = 6 then .ok sessionEnd
  else if value = 7 then .ok checkpoint
  else if value = 8 then .ok pathChange
  else if value = 9 then .ok textFragmentInsert
  else if value = 10 then .ok exportEvent
  else if value = 11 then .ok compileStarted
  else if value = 12 then .ok compileFinished
  else if value = 13 then .ok dictationBegin
  else if value = 14 then .ok dictationFragment
  else if value = 15 then .ok dictationEnd
  else fail (.invalidEntryType value)

theorem tryFrom_toByte (t : EntryType) : tryFrom t.toByte = .ok t := by
  cases t <;> rfl

theorem tryFrom_error {value : UInt8} {e : Fault WalError} (h : tryFrom value = .error e) :
    e = .err (.invalidEntryType value) := by
  unfold tryFrom at h
  iterate 15 replace h := error_of_ite_ok h
  exact (Except.error.inj h).symm

theorem toByte_of_tryFrom {value : UInt8} {t : EntryType} (h : tryFrom value = .ok t) :
    t.toByte = value := by
  unfold tryFrom at h
  iterate 15
    obtain ⟨rfl, rfl⟩ | h := ok_of_ite_ok h
    · rfl
  exact absurd h (fail_ne_ok _ _)

end EntryType

structure Header where
  magic : FixedBytes 4
  version : Nat
  sessionId : FixedBytes 32
  createdAt : Int
  lastCheckpointSeq : Nat
  reserved : FixedBytes 8
  deriving DecidableEq

/-- Single WAL entry with hash-chain linkage and signature. -/
structure Entry where
  length : Nat
  sequence : Nat
  timestamp : Int
  entryType : EntryType
  payload : Bytes
  prevHash : FixedBytes 32
  cumulativeHash : FixedBytes 32
  signature : FixedBytes 64
  deriving DecidableEq

structure Crypto (Key : Type) where
  /-- BLAKE3 of everything the hasher was fed -/
  blake3 : Bytes → FixedBytes 32
  sign : Key → FixedBytes 32 → FixedBytes 64
  /-- verification with the key's `verifying_key()` -/
  verify : Key → FixedBytes 32 → FixedBytes 64 → Bool

/-- A signature made with a key verifies with it. -/
def Crypto.Correct {Key : Type} (cr : Crypto Key) : Prop :=
  ∀ key message, cr.verify key message (cr.sign key message) = true

/-- Functions to run the log with: the last 32 bytes for a hash, and the message twice for a
    signature. -/
def Crypto.sample : Crypto Unit where
  blake3 data := Bytes.ofNat 32 (Bytes.ofBE data)
  sign _ message := ⟨message.val ++ message.val, by simp⟩
  verify _ message signature := signature.val == message.val ++ message.val

theorem Crypto.sample_correct : Crypto.sample.Correct := fun _ _ => beq_self_eq_true _

namespace Entry

variable {Key : Type}

def computeHash (cr : Crypto Key) (e : Entry) : FixedBytes 32 :=
  cr.blake3 (Bytes.toLE 8 e.sequence ++ Bytes.toLE 8 (Bytes.ofInt 8 e.timestamp)
    ++ [e.entryType.toByte] ++ e.payload ++ e.prevHash.val)

/-- The fields are in the range of their machine types. -/
structure Fits (e : Entry) : Prop where
  sequence : e.sequence < 2 ^ 64
  timestamp_ge : -(2 ^ 63) ≤ e.timestamp
  timestamp_lt : e.timestamp < 2 ^ 63
  payload : e.payload.length < 2 ^ 32

end Entry

/-! ## Results -/

/-- Result returned by `Wal::recover`. -/
structure WalRecoveryReport where
  lostCount : Nat
  truncatedAtSequence : Nat
  recoveredAt : Int

/-- Result of a full WAL integrity verification pass. -/
structure WalVerification where
  valid : Bool
  entries : Nat
  finalHash : FixedBytes 32
  error : Option WalError

end WritersProof.Wal
