/-
  WritersProof.SealedIdentity.Store

  The file that keeps the sealed master key, and the counters it records against rollback
  (crates/cpoe/src/sealed_identity/store.rs, types.rs).

  The state is the content of the file, if there is one.  What one call finds out from its
  surroundings (the TPM, the clock, random numbers, whether the file can be read and written)
  is a `Platform`; it may be another one at the next call.
-/
import WritersProof.KeyHierarchy.Types

namespace WritersProof.SealedIdentity

open Rust KeyHierarchy

inductive SealedIdentityError where
  | sealFailed (message : String)
  | unsealFailed (message : String)
  | rollbackDetected (current lastKnown : Nat)
  | blobCorrupted
  | keyHierarchy (e : KeyHierarchyError)
  | io
  | serialization (message : String)

/-- Persistent sealed identity blob stored on disk. -/
structure SealedBlob where
  version : Nat
  providerType : String
  deviceId : String
  sealedSeed : Bytes
  publicKey : Bytes
  fingerprint : String
  sealedAt : Int
  counterAtSeal : Option Nat
  lastKnownCounter : Option Nat
  bootCountAtSeal : Option Nat
  restartCountAtSeal : Option Nat
  /-- HMAC-SHA256 over all other fields, keyed from machine_salt. -/
  integrityHmac : Option Bytes

def sealedBlobVersion : Nat := 1

/-- `keyhierarchy::types::MasterIdentity` -/
structure MasterIdentity where
  publicKey : Digest
  fingerprint : String
  deviceId : String
  createdAt : Int
  version : Nat

structure PufProvider where
  getResponse : Puf
  deviceId : String

structure ClockInfo where
  resetCount : Nat
  restartCount : Nat

/-- The crates that the store uses.  Writing a blob as JSON cannot fail. -/
structure Crates extends Crypto where
  hmac : (key payload : Bytes) → Digest
  toVec : SealedBlob → Bytes
  toVecPretty : SealedBlob → Bytes
  fromSlice : Bytes → Except String SealedBlob

/-- What one call meets -/
structure Platform where
  hardwareBacked : Bool
  supportsSealing : Bool
  macos : Bool
  deviceId : String
  hostname : Option String
  /-- The monotonic counter in the binding for the given data -/
  bind : Bytes → Except String (Option Nat)
  sealData : (data context : Bytes) → Except String Bytes
  unsealData : Bytes → Except String Bytes
  clockInfo : Option ClockInfo
  now : Int
  /-- The two random numbers of `software_wrap` -/
  randomSalt : Except String (FixedBytes 32)
  aeadNonce : Except String (FixedBytes 12)
  /-- `store_path.exists()` of a file that is there -/
  visible : Bool
  readable : Bool
  /-- Every step of `persist_blob` up to the rename succeeds. -/
  writable : Bool

section Defs

variable (C : Crates)

/-! ## The file -/

variable (p : Platform)

/-- Derive a machine-specific salt from device_id and hostname. -/
def machineSalt : Bytes :=
  (C.sha256 (Bytes.utf8 "cpoe-machine-salt-v1" ++ Bytes.utf8 p.deviceId
    ++ match p.hostname with
      | some host => Bytes.utf8 host
      | none => [])).val

variable (blob : SealedBlob)

def hmacPayload : Bytes := C.toVec { blob with integrityHmac := none }

/-- Compute HMAC-SHA256 over the blob with `integrity_hmac` set to `None`. -/
def computeBlobHmac : Bytes :=
  (C.hmac (machineSalt C p) (hmacPayload C blob)).val

def decodeBlob (data : Bytes) : Res SealedIdentityError SealedBlob := do
  let blob ← mapErr (C.fromSlice data) .serialization
  match blob.integrityHmac with
  -- blobs written before HMAC support are accepted
  | none => .ok blob
  | some storedHmac =>
    if storedHmac = computeBlobHmac C p blob then .ok blob else fail .blobCorrupted

def loadBlob : Call (Option Bytes) SealedIdentityError SealedBlob := fun file =>
  match file with
  | none => (fail .io, file)
  | some data => (if p.readable then decodeBlob C p data else fail .io, file)

def signedBlob : SealedBlob :=
  { blob with integrityHmac := some (computeBlobHmac C p blob) }

/-- The new file takes the place of the old one at once. -/
def persistBlob : Call (Option Bytes) SealedIdentityError Unit :=
  fun file =>
    if p.writable then (.ok (), some (C.toVecPretty (signedBlob C p blob))) else (fail .io, file)

/-! ## The seed -/

def softwareWrap (seed : Bytes) : Res SealedIdentityError Bytes := do
  let randomSalt ← mapErr p.randomSalt fun e => .sealFailed ("rng: " ++ e)
  let key := C.hkdf (machineSalt C p) randomSalt.val (Bytes.utf8 "cpoe-software-wrap-v2")
  let aeadNonce ← mapErr p.aeadNonce fun e => .sealFailed ("rng: " ++ e)
  let ciphertext ← okOr (C.encrypt key aeadNonce [] seed) (.sealFailed "AEAD encrypt: aead::Error")
  .ok ([2] ++ randomSalt.val ++ aeadNonce.val ++ ciphertext)

/-- Legacy v1: XOR cipher (backward compat only). -/
def softwareUnwrapV1 (body : Bytes) : Bytes :=
  let keyMaterial := (C.sha256 (machineSalt C p ++ Bytes.utf8 "cpoe-software-wrap-v1")).val
  body.zipIdx.map fun (b, i) => b ^^^ keyMaterial.getD (i % 32) 0

def softwareUnwrapV2 (body : Bytes) : Res SealedIdentityError Bytes :=
  if body.length < 44 + 16 then fail .blobCorrupted
  else do
    let randomSalt := body.take 32
    let aeadNonce ← okOr (FixedBytes.tryFrom 12 ((body.drop 32).take 12)) .blobCorrupted
    let key := C.hkdf (machineSalt C p) randomSalt (Bytes.utf8 "cpoe-software-wrap-v2")
    okOr (C.decrypt key aeadNonce [] (body.drop 44)) .blobCorrupted

def softwareUnwrap (wrapped : Bytes) : Res SealedIdentityError Bytes :=
  match wrapped with
  | [] => fail .blobCorrupted
  | version :: body =>
    if version = 1 then .ok (softwareUnwrapV1 C p body)
    else if version = 2 then softwareUnwrapV2 C p body
    else fail .blobCorrupted

def sealSeed (seed context : Bytes) : Res SealedIdentityError Bytes :=
  if p.supportsSealing then mapErr (p.sealData seed context) .sealFailed
  else softwareWrap C p seed

def signingKeyOf (seed : Bytes) : Res SealedIdentityError Digest := do
  let seed ← okOr (FixedBytes.tryFrom 32 seed) .blobCorrupted
  if (C.ed25519.publicKey seed).val ≠ blob.publicKey then fail .blobCorrupted else .ok seed

/-! ## Unsealing -/

def Platform.counter (p : Platform) : Option Nat :=
  (p.bind (Bytes.utf8 "identity-counter-check")).toOption.join

/-- The reading that is recorded at seal time -/
def Platform.sealCounter : Option Nat :=
  (p.bind (Bytes.utf8 "identity-seal-counter")).toOption.join

/-- The blob with the reading as its last known counter, once it is in the file -/
def ratchet (current : Nat) :
    Call (Option Bytes) SealedIdentityError SealedBlob := do
  let blob := { blob with lastKnownCounter := some current }
  persistBlob C p blob
  pure blob

/-- `if let Some(recorded) = recorded { if current < recorded { return Err(..); } }` -/
def rejectRollback (current : Nat) (recorded : Option Nat) :
    Call (Option Bytes) SealedIdentityError Unit :=
  match recorded with
  | some lastKnown => Call.reject (current < lastKnown) (.rollbackDetected current lastKnown)
  | none => pure ()

/-- The anti-rollback check of `unseal_master_key` -/
def checkCounters : Call (Option Bytes) SealedIdentityError SealedBlob :=
  let bothCounters := blob.counterAtSeal.isSome ∧ blob.lastKnownCounter.isSome
  if blob.counterAtSeal.isSome ∨ blob.lastKnownCounter.isSome then
    match p.counter with
    | some current => do
      rejectRollback current blob.counterAtSeal
      rejectRollback current blob.lastKnownCounter
      ratchet C p blob current
    | none => do
      Call.reject bothCounters (.rollbackDetected 0 (blob.lastKnownCounter.getD 0))
      -- single-counter offline fallback
      pure blob
  else
    match p.counter with
    | some current => ratchet C p blob current
    | none => pure blob

def unsealMasterKey : Call (Option Bytes) SealedIdentityError Digest := do
  let blob ← loadBlob C p
  let blob ← checkCounters C p blob
  let seed ← Call.lift (if p.supportsSealing then
      mapErr (p.unsealData blob.sealedSeed) .unsealFailed
    else softwareUnwrap C p blob.sealedSeed)
  Call.lift (signingKeyOf C blob seed)

/-! ## The other operations -/

/-- Load and return the public identity (key + fingerprint) from the sealed blob. -/
def publicIdentity : Call (Option Bytes) SealedIdentityError MasterIdentity := do
  let blob ← loadBlob C p
  let publicKey ← Call.lift (okOr (FixedBytes.tryFrom 32 blob.publicKey) .blobCorrupted)
  pure ⟨publicKey, blob.fingerprint, blob.deviceId, blob.sealedAt, sealedBlobVersion⟩

def freshBlob (identity : KeyHierarchy.MasterIdentity) (sealedSeed : Bytes) :
    SealedBlob where
  version := sealedBlobVersion
  providerType :=
    if p.hardwareBacked then (if p.macos then "secure_enclave" else "tpm2") else "software"
  deviceId := p.deviceId
  sealedSeed
  publicKey := identity.publicKey.val
  fingerprint := identity.fingerprint
  sealedAt := p.now
  counterAtSeal := p.sealCounter
  lastKnownCounter := p.sealCounter
  bootCountAtSeal := p.clockInfo.map (·.resetCount)
  restartCountAtSeal := p.clockInfo.map (·.restartCount)
  integrityHmac := none

variable (puf : PufProvider)

def derivedBlob :
    Res SealedIdentityError (KeyHierarchy.MasterIdentity × SealedBlob) := do
  let identity ← mapFault (deriveMasterIdentity C.toCrypto puf.getResponse) .keyHierarchy
  let seed ← mapFault (deriveSigningKey C.toCrypto puf.getResponse) .keyHierarchy
  let sealedSeed ← sealSeed C p seed.val (Bytes.utf8 "cpoe-puf-fallback-v1")
  .ok (identity, freshBlob p identity sealedSeed)

/-- `initialize` from the re-derivation on -/
def rederive :
    Call (Option Bytes) SealedIdentityError MasterIdentity := do
  let (identity, blob) ← Call.lift (derivedBlob C p puf)
  persistBlob C p blob
  pure ⟨identity.publicKey, identity.fingerprint, puf.deviceId, p.now, 1⟩

/-- `initialize`: reuses an existing sealed blob if it can be unsealed, otherwise re-derives.
`before` is met up to the end of the unsealing, `after` from there on. -/
def initializeStore (before after : Platform) (puf : PufProvider) :
    Call (Option Bytes) SealedIdentityError MasterIdentity := do
  let stored ← Call.asks Option.isSome
  if stored ∧ before.visible then
    match ← Call.attempt (unsealMasterKey C before) with
    | .ok _ => publicIdentity C after
    | .error _ => rederive C after puf
  else rederive C after puf

/-- Ratchet counter forward to prevent forking at the same counter value. -/
def advanceCounter (newCounter : Nat) :
    Call (Option Bytes) SealedIdentityError Unit := do
  let blob ← loadBlob C p
  rejectRollback newCounter blob.lastKnownCounter
  persistBlob C p { blob with lastKnownCounter := some newCounter }

/-- The seed of a blob, derived again where the TPM does not unseal it -/
def resealSeed (blob : SealedBlob) :
    Res SealedIdentityError Bytes :=
  if p.supportsSealing then
    match p.unsealData blob.sealedSeed with
    | .ok seed => .ok seed
    | .error _ => do
      let seed ← mapFault (deriveSigningKey C.toCrypto puf.getResponse) .keyHierarchy
      .ok seed.val
  else softwareUnwrap C p blob.sealedSeed

def resealedBlob (oldBlob : SealedBlob) (sealedSeed : Bytes) : SealedBlob where
  version := sealedBlobVersion
  providerType := oldBlob.providerType
  deviceId := p.deviceId
  sealedSeed
  publicKey := oldBlob.publicKey
  fingerprint := oldBlob.fingerprint
  sealedAt := p.now
  counterAtSeal := oldBlob.lastKnownCounter
  lastKnownCounter := oldBlob.lastKnownCounter
  bootCountAtSeal := p.clockInfo.map (·.resetCount)
  restartCountAtSeal := p.clockInfo.map (·.restartCount)
  integrityHmac := none

/-- Re-seal with fresh platform state to detect reboot-based attacks. -/
def reseal : Call (Option Bytes) SealedIdentityError Unit := do
  let oldBlob ← loadBlob C p
  let seed ← Call.lift (resealSeed C p puf oldBlob)
  let signingKey ← Call.lift (signingKeyOf C oldBlob seed)
  let sealedSeed ← Call.lift (sealSeed C p signingKey.val [])
  persistBlob C p (resealedBlob p oldBlob sealedSeed)

end Defs

/-! ## Reading and writing the file -/

/-- JSON reads back what was written, in either layout. -/
structure Crates.ReadsBack (C : Crates) : Prop where
  pretty : ∀ blob, C.fromSlice (C.toVecPretty blob) = .ok blob
  compact : ∀ blob, C.fromSlice (C.toVec blob) = .ok blob

def storedBlob (C : Crates) (file : Option Bytes) : Option SealedBlob :=
  file.bind fun data => (C.fromSlice data).toOption

variable {C : Crates} {p : Platform} {file file' : Option Bytes} {blob : SealedBlob}

theorem decodeBlob_eq_ok {data : Bytes} :
    decodeBlob C p data = .ok blob ↔ C.fromSlice data = .ok blob
      ∧ ∀ hmac, blob.integrityHmac = some hmac → hmac = computeBlobHmac C p blob := by
  rw [decodeBlob, mapErr_bind_eq_ok]
  constructor
  · rintro ⟨read, hread, h⟩
    split at h
    · rename_i hnone
      cases h
      exact ⟨hread, fun hmac hsome => nomatch hnone.symm.trans hsome⟩
    · rename_i stored hstored
      split at h
      · rename_i heq
        cases h
        refine ⟨hread, fun hmac hsome => ?_⟩
        cases hstored.symm.trans hsome
        exact heq
      · cases h
  · rintro ⟨hread, h⟩
    refine ⟨blob, hread, ?_⟩
    split
    · rfl
    · rename_i stored hstored
      rw [if_pos (h stored hstored)]

theorem loadBlob_state : (loadBlob C p file).2 = file := by
  cases file with
  | none => rfl
  | some data => rfl

theorem loadBlob_eq (C : Crates) (p : Platform) (file : Option Bytes) :
    ∃ r, loadBlob C p file = (r, file) := ⟨_, Prod.ext rfl loadBlob_state⟩

theorem loadBlob_eq_ok :
    loadBlob C p file = (.ok blob, file') ↔ file' = file ∧ p.readable = true
      ∧ ∃ data, file = some data ∧ decodeBlob C p data = .ok blob := by
  cases file with
  | none => exact ⟨(fun h => nomatch h), fun ⟨_, _, _, h, _⟩ => nomatch h⟩
  | some data =>
    rw [loadBlob]
    by_cases hread : p.readable = true
    · rw [if_pos hread, Prod.mk.injEq]
      constructor
      · rintro ⟨h, rfl⟩
        exact ⟨rfl, hread, data, rfl, h⟩
      · rintro ⟨rfl, -, _, hdata, h⟩
        cases hdata
        exact ⟨h, rfl⟩
    · rw [if_neg hread]
      exact ⟨(fun h => nomatch h), fun ⟨_, h, _⟩ => absurd h hread⟩

theorem storedBlob_of_load (h : loadBlob C p file = (.ok blob, file')) :
    storedBlob C file = some blob := by
  obtain ⟨-, -, data, rfl, hdecode⟩ := loadBlob_eq_ok.mp h
  rw [storedBlob, Option.bind_some, (decodeBlob_eq_ok.mp hdecode).1]
  rfl

theorem hmacPayload_signed : hmacPayload C (signedBlob C p blob) = hmacPayload C blob := rfl

/-- What was persisted is accepted on the same machine. -/
theorem decodeBlob_signed (hjson : C.ReadsBack) {q : Platform}
    (hsalt : machineSalt C q = machineSalt C p) :
    decodeBlob C q (C.toVecPretty (signedBlob C p blob)) = .ok (signedBlob C p blob) := by
  refine decodeBlob_eq_ok.mpr ⟨hjson.pretty _, fun hmac hhmac => ?_⟩
  cases hhmac
  rw [computeBlobHmac, computeBlobHmac, hsalt, hmacPayload_signed]

/-- Either nothing was written, or the blob is in the file. -/
theorem persistBlob_cases (hjson : C.ReadsBack) (p : Platform) (blob : SealedBlob)
    (file : Option Bytes) :
    persistBlob C p blob file = (fail .io, file)
      ∨ ∃ file', persistBlob C p blob file = (.ok (), file')
        ∧ storedBlob C file' = some (signedBlob C p blob) := by
  rw [persistBlob]
  by_cases hwrite : p.writable = true
  · rw [if_pos hwrite]
    refine .inr ⟨_, rfl, ?_⟩
    rw [storedBlob, Option.bind_some, hjson.pretty]
    rfl
  · rw [if_neg hwrite]
    exact .inl rfl

end WritersProof.SealedIdentity
