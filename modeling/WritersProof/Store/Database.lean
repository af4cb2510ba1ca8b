/-
  WritersProof.Store.Database

  Events, table rows and the integrity record of the secure store
  (crates/cpoe/src/store/types.rs, store/integrity.rs, crypto.rs).

  A table is its rows in the order of their ids.  What a row holds besides the
  columns below is `Extra`: it is copied, and nothing checks it.

  Opening the secure store and adding an event
  (crates/cpoe/src/store/integrity.rs, store/events.rs).

  A call that fails rolls its transaction back, so only a call that returns
  changes the database.
-/
import WritersProof.Lib.Bytes
import WritersProof.Lib.SqlTable

namespace WritersProof.Store

open Rust Bytes FixedBytes

abbrev Digest := FixedBytes 32

/-- SHA-256, and HMAC-SHA256 of a message under a key. -/
structure Crypto where
  sha256 : Bytes → Digest
  hmac : Bytes → Bytes → Digest

/-- `[0u8; 32]` -/
def zeroHash : Digest := filled 32 0

/-- `i32` -/
abbrev I32 := { n : Int // -(2 ^ 31) ≤ n ∧ n < 2 ^ 31 }

/-- `row.get::<_, i32>` of an integer column -/
def I32.tryFrom (n : Int) : Option I32 :=
  if h : -(2 ^ 31) ≤ n ∧ n < 2 ^ 31 then some ⟨n, h⟩ else none

theorem I32.tryFrom_eq_some {n : Int} {m : I32} : I32.tryFrom n = some m ↔ n = m.val := by
  unfold I32.tryFrom
  constructor
  · intro h
    split at h
    · cases h
      rfl
    · cases h
  · rintro rfl
    rw [dif_pos m.property]

/-! ## Event data -/

structure EventData where
  deviceId : FixedBytes 16
  timestampNs : Int
  filePath : String
  contentHash : Digest
  fileSize : Int
  sizeDelta : I32
  previousHash : Digest
  deriving DecidableEq

def EventData.bytes (data : EventData) : Bytes :=
  utf8 "cpoe-event-v2" ++ data.deviceId.val ++ toBE 8 (ofInt 8 data.timestampNs)
    ++ toBE 8 (utf8 data.filePath).length ++ utf8 data.filePath
    ++ data.contentHash.val ++ toBE 8 (ofInt 8 data.fileSize)
    ++ toBE 4 (ofInt 4 data.sizeDelta.val) ++ data.previousHash.val

def computeEventHash (C : Crypto) (data : EventData) : Digest := C.sha256 data.bytes

def computeEventHmac (C : Crypto) (key : Bytes) (data : EventData) : Digest :=
  C.hmac key data.bytes

def computeIntegrityHmac (C : Crypto) (key : Bytes) (chainHash : Digest)
    (eventCount lastVerifiedSequence : Int) : Digest :=
  C.hmac key (utf8 "cpoe-integrity-v1" ++ chainHash.val
    ++ toBE 8 (ofInt 8 eventCount) ++ toBE 8 (ofInt 8 lastVerifiedSequence))

theorem previousHash_of_bytes {d e : EventData} (h : d.bytes = e.bytes) :
    d.previousHash = e.previousHash := by
  unfold EventData.bytes at h
  exact ext_val (List.append_inj' h (by simp)).2

/-! ## Rows -/

section Rows

variable (Extra : Type)

/-- What a caller passes to `add_secure_event`: the hashes and the id of a
    `SecureEvent` are set by the call. -/
structure SecureEvent where
  deviceId : FixedBytes 16
  timestampNs : Int
  filePath : String
  contentHash : Digest
  fileSize : Int
  sizeDelta : I32
  extra : Extra

/-- The columns of `secure_events` other than the id.  A blob has any length. -/
structure Record where
  deviceId : Bytes
  timestampNs : Int
  filePath : String
  contentHash : Bytes
  fileSize : Int
  sizeDelta : Int
  previousHash : Bytes
  eventHash : Bytes
  hmac : Bytes
  extra : Extra
  deriving DecidableEq

abbrev Row := Sql.Row (Record Extra)

/-- `secure_events`: the id is the primary key.  The counter of the ids is kept beside the table,
    and what is in the file may have ids above it. -/
structure Table where
  rows : List (Row Extra)
  ascending : rows.Pairwise fun a b => a.id < b.id

structure Integrity where
  chainHash : Bytes
  eventCount : Int
  lastVerifiedSequence : Int
  hmac : Bytes

/-- `sequence` is the `AUTOINCREMENT` counter of `secure_events`. -/
structure Database where
  events : Table Extra
  sequence : Int
  integrity : Option Integrity

end Rows

variable {Extra : Type}

namespace Table

def empty : Table Extra := ⟨[], List.Pairwise.nil⟩

/-- `DELETE ... WHERE NOT p` -/
def filter (t : Table Extra) (p : Record Extra → Bool) : Table Extra :=
  ⟨t.rows.filter fun row => p row.record, t.ascending.filter _⟩

variable (t : Table Extra)

/-- `MAX(id)`, 0 for an empty table. -/
def maxId : Int := (t.rows.getLast?.map Sql.Row.id).getD 0

def records : List (Record Extra) := t.rows.map Sql.Row.record

theorem id_le_maxId {row : Row Extra} (h : row ∈ t.rows) : row.id ≤ t.maxId := by
  obtain ⟨rows, hasc⟩ := t
  unfold maxId
  dsimp only at h ⊢
  rcases List.eq_nil_or_concat rows with rfl | ⟨init, last, rfl⟩
  · exact absurd h List.not_mem_nil
  · rw [List.concat_eq_append] at h hasc ⊢
    rw [List.getLast?_concat, Option.map_some, Option.getD_some]
    rcases List.mem_append.mp h with h | h
    · exact Int.le_of_lt ((List.pairwise_append.mp hasc).2.2 _ h _ List.mem_cons_self)
    · rw [List.mem_singleton.mp h]

/-- `INSERT` with the next id: one more than any that was ever used. -/
def insert (sequence : Int) (record : Record Extra) : Table Extra :=
  ⟨t.rows ++ [⟨max sequence t.maxId + 1, record⟩], by
    rw [List.pairwise_append]
    refine ⟨t.ascending, List.pairwise_singleton _ _, fun a ha b hb => ?_⟩
    have hle := t.id_le_maxId ha
    rw [List.mem_singleton.mp hb]
    dsimp only
    omega⟩

@[simp] theorem rows_insert (sequence : Int) (record : Record Extra) :
    (t.insert sequence record).rows = t.rows ++ [⟨max sequence t.maxId + 1, record⟩] := rfl

@[simp] theorem records_insert (sequence : Int) (record : Record Extra) :
    (t.insert sequence record).records = t.records ++ [record] := by
  simp [records]

@[simp] theorem rows_filter (p : Record Extra → Bool) :
    (t.filter p).rows = t.rows.filter fun row => p row.record := rfl

@[simp] theorem records_filter (p : Record Extra → Bool) :
    (t.filter p).records = t.records.filter p := by
  rw [records, records, rows_filter, List.filter_map]
  rfl

end Table

/-- `SecureStore`: its connection and the hash the next event links to.  The HMAC
    key is passed along. -/
structure SecureStore (Extra : Type) where
  db : Database Extra
  lastHash : Digest

def checkedAddI64 (a b : Int) : Option Int :=
  if i64Min ≤ a + b ∧ a + b ≤ i64Max then some (a + b) else none

section Calls

variable (C : Crypto) (key : Bytes)

/-! ## Opening -/

/-- The first event ever must name the zero sentinel, every other one the hash before
    it. -/
def checkLink (first : Bool) (lastHash previousHash : Digest) (id : Int) : Res String Unit :=
  if first then
    reject (previousHash ≠ zeroHash) s!"First event {id} has non-zero previous_hash"
  else
    reject (previousHash ≠ lastHash) s!"Chain break at event {id}"

def verifyRow (first : Bool) (lastHash : Digest) (row : Row Extra) : Res String Digest := do
  let r := row.record
  let sizeDelta ← okOr (I32.tryFrom r.sizeDelta) s!"Integer {r.sizeDelta} out of range at index 9"
  let deviceId ← okOr (tryFrom 16 r.deviceId) "Invalid device_id"
  let contentHash ← okOr (tryFrom 32 r.contentHash) "Invalid content_hash"
  let previousHash ← okOr (tryFrom 32 r.previousHash) "Invalid previous_hash"
  checkLink first lastHash previousHash row.id
  let data : EventData :=
    { deviceId, timestampNs := r.timestampNs, filePath := r.filePath, contentHash,
      fileSize := r.fileSize, sizeDelta, previousHash }
  reject (r.eventHash ≠ (computeEventHash C data).val) s!"Event {row.id} hash mismatch"
  reject (r.hmac ≠ (computeEventHmac C key data).val) s!"Event {row.id} HMAC mismatch"
  .ok (computeEventHash C data)

/-- What the scan of the new rows carries along. -/
structure Scan where
  lastHash : Digest
  count : Int
  lastSeq : Int

/-- `while let Some(row) = rows.next()? { ... }` -/
def scanRows (lastVerified : Int) : Scan → List (Row Extra) → Res String Scan
  | scan, [] => .ok scan
  | scan, row :: rows => do
    let lastHash ← verifyRow C key (lastVerified = 0 ∧ scan.count = 0) scan.lastHash row
    let count ← okOr (checkedAddI64 scan.count 1) "integrity verification count overflow"
    scanRows lastVerified { lastHash, count, lastSeq := row.id } rows

variable (db : Database Extra)

def resumeHash (lastVerified : Int) : Res String Digest :=
  if 0 < lastVerified then do
    let row ← okOr (db.events.rows.find? fun row => row.id = lastVerified) "Query returned no rows"
    okOr (tryFrom 32 row.record.eventHash) "Invalid event_hash for last verified event"
  else
    .ok zeroHash

/-- Persist the new high-water mark so the next open skips these rows. -/
def markVerified (integrity : Integrity) (chainHash : Digest) (newLastSeq : Int) : Database Extra :=
  if integrity.lastVerifiedSequence < newLastSeq then
    let hmac := computeIntegrityHmac C key chainHash integrity.eventCount newLastSeq
    { db with
      integrity := some { integrity with lastVerifiedSequence := newLastSeq, hmac := hmac.val } }
  else
    db

def verifyRecord (integrity : Integrity) :
    Res String (Database Extra × Digest) := do
  let chainHash ← okOr (tryFrom 32 integrity.chainHash)
    "Invalid chain_hash length in integrity record"
  let lastVerified := integrity.lastVerifiedSequence
  reject (integrity.hmac ≠
      (computeIntegrityHmac C key chainHash integrity.eventCount lastVerified).val)
    "Integrity record HMAC mismatch"
  let resume ← resumeHash db lastVerified
  let scan ← scanRows C key lastVerified { lastHash := resume, count := 0, lastSeq := lastVerified }
    (db.events.rows.filter fun row => lastVerified < row.id)
  let total ← okOr (checkedAddI64 lastVerified scan.count) "event count overflow"
  reject (total ≠ integrity.eventCount) "Event count mismatch"
  .ok (markVerified C key db integrity chainHash scan.lastSeq, scan.lastHash)

/-- The record of a database without events. -/
def initialIntegrity : Integrity :=
  { chainHash := zeroHash.val, eventCount := 0, lastVerifiedSequence := 0,
    hmac := (computeIntegrityHmac C key zeroHash 0 0).val }

def verifyIntegrity : Res String (Database Extra × Digest) :=
  match db.integrity with
  | some integrity => verifyRecord C key db integrity
  | none => .ok ({ db with integrity := some (initialIntegrity C key) }, zeroHash)

/-- `SecureStore::open` on a database whose schema is in place. -/
def openStore : Res String (SecureStore Extra) := do
  let (db, lastHash) ← verifyIntegrity C key db
  .ok { db, lastHash }

/-! ## Adding an event -/

def SecureEvent.data (e : SecureEvent Extra) (previousHash : Digest) : EventData :=
  { deviceId := e.deviceId, timestampNs := e.timestampNs, filePath := e.filePath,
    contentHash := e.contentHash, fileSize := e.fileSize, sizeDelta := e.sizeDelta, previousHash }

def EventData.record (data : EventData) (extra : Extra) : Record Extra :=
  { deviceId := data.deviceId.val, timestampNs := data.timestampNs, filePath := data.filePath,
    contentHash := data.contentHash.val, fileSize := data.fileSize, sizeDelta := data.sizeDelta.val,
    previousHash := data.previousHash.val, eventHash := (computeEventHash C data).val,
    hmac := (computeEventHmac C key data).val, extra }

/-- `INSERT INTO secure_events`: the counter must not be used up, and `event_hash`
    is `UNIQUE`. -/
def insertEvent (record : Record Extra) : Res String (Database Extra) := do
  reject (i64Max ≤ max db.sequence db.events.maxId) "database or disk is full"
  reject (record.eventHash ∈ db.events.records.map Record.eventHash)
    "UNIQUE constraint failed: secure_events.event_hash"
  .ok { db with
    events := db.events.insert db.sequence record
    sequence := max db.sequence db.events.maxId + 1 }

def addSecureEvent (s : SecureStore Extra) (e : SecureEvent Extra) :
    Res String (SecureStore Extra) := do
  let data := e.data s.lastHash
  let eventHash := computeEventHash C data
  let db ← insertEvent s.db (data.record C key e.extra)
  let integrity ← okOr db.integrity "Query returned no rows"
  let eventCount ← okOr (checkedAddI64 integrity.eventCount 1) "event_count overflow"
  let hmac := computeIntegrityHmac C key eventHash eventCount integrity.lastVerifiedSequence
  let updated :=
    { integrity with chainHash := eventHash.val, eventCount, hmac := hmac.val }
  .ok { db := { db with integrity := some updated }, lastHash := eventHash }

end Calls

def Database.fresh : Database Extra := { events := Table.empty, sequence := 0, integrity := none }

end WritersProof.Store
