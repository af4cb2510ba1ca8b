/-
  Snapshots of documents (crates/cpoe/src/snapshot/store.rs, crypto.rs).

  `save` and `restore` both write rows of `snapshot_meta`, one and two.  `save` moves the time of
  its row past the last one of the document, `restore` takes the clock's.

    * `save_eq_ok`, `restore_eq_ok` — when a call goes through, and what it adds.
    * `save_error`, `restore_error` — a call that does not leaves the store alone.

  `list` reads what the database has in the order of the timestamps; the order of rows with the
  same one is the database's.
-/
import WritersProof.Lib.Checked
import WritersProof.Lib.Lines
import WritersProof.Lib.SqlTable
import WritersProof.Lib.Text

namespace WritersProof.Snapshot

open Rust Sql Call Bytes

abbrev Digest := FixedBytes 32

structure Crates where
  sha256 : Bytes → Digest
  /-- HKDF-SHA256 with a salt, the key material, an info text and a length -/
  hkdf : Bytes → Bytes → Bytes → (length : Nat) → FixedBytes length
  /-- `zstd::encode_all` at level 3 -/
  compress : Bytes → Except String Bytes
  /-- `zstd::stream::read::Decoder::new` -/
  newDecoder : Bytes → Except String Unit
  /-- The decoder read to its end, or to so many bytes -/
  decompress : (limit : Nat) → Bytes → Except String Bytes
  /-- ChaCha20-Poly1305 with a key and a nonce -/
  encrypt : FixedBytes 32 → FixedBytes 12 → Bytes → Except String Bytes
  decrypt : FixedBytes 32 → FixedBytes 12 → Bytes → Except String Bytes

namespace Crates

variable (X : Crates) (signingKeyBytes contentHash : Digest)

def deriveBlobKey : FixedBytes 32 :=
  X.hkdf (utf8 "writerslogic-snapshot-v1") signingKeyBytes.val contentHash.val 32

def deriveBlobNonce : FixedBytes 12 :=
  X.hkdf (utf8 "writerslogic-snapshot-nonce-v1") signingKeyBytes.val contentHash.val 12

def maxSnapshotSize : Nat := 100 * 1024 * 1024

def encryptBlob (plaintext : Bytes) : Res String Bytes := do
  reject (maxSnapshotSize < plaintext.length) "snapshot too large (>100 MB)"
  reject (X.sha256 plaintext ≠ contentHash) "content hash does not match plaintext"
  let compressed ← mapErr (X.compress plaintext) fun e => s!"zstd compress failed: {e}"
  mapErr (X.encrypt (X.deriveBlobKey signingKeyBytes contentHash)
    (X.deriveBlobNonce signingKeyBytes contentHash) compressed) fun e => s!"encryption failed: {e}"

def decryptBlob (ciphertext : Bytes) : Res String Bytes := do
  let compressed ← mapErr (X.decrypt (X.deriveBlobKey signingKeyBytes contentHash)
    (X.deriveBlobNonce signingKeyBytes contentHash) ciphertext)
    fun e => s!"decryption failed (tampered or wrong key): {e}"
  mapErr (X.newDecoder compressed) fun e => s!"zstd decoder init failed: {e}"
  let plaintext ← mapErr (X.decompress (maxSnapshotSize + 1) compressed)
    fun e => s!"zstd decompress failed: {e}"
  reject (maxSnapshotSize < plaintext.length) "decompressed snapshot exceeds size limit"
  reject (X.sha256 plaintext ≠ contentHash) "decrypted content hash mismatch (storage corruption)"
  .ok plaintext

end Crates

/-- `split_whitespace().count()`, at most `i32::MAX` -/
def countWords (text : String) : Int := (min (Text.words text.toList).length (2 ^ 31 - 1) : Nat)

theorem countWords_range (text : String) : 0 ≤ countWords text ∧ countWords text < 2 ^ 31 := by
  unfold countWords
  omega

/-! ## Tables -/

/-- A row of `snapshot_meta` but for its id -/
structure SnapshotRecord where
  documentPath : String
  contentHash : Digest
  timestampNs : Int
  wordCount : Int
  draftLabel : Option String
  isRestore : Bool

abbrev SnapshotMeta := Sql.Row SnapshotRecord

structure Blob where
  contentHash : Digest
  encryptedData : Bytes
  originalSize : Nat
  compressedSize : Nat

structure SnapshotStore where
  blobs : List Blob
  metas : Sql.Table SnapshotRecord
  signingKeyBytes : Digest

inductive Statement where
  | selectHash
  | selectBlob
  | begin
  | selectLast
  | insertBlob
  | insertTarget
  | insertMeta
  | insertMarker
  | commit

/-- What a call finds: the clock, in nanoseconds since the Unix epoch, and the statements that fail
for reasons of their own (a locked database, a full disk) -/
structure Env where
  clock : Int
  failure : Statement → Option String

def Env.nowNs (env : Env) : Int := timestampNanosSafe (.ofNanos env.clock)

namespace SnapshotStore

def history (documentPath : String) (s : SnapshotStore) : List SnapshotMeta :=
  s.metas.rows.filter (·.record.documentPath = documentPath)

/-- `SELECT COALESCE(MAX(timestamp_ns), 0)` -/
def lastTimestamp (documentPath : String) (s : SnapshotStore) : Int :=
  ((s.history documentPath).map (·.record.timestampNs)).max?.getD 0

/-- `INSERT OR IGNORE INTO snapshot_blobs` -/
def insertBlob (s : SnapshotStore) (blob : Blob) : SnapshotStore :=
  if s.blobs.any (·.contentHash = blob.contentHash) then s
  else { s with blobs := s.blobs ++ [blob] }

end SnapshotStore

/-! ## Calls -/

abbrev SnapshotCall (α : Type) := Call SnapshotStore String α

def Env.exec (env : Env) (statement : Statement) (context : String) : SnapshotCall Unit :=
  match env.failure statement with
  | some e => lift (fail s!"{context}: {e}")
  | none => pure ()

/-- `INSERT INTO snapshot_meta`: the counter must not be used up. -/
def insertMeta (context : String) (record : SnapshotRecord) : SnapshotCall Int := fun s =>
  if s.metas.sequence ≥ i64Max then (fail s!"{context}: database or disk is full", s)
  else (.ok (s.metas.sequence + 1), { s with metas := s.metas.insert record })

section Calls

variable (X : Crates) (env : Env)

def save (documentPath plaintext : String) (isRestore : Bool) : SnapshotCall Int := do
  let plaintextBytes := utf8 plaintext
  let contentHash := X.sha256 plaintextBytes
  let signingKeyBytes ← asks (·.signingKeyBytes)
  let encrypted ← lift (X.encryptBlob signingKeyBytes contentHash plaintextBytes)
  transaction do
    env.exec .begin "transaction begin failed"
    env.exec .selectLast "monotonicity check failed"
    let lastTs ← asks (·.lastTimestamp documentPath)
    let timestampNs ← lift (if env.nowNs ≤ lastTs then addI64 lastTs 1 else .ok env.nowNs)
    env.exec .insertBlob "blob insert failed"
    modify (·.insertBlob ⟨contentHash, encrypted, plaintextBytes.length, encrypted.length⟩)
    env.exec .insertMeta "meta insert failed"
    let id ← insertMeta "meta insert failed" {
      documentPath, contentHash, timestampNs, wordCount := countWords plaintext
      draftLabel := none, isRestore }
    env.exec .commit "transaction commit failed"
    pure id

/-- Retrieve and decrypt a snapshot's plaintext by meta id. -/
def get (snapshotId : Int) : SnapshotCall String := do
  env.exec .selectHash "snapshot not found"
  let found ← asks (·.metas.get? snapshotId)
  let record ← lift (okOr found "snapshot not found: Query returned no rows")
  env.exec .selectBlob "blob not found"
  let found ← asks fun s => s.blobs.find? (·.contentHash = record.contentHash)
  let blob ← lift (okOr found "blob not found: Query returned no rows")
  let signingKeyBytes ← asks (·.signingKeyBytes)
  let plaintextBytes ← lift
    (X.decryptBlob signingKeyBytes record.contentHash blob.encryptedData)
  -- The text also says where the bytes go wrong.
  lift (okOr (Text.fromUtf8 plaintextBytes) "snapshot is not valid UTF-8")

/-- Restore: atomically saves the current text as a new snapshot, retrieves the
    target version, and records a restore marker. -/
def restore (documentPath : String) (snapshotId : Int) (currentText : String) :
    SnapshotCall String := do
  let restored ← get X env snapshotId
  let currentBytes := utf8 currentText
  let currentHash := X.sha256 currentBytes
  let restoredBytes := utf8 restored
  let restoredHash := X.sha256 restoredBytes
  let signingKeyBytes ← asks (·.signingKeyBytes)
  let currentEnc ← lift (X.encryptBlob signingKeyBytes currentHash currentBytes)
  let restoredEnc ← lift (X.encryptBlob signingKeyBytes restoredHash restoredBytes)
  transaction do
    env.exec .begin "restore transaction begin failed"
    env.exec .insertBlob "restore: current blob insert failed"
    modify (·.insertBlob ⟨currentHash, currentEnc, currentBytes.length, currentEnc.length⟩)
    env.exec .insertTarget "restore: target blob insert failed"
    modify (·.insertBlob ⟨restoredHash, restoredEnc, restoredBytes.length, restoredEnc.length⟩)
    -- The time is that of the clock, whatever the document's last snapshot has.
    env.exec .insertMeta "restore: pre-save insert failed"
    let _ ← insertMeta "restore: pre-save insert failed" {
      documentPath, contentHash := currentHash, timestampNs := env.nowNs
      wordCount := countWords currentText, draftLabel := none, isRestore := false }
    let markerNs ← lift (addI64 env.nowNs 1)
    env.exec .insertMarker "restore: marker insert failed"
    let _ ← insertMeta "restore: marker insert failed" {
      documentPath, contentHash := restoredHash, timestampNs := markerNs
      wordCount := countWords restored, draftLabel := none, isRestore := true }
    env.exec .commit "restore transaction commit failed"
    pure restored

end Calls

/-! ## What a call adds -/

structure SaveCall where
  env : Env
  documentPath : String
  plaintext : String
  isRestore : Bool

structure RestoreCall where
  env : Env
  documentPath : String
  snapshotId : Int
  currentText : String

section Added

variable (X : Crates)

/-- The time of a new snapshot: the clock's, or the next one after the last snapshot's -/
def SaveCall.timestampNs (c : SaveCall) (s : SnapshotStore) : Int :=
  if c.env.nowNs ≤ s.lastTimestamp c.documentPath then s.lastTimestamp c.documentPath + 1
  else c.env.nowNs

def SaveCall.record (c : SaveCall) (s : SnapshotStore) : SnapshotRecord where
  documentPath := c.documentPath
  contentHash := X.sha256 (utf8 c.plaintext)
  timestampNs := c.timestampNs s
  wordCount := countWords c.plaintext
  draftLabel := none
  isRestore := c.isRestore

/-- The text can be encrypted, there is room, and no statement fails. -/
structure SaveCall.Completes (c : SaveCall) (s : SnapshotStore) : Prop where
  encrypted : ∃ bytes, X.encryptBlob s.signingKeyBytes (X.sha256 (utf8 c.plaintext))
    (utf8 c.plaintext) = .ok bytes
  begin : c.env.failure .begin = none
  selectLast : c.env.failure .selectLast = none
  later : s.lastTimestamp c.documentPath < i64Max
  insertBlob : c.env.failure .insertBlob = none
  insertMeta : c.env.failure .insertMeta = none
  room : s.metas.sequence < i64Max
  commit : c.env.failure .commit = none

def RestoreCall.preSave (c : RestoreCall) : SnapshotRecord where
  documentPath := c.documentPath
  contentHash := X.sha256 (utf8 c.currentText)
  timestampNs := c.env.nowNs
  wordCount := countWords c.currentText
  draftLabel := none
  isRestore := false

def RestoreCall.marker (c : RestoreCall) (restored : String) : SnapshotRecord where
  documentPath := c.documentPath
  contentHash := X.sha256 (utf8 restored)
  timestampNs := c.env.nowNs + 1
  wordCount := countWords restored
  draftLabel := none
  isRestore := true

/-- The snapshot is there with this text, both texts can be encrypted, there is room, and no
statement fails. -/
structure RestoreCall.Completes (c : RestoreCall) (s : SnapshotStore) (restored : String) :
    Prop where
  found : get X c.env c.snapshotId s = (.ok restored, s)
  currentEncrypted : ∃ bytes, X.encryptBlob s.signingKeyBytes
    (X.sha256 (utf8 c.currentText)) (utf8 c.currentText) = .ok bytes
  restoredEncrypted : ∃ bytes, X.encryptBlob s.signingKeyBytes (X.sha256 (utf8 restored))
    (utf8 restored) = .ok bytes
  begin : c.env.failure .begin = none
  insertBlob : c.env.failure .insertBlob = none
  insertTarget : c.env.failure .insertTarget = none
  insertMeta : c.env.failure .insertMeta = none
  later : c.env.nowNs < i64Max
  insertMarker : c.env.failure .insertMarker = none
  room : s.metas.sequence + 1 < i64Max
  commit : c.env.failure .commit = none

end Added

section Spec

variable {X : Crates} {env : Env} {s s' : SnapshotStore} {context : String} {ts : Int}

theorem Env.exec_bind_eq_ok {statement : Statement} {α : Type} {k : Unit → SnapshotCall α} {a : α} :
    (env.exec statement context >>= k) s = (.ok a, s') ↔
      env.failure statement = none ∧ k () s = (.ok a, s') := by
  rw [Env.exec]
  cases env.failure statement with
  | some e => exact ⟨nofun, nofun⟩
  | none => exact (and_iff_right rfl).symm

theorem insertMeta_bind_eq_ok {record : SnapshotRecord} {α : Type} {k : Int → SnapshotCall α}
    {a : α} :
    (insertMeta context record >>= k) s = (.ok a, s') ↔
      s.metas.sequence < i64Max
        ∧ k (s.metas.sequence + 1) { s with metas := s.metas.insert record } = (.ok a, s') := by
  rw [bind_apply, insertMeta]
  by_cases hfull : s.metas.sequence ≥ i64Max
  · rw [if_pos hfull]
    exact iff_of_false nofun fun h => absurd h.1 (not_lt.mpr hfull)
  · rw [if_neg hfull]
    exact (and_iff_right (lt_of_not_ge hfull)).symm

variable {e : Fault String}

@[simp] theorem SnapshotStore.metas_insertBlob (s : SnapshotStore) (blob : Blob) :
    (s.insertBlob blob).metas = s.metas := by
  rw [insertBlob]
  split
  · rfl
  · rfl

variable {c : SaveCall}

theorem raise_eq_ok :
    (if c.env.nowNs ≤ s.lastTimestamp c.documentPath
      then addI64 (s.lastTimestamp c.documentPath) 1 else .ok c.env.nowNs : Res String Int) = .ok ts
      ↔ s.lastTimestamp c.documentPath < i64Max ∧ ts = c.timestampNs s := by
  have hnow : FitsI64 c.env.nowNs := fitsI64_timestampNanosSafe _
  obtain ⟨hmin, hmax⟩ := hnow
  rw [SaveCall.timestampNs]
  split
  · rename_i hle
    have hfits : FitsI64 (s.lastTimestamp c.documentPath + 1)
        ↔ s.lastTimestamp c.documentPath < i64Max := by
      unfold FitsI64
      omega
    rw [addI64_eq_ok, hfits]
  · rename_i hlt
    have hlater : s.lastTimestamp c.documentPath < i64Max := by omega
    rw [Except.ok.injEq, and_iff_right hlater]
    exact eq_comm

def SaveCall.run (X : Crates) (c : SaveCall) : SnapshotCall Int :=
  save X c.env c.documentPath c.plaintext c.isRestore

/-- What a call that goes through has found and adds. -/
theorem SaveCall.completes_of_run {id : Int} (h : c.run X s = (.ok id, s')) :
    c.Completes X s ∧ id = s.metas.sequence + 1 ∧ s'.metas = s.metas.insert (c.record X s) := by
  unfold SaveCall.run save at h
  rw [asks_bind, lift_bind_eq_ok] at h
  obtain ⟨bytes, hbytes, h⟩ := h
  rw [transaction_eq_ok, Env.exec_bind_eq_ok, Env.exec_bind_eq_ok, asks_bind,
    lift_bind_eq_ok] at h
  obtain ⟨hbegin, hselect, ts, hts, h⟩ := h
  obtain ⟨hlater, rfl⟩ := raise_eq_ok.mp hts
  rw [Env.exec_bind_eq_ok, bind_apply, modify_apply] at h
  obtain ⟨hblob, h⟩ := h
  dsimp only at h
  rw [Env.exec_bind_eq_ok, insertMeta_bind_eq_ok, Env.exec_bind_eq_ok,
    SnapshotStore.metas_insertBlob] at h
  obtain ⟨hmeta, hroom, hcommit, h⟩ := h
  cases h
  exact ⟨⟨⟨bytes, hbytes⟩, hbegin, hselect, hlater, hblob, hmeta, hroom, hcommit⟩, rfl, rfl⟩

theorem SaveCall.run_of_completes (h : c.Completes X s) : ∃ id s', c.run X s = (.ok id, s') := by
  obtain ⟨bytes, hbytes⟩ := h.encrypted
  refine ⟨s.metas.sequence + 1, { s.insertBlob ⟨X.sha256 (utf8 c.plaintext), bytes,
    (utf8 c.plaintext).length, bytes.length⟩ with
      metas := s.metas.insert (c.record X s) }, ?_⟩
  unfold SaveCall.run save
  rw [asks_bind, lift_bind_eq_ok]
  refine ⟨bytes, hbytes, transaction_eq_ok.mpr ?_⟩
  rw [Env.exec_bind_eq_ok, Env.exec_bind_eq_ok, asks_bind, lift_bind_eq_ok]
  refine ⟨h.begin, h.selectLast, c.timestampNs s, raise_eq_ok.mpr ⟨h.later, rfl⟩, ?_⟩
  rw [Env.exec_bind_eq_ok, bind_apply, modify_apply]
  refine ⟨h.insertBlob, ?_⟩
  dsimp only
  rw [Env.exec_bind_eq_ok, insertMeta_bind_eq_ok, Env.exec_bind_eq_ok,
    SnapshotStore.metas_insertBlob]
  exact ⟨h.insertMeta, h.room, h.commit, rfl⟩

/-- A save that fails has changed nothing. -/
theorem SaveCall.run_error (h : c.run X s = (.error e, s')) : s' = s := by
  unfold SaveCall.run save at h
  rw [asks_bind] at h
  cases hbytes : X.encryptBlob s.signingKeyBytes (X.sha256 (utf8 c.plaintext))
      (utf8 c.plaintext) with
  | error e =>
    rw [hbytes, lift_error_bind] at h
    exact (Prod.mk.inj h).2.symm
  | ok bytes =>
    rw [hbytes, lift_ok_bind] at h
    exact transaction_error h

def RestoreCall.run (X : Crates) (c : RestoreCall) : SnapshotCall String :=
  restore X c.env c.documentPath c.snapshotId c.currentText

theorem keeps_get (snapshotId : Int) : Call.Keeps id (get X env snapshotId) := by
  have hexec : ∀ statement context, Call.Keeps id (env.exec statement context) := by
    intro statement context
    rw [Env.exec]
    split
    · exact keeps_lift _
    · exact keeps_pure _
  refine (hexec _ _).bind fun _ => (keeps_asks _).bind fun _ => (keeps_lift _).bind
    fun _ => (hexec _ _).bind fun _ => (keeps_asks _).bind fun _ => (keeps_lift _).bind
    fun _ => (keeps_asks _).bind fun _ => (keeps_lift _).bind fun _ => keeps_lift _

theorem marker_eq_ok :
    addI64 (ε := String) env.nowNs 1 = .ok ts ↔ env.nowNs < i64Max ∧ ts = env.nowNs + 1 := by
  have hnow : FitsI64 env.nowNs := fitsI64_timestampNanosSafe _
  have hfits : FitsI64 (env.nowNs + 1) ↔ env.nowNs < i64Max := by
    unfold FitsI64 at hnow ⊢
    omega
  rw [addI64_eq_ok, hfits]

variable {c : RestoreCall} {restored : String}

theorem RestoreCall.completes_of_run (h : c.run X s = (.ok restored, s')) :
    c.Completes X s restored
      ∧ s'.metas = (s.metas.insert (c.preSave X)).insert (c.marker X restored) := by
  unfold RestoreCall.run restore at h
  rw [bind_eq_ok] at h
  obtain ⟨text, t, hget, h⟩ := h
  obtain rfl : t = s := by
    have hkeeps : (get X c.env c.snapshotId s).2 = s := keeps_get c.snapshotId s
    rw [hget] at hkeeps
    exact hkeeps
  rw [asks_bind, lift_bind_eq_ok] at h
  obtain ⟨current, hcurrent, h⟩ := h
  rw [lift_bind_eq_ok] at h
  obtain ⟨bytes, hbytes, h⟩ := h
  rw [transaction_eq_ok, Env.exec_bind_eq_ok, Env.exec_bind_eq_ok, bind_apply,
    modify_apply] at h
  obtain ⟨hbegin, hblob, h⟩ := h
  dsimp only at h
  rw [Env.exec_bind_eq_ok, bind_apply, modify_apply] at h
  obtain ⟨htarget, h⟩ := h
  dsimp only at h
  rw [Env.exec_bind_eq_ok, insertMeta_bind_eq_ok, lift_bind_eq_ok] at h
  obtain ⟨hmeta, -, ts, hts, h⟩ := h
  obtain ⟨hlater, rfl⟩ := marker_eq_ok.mp hts
  rw [Env.exec_bind_eq_ok, insertMeta_bind_eq_ok, Env.exec_bind_eq_ok] at h
  obtain ⟨hmarker, hroom, hcommit, h⟩ := h
  cases h
  dsimp only at hroom
  rw [SnapshotStore.metas_insertBlob, SnapshotStore.metas_insertBlob] at hroom
  refine ⟨⟨hget, ⟨current, hcurrent⟩, ⟨bytes, hbytes⟩, hbegin, hblob, htarget, hmeta,
    hlater, hmarker, hroom, hcommit⟩, ?_⟩
  dsimp only
  rw [SnapshotStore.metas_insertBlob, SnapshotStore.metas_insertBlob]
  rfl

theorem RestoreCall.run_of_completes (h : c.Completes X s restored) :
    ∃ s', c.run X s = (.ok restored, s') := by
  obtain ⟨current, hcurrent⟩ := h.currentEncrypted
  obtain ⟨bytes, hbytes⟩ := h.restoredEncrypted
  have hroom := h.room
  let target := (s.insertBlob ⟨X.sha256 (utf8 c.currentText), current,
    (utf8 c.currentText).length, current.length⟩).insertBlob
      ⟨X.sha256 (utf8 restored), bytes, (utf8 restored).length, bytes.length⟩
  refine ⟨{ target with
    metas := (s.metas.insert (c.preSave X)).insert (c.marker X restored) }, ?_⟩
  unfold RestoreCall.run restore
  rw [bind_of_ok h.found, asks_bind, lift_bind_eq_ok]
  refine ⟨current, hcurrent, ?_⟩
  rw [lift_bind_eq_ok]
  refine ⟨bytes, hbytes, transaction_eq_ok.mpr ?_⟩
  rw [Env.exec_bind_eq_ok, Env.exec_bind_eq_ok, bind_apply, modify_apply]
  refine ⟨h.begin, h.insertBlob, ?_⟩
  dsimp only
  rw [Env.exec_bind_eq_ok, bind_apply, modify_apply]
  refine ⟨h.insertTarget, ?_⟩
  dsimp only
  rw [Env.exec_bind_eq_ok, insertMeta_bind_eq_ok, SnapshotStore.metas_insertBlob,
    SnapshotStore.metas_insertBlob, lift_bind_eq_ok]
  refine ⟨h.insertMeta, by omega, _, marker_eq_ok.mpr ⟨h.later, rfl⟩, ?_⟩
  rw [Env.exec_bind_eq_ok, insertMeta_bind_eq_ok, Env.exec_bind_eq_ok]
  exact ⟨h.insertMarker, hroom, h.commit, rfl⟩

/-- A restoration that fails has changed nothing. -/
theorem RestoreCall.run_error (h : c.run X s = (.error e, s')) : s' = s := by
  unfold RestoreCall.run restore at h
  have hkeeps : (get X c.env c.snapshotId s).2 = s := keeps_get c.snapshotId s
  rw [bind_apply] at h
  rcases hget : get X c.env c.snapshotId s with ⟨e | restored, t⟩
  · rw [hget] at h hkeeps
    cases h
    exact hkeeps
  · rw [hget] at h hkeeps
    obtain rfl : s = t := hkeeps.symm
    dsimp only at h
    rw [asks_bind] at h
    cases hcurrent : X.encryptBlob s.signingKeyBytes (X.sha256 (utf8 c.currentText))
        (utf8 c.currentText) with
    | error e =>
      rw [hcurrent, lift_error_bind] at h
      exact (Prod.mk.inj h).2.symm
    | ok current =>
      rw [hcurrent, lift_ok_bind] at h
      cases hbytes : X.encryptBlob s.signingKeyBytes (X.sha256 (utf8 restored))
          (utf8 restored) with
      | error e =>
        rw [hbytes, lift_error_bind] at h
        exact (Prod.mk.inj h).2.symm
      | ok bytes =>
        rw [hbytes, lift_ok_bind] at h
        exact transaction_error h

end Spec

end WritersProof.Snapshot
