/-
  The methods of `Wal` (crates/cpoe/src/wal/operations.rs).

  A method takes the log with the disk under it and leaves both in the state it
  reached, also when it fails.  Clock readings are arguments.
-/
import WritersProof.Wal.Replay

namespace WritersProof.Wal

set_option linter.dupNamespace false

open Rust Disk Call

/-- `WalState`, and the disk it lives on. -/
structure Wal (Key : Type) where
  disk : Disk
  sessionId : FixedBytes 32
  signingKey : Key
  nextSequence : Nat
  lastHash : FixedBytes 32
  cumulativeHasher : Bytes
  closed : Bool
  inconsistent : Bool
  entryCount : Nat
  byteCount : Nat
  syncInterval : Nat
  pendingSyncs : Nat

abbrev WalCall (Key : Type) := Call (Wal Key) WalError

namespace Disk

variable {α : Type}

/-- `?` on an `io::Result`. -/
def orErr (x : Call Disk IoError α) : Call Disk WalError α := fun d =>
  match x d with
  | (.ok a, d) => (.ok a, d)
  | (.error (.err e), d) => (fail (.io e), d)
  | (.error .panic, d) => (abort, d)

/-- `read_exact`, with the end of the file as `none`. -/
def readOrEof (n : Nat) : Call Disk WalError (Option Bytes) := fun d =>
  match d.readExact n with
  | (.ok bytes, d) => (.ok (some bytes), d)
  | (.error (.err .unexpectedEof), d) => (.ok none, d)
  | (.error (.err .other), d) => (fail (.io .other), d)
  | (.error .panic, d) => (abort, d)

end Disk

namespace Wal

variable {Key : Type} {α : Type}

def chain (w : Wal Key) : Chain := ⟨w.nextSequence, w.lastHash, w.cumulativeHasher⟩

def withChain (w : Wal Key) (chain : Chain) : Wal Key :=
  { w with
    nextSequence := chain.nextSequence
    lastHash := chain.lastHash
    cumulativeHasher := chain.hasher }

def onDisk (x : Call Disk WalError α) : WalCall Key α :=
  zoom Wal.disk (fun disk w => { w with disk }) x

def io (x : Call Disk IoError α) : WalCall Key α := onDisk (orErr x)

/-- A `u64` addition that aborts on overflow. -/
def bump (a b : Nat) : Res WalError Nat := unwrap (checkedAdd a b)

variable (cr : Crypto Key)

/-! ## Opening -/

def header (sessionId : FixedBytes 32) (clock : Option Nat) (lastCheckpointSeq : Nat) : Header :=
  ⟨magic, version, sessionId, nowNanos clock, lastCheckpointSeq, .filled 8 0⟩

variable (clock : Option Nat)

def writeHeader : WalCall Key Unit := do
  let state ← asks id
  io (writeAll (serializeHeader (header state.sessionId clock 0)))
  io access

def readHeader : WalCall Key Unit := do
  let state ← asks id
  io (seek 0)
  let buf ← io (readExact headerSize)
  let header ← lift (deserializeHeader buf)
  Call.reject (header.magic ≠ magic) .invalidMagic
  Call.reject (header.version ≠ version) (.invalidVersion header.version)
  Call.reject (header.sessionId ≠ state.sessionId) .sessionMismatch
  modify fun w => { w with nextSequence := header.lastCheckpointSeq }

def scanChecks : Checks := ⟨true, true, false⟩

/-- Cut the file at `offset` if it is longer; the estimated number of entries lost. -/
def dropTail (offset fileLen : Nat) : WalCall Key Nat :=
  if offset < fileLen then do
    io (setLen offset)
    pure ((fileLen - offset) / 5)
  else pure 0

def markInconsistent : WalCall Key Unit := modify fun w => { w with inconsistent := true }

/-- The end of `scan_to_end`, behind the loop. -/
def finishScan (offset : Nat) : WalCall Key Nat := do
  let fileLen ← onError (io fileLen) markInconsistent
  let truncated ← dropTail offset fileLen
  modify fun w => { w with byteCount := offset }
  io (seek offset)
  pure truncated

/-- How `scan_to_end` goes on when its loop has stopped. -/
def scanOutcome (stop : Stop) (offset : Nat) : WalCall Key Nat :=
  match stop with
  | .tooManyEntries => lift (fail (.tooManyEntries maxWalEntries))
  | .io => lift (fail (.io .other))
  | .undecodable (.err (.serialization _)) => finishScan offset
  | .undecodable (.err (.invalidEntryType _)) => finishScan offset
  | .undecodable e => lift (.error e)
  | .overflow => lift abort
  | .outOfFuel => lift abort
  | _ => finishScan offset

def scanToEnd : WalCall Key Nat := fun w =>
  let (stop, r, disk) :=
    Replay.run cr w.signingKey scanChecks ⟨w.chain, 0, w.entryCount, headerSize⟩ w.disk
  scanOutcome stop r.offset { w.withChain r.chain with disk, entryCount := r.count }

/-- `open` on a file without content. -/
def openFresh : WalCall Key Unit := do
  writeHeader clock
  modify fun w => { w with byteCount := headerSize }
  io (seek headerSize)

def openExisting : WalCall Key Unit := do
  readHeader
  let _ ← scanToEnd cr
  pure ()

def openFile : WalCall Key Unit := do
  io access
  io openOrCreateWal
  io access
  let len ← io fileLen
  if len = 0 then openFresh clock else openExisting cr

/-- The state that `open` starts from. -/
def initial (sessionId : FixedBytes 32) (signingKey : Key) (syncInterval : Nat) (disk : Disk) :
    Wal Key :=
  { disk, sessionId, signingKey, nextSequence := 0, lastHash := .filled 32 0
    cumulativeHasher := [], closed := false, inconsistent := false, entryCount := 0
    byteCount := 0, syncInterval := max syncInterval 1, pendingSyncs := 0 }

def openWithSyncInterval (sessionId : FixedBytes 32) (signingKey : Key) (syncInterval : Nat)
    (clock : Option Nat) (disk : Disk) : Res WalError (Wal Key) × Disk :=
  match openFile cr clock (initial sessionId signingKey syncInterval disk) with
  | (.ok (), w) => (.ok w, w.disk)
  | (.error e, w) => (.error e, w.disk)

/-! ## Appending -/

def nextEntry (key : Key) (chain : Chain) (timestamp : Int) (entryType : EntryType)
    (payload : Bytes) : Entry :=
  let entry : Entry :=
    { length := 0, sequence := chain.nextSequence, timestamp, entryType, payload
      prevHash := chain.lastHash, cumulativeHash := .filled 32 0, signature := .filled 64 0 }
  let cumulativeHash := cr.blake3 (chain.hasherAfter cr entry)
  { entry with cumulativeHash, signature := cr.sign key cumulativeHash }

/-- A length prefix (`as u32`) and the data. -/
def frame (data : Bytes) : Bytes := Bytes.toBE 4 (data.length % 2 ^ 32) ++ data

def syncAppend (forceSync : Bool) : WalCall Key Unit := do
  let state ← asks id
  let pendingSyncs ← lift (bump state.pendingSyncs 1)
  modify fun w => { w with pendingSyncs }
  if forceSync = true ∨ state.syncInterval ≤ pendingSyncs then do
    onError (io access) markInconsistent
    modify fun w => { w with pendingSyncs := 0 }
  else pure ()

/-- The end of `append`: the entry becomes part of the state. -/
def recordAppend (entryHash : FixedBytes 32) (dataLen : Nat) : WalCall Key Unit := do
  let state ← asks id
  let nextSequence ← lift (bump state.nextSequence 1)
  let entryCount ← lift (bump state.entryCount 1)
  let byteCount ← lift (bump state.byteCount (4 + dataLen))
  modify fun w => { w with lastHash := entryHash, nextSequence, entryCount, byteCount }

def append (entryType : EntryType) (payload : Bytes) (clock : Option Nat) : WalCall Key Unit := do
  let state ← asks id
  Call.reject (state.closed = true) .closed
  Call.reject (state.inconsistent = true) .inconsistent
  Call.reject (maxWalSize ≤ state.byteCount) (.tooLarge state.byteCount)
  let entry := nextEntry cr state.signingKey state.chain (nowNanos clock) entryType payload
  modify fun w => { w with cumulativeHasher := state.chain.hasherAfter cr entry }
  let data ← lift (serializeEntry entry)
  io (writeAll (frame data))
  syncAppend (entryType == .checkpoint)
  recordAppend (entry.computeHash cr) data.length

def flush : WalCall Key Unit := do
  let state ← asks id
  if state.closed = true then pure ()
  else if 0 < state.pendingSyncs then do
    io access
    modify fun w => { w with pendingSyncs := 0 }
  else pure ()

def close : WalCall Key Unit := do
  let state ← asks id
  if state.closed = true then pure ()
  else do
    modify fun w => { w with closed := true }
    io access

/-! ## Reading back -/

/-- What `verify`, `recover` and `try_recover` do before their loops: clone the
    handle, read the header, and leave the cursor behind it. -/
def rewind : WalCall Key Header := do
  io access
  io (seek 0)
  let buf ← io (readExact headerSize)
  let header ← lift (deserializeHeader buf)
  io (seek headerSize)
  pure header

/-- Run the loop from the start of the entries. -/
def replay (checks : Checks) (header : Header) : WalCall Key (Stop × Replay) := fun w =>
  let (stop, r, disk) :=
    Replay.run cr w.signingKey checks (.start header.lastCheckpointSeq) w.disk
  (.ok (stop, r), { w with disk })

def verifyChecks : Checks := ⟨true, false, true⟩

def verifyOutcome (stop : Stop) (r : Replay) : Res WalError WalVerification :=
  let invalid (e : WalError) : Res WalError WalVerification :=
    .ok ⟨false, r.count, r.chain.lastHash, some e⟩
  match stop with
  | .eof => .ok ⟨true, r.count, r.chain.lastHash, none⟩
  | .tooManyEntries => invalid (.tooManyEntries maxWalEntries)
  | .oversize => invalid .corruptedEntry
  | .sequenceGap => invalid .sequenceGap
  | .timestampRegression => invalid .timestampRegression
  | .brokenChain => invalid .brokenChain
  | .cumulativeMismatch => invalid .cumulativeMismatch
  | .invalidSignature => invalid .invalidSignature
  | .io => fail (.io .other)
  | .shortFrame => fail (.io .unexpectedEof)
  | .undecodable e => .error e
  | .zeroLength => abort
  | .overflow => abort
  | .outOfFuel => abort

def verify : WalCall Key WalVerification := do
  let header ← rewind
  let (stop, r) ← replay cr verifyChecks header
  lift (verifyOutcome stop r)

def recoverChecks : Checks := ⟨false, true, true⟩

def recoverOutcome (stop : Stop) : Res WalError Unit :=
  match stop with
  | .io => fail (.io .other)
  | .undecodable .panic => abort
  | .overflow => abort
  | .outOfFuel => abort
  | _ => .ok ()

/-- `recover` with bytes behind the last valid entry. -/
def cutAt (r : Replay) (fileLen : Nat) : WalCall Key WalRecoveryReport := do
  io (setLen r.offset)
  io access
  io (seek r.offset)
  modify fun w =>
    { w.withChain r.chain with
      entryCount := r.count, byteCount := r.offset, inconsistent := false }
  pure ⟨(fileLen - r.offset) / 153, r.chain.nextSequence, nowNanos clock⟩

def recover : WalCall Key WalRecoveryReport := do
  let state ← asks id
  Call.reject (state.closed = true) .closed
  let header ← rewind
  let (stop, r) ← replay cr recoverChecks header
  lift (recoverOutcome stop)
  let fileLen ← io fileLen
  if fileLen ≤ r.offset then pure ⟨0, state.nextSequence, nowNanos clock⟩
  else if r.count = 0 then lift (fail .unrecoverable)
  else cutAt clock r fileLen

def tryRecoverChecks : Checks := ⟨true, true, true⟩

def tryRecoverOutcome (stop : Stop) : Res WalError Unit :=
  match stop with
  | .eof => .ok ()
  | .tooManyEntries => fail (.tooManyEntries maxWalEntries)
  | .zeroLength => fail .corruptedEntry
  | .oversize => fail .corruptedEntry
  | .sequenceGap => fail .sequenceGap
  | .timestampRegression => fail .timestampRegression
  | .brokenChain => fail .brokenChain
  | .cumulativeMismatch => fail .cumulativeMismatch
  | .invalidSignature => fail .invalidSignature
  | .io => fail (.io .other)
  | .shortFrame => fail (.io .unexpectedEof)
  | .undecodable e => .error e
  | .overflow => abort
  | .outOfFuel => abort

/-- `try_recover` on a log that is marked inconsistent. -/
def revalidate : WalCall Key Nat := do
  let header ← rewind
  let (stop, r) ← replay cr tryRecoverChecks header
  lift (tryRecoverOutcome stop)
  io (seek r.offset)
  modify fun w =>
    { w.withChain r.chain with
      entryCount := r.count, byteCount := r.offset, inconsistent := false, pendingSyncs := 0 }
  pure r.count

def tryRecover : WalCall Key Nat := do
  let state ← asks id
  Call.reject (state.closed = true) .closed
  if state.inconsistent = false then pure state.entryCount else revalidate cr

/-! ## Truncation -/

/-- The local variables of `truncate`'s loop. -/
structure Copy where
  expectedPrev : FixedBytes 32
  entryCount : Nat
  lastHash : FixedBytes 32
  hasher : Bytes
  prevRetainedSeq : Option Nat
  retainedCount : Nat

def Copy.start : Copy := ⟨.filled 32 0, 0, .filled 32 0, [], none, 0⟩

/-- `entry.sequence != prev + 1` -/
def checkContinuity (prev : Option Nat) (sequence : Nat) : Res WalError Unit :=
  match prev with
  | none => .ok ()
  | some prev => do
    let next ← bump prev 1
    if sequence ≠ next then fail .sequenceGap else .ok ()

/-- The entry as it is written to the new file: linked to the retained entry
    before it, and signed again. -/
def Copy.relink (key : Key) (c : Copy) (entry : Entry) : Entry :=
  let entry := { entry with prevHash := c.lastHash }
  let cumulativeHash := cr.blake3 (c.hasher ++ (entry.computeHash cr).val)
  { entry with cumulativeHash, signature := cr.sign key cumulativeHash }

def Copy.retain (key : Key) (c : Copy) (entry : Entry) : Call Disk WalError Copy := do
  lift (checkContinuity c.prevRetainedSeq entry.sequence)
  let entry := c.relink cr key entry
  let data ← lift (serializeEntry entry)
  orErr (writeNew (Bytes.toBE 4 (data.length % 2 ^ 32)))
  orErr (writeNew data)
  pure { c with
    prevRetainedSeq := some entry.sequence
    lastHash := entry.computeHash cr
    hasher := c.hasher ++ (entry.computeHash cr).val
    retainedCount := c.retainedCount + 1 }

/-- An entry of the old file, decoded. -/
def Copy.visit (key : Key) (beforeSeq : Nat) (c : Copy) (entry : Entry) :
    Call Disk WalError Copy := do
  Call.reject (entry.prevHash ≠ c.expectedPrev) .brokenChain
  let c := { c with expectedPrev := entry.computeHash cr, entryCount := c.entryCount + 1 }
  if beforeSeq ≤ entry.sequence then c.retain cr key entry else pure c

/-- One turn of the loop; `none` is the end of the file. -/
def Copy.step (key : Key) (beforeSeq : Nat) (c : Copy) : Call Disk WalError (Option Copy) := do
  Call.reject (maxWalEntries ≤ c.entryCount) (.tooManyEntries maxWalEntries)
  match ← readOrEof 4 with
  | none => pure none
  | some lenBuf => do
    Call.reject (maxEntrySize < Bytes.ofBE lenBuf) .corruptedEntry
    let buf ← orErr (readExact (Bytes.ofBE lenBuf))
    let entry ← lift (deserializeEntry buf)
    let c ← c.visit cr key beforeSeq entry
    pure (some c)

def Copy.loop (key : Key) (beforeSeq : Nat) : (fuel : Nat) → Copy → Call Disk WalError Copy
  | 0, _ => lift abort
  | fuel + 1, c => do
    match ← c.step cr key beforeSeq with
    | none => pure c
    | some c => loop key beforeSeq fuel c

/-- What the log continues after `truncate`. -/
structure Retained where
  chain : Chain
  count : Nat

/-- The closure of `truncate`: copy what is retained to the new file. -/
def copyRetained (key : Key) (sessionId : FixedBytes 32) (beforeSeq : Nat) (clock : Option Nat) :
    Call Disk WalError Retained := do
  orErr createNew
  orErr access
  orErr (writeNew (serializeHeader (header sessionId clock beforeSeq)))
  let len ← asks fun d => d.file.len
  let c ← Copy.loop cr key beforeSeq (len + 1) .start
  orErr access
  let nextSeq ← lift (match c.prevRetainedSeq with
    | none => .ok beforeSeq
    | some seq => bump seq 1)
  pure ⟨⟨nextSeq, c.lastHash, c.hasher⟩, c.retainedCount⟩

/-- The new file is in place: the state follows it. -/
def adopt (r : Retained) (w : Wal Key) : Wal Key :=
  { w.withChain r.chain with entryCount := r.count }

def truncate (beforeSeq : Nat) (clock : Option Nat) : WalCall Key Unit := do
  let state ← asks id
  io access
  io (seek headerSize)
  let r ← onError
    (onDisk (copyRetained cr state.signingKey state.sessionId beforeSeq clock)) (io removeNew)
  onError (io renameNew) (io removeNew)
  let stale : WalCall Key Unit := do
    modify (adopt r)
    markInconsistent
  -- the second attempt is for transient errors
  onError (orElse (io openWal) (io openWal)) stale
  onError (io seekEnd) stale
  modify (adopt r)
  let len ← onError (io fileLen) markInconsistent
  modify fun w => { w with byteCount := len }

/-! ## Rotation -/

/-- The fresh file of a rotation, behind the rename. -/
def startFresh : WalCall Key Unit := do
  let state ← asks id
  io createWal
  io access
  modify fun w =>
    { w with
      disk := w.disk.attachWal, lastHash := .filled 32 0, cumulativeHasher := []
      entryCount := 0, byteCount := 0 }
  io (writeAll (serializeHeader (header state.sessionId clock state.nextSequence)))
  io access
  modify fun w => { w with byteCount := headerSize }
  io (seek headerSize)

def rotateIfNeeded (maxSizeBytes : Nat) (archiveClock headerClock : Option Nat) :
    WalCall Key (Option Int) := do
  let state ← asks id
  if state.byteCount < maxSizeBytes then pure none
  else do
    Call.reject (state.closed = true) .closed
    io access
    let timestamp := nowNanos archiveClock
    io (renameToArchive timestamp)
    onError (startFresh headerClock) markInconsistent
    pure (some timestamp)

end Wal

/-- A new log that synchronizes every append, to run the examples on. -/
def sampleLog (cr : Crypto Unit) : Res WalError (Wal Unit) :=
  (Wal.openWithSyncInterval cr (.filled 32 1) () 1 (some 3) .empty).1

end WritersProof.Wal
