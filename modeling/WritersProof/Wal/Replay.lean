/-
  What the log sees of the file system: the file behind its handle, the names
  of the directory it works in, and the I/O errors that are still to come.

  The handle and all its clones are one open file description and share its
  cursor.  A name may belong to the file behind the handle or to another file:
  a rename over the log, or of the log to an archive, leaves the handle on the
  file it was opened on.

  The loop that reads a log back, entry by entry.

  `scan_to_end`, `verify`, `recover` and `try_recover` have a copy of it each.
  The copies make their checks in one order; they differ in which of three
  checks they make (`Checks`) and in what they do when the loop stops (`Stop`).
-/
import WritersProof.Lib.File
import WritersProof.Wal.Serialization

namespace WritersProof.Wal

open Rust

inductive Named where
  /-- the file behind the handle -/
  | shared
  | own (content : Bytes)

structure Disk where
  /-- `state.file` and every clone of it -/
  file : OpenFile
  /-- the log's path -/
  wal : Option Named
  /-- the path with extension `wal.new` -/
  walNew : Option Bytes
  archives : List (Int × Named)
  /-- for each I/O call to come: success, or failure after so many bytes;
      every later call succeeds -/
  faults : List (Option Nat)

namespace Disk

/-- An empty directory, before the log is opened. -/
def empty : Disk := ⟨.empty, none, none, [], []⟩

def contentOf (d : Disk) : Named → Bytes
  | .shared => d.file.content
  | .own content => content

/-- A name of the file behind the handle, once the handle is on another file. -/
def freeze (d : Disk) (name : Named) : Named := .own (d.contentOf name)

/-- `state.file = file` -/
def attach (file : OpenFile) (d : Disk) : Disk :=
  { d with
    file := file
    wal := d.wal.map d.freeze
    archives := d.archives.map fun a => (a.1, d.freeze a.2) }

/-! ## I/O calls -/

variable {α : Type}

/-- An I/O call: what it does, and what it leaves behind when it fails. -/
def io (onFail : Nat → Disk → Disk) (onOk : Call Disk IoError α) : Call Disk IoError α := fun d =>
  match d.faults with
  | [] => onOk d
  | none :: faults => onOk { d with faults }
  | some k :: faults => (fail .other, onFail k { d with faults })

/-- A call that either fails or does what it should. -/
def atomic (onOk : Call Disk IoError α) : Call Disk IoError α := io (fun _ d => d) onOk

/-- A call that changes no content: `try_clone`, `sync_data`, `sync_all`,
    `restrict_permissions`, `create_dir_all`. -/
def access : Call Disk IoError Unit := atomic (pure ())

def onFile (f : OpenFile → OpenFile) : Call Disk IoError Unit :=
  Call.modify fun d => { d with file := f d.file }

def seek (pos : Nat) : Call Disk IoError Unit := atomic (onFile (·.seek pos))

def seekEnd : Call Disk IoError Unit := atomic (onFile (·.seekEnd))

/-- `file.metadata()?.len()` -/
def fileLen : Call Disk IoError Nat := atomic (Call.asks (·.file.len))

/-- `file.set_len(n)`, for an `n` that does not grow the file. -/
def setLen (n : Nat) : Call Disk IoError Unit := atomic (onFile (·.truncateTo n))

def readFile (n : Nat) : Call Disk IoError Bytes := fun d =>
  match d.file.readExact n with
  | (some bytes, file) => (.ok bytes, { d with file })
  | (none, file) => (fail .unexpectedEof, { d with file })

/-- `file.read_exact` into a buffer of length `n`; an empty buffer needs no I/O. -/
def readExact (n : Nat) : Call Disk IoError Bytes :=
  if n = 0 then pure []
  else io (fun k d => { d with file := (d.file.readExact (min k n)).2 }) (readFile n)

/-- `file.write_all(bytes)`; a failed call has written less than all of it. -/
def writeAll (bytes : Bytes) : Call Disk IoError Unit :=
  io (fun k d => { d with file := d.file.write (bytes.take (min k (bytes.length - 1))) })
    (onFile (·.write bytes))

/-- The handle moves to the file that the path names. -/
def attachWal (d : Disk) : Disk :=
  match d.wal with
  | none => d
  | some name => { d.attach ⟨d.contentOf name, 0⟩ with wal := some .shared }

def requireName (exists_ : Disk → Prop) [∀ d, Decidable (exists_ d)] (f : Disk → Disk) :
    Call Disk IoError Unit := fun d => if exists_ d then (.ok (), f d) else (fail .other, d)

/-- `OpenOptions::new().read(true).write(true).open(path)`, and the handle moves to it. -/
def openWal : Call Disk IoError Unit := atomic (requireName (·.wal ≠ none) attachWal)

/-- The same with `create(true)` and `truncate(false)`. -/
def openOrCreateWal : Call Disk IoError Unit := atomic (Call.modify fun d =>
  if d.wal = none then { d with wal := some (.own []) }.attachWal else d.attachWal)

/-- The same with `create(true)` and `truncate(true)`, but the handle stays where it is. -/
def createWal : Call Disk IoError Unit :=
  atomic (Call.modify fun d => { d with wal := some (.own []) })

/-- `fs::rename(path, archive_path)` -/
def renameToArchive (timestamp : Int) : Call Disk IoError Unit :=
  atomic (requireName (·.wal ≠ none) fun d => { d with
    wal := none
    archives := (d.wal.map fun name => (timestamp, name)).toList
      ++ d.archives.filter (·.1 ≠ timestamp) })

/-- `File::create(&new_path)` -/
def createNew : Call Disk IoError Unit := atomic (Call.modify fun d => { d with walNew := some [] })

/-- `new_file.write_all(bytes)` -/
def writeNew (bytes : Bytes) : Call Disk IoError Unit :=
  io (fun k d => { d with
      walNew := d.walNew.map (· ++ bytes.take (min k (bytes.length - 1))) })
    (Call.modify fun d => { d with walNew := d.walNew.map (· ++ bytes) })

/-- `fs::rename(&new_path, path)` -/
def renameNew : Call Disk IoError Unit :=
  atomic (requireName (·.walNew ≠ none) fun d =>
    { d with wal := d.walNew.map .own, walNew := none })

/-- `fs::remove_file(&new_path)` -/
def removeNew : Call Disk IoError Unit := atomic (Call.modify fun d => { d with walNew := none })

end Disk

/-- The end of a hash chain, which the next entry has to continue. -/
structure Chain where
  nextSequence : Nat
  lastHash : FixedBytes 32
  hasher : Bytes

/-- The start of a log whose header holds `last_checkpoint_seq = sequence`. -/
def Chain.start (sequence : Nat) : Chain := ⟨sequence, .filled 32 0, []⟩

/-- The local variables of the loop. -/
structure Replay where
  chain : Chain
  lastTimestamp : Int
  count : Nat
  offset : Nat

def Replay.start (sequence : Nat) : Replay := ⟨.start sequence, 0, 0, headerSize⟩

/-- The checks that not all copies of the loop make. -/
structure Checks where
  /-- `count >= MAX_WAL_ENTRIES` -/
  limit : Bool
  /-- `entry_len == 0` -/
  zeroLength : Bool
  /-- `entry.timestamp < last_timestamp` -/
  timestamp : Bool

/-- Why the loop stopped. -/
inductive Stop where
  | tooManyEntries
  /-- the file ended before or inside the length of a frame -/
  | eof
  | io
  | zeroLength
  | oversize
  /-- the file ended inside a frame -/
  | shortFrame
  | undecodable (e : Fault WalError)
  | sequenceGap
  | timestampRegression
  | brokenChain
  | cumulativeMismatch
  | invalidSignature
  /-- `expected_sequence += 1` -/
  | overflow
  | outOfFuel

section

variable {Key : Type} (cr : Crypto Key) (key : Key)

namespace Chain

def hasherAfter (chain : Chain) (entry : Entry) : Bytes :=
  chain.hasher ++ (entry.computeHash cr).val

def after (chain : Chain) (entry : Entry) : Chain :=
  ⟨chain.nextSequence + 1, entry.computeHash cr, chain.hasherAfter cr entry⟩

end Chain

namespace Replay

def accept (checks : Checks) (r : Replay) (entry : Entry) (entryLen : Nat) : Except Stop Replay :=
  if entry.sequence ≠ r.chain.nextSequence then .error .sequenceGap
  else if checks.timestamp = true ∧ entry.timestamp < r.lastTimestamp then
    .error .timestampRegression
  else if entry.prevHash ≠ r.chain.lastHash then .error .brokenChain
  else if entry.cumulativeHash ≠ cr.blake3 (r.chain.hasherAfter cr entry) then
    .error .cumulativeMismatch
  else if cr.verify key entry.cumulativeHash entry.signature = false then .error .invalidSignature
  else if 2 ^ 64 ≤ r.chain.nextSequence + 1 then .error .overflow
  else
    .ok ⟨r.chain.after cr entry, entry.timestamp, r.count + 1, r.offset + (4 + entryLen)⟩

def readBody (checks : Checks) (r : Replay) (entryLen : Nat) (d : Disk) :
    Except Stop Replay × Disk :=
  match d.readExact entryLen with
  | (.error (.err .unexpectedEof), d) => (.error .shortFrame, d)
  | (.error _, d) => (.error .io, d)
  | (.ok buf, d) =>
    match deserializeEntry buf with
    | .error e => (.error (.undecodable e), d)
    | .ok entry => (r.accept cr key checks entry entryLen, d)

/-- One turn of the loop. -/
def step (checks : Checks) (r : Replay) (d : Disk) : Except Stop Replay × Disk :=
  if checks.limit = true ∧ maxWalEntries ≤ r.count then (.error .tooManyEntries, d)
  else
    match d.readExact 4 with
    | (.error (.err .unexpectedEof), d) => (.error .eof, d)
    | (.error _, d) => (.error .io, d)
    | (.ok lenBuf, d) =>
      let entryLen := Bytes.ofBE lenBuf
      if checks.zeroLength = true ∧ entryLen = 0 then (.error .zeroLength, d)
      else if maxEntrySize < entryLen then (.error .oversize, d)
      else r.readBody cr key checks entryLen d

def loop (checks : Checks) : (fuel : Nat) → Replay → Disk → Stop × Replay × Disk
  | 0, r, d => (.outOfFuel, r, d)
  | fuel + 1, r, d =>
    match r.step cr key checks d with
    | (.error stop, d) => (stop, r, d)
    | (.ok r, d) => loop checks fuel r d

/-- The loop, with a turn for every byte of the file. -/
def run (checks : Checks) (r : Replay) (d : Disk) : Stop × Replay × Disk :=
  loop cr key checks (d.file.len + 1) r d

end Replay

end

end WritersProof.Wal
