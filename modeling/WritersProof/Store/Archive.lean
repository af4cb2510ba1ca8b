/-
  WritersProof.Store.Archive

  Moving old events to an archive file (crates/cpoe/src/store/archive.rs).

  A call works on the database and on two kinds of files next to it, archives
  under their final names and archives under their `.tmp` names.  Each of its I/O
  steps succeeds, returns an error or is where the process dies; what came before
  stays done.  The transaction is one step: it copies and deletes when it commits.
-/
import WritersProof.Store.Database

namespace WritersProof.Store

open Rust Call

variable {Extra : Type}

/-! ## Files -/

/-- An archive database: its events in order, and the integrity record of a complete
    one.  The date and cutoff it also notes down are read by nothing here. -/
structure Archive (Extra : Type) where
  records : List (Record Extra)
  integrity : Option Integrity

/-- A file without content, or with a schema only. -/
def Archive.blank : Archive Extra := { records := [], integrity := none }

/-- The database with the archive files, the oldest one first.  Names are dates. -/
structure Disk (Extra : Type) where
  db : Database Extra
  archives : List (String × Archive Extra)
  tmps : List (String × Archive Extra)

namespace Disk

def without (files : List (String × Archive Extra)) (date : String) :
    List (String × Archive Extra) :=
  files.filter fun file => file.1 ≠ date

def tmp? (d : Disk Extra) (date : String) : Option (Archive Extra) :=
  (d.tmps.find? fun file => file.1 = date).map Prod.snd

variable (date : String)

def addPlaceholder (d : Disk Extra) : Disk Extra :=
  { d with archives := d.archives ++ [(date, Archive.blank)] }

def removePlaceholder (d : Disk Extra) : Disk Extra :=
  { d with archives := without d.archives date }

def removeTmp (d : Disk Extra) : Disk Extra :=
  { d with tmps := without d.tmps date }

def writeTmp (archive : Archive Extra) (d : Disk Extra) : Disk Extra :=
  { d with tmps := without d.tmps date ++ [(date, archive)] }

/-- `rename`: the file leaves its `.tmp` name. -/
def rename (archive : Archive Extra) (d : Disk Extra) : Disk Extra :=
  { d with archives := d.archives ++ [(date, archive)], tmps := without d.tmps date }

end Disk

/-! ## I/O steps -/

/-- The I/O steps of `archive_old_events`, in order. -/
inductive IoStep where
  | diskSpace
  | countEvents
  | createFinal
  | removePlaceholder
  | removeLeftover
  | chainLink
  | firstRemaining
  | createSchema
  | attach
  | transaction
  | commit
  | detach
  | cleanUp
  | finalize
  | rename
  | vacuum
  | setPermissions
  | activeSize
  deriving DecidableEq

inductive Outcome where
  | ok
  | err
  | crash
  deriving DecidableEq

abbrev Outcomes := IoStep → Outcome

/-- No step fails. -/
def Outcomes.clear : Outcomes := fun _ => .ok

def io (outcomes : Outcomes) (step : IoStep) (f : Disk Extra → Disk Extra) :
    Call (Disk Extra) String Unit := fun d =>
  match outcomes step with
  | .ok => (.ok (), f d)
  | .err => (fail "I/O error", d)
  | .crash => (abort, d)

/-! ## The call -/

def Record.old (cutoff : Int) (record : Record Extra) : Bool := record.timestampNs < cutoff

/-- The hash of the last event to archive. -/
def chainLink (cutoff : Int) (db : Database Extra) : Res String Digest := do
  let last ← okOr (db.events.records.filter (Record.old cutoff)).getLast? "Query returned no rows"
  okOr (FixedBytes.tryFrom 32 last.eventHash) "Invalid event_hash length for chain link"

/-- The first event that stays must link to the last one that goes. -/
def checkContinuity (cutoff : Int) (link : Digest) (db : Database Extra) : Res String Unit :=
  match (db.events.records.filter fun r => !r.old cutoff).head? with
  | none => .ok ()
  | some first => reject (first.previousHash ≠ link.val)
      ("Chain continuity violation: first remaining event's previous_hash "
        ++ "does not match last archived event's event_hash")

section Calls

variable (C : Crypto) (key : Bytes)

/-- `INSERT INTO archive_db ...`: a complete archive takes no second set of metadata,
    and `event_hash` is `UNIQUE`. -/
def fillArchive (link : Digest) (tmp : Archive Extra) (archived : List (Record Extra)) :
    Res String (Archive Extra) := do
  reject (∃ r ∈ archived, r.eventHash ∈ tmp.records.map Record.eventHash)
    "UNIQUE constraint failed: secure_events.event_hash"
  reject tmp.integrity.isSome "UNIQUE constraint failed: archive_metadata.key"
  let hmac := computeIntegrityHmac C key link archived.length 0
  .ok { records := tmp.records ++ archived
        integrity := some { chainHash := link.val, eventCount := archived.length,
                            lastVerifiedSequence := 0, hmac := hmac.val } }

/-- The active database without its old events.  The last id that remains becomes both
    the last verified sequence and the event count. -/
def deleteOld (cutoff : Int) (db : Database Extra) : Res String (Database Extra) := do
  let remaining := db.events.filter fun r => !r.old cutoff
  let integrity ← okOr db.integrity "Query returned no rows"
  let chainHash ← okOr (FixedBytes.tryFrom 32 integrity.chainHash) "Invalid chain_hash in integrity"
  let newLast := remaining.maxId
  let hmac := computeIntegrityHmac C key chainHash newLast newLast
  .ok { db with
    events := remaining
    integrity := some { integrity with
      eventCount := newLast, lastVerifiedSequence := newLast, hmac := hmac.val } }

structure ArchiveResult where
  archivePath : String
  eventsArchived : Nat
  chainLinkHash : Digest

variable (outcomes : Outcomes)

/-- The closure that runs the transaction: nothing is changed unless it commits. -/
def moveOld (cutoff : Int) (date : String) (link : Digest) :
    Call (Disk Extra) String (Archive Extra) := do
  io outcomes .transaction id
  let d ← asks id
  let tmp := (d.tmp? date).getD Archive.blank
  let archive ← lift
    (fillArchive C key link tmp (d.db.events.records.filter (Record.old cutoff)))
  let db ← lift (deleteOld C key cutoff d.db)
  io outcomes .commit fun d => { d.writeTmp date archive with db }
  pure archive

/-- One archive per day: a file of that name is created and removed again. -/
def reserve (date : String) : Call (Disk Extra) String Unit := do
  let d ← asks id
  Call.reject (date ∈ d.archives.map Prod.fst)
    (s!"Archive file already exists: events_archive_{date}.db. "
      ++ "Only one archive per day is supported.")
  io outcomes .createFinal (Disk.addPlaceholder date)
  io outcomes .removePlaceholder (Disk.removePlaceholder date)

/-- The chain checks, and an empty archive under its `.tmp` name. -/
def prepare (outcomes : Outcomes) (cutoff : Int) (date : String) :
    Call (Disk Extra) String Digest := do
  -- a leftover of an earlier call; that it cannot be removed is only logged
  let _ ← attempt (io outcomes .removeLeftover (Disk.removeTmp date))
  let d ← asks id
  io outcomes .chainLink id
  let link ← lift (chainLink cutoff d.db)
  io outcomes .firstRemaining id
  lift (checkContinuity cutoff link d.db)
  io outcomes .createSchema fun d => d.writeTmp date ((d.tmp? date).getD Archive.blank)
  io outcomes .attach id
  pure link

/-- What runs after the transaction has committed. -/
def promote (date : String) (archive : Archive Extra) :
    Call (Disk Extra) String Unit := do
  io outcomes .finalize id
  io outcomes .rename (Disk.rename date archive)
  io outcomes .vacuum id
  io outcomes .setPermissions id
  io outcomes .activeSize id

/-- What follows the transaction: a failed one leaves no `.tmp` file, a committed one is
    promoted. -/
def settle (date : String) (result : ArchiveResult) :
    Except String (Archive Extra) → Call (Disk Extra) String (Option ArchiveResult)
  | .error e => do
    let _ ← attempt (io outcomes .cleanUp (Disk.removeTmp date))
    lift (fail e)
  | .ok archive => do
    promote outcomes date archive
    pure (some result)

/-- `archive_old_events`.  The cutoff and the date are what the clock and `age_days`
    give. -/
def archiveOldEvents (ageDays : Option Nat) (cutoff : Int) (date : String) :
    Call (Disk Extra) String (Option ArchiveResult) := do
  Call.reject (ageDays = some 0) "archive age_days must be > 0"
  io outcomes .diskSpace id
  io outcomes .countEvents id
  let d ← asks id
  let archiveCount := (d.db.events.records.filter (Record.old cutoff)).length
  if archiveCount = 0 then
    pure none
  else
    reserve outcomes date
    let link ← prepare outcomes cutoff date
    let moved ← attempt (moveOld C key outcomes cutoff date link)
    let _ ← attempt (io outcomes .detach id)
    settle outcomes date
      { archivePath := date, eventsArchived := archiveCount, chainLinkHash := link } moved

end Calls

end WritersProof.Store
