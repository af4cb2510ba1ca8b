/-
  WritersProof.Store.Interrupted

  Calls of `archive_old_events` that may stop at any of their steps, one after the
  other.

  A leftover `.tmp` file does not mean that the transaction never committed: between
  the commit and the rename it is the only place that holds the events.  No later
  call promotes it, and one that archives on the same day removes it.
-/
import WritersProof.Store.Chain

namespace WritersProof.Store

open Rust

variable {Extra : Type} {C : Crypto} {key : Bytes}

structure ArchiveCall where
  outcomes : Outcomes
  ageDays : Option Nat
  cutoff : Int
  date : String

/-- The event is in the active database or in an archive under its final name. -/
def Present (d : Disk Extra) (r : Record Extra) : Prop :=
  r ∈ d.db.events.records ∨ r ∈ d.archives.flatMap fun file => file.2.records

section Defs

variable (C : Crypto) (key : Bytes)

def ArchiveCall.run (c : ArchiveCall) (d : Disk Extra) : Disk Extra :=
  (archiveOldEvents C key c.outcomes c.ageDays c.cutoff c.date d).2

def Disk.after (d : Disk Extra) (calls : List ArchiveCall) : Disk Extra :=
  calls.foldl (fun d c => c.run C key d) d

end Defs

/-! ## One call -/

variable {d : Disk Extra} {db : Database Extra} {c : ArchiveCall}

end WritersProof.Store
