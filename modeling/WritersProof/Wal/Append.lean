/-
  What an append does to a log that is ready for it.

  `Steady` is the state between two calls: no I/O error to come, the cursor and
  `byte_count` at the end of the file, and counters that leave room.  On such a
  log an append is refused for the size of the file, fails for the size of its
  payload, or writes a frame, and the log is steady again.
-/
import WritersProof.Wal.Readers

namespace WritersProof.Wal

set_option linter.dupNamespace false

open Rust Call

variable {Key : Type}

/-- The arguments of an append, and what the clock shows. -/
structure Attempt where
  entryType : EntryType
  payload : Bytes
  clock : Option Nat

def Attempt.run (cr : Crypto Key) (a : Attempt) (w : Wal Key) : Res WalError Unit × Wal Key :=
  Wal.append cr a.entryType a.payload a.clock w

namespace Wal

/-- The log is ready for an append. -/
structure Steady (w : Wal Key) : Prop where
  quiet : w.disk.Quiet
  name : w.disk.wal = some .shared
  open_ : w.closed = false
  consistent : w.inconsistent = false
  atEnd : w.disk.file.AtEnd
  byteCount : w.byteCount = w.disk.file.len
  entries : headerSize + 153 * w.entryCount ≤ w.byteCount
  limit : w.entryCount < maxWalEntries
  bytes : w.byteCount < 2 ^ 33
  syncs : w.pendingSyncs < w.syncInterval
  interval : w.syncInterval < 2 ^ 64

variable {cr : Crypto Key} {w : Wal Key} {a : Attempt}

/-- The entry that an append would write. -/
def entryFor (cr : Crypto Key) (w : Wal Key) (a : Attempt) : Entry :=
  nextEntry cr w.signingKey w.chain (nowNanos a.clock) a.entryType a.payload

def hashed (cr : Crypto Key) (w : Wal Key) (entry : Entry) : Wal Key :=
  { w with cumulativeHasher := w.chain.hasherAfter cr entry }

@[simp] theorem length_frame (data : Bytes) : (frame data).length = 4 + data.length := by
  simp [frame]

def grown (cr : Crypto Key) (w : Wal Key) (entry : Entry) (pendingSyncs : Nat) : Wal Key :=
  { (w.setFile (w.disk.file.write (frame (entryBytes entry)))).withChain
      (w.chain.after cr entry) with
    entryCount := w.entryCount + 1
    byteCount := w.byteCount + (4 + (entryOverhead + entry.payload.length))
    pendingSyncs }

theorem bump_eq {a b : Nat} (h : a + b < 2 ^ 64) : bump a b = .ok (a + b) := by
  rw [bump, checkedAdd_eq_some h, unwrap_some]

theorem syncAppend_quiet (hq : w.disk.Quiet) (hsyncs : w.pendingSyncs + 1 < 2 ^ 64)
    (forceSync : Bool) :
    ∃ pendingSyncs, (w.pendingSyncs < w.syncInterval → pendingSyncs < w.syncInterval)
      ∧ syncAppend forceSync w = (.ok (), { w with pendingSyncs }) := by
  rw [syncAppend, asks_id_bind, bump_eq hsyncs, lift_ok_bind,
    bind_of_ok (modify_apply _ _)]
  by_cases hsync : forceSync = true ∨ w.syncInterval ≤ w.pendingSyncs + 1
  · rw [if_pos hsync, bind_of_ok (onError_of_ok (io_access (by exact hq)))]
    exact ⟨0, by omega, rfl⟩
  · rw [if_neg hsync]
    exact ⟨w.pendingSyncs + 1, by omega, rfl⟩

theorem recordAppend_eq {entryHash : FixedBytes 32} {dataLen : Nat}
    (hsequence : w.nextSequence + 1 < 2 ^ 64) (hcount : w.entryCount + 1 < 2 ^ 64)
    (hbytes : w.byteCount + (4 + dataLen) < 2 ^ 64) :
    recordAppend entryHash dataLen w = (.ok (), { w with
      lastHash := entryHash, nextSequence := w.nextSequence + 1, entryCount := w.entryCount + 1
      byteCount := w.byteCount + (4 + dataLen) }) := by
  rw [recordAppend, asks_id_bind, bump_eq hsequence, lift_ok_bind, bump_eq hcount,
    lift_ok_bind, bump_eq hbytes, lift_ok_bind]
  rfl

/-- The refusals at the start of an append do not apply. -/
theorem append_enabled (cr : Crypto Key) (a : Attempt) (hopen : w.closed = false)
    (hconsistent : w.inconsistent = false) (hfull : w.byteCount < maxWalSize) :
    a.run cr w
      = (do
          let data ← lift (serializeEntry (entryFor cr w a))
          io (Disk.writeAll (frame data))
          syncAppend (a.entryType == .checkpoint)
          recordAppend ((entryFor cr w a).computeHash cr) data.length :
          WalCall Key Unit) (hashed cr w (entryFor cr w a)) := by
  rw [Attempt.run, append, asks_id_bind,
    bind_of_ok (reject_neg (by rw [hopen]; decide) _ _),
    bind_of_ok (reject_neg (by rw [hconsistent]; decide) _ _),
    bind_of_ok (reject_neg (by omega) _ _)]
  exact bind_of_ok (modify_apply _ _)

theorem append_tooLarge (cr : Crypto Key) (a : Attempt) (hopen : w.closed = false)
    (hconsistent : w.inconsistent = false) (hfull : maxWalSize ≤ w.byteCount) :
    a.run cr w = (fail (.tooLarge w.byteCount), w) := by
  rw [Attempt.run, append, asks_id_bind,
    bind_of_ok (reject_neg (by rw [hopen]; decide) _ _),
    bind_of_ok (reject_neg (by rw [hconsistent]; decide) _ _),
    bind_of_error (reject_pos hfull _ _)]
  rfl

theorem append_full (cr : Crypto Key) (a : Attempt) (h : w.Steady)
    (hfull : maxWalSize ≤ w.byteCount) :
    a.run cr w = (fail (.tooLarge w.byteCount), w) :=
      append_tooLarge cr a h.open_ h.consistent hfull

theorem append_huge (cr : Crypto Key) (a : Attempt) (h : w.Steady)
    (hfull : w.byteCount < maxWalSize)
    (hhuge : 2 ^ 32 ≤ a.payload.length) :
    ∃ text, a.run cr w = (fail (.serialization text), hashed cr w (entryFor cr w a)) := by
  obtain ⟨text, hfail⟩ : ∃ text, serializeEntry (entryFor cr w a) = fail (.serialization text) :=
    serializeEntry_of_le hhuge
  rw [append_enabled cr a h.open_ h.consistent hfull, hfail]
  exact ⟨text, rfl⟩

/-- No counter of a log that takes the entry overflows. -/
theorem Steady.counters_lt (h : w.Steady) (hfull : w.byteCount < maxWalSize) {n : Nat}
    (hn : n < 2 ^ 32) :
    w.entryCount + 1 < 2 ^ 64 ∧ w.byteCount + (4 + (entryOverhead + n)) < 2 ^ 64 := by
  have hlimit := h.limit
  unfold maxWalEntries at hlimit
  unfold maxWalSize at hfull
  unfold entryOverhead
  omega

/-- On a disk without faults the entry is written, and the counters move. -/
theorem append_grown (cr : Crypto Key) (a : Attempt) (hq : w.disk.Quiet) (hopen : w.closed = false)
    (hconsistent : w.inconsistent = false) (hfull : w.byteCount < maxWalSize)
    (hfits : a.payload.length < 2 ^ 32) (hsyncs : w.pendingSyncs + 1 < 2 ^ 64)
    (hnext : w.nextSequence + 1 < 2 ^ 64) (hcount : w.entryCount + 1 < 2 ^ 64)
    (hbytes : w.byteCount + (4 + (entryOverhead + a.payload.length)) < 2 ^ 64) :
    ∃ pendingSyncs, (w.pendingSyncs < w.syncInterval → pendingSyncs < w.syncInterval)
      ∧ a.run cr w = (.ok (), grown cr w (entryFor cr w a) pendingSyncs) := by
  generalize hentry : entryFor cr w a = entry
  have hpayload : entry.payload = a.payload := by
    rw [← hentry]
    rfl
  obtain ⟨pendingSyncs, hlt, hsync⟩ := syncAppend_quiet
    (w :=
      (hashed cr w entry).setFile ((hashed cr w entry).disk.file.write (frame (entryBytes entry))))
    hq hsyncs (a.entryType == .checkpoint)
  refine ⟨pendingSyncs, hlt, ?_⟩
  rw [append_enabled cr a hopen hconsistent hfull, hentry,
    serializeEntry_eq (by rw [hpayload]; exact hfits), lift_ok_bind,
    bind_of_ok (io_writeAll (w := hashed cr w entry) hq _),
    bind_of_ok hsync, length_entryBytes]
  rw [← hpayload] at hbytes
  exact recordAppend_eq hnext hcount hbytes

theorem append_fits (cr : Crypto Key) (a : Attempt) (h : w.Steady)
    (hfull : w.byteCount < maxWalSize)
    (hfits : a.payload.length < 2 ^ 32) (hnext : w.nextSequence + 1 < 2 ^ 64) :
    ∃ pendingSyncs < w.syncInterval, a.run cr w
      = (.ok (), grown cr w (entryFor cr w a) pendingSyncs) := by
  obtain ⟨hcount, hbytes⟩ := h.counters_lt hfull hfits
  obtain ⟨pendingSyncs, hlt, hrun⟩ := append_grown cr a h.quiet h.open_ h.consistent hfull hfits
    (Nat.lt_of_le_of_lt h.syncs h.interval) hnext hcount hbytes
  exact ⟨pendingSyncs, hlt h.syncs, hrun⟩

/-- An append finds the log full, finds its payload too large, or grows the log. -/
theorem append_cases (cr : Crypto Key) (a : Attempt) (h : w.Steady)
    (hnext : w.nextSequence + 1 < 2 ^ 64) :
    (maxWalSize ≤ w.byteCount ∧ a.run cr w = (fail (.tooLarge w.byteCount), w))
      ∨ w.byteCount < maxWalSize
        ∧ ((2 ^ 32 ≤ a.payload.length
            ∧ ∃ text, a.run cr w = (fail (.serialization text), hashed cr w (entryFor cr w a)))
          ∨ a.payload.length < 2 ^ 32
            ∧ ∃ pendingSyncs < w.syncInterval,
              a.run cr w = (.ok (), grown cr w (entryFor cr w a) pendingSyncs)) := by
  by_cases hfull : maxWalSize ≤ w.byteCount
  · exact .inl ⟨hfull, append_full cr a h hfull⟩
  · refine .inr ⟨Nat.lt_of_not_le hfull, ?_⟩
    by_cases hhuge : 2 ^ 32 ≤ a.payload.length
    · exact .inl ⟨hhuge, append_huge cr a h (Nat.lt_of_not_le hfull) hhuge⟩
    · exact .inr ⟨Nat.lt_of_not_le hhuge,
        append_fits cr a h (Nat.lt_of_not_le hfull) (Nat.lt_of_not_le hhuge) hnext⟩

theorem Steady.hashed (h : w.Steady) (e : Entry) : (hashed cr w e).Steady :=
  ⟨h.quiet, h.name, h.open_, h.consistent, h.atEnd, h.byteCount, h.entries, h.limit, h.bytes,
    h.syncs, h.interval⟩

theorem Steady.grown (h : w.Steady) (hfull : w.byteCount < maxWalSize) {entry : Entry}
    (hfits : entry.payload.length < 2 ^ 32) {pendingSyncs : Nat}
    (hsyncs : pendingSyncs < w.syncInterval) : (grown cr w entry pendingSyncs).Steady where
  quiet := h.quiet
  name := h.name
  open_ := h.open_
  consistent := h.consistent
  atEnd := OpenFile.atEnd_write h.atEnd _
  byteCount := by
    have hlen := h.byteCount
    rw [OpenFile.len] at hlen
    change w.byteCount + (4 + (entryOverhead + entry.payload.length))
      = (w.disk.file.write (frame (entryBytes entry))).content.length
    rw [OpenFile.write_atEnd h.atEnd, List.length_append, length_frame, length_entryBytes, hlen]
  entries := by
    have hentries := h.entries
    change headerSize + 153 * (w.entryCount + 1)
      ≤ w.byteCount + (4 + (entryOverhead + entry.payload.length))
    unfold entryOverhead
    omega
  limit := by
    have hentries := h.entries
    change w.entryCount + 1 < maxWalEntries
    unfold maxWalSize at hfull
    unfold maxWalEntries
    omega
  bytes := by
    change w.byteCount + (4 + (entryOverhead + entry.payload.length)) < 2 ^ 33
    unfold maxWalSize at hfull
    unfold entryOverhead
    omega
  syncs := hsyncs
  interval := h.interval

end Wal

end WritersProof.Wal
