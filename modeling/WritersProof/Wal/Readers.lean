/-
  What `verify`, `recover`, `try_recover` and `open` do with a file, on a disk
  without I/O errors.

  All four read the header and run the loop on the bytes behind it, so each
  result is a function of the `Split` of these bytes.
-/
import WritersProof.Wal.Frames

namespace WritersProof.Wal

set_option linter.dupNamespace false

open Rust Replay Call

variable {Key : Type}

structure Header.Valid (header : Header) (sessionId : FixedBytes 32) : Prop where
  magic : header.magic = Wal.magic
  version : header.version = Wal.version
  sessionId : header.sessionId = sessionId

namespace Wal

/-- The file of the log starts with `header`. -/
def HasHeader (w : Wal Key) (header : Header) : Prop :=
  deserializeHeader (w.disk.file.content.take headerSize) = .ok header

def body (w : Wal Key) : Bytes := w.disk.file.content.drop headerSize

/-- The log after `n` bytes of the body have been read. -/
def readTo (w : Wal Key) (n : Nat) : Wal Key :=
  w.setFile ⟨w.disk.file.content, headerSize + n⟩

variable {cr : Crypto Key} {w : Wal Key} {header : Header} {checks : Checks}

theorem HasHeader.length_le (h : w.HasHeader header) : headerSize ≤ w.disk.file.content.length := by
  by_contra hlt
  unfold HasHeader deserializeHeader at h
  rw [if_pos (by rw [List.length_take]; omega)] at h
  cases h

/-- The file is the header, the frames that a reader accepts, and its tail. -/
theorem HasHeader.length_split (h : w.HasHeader header) {key : Key} {r : Replay}
    (s : Split cr key checks r w.body) :
    w.disk.file.len = headerSize + (framesBytes s.frames).length + s.tail.length := by
  have hle := h.length_le
  have hbody := s.length_eq
  have hdrop : w.body.length = w.disk.file.content.length - headerSize := List.length_drop
  rw [OpenFile.len]
  omega

section

variable (hq : w.disk.Quiet)

include hq

theorem io_readExact {n : Nat} (h : n ≤ w.disk.file.rest.length) :
    io (Disk.readExact n) w
      = (.ok (w.disk.file.rest.take n), w.setFile (w.disk.file.advance n)) := by
  have hread := Disk.readExact_of_le (hq.clear _) h
  rw [hq.tick_eq] at hread
  exact io_of_ok hread

/-- The header is read, and the cursor is behind it. -/
theorem rewind_quiet (h : w.HasHeader header) :
    rewind w = (.ok header, w.readTo 0) := by
  have hbuf : headerSize ≤ (w.setFile (w.disk.file.seek 0)).disk.file.rest.length := h.length_le
  have hread := io_readExact (w := w.setFile (w.disk.file.seek 0)) hq hbuf
  rw [rewind, bind_of_ok (io_access hq), bind_of_ok (io_seek hq 0), bind_of_ok hread]
  have hdecode : deserializeHeader ((w.setFile (w.disk.file.seek 0)).disk.file.rest.take headerSize)
      = .ok header := h
  rw [hdecode, lift_ok_bind, bind_of_ok (io_seek (by exact hq) headerSize)]
  rfl

theorem replay_quiet (s : Split cr w.signingKey checks (.start header.lastCheckpointSeq) w.body) :
    replay cr checks header (w.readTo 0) = (.ok (s.stop, s.final), w.readTo s.read) := by
  have hrun := s.run_quiet (d := (w.readTo 0).disk) hq
  rw [replay]
  exact congrArg (fun p : Stop × Replay × Disk =>
    (Except.ok (p.1, p.2.1), { w.readTo 0 with disk := p.2.2 })) hrun

theorem verify_quiet (h : w.HasHeader header)
    (s : Split cr w.signingKey verifyChecks (.start header.lastCheckpointSeq) w.body) :
    verify cr w = (verifyOutcome s.stop s.final, w.readTo s.read) := by
  rw [verify, bind_of_ok (rewind_quiet hq h), bind_of_ok (replay_quiet hq s)]
  rfl

/-! ## Opening -/

theorem dropTail_quiet (offset : Nat) :
    ∃ lost cursor, dropTail offset w.disk.file.len w
      = (.ok lost, w.setFile ⟨w.disk.file.content.take offset, cursor⟩) := by
  rw [dropTail]
  by_cases hlt : offset < w.disk.file.len
  · rw [if_pos hlt, bind_of_ok (io_setLen hq offset)]
    exact ⟨_, _, rfl⟩
  · have htake : w.disk.file.content.take offset = w.disk.file.content :=
      List.take_of_length_le (Nat.le_of_not_lt hlt)
    rw [if_neg hlt, htake]
    exact ⟨_, _, rfl⟩

/-- The file is cut at `offset`, and the cursor is there. -/
theorem finishScan_quiet (offset : Nat) :
    ∃ lost, finishScan offset w
      = (.ok lost, { w.setFile ⟨w.disk.file.content.take offset, offset⟩ with
          byteCount := offset }) := by
  obtain ⟨lost, cursor, hdrop⟩ := dropTail_quiet hq offset
  rw [finishScan, bind_of_ok (onError_of_ok (io_fileLen hq)), bind_of_ok hdrop,
    bind_of_ok (modify_apply _ _), bind_of_ok (io_seek (by exact hq) offset)]
  exact ⟨lost, rfl⟩

end

/-- Where its calls succeed, a loop ends at one of two limits or where the rest is cut off. -/
theorem stop_cases {r : Replay} {bytes : Bytes} {key : Key} (s : Split cr key checks r bytes) :
    (s.stop = .tooManyEntries ∧ maxWalEntries ≤ s.final.count) ∨ s.stop = .overflow
      ∨ recoverOutcome s.stop = .ok ()
        ∧ ∀ offset, scanOutcome s.stop offset = (finishScan offset : WalCall Key Nat) := by
  have hstop := scan_stop (congrArg Turn.outcome s.stops)
  obtain ⟨hstop, -, hlimit⟩ | ⟨-, ⟨hstop, -⟩ | ⟨-, hstop | hstop | hstop | ⟨text, hstop⟩
    | ⟨value, hstop⟩ | hstop⟩⟩ := hstop
  · exact .inl ⟨hstop, hlimit⟩
  all_goals try (rw [hstop]; exact .inr (.inr ⟨rfl, fun offset => rfl⟩))
  revert hstop
  generalize s.stop = stop
  cases stop with
  | overflow => exact fun _ => .inr (.inl rfl)
  | sequenceGap | timestampRegression | brokenChain | cumulativeMismatch | invalidSignature =>
    exact fun _ => .inr (.inr ⟨rfl, fun offset => rfl⟩)
  | tooManyEntries | eof | io | zeroLength | oversize | shortFrame | undecodable | outOfFuel =>
    exact fun h => h.elim

theorem readHeader_quiet (hq : w.disk.Quiet) (h : w.HasHeader header)
    (hvalid : header.Valid w.sessionId) :
    readHeader w = (.ok (), { w.readTo 0 with nextSequence := header.lastCheckpointSeq }) := by
  have hbuf : headerSize ≤ (w.setFile (w.disk.file.seek 0)).disk.file.rest.length := h.length_le
  have hread := io_readExact (w := w.setFile (w.disk.file.seek 0)) hq hbuf
  have hdecode : deserializeHeader ((w.setFile (w.disk.file.seek 0)).disk.file.rest.take headerSize)
      = .ok header := h
  rw [readHeader, asks_id_bind, bind_of_ok (io_seek hq 0), bind_of_ok hread, hdecode,
    lift_ok_bind, bind_of_ok (reject_neg (not_not_intro hvalid.magic) _ _),
    bind_of_ok (reject_neg (not_not_intro hvalid.version) _ _),
    bind_of_ok (reject_neg (not_not_intro hvalid.sessionId) _ _)]
  rfl

section

variable {sessionId : FixedBytes 32} {key : Key} {syncInterval : Nat} {clock : Option Nat}
  {d : Disk}

/-- The state behind the loop of `scan_to_end`. -/
def scanned (sessionId : FixedBytes 32) (key : Key) (syncInterval : Nat) (d : Disk)
    {r : Replay} {bytes : Bytes} (s : Split cr key scanChecks r bytes) : Wal Key :=
  { ((initial sessionId key syncInterval d).readTo s.read).withChain s.final.chain with
    entryCount := s.final.count }

/-- The log that `open` leaves when the scan goes to its end. -/
def opened (sessionId : FixedBytes 32) (key : Key) (syncInterval : Nat) (d : Disk)
    {r : Replay} {bytes : Bytes} (s : Split cr key scanChecks r bytes) : Wal Key :=
  { (scanned sessionId key syncInterval d s).setFile
      ⟨d.file.content.take s.final.offset, s.final.offset⟩ with
    byteCount := s.final.offset }

variable (hq : d.Quiet) (h : (initial sessionId key syncInterval d).HasHeader header)
  (hvalid : header.Valid sessionId)
  (s : Split cr key scanChecks (.start header.lastCheckpointSeq)
    (initial sessionId key syncInterval d).body)

include hq h hvalid

theorem openExisting_quiet :
    openExisting cr (initial sessionId key syncInterval d)
      = (scanOutcome s.stop s.final.offset >>= fun _ => pure ())
          (scanned sessionId key syncInterval d s) := by
  have hrun := s.run_quiet (d := ((initial sessionId key syncInterval d).readTo 0).disk) hq
  have hscan : scanToEnd cr { (initial sessionId key syncInterval d).readTo 0 with
        nextSequence := header.lastCheckpointSeq }
      = scanOutcome s.stop s.final.offset (scanned sessionId key syncInterval d s) :=
    congrArg (fun p : Stop × Replay × Disk => scanOutcome p.1 p.2.1.offset
      { ((initial sessionId key syncInterval d).withChain p.2.1.chain) with
        disk := p.2.2, entryCount := p.2.1.count }) hrun
  rw [openExisting, bind_of_ok (readHeader_quiet (by exact hq) h hvalid), bind_apply,
    hscan]
  rfl

theorem openExisting_of_finish
    (hfinish : ∀ offset, scanOutcome s.stop offset = (finishScan offset : WalCall Key Nat)) :
    openExisting cr (initial sessionId key syncInterval d)
      = (.ok (), opened sessionId key syncInterval d s) := by
  obtain ⟨lost, hscan⟩ :=
    finishScan_quiet (w := scanned sessionId key syncInterval d s) hq s.final.offset
  rw [openExisting_quiet hq h hvalid s, hfinish, bind_of_ok hscan]
  rfl

theorem openExisting_entryCount :
    (openExisting cr (initial sessionId key syncInterval d)).2.entryCount = s.final.count := by
  obtain ⟨hstop, -⟩ | hstop | ⟨-, hfinish⟩ := stop_cases s
  · rw [openExisting_quiet hq h hvalid s, hstop]
    rfl
  · rw [openExisting_quiet hq h hvalid s, hstop]
    rfl
  · rw [openExisting_of_finish hq h hvalid s hfinish]
    rfl

end

/-! ## Recovery -/

theorem recoverOutcome_cases {r : Replay} {bytes : Bytes} {key : Key}
    (s : Split cr key checks r bytes) : s.stop = .overflow ∨ recoverOutcome s.stop = .ok () := by
  obtain ⟨hstop, -⟩ | hstop | ⟨hok, -⟩ := stop_cases s
  · rw [hstop]
    exact .inr rfl
  · exact .inl hstop
  · exact .inr hok

section

variable {clock : Option Nat}

/-- The log after `recover` has cut the tail. -/
def recovered (w : Wal Key) {r : Replay} {bytes : Bytes}
    (s : Split cr w.signingKey checks r bytes) : Wal Key :=
  { (w.setFile ⟨w.disk.file.content.take s.final.offset, s.final.offset⟩).withChain
      s.final.chain with
    entryCount := s.final.count, byteCount := s.final.offset, inconsistent := false }

theorem cutAt_quiet (hq : w.disk.Quiet) {r : Replay} {bytes : Bytes}
    (s : Split cr w.signingKey checks r bytes) (n fileLen : Nat) :
    cutAt clock s.final fileLen (w.readTo n)
      = (.ok ⟨(fileLen - s.final.offset) / 153, s.final.chain.nextSequence, nowNanos clock⟩,
          recovered w s) := by
  rw [cutAt, bind_of_ok (io_setLen (by exact hq) _), bind_of_ok (io_access (by exact hq)),
    bind_of_ok (io_seek (by exact hq) _), bind_of_ok (modify_apply _ _)]
  rfl

theorem recover_quiet (hq : w.disk.Quiet) (hclosed : w.closed = false) (h : w.HasHeader header)
    (s : Split cr w.signingKey recoverChecks (.start header.lastCheckpointSeq) w.body)
    (hok : recoverOutcome s.stop = .ok ()) :
    recover cr clock w =
      if s.tail = [] then (.ok ⟨0, w.nextSequence, nowNanos clock⟩, w.readTo s.read)
      else if s.frames = [] then (fail .unrecoverable, w.readTo s.read)
      else (.ok ⟨s.tail.length / 153, s.final.chain.nextSequence, nowNanos clock⟩,
        recovered w s) := by
  have hlen := h.length_split s
  have hoffset : s.final.offset = headerSize + (framesBytes s.frames).length := s.final_offset
  have hcount : s.final.count = 0 + s.frames.length := s.final_count
  rw [recover, asks_id_bind,
    bind_of_ok (reject_neg (by rw [hclosed]; decide) _ _),
    bind_of_ok (rewind_quiet hq h), bind_of_ok (replay_quiet hq s)]
  dsimp only
  rw [hok, lift_ok_bind, bind_of_ok (io_fileLen (by exact hq))]
  by_cases htail : s.tail = []
  · rw [if_pos htail, if_pos]
    · rfl
    · rw [htail, List.length_nil, Nat.add_zero] at hlen
      exact Nat.le_of_eq (hlen.trans hoffset.symm)
  · have hpos := List.length_pos_of_ne_nil htail
    have hlonger : ¬ (w.readTo s.read).disk.file.len ≤ s.final.offset := by
      change ¬ w.disk.file.len ≤ s.final.offset
      omega
    rw [if_neg htail, if_neg hlonger]
    by_cases hframes : s.frames = []
    · rw [if_pos hframes, if_pos (by rw [hcount, hframes]; rfl)]
      rfl
    · have := List.length_pos_of_ne_nil hframes
      have hlost : (w.readTo s.read).disk.file.len - s.final.offset = s.tail.length := by
        change w.disk.file.len - s.final.offset = s.tail.length
        omega
      rw [if_neg hframes, if_neg (by omega), cutAt_quiet hq s, hlost]

/-! ## Recovery without cutting -/

/-- The log after `try_recover` has taken over what it read. -/
def revalidated (w : Wal Key) {r : Replay} {bytes : Bytes}
    (s : Split cr w.signingKey checks r bytes) : Wal Key :=
  { (w.setFile ⟨w.disk.file.content, s.final.offset⟩).withChain s.final.chain with
    entryCount := s.final.count, byteCount := s.final.offset, inconsistent := false
    pendingSyncs := 0 }

theorem revalidate_quiet (hq : w.disk.Quiet) (h : w.HasHeader header)
    (s : Split cr w.signingKey tryRecoverChecks (.start header.lastCheckpointSeq) w.body) :
    revalidate cr w =
      match tryRecoverOutcome s.stop with
      | .ok () => (.ok s.final.count, revalidated w s)
      | .error e => (.error e, w.readTo s.read) := by
  rw [revalidate, bind_of_ok (rewind_quiet hq h), bind_of_ok (replay_quiet hq s)]
  dsimp only
  cases tryRecoverOutcome s.stop with
  | error e => rfl
  | ok =>
    rw [lift_ok_bind, bind_of_ok (io_seek (by exact hq) _),
      bind_of_ok (modify_apply _ _)]
    rfl

theorem tryRecoverOutcome_ok {stop : Stop} : tryRecoverOutcome stop = .ok () ↔ stop = .eof := by
  cases stop with
  | eof => exact ⟨fun _ => rfl, fun _ => rfl⟩
  | tooManyEntries | io | zeroLength | oversize | shortFrame | undecodable | sequenceGap
  | timestampRegression | brokenChain | cumulativeMismatch | invalidSignature | overflow
  | outOfFuel =>
    constructor
    · intro h
      cases h
    · intro h
      cases h

end

end Wal

end WritersProof.Wal
