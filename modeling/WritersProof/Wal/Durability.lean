/-
  Which appends are still in the log after it was closed and opened again.

  `append` and `scan_to_end` draw their limits in different places.  A payload
  of more than `maxEntrySize - entryOverhead` bytes is written and then dropped
  with everything behind it, and a payload too long for its length field fails
  after its hash went into the cumulative hasher, so no later entry fits the
  chain that a reader computes.  `Survives` says when neither happens, and
  `durable_iff` that this is exactly when every acknowledged entry is kept.
-/
import WritersProof.Lib.Machine
import WritersProof.Wal.Written

namespace WritersProof.Wal

set_option linter.dupNamespace false

open Rust Replay Attempt

variable {Key : Type}

/-- What an append puts into the file. -/
def Attempt.stored (a : Attempt) : EntryType × Bytes := (a.entryType, a.payload)

def Attempt.recorded (a : Attempt) : Int × EntryType × Bytes := (nowNanos a.clock, a.stored)

def Frame.recorded (f : Frame) : Int × EntryType × Bytes :=
  (f.entry.timestamp, f.entry.entryType, f.entry.payload)

def appendAll (cr : Crypto Key) (attempts : List Attempt) (w : Wal Key) :
    List (Res WalError Unit) × Wal Key := Machine.run (run cr) attempts w

def acked (attempts : List Attempt) (replies : List (Res WalError Unit)) : List Attempt :=
  ((attempts.zip replies).filter fun a => a.2 = .ok ()).map (·.1)

def Holds (content : Bytes) (entries : List (EntryType × Bytes)) : Prop :=
  ∃ fs : List Frame, (∀ f ∈ fs, f.Readable) ∧ content.drop headerSize = framesBytes fs
    ∧ fs.map (fun f => (f.entry.entryType, f.entry.payload)) = entries

/-- After the appends the log is closed and opened again, and holds what was acknowledged. -/
def Durable (cr : Crypto Key) (attempts : List Attempt) (syncInterval : Nat) (clock : Option Nat)
    (w : Wal Key) : Prop :=
  let kept := acked attempts (appendAll cr attempts w).1
  ∃ w', (Wal.openWithSyncInterval cr w.sessionId w.signingKey syncInterval clock
      (Wal.close (appendAll cr attempts w).2).2.disk).1 = .ok w'
    ∧ w'.entryCount = kept.length ∧ w'.nextSequence = kept.length
    ∧ Holds w'.disk.file.content (kept.map stored)

/-- Appends to a file of `bytes` bytes, after one that failed for the size of its payload or
    without one: whatever is written can be read. -/
def Survives : (bytes : Nat) → (failed : Bool) → List Attempt → Prop
  | _, _, [] => True
  | bytes, failed, a :: attempts =>
    if maxWalSize ≤ bytes then Survives bytes failed attempts
    else if 2 ^ 32 ≤ a.payload.length then Survives bytes true attempts
    else failed = false ∧ entryOverhead + a.payload.length ≤ maxEntrySize
      ∧ Survives (bytes + (4 + (entryOverhead + a.payload.length))) failed attempts

instance decidableSurvives : ∀ bytes failed attempts, Decidable (Survives bytes failed attempts)
  | _, _, [] => .isTrue trivial
  | bytes, failed, a :: attempts =>
    haveI := decidableSurvives bytes failed attempts
    haveI := decidableSurvives bytes true attempts
    haveI := decidableSurvives (bytes + (4 + (entryOverhead + a.payload.length))) failed attempts
    inferInstanceAs (Decidable (if maxWalSize ≤ bytes then Survives bytes failed attempts
      else if 2 ^ 32 ≤ a.payload.length then Survives bytes true attempts
      else failed = false ∧ entryOverhead + a.payload.length ≤ maxEntrySize
        ∧ Survives (bytes + (4 + (entryOverhead + a.payload.length))) failed attempts))

def readBack (cr : Crypto Key) (w : Wal Key) : Chain :=
  (Replay.run cr w.signingKey Wal.scanChecks (.start 0) (w.readTo 0).disk).2.1.chain

/-- The cumulative hash of the next entry does not collide with the one that the reader
    computes for it. -/
def NoCollision (cr : Crypto Key) (a : Attempt) (w : Wal Key) : Prop :=
  let entry := Wal.entryFor cr w a
  cr.blake3 (w.chain.hasherAfter cr entry) = cr.blake3 ((readBack cr w).hasherAfter cr entry) →
    w.chain.hasherAfter cr entry = (readBack cr w).hasherAfter cr entry

variable {cr : Crypto Key} {w : Wal Key} {header : Header} {fs : List Frame} {a : Attempt}
  {attempts : List Attempt}

theorem acked_cons_ok (replies : List (Res WalError Unit)) :
    acked (a :: attempts) (.ok () :: replies) = a :: acked attempts replies := rfl

theorem acked_cons_fail (e : WalError) (replies : List (Res WalError Unit)) :
    acked (a :: attempts) (fail e :: replies) = acked attempts replies := rfl

theorem appendAll_cons {r : Res WalError Unit} {w' : Wal Key} (h : a.run cr w = (r, w')) :
    appendAll cr (a :: attempts) w
      = (r :: (appendAll cr attempts w').1, (appendAll cr attempts w').2) := by
  rw [appendAll, Machine.run_cons, h]
  rfl

theorem appendAll_frame : ∀ {attempts : List Attempt} {w : Wal Key}, w.Steady →
    w.nextSequence = w.entryCount →
    (appendAll cr attempts w).2.sessionId = w.sessionId
      ∧ (appendAll cr attempts w).2.signingKey = w.signingKey := by
  intro attempts
  induction attempts with
  | nil => exact fun _ _ => ⟨rfl, rfl⟩
  | cons a attempts ih =>
    intro w h hsequence
    have hroom : w.nextSequence + 1 < 2 ^ 64 := by
      have hlimit := h.limit
      unfold maxWalEntries at hlimit
      omega
    obtain ⟨-, hrun⟩ | ⟨hlt, ⟨-, text, hrun⟩ | ⟨hfits, _, hsyncs, hrun⟩⟩ :=
      Wal.append_cases cr a h hroom
    · rw [appendAll_cons hrun]
      exact ih h hsequence
    · rw [appendAll_cons hrun]
      exact ih (h.hashed _) hsequence
    · rw [appendAll_cons hrun]
      exact ih (h.grown hlt hfits hsyncs) (congrArg (· + 1) hsequence)

/-! ## Runs whose frames are all read -/

namespace Wal

theorem Records.hashed (h : w.Records cr header fs) (e : Entry) :
    (hashed cr w e).Records cr header fs where
  steady := h.steady.hashed e
  valid := h.valid
  fits := h.fits
  content := h.content
  accepts := h.accepts
  sequence := h.sequence
  lastHash := h.lastHash
  count := h.count

/-- A log that started at sequence number zero has room for one more. -/
theorem Records.room (h : w.Records cr header fs) (hzero : header.lastCheckpointSeq = 0) :
    w.nextSequence + 1 < 2 ^ 64 := by
  have hlimit := h.steady.limit
  rw [h.count] at hlimit
  rw [h.sequence, readerAt_sequence, hzero]
  unfold maxWalEntries at hlimit
  omega

end Wal

theorem records_appendAll (hcr : cr.Correct) (hzero : header.lastCheckpointSeq = 0) :
    ∀ {attempts : List Attempt} {w : Wal Key} {fs : List Frame} {failed : Bool},
      w.Records cr header fs → (failed = false → w.Clean cr header fs) →
      Survives w.byteCount failed attempts →
      ∃ gs, (appendAll cr attempts w).2.Records cr header (fs ++ gs)
        ∧ gs.map Frame.recorded
          = (acked attempts (appendAll cr attempts w).1).map recorded := by
  intro attempts
  induction attempts with
  | nil =>
    intro w fs failed h _ _
    refine ⟨[], ?_, rfl⟩
    rw [List.append_nil]
    exact h
  | cons a attempts ih =>
    intro w fs failed h hclean hsurvives
    rw [Survives] at hsurvives
    by_cases hfull : maxWalSize ≤ w.byteCount
    · -- refused for the size of the file
      rw [if_pos hfull] at hsurvives
      rw [appendAll_cons (Wal.append_full cr a h.steady hfull), acked_cons_fail]
      exact ih h hclean hsurvives
    · rw [if_neg hfull] at hsurvives
      by_cases hhuge : 2 ^ 32 ≤ a.payload.length
      · -- fails in `serialize_entry`
        rw [if_pos hhuge] at hsurvives
        obtain ⟨text, hrun⟩ := Wal.append_huge cr a h.steady (Nat.lt_of_not_le hfull) hhuge
        rw [appendAll_cons hrun, acked_cons_fail]
        exact ih (h.hashed _) (fun hfailed => by cases hfailed) hsurvives
      · rw [if_neg hhuge] at hsurvives
        obtain ⟨hfailed, hsize, hsurvives⟩ := hsurvives
        obtain ⟨pendingSyncs, hsyncs, hrun⟩ :=
          Wal.append_fits cr a h.steady (Nat.lt_of_not_le hfull)
          (Nat.lt_of_not_le hhuge) (h.room hzero)
        have hcum : cr.blake3 (w.chain.hasherAfter cr
              (Wal.entryFor cr w a))
            = cr.blake3 ((Wal.readerAt cr header fs).chain.hasherAfter cr (Wal.entryFor cr w a)) :=
          congrArg (fun hasher => cr.blake3 (hasher ++ _)) (hclean hfailed)
        have hgrown := h.grown hcr (Nat.lt_of_not_le hfull) (h.room hzero) hsize hsyncs hcum
        obtain ⟨gs, hrecords, hrecorded⟩ := ih hgrown (fun _ => (hclean hfailed).grown) hsurvives
        rw [appendAll_cons hrun, acked_cons_ok]
        refine ⟨.ofEntry (Wal.entryFor cr w a) :: gs, ?_, ?_⟩
        · rw [List.append_assoc] at hrecords
          exact hrecords
        · rw [List.map_cons, List.map_cons, hrecorded]
          rfl

/-! ## Runs after a frame that stops the reader -/

/-- The file goes on behind `fs` with bytes that stop a reader. -/
structure Blocked (cr : Crypto Key) (header : Header) (fs : List Frame) (w : Wal Key) : Prop where
  steady : w.Steady
  valid : header.Valid w.sessionId
  fits : header.Fits
  accepts : AcceptsAll cr w.signingKey Wal.scanChecks (.start header.lastCheckpointSeq) fs
  sequence : w.nextSequence = w.entryCount
  content : ∃ bytes rest, w.disk.file.content
      = serializeHeader header ++ (framesBytes fs ++ (bytes ++ rest))
    ∧ Blocks cr w.signingKey Wal.scanChecks (Wal.readerAt cr header fs) bytes

namespace Blocked

theorem room (h : Blocked cr header fs w) : w.nextSequence + 1 < 2 ^ 64 := by
  have hlimit := h.steady.limit
  rw [h.sequence]
  unfold maxWalEntries at hlimit
  omega

theorem hashed (h : Blocked cr header fs w) (e : Entry) :
    Blocked cr header fs (Wal.hashed cr w e) where
  steady := h.steady.hashed e
  valid := h.valid
  fits := h.fits
  accepts := h.accepts
  sequence := h.sequence
  content := h.content

theorem grown (h : Blocked cr header fs w) (hfull : w.byteCount < maxWalSize) {e : Entry}
    (hfits : e.payload.length < 2 ^ 32) {pendingSyncs : Nat}
    (hsyncs : pendingSyncs < w.syncInterval) :
    Blocked cr header fs (Wal.grown cr w e pendingSyncs) where
  steady := h.steady.grown hfull hfits hsyncs
  valid := h.valid
  fits := h.fits
  accepts := h.accepts
  sequence := congrArg (· + 1) h.sequence
  content := by
    obtain ⟨bytes, rest, hcontent, hblocks⟩ := h.content
    refine ⟨bytes, rest ++ Wal.frame (entryBytes e), ?_, hblocks⟩
    change (w.disk.file.write _).content = _
    rw [OpenFile.write_atEnd h.steady.atEnd, hcontent]
    simp only [List.append_assoc]

theorem afterAppends : ∀ {attempts : List Attempt} {w : Wal Key}, Blocked cr header fs w →
    Blocked cr header fs (appendAll cr attempts w).2 := by
  intro attempts
  induction attempts with
  | nil => exact fun h => h
  | cons a attempts ih =>
    intro w h
    obtain ⟨-, hrun⟩ | ⟨hlt, ⟨-, text, hrun⟩ | ⟨hfits, _, hsyncs, hrun⟩⟩ :=
      Wal.append_cases cr a h.steady h.room
    · rw [appendAll_cons hrun]
      exact ih h
    · rw [appendAll_cons hrun]
      exact ih (h.hashed _)
    · rw [appendAll_cons hrun]
      exact ih (h.grown hlt hfits hsyncs)

theorem entryCount_reopened (h : Blocked cr header fs w) {syncInterval : Nat}
    {clock : Option Nat} {w' : Wal Key}
    (hopen : (Wal.openWithSyncInterval cr w.sessionId w.signingKey syncInterval clock
      (Wal.close w).2.disk).1 = .ok w') : w'.entryCount = fs.length := by
  obtain ⟨bytes, rest, hcontent, hblocks⟩ := h.content
  obtain ⟨s, hframes, -⟩ := exists_split_blocks rest h.accepts hblocks
  rw [Wal.close_quiet h.steady.quiet h.steady.open_] at hopen
  rw [Wal.reopen_entryCount (by exact h.steady.quiet) h.steady.name h.fits h.valid hcontent s hopen,
    hframes]

end Blocked

/-- An append whose frame the reader does not accept. -/
theorem Wal.Records.blocked (h : w.Records cr header fs) (hzero : header.lastCheckpointSeq = 0)
    (hfull : w.byteCount < maxWalSize) {e : Entry} (hfits : e.payload.length < 2 ^ 32)
    {pendingSyncs : Nat} (hsyncs : pendingSyncs < w.syncInterval)
    (hblocks : Blocks cr w.signingKey scanChecks (readerAt cr header fs) (frame (entryBytes e))) :
    Blocked cr header fs (Wal.grown cr w e pendingSyncs) where
  steady := h.steady.grown hfull hfits hsyncs
  valid := h.valid
  fits := h.fits
  accepts := h.accepts
  sequence := by
    change w.nextSequence + 1 = w.entryCount + 1
    rw [h.sequence, readerAt_sequence, hzero, Nat.zero_add, h.count]
  content := by
    refine ⟨_, [], ?_, hblocks⟩
    change (w.disk.file.write _).content = _
    rw [OpenFile.write_atEnd h.steady.atEnd, h.content, List.append_nil, List.append_assoc]

/-- The hasher of the log and that of the reader: the same, until an append failed. -/
def HasherAt (cr : Crypto Key) (header : Header) (fs : List Frame) (failed : Bool)
    (w : Wal Key) : Prop :=
  if failed = true then
    (Wal.readerAt cr header fs).chain.hasher.length < w.cumulativeHasher.length
  else w.Clean cr header fs

theorem HasherAt.hashed {failed : Bool} (h : HasherAt cr header fs failed w) (e : Entry) :
    HasherAt cr header fs true (Wal.hashed cr w e) := by
  have hle : (Wal.readerAt cr header fs).chain.hasher.length ≤ w.cumulativeHasher.length := by
    cases failed with
    | false => exact Nat.le_of_eq (congrArg List.length (h : w.Clean cr header fs)).symm
    | true => exact Nat.le_of_lt h
  change (Wal.readerAt cr header fs).chain.hasher.length
    < (w.cumulativeHasher ++ (e.computeHash cr).val).length
  rw [List.length_append, FixedBytes.length_val]
  omega

theorem readBack_eq (h : w.Records cr header fs) (hzero : header.lastCheckpointSeq = 0) :
    readBack cr w = (Wal.readerAt cr header fs).chain := by
  have hbody : (w.readTo 0).disk.file.rest = framesBytes fs := Wal.body_of_content h.content
  obtain ⟨s, hframes⟩ : ∃ s : Split cr w.signingKey Wal.scanChecks
      (.start header.lastCheckpointSeq) (w.readTo 0).disk.file.rest, s.frames = fs := by
    rw [hbody]
    obtain ⟨s, hframes, -⟩ := exists_split_end h.accepts fun _ => by
      change (Wal.readerAt cr header fs).count < maxWalEntries
      rw [Wal.readerAt_count, ← h.count]
      exact h.steady.limit
    exact ⟨s, hframes⟩
  have hstart : Replay.start 0 = .start header.lastCheckpointSeq := by rw [hzero]
  rw [readBack, hstart, s.run_quiet (by exact h.steady.quiet)]
  change ((Replay.start header.lastCheckpointSeq).afterAll cr s.frames).chain = _
  rw [hframes, Wal.readerAt]

theorem blocked_appendAll (hcr : cr.Correct) (hzero : header.lastCheckpointSeq = 0) :
    ∀ {attempts : List Attempt} {w : Wal Key} {fs : List Frame} {failed : Bool},
      w.Records cr header fs → HasherAt cr header fs failed w →
      Machine.Along (run cr) (NoCollision cr) attempts w →
      ¬ Survives w.byteCount failed attempts →
      ∃ gs, Blocked cr header gs (appendAll cr attempts w).2
        ∧ gs.length < fs.length + (acked attempts (appendAll cr attempts w).1).length := by
  intro attempts
  induction attempts with
  | nil =>
    intro w fs failed _ _ _ hsurvives
    exact absurd trivial hsurvives
  | cons a attempts ih =>
    intro w fs failed h hhasher halong hsurvives
    rw [Survives] at hsurvives
    obtain ⟨hcollision, halong⟩ := halong
    by_cases hfull : maxWalSize ≤ w.byteCount
    · rw [if_pos hfull] at hsurvives
      have hrun : a.run cr w = _ := Wal.append_full cr a h.steady hfull
      rw [hrun] at halong
      rw [appendAll_cons hrun, acked_cons_fail]
      exact ih h hhasher halong hsurvives
    · have hlt := Nat.lt_of_not_le hfull
      rw [if_neg hfull] at hsurvives
      by_cases hhuge : 2 ^ 32 ≤ a.payload.length
      · rw [if_pos hhuge] at hsurvives
        obtain ⟨text, hrun⟩ := Wal.append_huge cr a h.steady hlt hhuge
        have hrun : a.run cr w = _ := hrun
        rw [hrun] at halong
        rw [appendAll_cons hrun, acked_cons_fail]
        exact ih (h.hashed _) (hhasher.hashed _) halong hsurvives
      · rw [if_neg hhuge] at hsurvives
        have hpayload := Nat.lt_of_not_le hhuge
        obtain ⟨pendingSyncs, hsyncs, hrun⟩ :=
          Wal.append_fits cr a h.steady hlt hpayload (h.room hzero)
        have hrun : a.run cr w = _ := hrun
        rw [hrun] at halong
        rw [appendAll_cons hrun, acked_cons_ok, List.length_cons]
        -- from the frame on which the reader stops, everything is lost
        have hlost : Blocks cr w.signingKey Wal.scanChecks (Wal.readerAt cr header fs)
            (Wal.frame (entryBytes (Wal.entryFor cr w a))) →
            ∃ gs, Blocked cr header gs (appendAll cr attempts (Wal.grown cr w
                (Wal.entryFor cr w a) pendingSyncs)).2
              ∧ gs.length < fs.length + ((acked attempts (appendAll cr attempts (Wal.grown cr w
                (Wal.entryFor cr w a) pendingSyncs)).1).length + 1) :=
          fun hblocks => ⟨fs, (h.blocked hzero hlt hpayload hsyncs hblocks).afterAppends, by omega⟩
        by_cases hsize : entryOverhead + a.payload.length ≤ maxEntrySize
        · cases failed with
          | false =>
            have hcum : cr.blake3 (w.chain.hasherAfter cr
                  (Wal.entryFor cr w a))
                = cr.blake3 ((Wal.readerAt cr header fs).chain.hasherAfter cr
                  (Wal.entryFor cr w a)) :=
              congrArg (fun hasher => cr.blake3 (hasher ++ _)) (hhasher : w.Clean cr header fs)
            have hgrown := h.grown hcr hlt (h.room hzero) hsize hsyncs hcum
            obtain ⟨gs, hblocked, hlength⟩ := ih hgrown
              (show HasherAt cr header _ false _ from
                Wal.Clean.grown (hhasher : w.Clean cr header fs)) halong
              fun hrest => hsurvives ⟨rfl, hsize, hrest⟩
            refine ⟨gs, hblocked, ?_⟩
            rw [List.length_append, List.length_singleton] at hlength
            omega
          | true =>
            -- the cumulative hash was made from one hash too many
            apply hlost
            rw [Frame.frame_entryBytes hsize]
            refine blocks_frame (Frame.readable_ofEntry
              (fits_nextEntry (by have := h.room hzero; change w.nextSequence < 2 ^ 64; omega)
                hpayload) hsize) fun haccept => ?_
            have hcum := ((accepts_nextEntry hcr h.sequence h.lastHash).mp haccept).2.2.1
            rw [← readBack_eq h hzero] at hcum
            have hsame := congrArg List.length (hcollision hcum)
            rw [readBack_eq h hzero, Chain.hasherAfter, Chain.hasherAfter, List.length_append,
              List.length_append] at hsame
            have hlt : (Wal.readerAt cr header fs).chain.hasher.length
              < w.cumulativeHasher.length := hhasher
            change w.cumulativeHasher.length + _ = _ at hsame
            omega
        · exact hlost (blocks_oversize (Nat.lt_of_not_le hsize) hpayload)

/-! ## Closing and opening again -/

theorem Wal.Records.reopened (h : w.Records cr header fs) {syncInterval : Nat}
    (hinterval : syncInterval < 2 ^ 64) (clock : Option Nat) :
    ∃ w', (Wal.openWithSyncInterval cr w.sessionId w.signingKey syncInterval clock
        (Wal.close w).2.disk).1 = .ok w' ∧ w'.Records cr header fs ∧ w'.Clean cr header fs := by
  have hlimit : fs.length < maxWalEntries := by
    rw [← h.count]
    exact h.steady.limit
  have hlength : (serializeHeader header ++ framesBytes fs).length < 2 ^ 33 := by
    rw [← h.content]
    exact Nat.lt_of_le_of_lt (Nat.le_of_eq h.steady.byteCount.symm) h.steady.bytes
  obtain ⟨s, hframes, -, hstop, -⟩ := exists_split_end h.accepts fun _ => by
    change (Wal.readerAt cr header fs).count < maxWalEntries
    rw [Wal.readerAt_count]
    exact hlimit
  obtain ⟨w', hopen, hrecords, hclean, -⟩ := @Wal.reopen_records _ cr w.signingKey _ _ _ _ clock _
    (by exact h.steady.quiet) h.steady.name h.fits h.valid hinterval h.content hlength s
    (by rw [hframes]; exact hlimit) (by rw [hstop]; exact fun _ => rfl)
  rw [hframes] at hrecords hclean
  rw [Wal.close_quiet h.steady.quiet h.steady.open_]
  exact ⟨w', hopen, hrecords, hclean⟩

theorem Wal.Records.holds (h : w.Records cr header fs)
    (hrecorded : fs.map Frame.recorded = attempts.map recorded) :
    Holds w.disk.file.content (attempts.map stored) := by
  refine ⟨fs, h.accepts.readable, ?_, ?_⟩
  · rw [h.content, List.drop_left' (length_serializeHeader header)]
  · have := congrArg (List.map Prod.snd) hrecorded
    rwa [List.map_map, List.map_map] at this

theorem durable_of_records (h : (appendAll cr attempts w).2.Records cr header fs)
    (hzero : header.lastCheckpointSeq = 0)
    (hrecorded : fs.map Frame.recorded
      = (acked attempts (appendAll cr attempts w).1).map recorded)
    (hframe : (appendAll cr attempts w).2.sessionId = w.sessionId
      ∧ (appendAll cr attempts w).2.signingKey = w.signingKey)
    {syncInterval : Nat} (hinterval : syncInterval < 2 ^ 64) (clock : Option Nat) :
    Durable cr attempts syncInterval clock w := by
  obtain ⟨w', hopen, hrecords, -⟩ := h.reopened hinterval clock
  rw [hframe.1, hframe.2] at hopen
  have hcount : fs.length = (acked attempts (appendAll cr attempts w).1).length := by
    have := congrArg List.length hrecorded
    rwa [List.length_map, List.length_map] at this
  refine ⟨w', hopen, ?_, ?_, hrecords.holds hrecorded⟩
  · rw [hrecords.count, hcount]
  · rw [hrecords.sequence, Wal.readerAt_sequence, hzero, Nat.zero_add, hcount]

theorem not_durable_of_blocked (h : Blocked cr header fs (appendAll cr attempts w).2)
    (hlost : fs.length < (acked attempts (appendAll cr attempts w).1).length)
    (hframe : (appendAll cr attempts w).2.sessionId = w.sessionId
      ∧ (appendAll cr attempts w).2.signingKey = w.signingKey)
    (syncInterval : Nat) (clock : Option Nat) : ¬ Durable cr attempts syncInterval clock w := by
  rintro ⟨w', hopen, hcount, -⟩
  rw [← hframe.1, ← hframe.2] at hopen
  rw [h.entryCount_reopened hopen] at hcount
  omega

/-- The acknowledged appends of a fresh log are all there after it was closed and opened again,
    exactly when they survive. -/
theorem durable_iff (hcr : cr.Correct) {d : Disk} (hfresh : Wal.Fresh d)
    {sessionId : FixedBytes 32} {key : Key} {syncInterval : Nat} {clock : Option Nat} {w : Wal Key}
    (hinterval : syncInterval < 2 ^ 64)
    (hopen : (Wal.openWithSyncInterval cr sessionId key syncInterval clock d).1 = .ok w)
    (attempts : List Attempt) {reopenInterval : Nat} (hreopen : reopenInterval < 2 ^ 64)
    (reopenClock : Option Nat) :
    (Survives headerSize false attempts → Durable cr attempts reopenInterval reopenClock w)
      ∧ (Machine.Along (run cr) (NoCollision cr) attempts w →
        Durable cr attempts reopenInterval reopenClock w → Survives headerSize false attempts) := by
  obtain ⟨w', hopen', h, hclean, -⟩ := Wal.open_fresh hfresh hinterval
  obtain rfl := Except.ok.inj (hopen'.symm.trans hopen)
  have hbytes : w'.byteCount = headerSize := h.byteCount_nil
  have hframe := @appendAll_frame _ cr attempts w' h.steady (h.sequence.trans h.count.symm)
  rw [← hbytes]
  refine ⟨fun hsurvives => ?_, fun halong hdurable => ?_⟩
  · obtain ⟨gs, hrecords, hrecorded⟩ := records_appendAll hcr rfl h (fun _ => hclean) hsurvives
    exact durable_of_records hrecords rfl hrecorded hframe hreopen reopenClock
  · by_contra hlost
    obtain ⟨gs, hblocked, hlength⟩ := blocked_appendAll hcr rfl h
      (show HasherAt cr _ [] false w' from hclean) halong hlost
    exact not_durable_of_blocked hblocked (by simpa using hlength) hframe _ _ hdurable

theorem durable_two : ∃ w, sampleLog .sample = .ok w
    ∧ Durable .sample [⟨.heartbeat, [1, 2], some 5⟩, ⟨.checkpoint, [], some 4⟩] 1 none w := by
  obtain ⟨w, hopen, -⟩ := Wal.sampleLog_fresh .sample
  exact ⟨w, hopen, (durable_iff Crypto.sample_correct Wal.fresh_empty (by decide) hopen _
    (by decide) none).1 (by decide)⟩

/-- One append with a payload one byte longer than a reader takes. -/
def oversizeAttempt : Attempt :=
  ⟨.keystrokeBatch, List.replicate (maxEntrySize - entryOverhead + 1) 0, some 7⟩

/-- It returns `Ok`, and the log that is opened again does not have it. -/
theorem durable_fails : ∃ w, sampleLog .sample = .ok w
    ∧ (appendAll .sample [oversizeAttempt] w).1 = [.ok ()]
    ∧ ¬ Durable .sample [oversizeAttempt] 1 none w := by
  obtain ⟨w, hopen, h, hclean⟩ := Wal.sampleLog_fresh .sample
  have hlen : oversizeAttempt.payload.length = maxEntrySize - entryOverhead + 1 :=
    List.length_replicate
  have hbytes : w.byteCount = headerSize := h.byteCount_nil
  have hlt : w.byteCount < maxWalSize := by
    rw [hbytes]
    decide
  obtain ⟨pendingSyncs, -, hrun⟩ := Wal.append_fits .sample oversizeAttempt h.steady hlt
    (by rw [hlen]; decide) (h.room rfl)
  have hsurvives : ¬ Survives w.byteCount false [oversizeAttempt] := by
    rw [Survives, if_neg (Nat.not_le_of_lt hlt), hlen, if_neg (by decide)]
    exact fun hsize => absurd hsize.2.1 (by decide)
  have hcollision : NoCollision .sample oversizeAttempt w := by
    intro _
    rw [readBack_eq h rfl]
    exact congrArg (· ++ _) hclean
  have halong : Machine.Along (run .sample) (NoCollision .sample) [oversizeAttempt] w :=
    ⟨hcollision, trivial⟩
  obtain ⟨gs, hblocked, hlost⟩ := blocked_appendAll Crypto.sample_correct rfl h
    (show HasherAt .sample _ [] false w from hclean) halong hsurvives
  refine ⟨w, hopen, ?_, not_durable_of_blocked hblocked (by simpa using hlost)
    (appendAll_frame h.steady (h.sequence.trans h.count.symm)) 1 none⟩
  rw [appendAll_cons hrun]
  rfl

end WritersProof.Wal
