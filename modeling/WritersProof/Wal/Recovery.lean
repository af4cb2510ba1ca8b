/-
  The state of a log after `recover` has returned.

  `recover` replays the file.  If bytes are left behind the last entry it accepts, it cuts them
  off and takes over the state of the replay.  If none are left, it returns the state as it is,
  whatever the file holds: a log that is marked stays marked, and fields that a failed append
  has changed stay changed.
-/
import WritersProof.Wal.Rotation

namespace WritersProof.Wal

set_option linter.dupNamespace false

open Rust Replay Wal Call

variable {Key : Type}

/-- The file of the log is a header and entries that a replay accepts. -/
structure Unbroken (cr : Crypto Key) (header : Header) (fs : List Frame) (w : Wal Key) : Prop where
  hasHeader : w.HasHeader header
  body : w.body = framesBytes fs
  accepts : AcceptsAll cr w.signingKey recoverChecks (.start header.lastCheckpointSeq) fs

/-- The fields of the log are those that a replay of its file ends with. -/
structure Replayed (cr : Crypto Key) (header : Header) (fs : List Frame) (w : Wal Key) : Prop
    extends Unbroken cr header fs w where
  chain : w.chain = (readerAt cr header fs).chain
  count : w.entryCount = fs.length
  byteCount : w.byteCount = w.disk.file.len

/-- The log may be appended to, at the end of its file. -/
structure Restored (cr : Crypto Key) (w : Wal Key) : Prop where
  consistent : w.inconsistent = false
  atEnd : w.disk.file.AtEnd
  replayed : ∃ header fs, Replayed cr header fs w

/-- What an append needs: a payload that can be read back, a clock that does not go back, and
    room in the file and the counters. -/
structure Appendable (a : Attempt) (w : Wal Key) : Prop where
  size : a.payload.length ≤ maxEntrySize - entryOverhead
  clock : ClockAhead a.clock w
  file : w.byteCount < maxWalSize
  sequence : w.nextSequence + 1 < 2 ^ 64
  syncs : w.pendingSyncs + 1 < 2 ^ 64

variable {cr : Crypto Key} {w w' : Wal Key} {header : Header} {fs : List Frame}

/-! ## The file -/

theorem Unbroken.length_eq (h : Unbroken cr header fs w) :
    w.disk.file.len = headerSize + (framesBytes fs).length := by
  have hle := h.hasHeader.length_le
  have hdrop : w.body.length = w.disk.file.content.length - headerSize := List.length_drop
  rw [h.body] at hdrop
  rw [OpenFile.len]
  omega

theorem Unbroken.entriesIn_eq (h : Unbroken cr header fs w) :
    entriesIn w.disk.file.content = fs.map Frame.entry := by
  have hbody : w.disk.file.content.drop headerSize = framesBytes fs := h.body
  have hlen := h.length_eq
  have hle := length_le_framesBytes fs
  rw [OpenFile.len] at hlen
  rw [entriesIn, hbody]
  exact parseEntries_framesBytes h.accepts.readable (by rw [hlen, headerSize]; omega)

/-- A file below the size limit has few enough entries for `verify`. -/
theorem AcceptsAll.of_recover {key : Key} {r : Replay}
    (h : AcceptsAll cr key recoverChecks r fs) (hlimit : r.count + fs.length ≤ maxWalEntries) :
    AcceptsAll cr key verifyChecks r fs := by
  induction fs generalizing r with
  | nil => trivial
  | cons f fs ih =>
    obtain ⟨hread, haccept, hrest⟩ := h
    rw [List.length_cons] at hlimit
    refine ⟨hread, ?_, ih hrest ?_⟩
    · exact ⟨fun _ => by omega, haccept.sequence, fun _ => haccept.timestamp rfl,
        haccept.prevHash, haccept.cumulative, haccept.signature, haccept.room⟩
    · show r.count + 1 + fs.length ≤ maxWalEntries
      omega

theorem Unbroken.verify_valid (h : Unbroken cr header fs w) (hq : w.disk.Quiet)
    (hlimit : fs.length < maxWalEntries) :
    ∃ v, (verify cr w).1 = .ok v ∧ v.valid = true ∧ v.entries = fs.length := by
  have haccepts := AcceptsAll.of_recover h.accepts (show 0 + fs.length ≤ maxWalEntries by omega)
  obtain ⟨s, hframes, -, hstop⟩ : ∃ s : Split cr w.signingKey verifyChecks
      (.start header.lastCheckpointSeq) w.body, s.frames = fs ∧ s.tail = [] ∧ s.stop = .eof := by
    rw [h.body]
    obtain ⟨s, hframes, htail, hstop, -⟩ := exists_split_end haccepts fun _ => by
      show (readerAt cr header fs).count < maxWalEntries
      rw [readerAt_count]
      exact hlimit
    exact ⟨s, hframes, htail, hstop⟩
  have hcount : s.final.count = fs.length := by
    rw [s.final_count, hframes]
    exact Nat.zero_add _
  rw [verify_quiet hq h.hasHeader s, hstop]
  exact ⟨_, rfl, rfl, hcount⟩

/-! ## The next append -/

variable {a : Attempt} {key : Key} {r : Replay}

theorem Restored.append_eq (h : Restored cr w) (hq : w.disk.Quiet) (hopen : w.closed = false)
    (ha : Appendable a w) :
    ∃ pendingSyncs, a.run cr w = (.ok (), grown cr w (entryFor cr w a) pendingSyncs) := by
  obtain ⟨header, fs, hreplayed⟩ := h.replayed
  have hsize := ha.size
  have hfull := ha.file
  have hlen := hreplayed.length_eq
  have hcount := length_le_framesBytes fs
  unfold maxWalSize at hfull
  unfold maxEntrySize entryOverhead at hsize
  rw [← hreplayed.count] at hcount
  rw [← hreplayed.byteCount] at hlen
  have hbytes : w.byteCount + (4 + (entryOverhead + a.payload.length)) < 2 ^ 64 := by
    unfold entryOverhead
    omega
  obtain ⟨pendingSyncs, -, hrun⟩ := append_grown cr a hq hopen h.consistent ha.file (by omega)
    ha.syncs ha.sequence (by omega) hbytes
  exact ⟨pendingSyncs, hrun⟩

/-- The next entry is one that a replay accepts. -/
theorem Replayed.unbroken_grown (hcr : cr.Correct) (h : Replayed cr header fs w)
    (hend : w.disk.file.AtEnd) (ha : Appendable a w) (pendingSyncs : Nat) :
    Unbroken cr header (fs ++ [.ofEntry (entryFor cr w a)])
      (grown cr w (entryFor cr w a) pendingSyncs) := by
  have hsize := ha.size
  have hsequence := ha.sequence
  have hchain := h.chain
  have hnext : w.nextSequence = (readerAt cr header fs).chain.nextSequence :=
    congrArg Chain.nextSequence hchain
  have hreadable : entryOverhead + a.payload.length ≤ maxEntrySize := by
    unfold maxEntrySize entryOverhead at *
    omega
  have hfits : (entryFor cr w a).Fits := by
    apply fits_nextEntry
    · show w.nextSequence < 2 ^ 64
      omega
    · unfold maxEntrySize entryOverhead at hsize
      omega
  have htime : (readerAt cr header fs).lastTimestamp ≤ nowNanos a.clock := by
    rw [readerAt, afterAll_timestamp, ← h.entriesIn_eq]
    cases hlast : (entriesIn w.disk.file.content).getLast? with
    | none => exact nowNanos_nonneg a.clock
    | some e => exact ha.clock e hlast
  have hcum := congrArg (fun chain => cr.blake3 (chain.hasherAfter cr (entryFor cr w a))) hchain
  have haccept : Accepts cr w.signingKey recoverChecks (readerAt cr header fs)
      (.ofEntry (entryFor cr w a)) := by
    refine (accepts_nextEntry hcr hnext (congrArg Chain.lastHash hchain)).mpr ?_
    exact ⟨by rintro ⟨⟩, fun _ => htime, hcum, by omega⟩
  have hcontent : (grown cr w (entryFor cr w a) pendingSyncs).disk.file.content
      = w.disk.file.content ++ frame (entryBytes (entryFor cr w a)) := by
    show (w.disk.file.write _).content = _
    rw [OpenFile.write_atEnd hend]
  have hle := h.hasHeader.length_le
  refine ⟨?_, ?_, ?_⟩
  · rw [Wal.HasHeader, hcontent, List.take_append_of_le_length hle]
    exact h.hasHeader
  · rw [body, hcontent, List.drop_append_of_le_length hle, framesBytes_append,
      Frame.frame_entryBytes hreadable, framesBytes_cons, framesBytes_nil, List.append_nil]
    exact congrArg (· ++ _) h.body
  · exact acceptsAll_append.mpr
      ⟨h.accepts, Frame.readable_ofEntry hfits hreadable, haccept, trivial⟩

theorem Restored.append (hcr : cr.Correct) (h : Restored cr w) (hq : w.disk.Quiet)
    (hopen : w.closed = false) (ha : Appendable a w) :
    ∃ w', a.run cr w = (.ok (), w')
      ∧ ∃ v, (verify cr w').1 = .ok v ∧ v.valid = true ∧ v.entries = w.entryCount + 1 := by
  obtain ⟨pendingSyncs, hrun⟩ := h.append_eq hq hopen ha
  obtain ⟨header, fs, hreplayed⟩ := h.replayed
  refine ⟨_, hrun, ?_⟩
  have hunbroken := hreplayed.unbroken_grown hcr h.atEnd ha pendingSyncs
  have hfew : fs.length + 1 < maxWalEntries := by
    have hmin := hreplayed.accepts.length_le
    have hlen := hreplayed.length_eq
    have hfull := ha.file
    rw [← hreplayed.byteCount] at hlen
    unfold maxWalSize at hfull
    unfold maxWalEntries
    omega
  obtain ⟨v, hv, hvalid, hentries⟩ := hunbroken.verify_valid (by exact hq)
    (by rw [List.length_append]; exact hfew)
  refine ⟨v, hv, hvalid, ?_⟩
  rw [hentries, hreplayed.count, List.length_append, List.length_singleton]

/-! ## Recovery -/

variable {clock : Option Nat} {report : WalRecoveryReport}

theorem Wal.hasHeader_of_rewind (hq : w.disk.Quiet) (h : rewind w = (.ok header, w')) :
    w.HasHeader header := by
  rw [rewind, bind_of_ok (io_access hq), bind_of_ok (io_seek hq 0)] at h
  by_cases hlen : headerSize ≤ w.disk.file.content.length
  · have hread := io_readExact (w := w.setFile (w.disk.file.seek 0)) hq hlen
    rw [bind_of_ok hread] at h
    obtain ⟨header', hdecode, h⟩ := lift_bind_eq_ok.mp h
    rw [bind_of_ok (io_seek (by exact hq) headerSize)] at h
    cases h
    exact hdecode
  · -- The file ends inside the header.
    have hread : io (Disk.readExact headerSize) (w.setFile (w.disk.file.seek 0)) = _ :=
      io_of_err (Disk.readExact_of_lt (hq.clear 1) (Nat.lt_of_not_le hlen))
    rw [bind_of_error hread] at h
    cases h

theorem hasHeader_of_recover (hq : w.disk.Quiet)
    (h : recover cr clock w = (.ok report, w')) :
    w.closed = false ∧ ∃ header, w.HasHeader header := by
  rw [recover, asks_id_bind, Call.reject_bind_eq_ok] at h
  obtain ⟨header, w₁, hrewind, -⟩ := bind_eq_ok.mp h.2
  exact ⟨Bool.eq_false_of_not_eq_true h.1, header, hasHeader_of_rewind hq hrewind⟩

/-- What `recover` has done when it returns: nothing but moving the cursor, or cutting the file. -/
theorem recover_cases (hq : w.disk.Quiet) (h : recover cr clock w = (.ok report, w')) :
    ∃ header,
      ∃ s : Split cr w.signingKey recoverChecks (.start header.lastCheckpointSeq) w.body,
      w.HasHeader header ∧ report.truncatedAtSequence = w'.nextSequence
        ∧ (s.tail = [] ∧ w' = w.readTo s.read ∨ s.tail ≠ [] ∧ w' = recovered w s) := by
  obtain ⟨hopen, header, hheader⟩ := hasHeader_of_recover hq h
  obtain ⟨s⟩ := Split.exists_split cr w.signingKey recoverChecks w.body
    (.start header.lastCheckpointSeq)
  refine ⟨header, s, hheader, ?_⟩
  obtain hoverflow | hok := recoverOutcome_cases s
  · rw [recover, asks_id_bind,
      bind_of_ok (Call.reject_neg (by rw [hopen]; decide) _ _),
      bind_of_ok (rewind_quiet hq hheader), bind_of_ok (replay_quiet hq s)] at h
    dsimp only at h
    rw [hoverflow] at h
    cases h
  · rw [recover_quiet hq hopen hheader s hok] at h
    by_cases htail : s.tail = []
    · rw [if_pos htail] at h
      cases h
      exact ⟨rfl, .inl ⟨htail, rfl⟩⟩
    · rw [if_neg htail] at h
      split at h
      · cases h
      · cases h
        exact ⟨rfl, .inr ⟨htail, rfl⟩⟩

theorem not_continues_nil : ¬ Continues cr key recoverChecks r [] := by
  rintro ⟨f, rest, hnil, -⟩
  have hlen := congrArg List.length hnil
  rw [List.length_append, Frame.length_bytes, List.length_nil] at hlen
  omega

/-- Where a replay stops in an unbroken file -/
theorem Unbroken.split_eq (h : Unbroken cr header fs w) {header' : Header}
    (hheader : w.HasHeader header')
    (s : Split cr w.signingKey recoverChecks (.start header'.lastCheckpointSeq) w.body) :
    s.frames = fs ∧ s.tail = [] := by
  obtain rfl : header = header' := Except.ok.inj (h.hasHeader.symm.trans hheader)
  exact s.frames_eq (h.body.trans (List.append_nil _).symm) h.accepts not_continues_nil

/-- At the end of the file the loop has read all of it. -/
theorem read_of_tail_nil {bytes : Bytes} (s : Split cr key recoverChecks r bytes)
    (h : s.tail = []) :
    s.read = (framesBytes s.frames).length := by
  have hstops := s.stops
  rw [h, scan, if_neg (fun hlimit => Bool.false_ne_true hlimit.1), if_pos (by decide)] at hstops
  have htail : s.tailBytes = 0 := (congrArg Turn.bytes hstops).symm
  rw [Split.read, htail, Nat.add_zero]

theorem restored_recovered (hheader : w.HasHeader header)
    (s : Split cr w.signingKey recoverChecks (.start header.lastCheckpointSeq) w.body) :
    Restored cr (recovered w s) := by
  have hle := hheader.length_le
  have hoffset : s.final.offset = headerSize + (framesBytes s.frames).length := s.final_offset
  have hlen := hheader.length_split s
  rw [OpenFile.len] at hlen
  have htake : (w.disk.file.content.take s.final.offset).length = s.final.offset := by
    rw [List.length_take]
    omega
  have hbody : (w.disk.file.content.take s.final.offset).drop headerSize
      = framesBytes s.frames := by
    rw [hoffset, List.drop_take, Nat.add_sub_cancel_left]
    have hframes := congrArg (List.take (framesBytes s.frames).length) s.eq
    rwa [List.take_left' rfl] at hframes
  refine ⟨rfl, htake.symm, header, s.frames, ⟨?_, hbody, s.accepts⟩, rfl, ?_, htake.symm⟩
  · show deserializeHeader ((w.disk.file.content.take s.final.offset).take headerSize) = _
    rw [List.take_take, Nat.min_eq_left (by omega)]
    exact hheader
  · exact s.final_count.trans (Nat.zero_add _)

/-- `recover` leaves a log that can be appended to exactly if it cuts the file, or the log could
    be appended to already. -/
theorem restored_of_recover_iff (hq : w.disk.Quiet)
    (h : recover cr clock w = (.ok report, w')) :
    Restored cr w' ↔ ((∃ header fs, Unbroken cr header fs w) →
      w.inconsistent = false ∧ ∃ header fs, Replayed cr header fs w) := by
  obtain ⟨header, s, hheader, -, ⟨htail, rfl⟩ | ⟨htail, rfl⟩⟩ := recover_cases hq h
  · have hunbroken : Unbroken cr header s.frames w := by
      refine ⟨hheader, s.eq.trans ?_, s.accepts⟩
      rw [htail, List.append_nil]
    constructor
    · rintro ⟨hconsistent, -, header', fs, hreplayed⟩ -
      exact ⟨hconsistent, header', fs, ⟨hreplayed.hasHeader, hreplayed.body, hreplayed.accepts⟩,
        hreplayed.chain, hreplayed.count, hreplayed.byteCount⟩
    · intro hcond
      obtain ⟨hconsistent, header', fs, hreplayed⟩ := hcond ⟨header, s.frames, hunbroken⟩
      refine ⟨hconsistent, ?_, header', fs, ⟨hreplayed.hasHeader, hreplayed.body,
        hreplayed.accepts⟩, hreplayed.chain, hreplayed.count, hreplayed.byteCount⟩
      show headerSize + s.read = w.disk.file.content.length
      rw [read_of_tail_nil s htail]
      exact hunbroken.length_eq.symm
  · refine iff_of_true (restored_recovered hheader s) ?_
    rintro ⟨header', fs, hunbroken⟩
    exact absurd (hunbroken.split_eq hheader s).2 htail

/-- `recover` touches neither the I/O errors to come nor whether the log is closed. -/
theorem recover_frame (hq : w.disk.Quiet) (h : recover cr clock w = (.ok report, w')) :
    w'.disk.Quiet ∧ w'.closed = false := by
  obtain ⟨hopen, -⟩ := hasHeader_of_recover hq h
  obtain ⟨header, s, -, -, ⟨-, rfl⟩ | ⟨-, rfl⟩⟩ := recover_cases hq h
  · exact ⟨hq, hopen⟩
  · exact ⟨hq, hopen⟩

/-- A call of `recover` that returns leaves a log whose fields are those of a replay of its file,
    which is not marked, whose next sequence number is the one reported, and which can be appended
    to, exactly if bytes were left behind the last entry of the file, or the log was not marked and
    its fields were already those of a replay. -/
theorem recover_restores_iff (hcr : cr.Correct) (hq : w.disk.Quiet)
    (h : recover cr clock w = (.ok report, w')) :
    (Restored cr w' ∧ report.truncatedAtSequence = w'.nextSequence ∧
      ∀ a, Appendable a w' → ∃ w'', Attempt.run cr a w' = (.ok (), w'') ∧
        ∃ v, (verify cr w'').1 = .ok v ∧ v.valid = true ∧ v.entries = w'.entryCount + 1) ↔
    ((∃ header fs, Unbroken cr header fs w) →
      w.inconsistent = false ∧ ∃ header fs, Replayed cr header fs w) := by
  rw [← restored_of_recover_iff hq h]
  refine ⟨fun hall => hall.1, fun hrestored => ⟨hrestored, ?_, fun a ha => ?_⟩⟩
  · obtain ⟨header, s, -, hreport, -⟩ := recover_cases hq h
    exact hreport
  · obtain ⟨hq', hopen⟩ := recover_frame hq h
    exact hrestored.append hcr hq' hopen ha

/-- An append, and a byte that something else has left behind it -/
def strayRun (w : Wal Unit) : Wal Unit :=
  let w := (Machine.run (LogAction.run .sample) [.append ⟨.heartbeat, [1], some 5⟩ false] w).2
  w.setFile ⟨w.disk.file.content ++ [0], 0⟩

/-- The byte is cut off again. -/
theorem recover_restores_stray : ∃ w report w',
    recover .sample (some 7) (strayRun w) = (.ok report, w') ∧ Restored .sample w' := by
  have hrun : (sampleLog .sample).toOption.bind
      (fun w => (recover .sample (some 7) (strayRun w)).1.toOption.map fun _ =>
        (decide (strayRun w).disk.Quiet, decide ((strayRun w).disk.file.len
          = (recover .sample (some 7) (strayRun w)).2.disk.file.len)))
      = some (true, false) := by
    decide +kernel
  obtain ⟨w, -, hboth⟩ := Option.bind_eq_some_iff.mp hrun
  obtain ⟨report, hok, hboth⟩ := exists_ok_of_toOption hboth
  have hq : (strayRun w).disk.Quiet := of_decide_eq_true (congrArg Prod.fst hboth)
  have hcut := of_decide_eq_false (congrArg Prod.snd hboth)
  have hrecover : recover .sample (some 7) (strayRun w)
      = (.ok report, (recover .sample (some 7) (strayRun w)).2) := Prod.ext hok rfl
  refine ⟨w, report, _, hrecover,
    ((recover_restores_iff Crypto.sample_correct hq hrecover).mpr ?_).1⟩
  rintro ⟨header, fs, hunbroken⟩
  obtain ⟨header', s, hheader, -, ⟨-, hsame⟩ | ⟨htail, -⟩⟩ := recover_cases hq hrecover
  · rw [hsame] at hcut
    exact absurd rfl hcut
  · exact absurd (hunbroken.split_eq hheader s).2 htail

/-- An append whose sync fails: `recover` returns, and the log is marked as before. -/
theorem not_recover_restores : ∃ w v report v',
    sampleLog .sample = .ok w
      ∧ v = (Machine.run (LogAction.run .sample) [.append ⟨.heartbeat, [1], some 5⟩ true] w).2
      ∧ recover .sample (some 7) v = (.ok report, v')
      ∧ v'.inconsistent = true ∧ v'.nextSequence = 0 ∧ ¬ Restored .sample v' := by
  have hrun : (sampleLog .sample).toOption.bind
      (fun w => (recover .sample (some 7) (Machine.run (LogAction.run .sample)
        [.append ⟨.heartbeat, [1], some 5⟩ true] w).2).1.toOption.map fun _ =>
        ((recover .sample (some 7) (Machine.run (LogAction.run .sample)
          [.append ⟨.heartbeat, [1], some 5⟩ true] w).2).2.inconsistent,
          (recover .sample (some 7) (Machine.run (LogAction.run .sample)
            [.append ⟨.heartbeat, [1], some 5⟩ true] w).2).2.nextSequence))
      = some (true, 0) := by
    decide +kernel
  obtain ⟨w, hopen, hboth⟩ := Option.bind_eq_some_iff.mp hrun
  obtain ⟨report, hok, hboth⟩ := exists_ok_of_toOption hboth
  obtain ⟨w', hopen', rfl⟩ := exists_ok_of_toOption (congrArg (Option.map id) hopen)
  have hmarked := congrArg Prod.fst hboth
  refine ⟨_, _, report, _, hopen', rfl, Prod.ext hok rfl, hmarked, congrArg Prod.snd hboth, ?_⟩
  intro hrestored
  exact absurd (hmarked.symm.trans hrestored.consistent) (by decide)

end WritersProof.Wal
