/-
  Logs whose file is a header and the frames that a reader accepts.

  `Records header fs w` relates the file, the reader that has gone through it,
  and the state of the log.  A fresh log records nothing, and an append whose
  frame the reader accepts extends the recorded frames by it.  The cumulative
  hasher is not part of `Records`: an append that fails for the size of its
  payload changes it and writes nothing.
-/
import WritersProof.Wal.Append

namespace WritersProof.Wal

set_option linter.dupNamespace false

open Rust Replay
open Wal (nextEntry frame)

variable {Key : Type} {cr : Crypto Key} {key : Key} {checks : Checks}

/-! ## Frames of appended entries -/

namespace Frame

theorem bytes_inj {f g : Frame} {tail tail' : Bytes} (hf : f.Readable) (hg : g.Readable)
    (h : f.bytes ++ tail = g.bytes ++ tail') : f = g ∧ tail = tail' := by
  have hlen : ∀ {f : Frame}, f.Readable → f.body.length < 256 ^ 4 := by
    intro f hf
    have := hf.size
    unfold maxEntrySize at this
    omega
  rw [bytes, bytes, List.append_assoc, List.append_assoc] at h
  obtain ⟨hlead, hrest⟩ := List.append_inj h (by simp)
  have hsize := Bytes.toBE_injective (hlen hf) (hlen hg) hlead
  obtain ⟨hbody, htail⟩ := List.append_inj hrest hsize
  refine ⟨?_, htail⟩
  obtain ⟨body, entry⟩ := f
  obtain ⟨body', entry'⟩ := g
  change body = body' at hbody
  subst hbody
  have hentry : entry = entry' := Except.ok.inj (hf.decode.symm.trans hg.decode)
  rw [hentry]

theorem frame_entryBytes {e : Entry} (h : entryOverhead + e.payload.length ≤ maxEntrySize) :
    frame (entryBytes e) = (ofEntry e).bytes := by
  unfold maxEntrySize at h
  rw [frame, bytes, ofEntry, Nat.mod_eq_of_lt]
  rw [length_entryBytes]
  omega

theorem frame_oversize_ne {e : Entry} {g : Frame} {rest tail : Bytes}
    (hlarge : maxEntrySize < entryOverhead + e.payload.length)
    (hpayload : e.payload.length < 2 ^ 32) (hg : g.Readable) :
    frame (entryBytes e) ++ rest ≠ g.bytes ++ tail := by
  intro hbytes
  have hsize := hg.size
  have hover := hg.overhead_le
  rw [frame, Frame.bytes, List.append_assoc, List.append_assoc] at hbytes
  obtain ⟨hlead, -⟩ := List.append_inj hbytes (by simp)
  unfold maxEntrySize at hsize hlarge
  unfold entryOverhead at hover hlarge
  have hlen := Bytes.toBE_injective (Nat.mod_lt _ (by decide)) (by omega) hlead
  rw [length_entryBytes, entryOverhead] at hlen
  omega

end Frame

namespace Replay

variable {r : Replay} {fs : List Frame}

theorem acceptsAll_append {gs : List Frame} :
    AcceptsAll cr key checks r (fs ++ gs)
      ↔ AcceptsAll cr key checks r fs ∧ AcceptsAll cr key checks (r.afterAll cr fs) gs := by
  induction fs generalizing r with
  | nil => exact ⟨fun h => ⟨trivial, h⟩, fun h => h.2⟩
  | cons f fs ih =>
    rw [List.cons_append, AcceptsAll, AcceptsAll, ih, afterAll_cons]
    exact ⟨fun ⟨h, h', h'', h'''⟩ => ⟨⟨h, h', h''⟩, h'''⟩,
      fun ⟨⟨h, h', h''⟩, h'''⟩ => ⟨h, h', h'', h'''⟩⟩

theorem afterAll_append (fs gs : List Frame) :
    r.afterAll cr (fs ++ gs) = (r.afterAll cr fs).afterAll cr gs := List.foldl_append

theorem afterAll_sequence (fs : List Frame) :
    (r.afterAll cr fs).chain.nextSequence = r.chain.nextSequence + fs.length := by
  induction fs generalizing r with
  | nil => rfl
  | cons f fs ih =>
    rw [afterAll_cons, ih, List.length_cons]
    change r.chain.nextSequence + 1 + fs.length = r.chain.nextSequence + (fs.length + 1)
    omega

theorem AcceptsAll.length_le (h : AcceptsAll cr key checks r fs) :
    153 * fs.length ≤ (framesBytes fs).length := by
  induction fs generalizing r with
  | nil => exact Nat.zero_le _
  | cons f fs ih =>
    have hover := h.1.overhead_le
    have := ih h.2.2
    unfold entryOverhead at hover
    rw [framesBytes_cons, List.length_append, Frame.length_bytes, List.length_cons]
    omega

theorem AcceptsAll.readable (h : AcceptsAll cr key checks r fs) : ∀ f ∈ fs, f.Readable := by
  induction fs generalizing r with
  | nil => exact fun f hf => (List.not_mem_nil hf).elim
  | cons f fs ih =>
    intro g hg
    obtain rfl | hg := List.mem_cons.mp hg
    · exact h.1
    · exact ih h.2.2 g hg

/-- Accepted frames are numbered from where the reader starts. -/
theorem AcceptsAll.sequences (h : AcceptsAll cr key checks r fs) :
    (fs.map Frame.entry).map Entry.sequence = List.range' r.chain.nextSequence fs.length := by
  induction fs generalizing r with
  | nil => rfl
  | cons f fs ih =>
    rw [List.map_cons, List.map_cons, ih h.2.2, h.2.1.sequence, List.length_cons, List.range'_succ]
    rfl

theorem accepts_nextEntry (hcr : cr.Correct) {chain : Chain} {timestamp : Int}
    {entryType : EntryType} {payload : Bytes}
    (hsequence : chain.nextSequence = r.chain.nextSequence)
    (hlast : chain.lastHash = r.chain.lastHash) :
    Accepts cr key checks r (.ofEntry (nextEntry cr key chain timestamp entryType payload))
      ↔ (checks.limit = true → r.count < maxWalEntries)
        ∧ (checks.timestamp = true → r.lastTimestamp ≤ timestamp)
        ∧ cr.blake3 (chain.hasherAfter cr (nextEntry cr key chain timestamp entryType payload))
          = cr.blake3 (r.chain.hasherAfter cr (nextEntry cr key chain timestamp entryType payload))
        ∧ r.chain.nextSequence + 1 < 2 ^ 64 := by
  constructor
  · intro h
    exact ⟨h.limit, h.timestamp, h.cumulative, h.room⟩
  · rintro ⟨hlimit, htime, hcum, hroom⟩
    exact ⟨hlimit, hsequence, htime, hlast, hcum, hcr _ _, hroom⟩

end Replay

/-! ## Bytes that stop a reader -/

namespace Replay

variable {r : Replay}

/-- Whatever follows `bytes`, the loop accepts no frame there. -/
def Blocks (cr : Crypto Key) (key : Key) (checks : Checks) (r : Replay) (bytes : Bytes) : Prop :=
  ∀ rest r', (scan cr key checks r (bytes ++ rest)).outcome ≠ .ok r'

theorem blocks_frame {f : Frame} (hf : f.Readable) (h : ¬ Accepts cr key checks r f) :
    Blocks cr key checks r f.bytes := by
  intro rest r' hok
  obtain ⟨g, tail, hbytes, hg, haccept, -⟩ := scan_eq_ok hok
  obtain ⟨rfl, -⟩ := Frame.bytes_inj hf hg hbytes
  exact h haccept

theorem blocks_oversize {e : Entry} (hlarge : maxEntrySize < entryOverhead + e.payload.length)
    (hpayload : e.payload.length < 2 ^ 32) : Blocks cr key checks r (frame (entryBytes e)) := by
  intro rest r' hok
  obtain ⟨g, tail, hbytes, hg, -, -⟩ := scan_eq_ok hok
  exact Frame.frame_oversize_ne hlarge hpayload hg hbytes

theorem exists_split_blocks {fs : List Frame} {bytes : Bytes} (rest : Bytes)
    (haccept : AcceptsAll cr key checks r fs) (h : Blocks cr key checks (r.afterAll cr fs) bytes) :
    ∃ s : Split cr key checks r (framesBytes fs ++ (bytes ++ rest)),
      s.frames = fs ∧ s.tail = bytes ++ rest := by
  cases hscan : scan cr key checks (r.afterAll cr fs) (bytes ++ rest) with
  | mk outcome n k =>
    cases outcome with
    | ok r' => exact absurd (congrArg Turn.outcome hscan) (h rest r')
    | error stop => exact ⟨⟨fs, bytes ++ rest, stop, n, k, rfl, haccept, hscan⟩, rfl, rfl⟩

theorem exists_split_end {fs : List Frame} (haccept : AcceptsAll cr key checks r fs)
    (hlimit : checks.limit = true → (r.afterAll cr fs).count < maxWalEntries) :
    ∃ s : Split cr key checks r (framesBytes fs),
      s.frames = fs ∧ s.tail = [] ∧ s.stop = .eof ∧ s.tailBytes = 0 := by
  have hscan : scan cr key checks (r.afterAll cr fs) [] = ⟨.error .eof, 0, 1⟩ := by
    rw [scan, if_neg (fun h => Nat.not_le_of_lt (hlimit h.1) h.2), if_pos (by decide)]
    rfl
  exact ⟨⟨fs, [], .eof, 0, 1, (List.append_nil _).symm, haccept, hscan⟩, rfl, rfl, rfl, rfl⟩

end Replay

theorem fits_nextEntry {chain : Chain} {clock : Option Nat} {entryType : EntryType}
    {payload : Bytes} (hsequence : chain.nextSequence < 2 ^ 64)
    (hpayload : payload.length < 2 ^ 32) :
    (nextEntry cr key chain (nowNanos clock) entryType payload).Fits where
  sequence := hsequence
  timestamp_ge := by
    have := nowNanos_nonneg clock
    change -(2 ^ 63) ≤ nowNanos clock
    omega
  timestamp_lt := nowNanos_lt clock
  payload := hpayload

/-! ## Headers -/

theorem fits_header {sessionId : FixedBytes 32} {clock : Option Nat} {sequence : Nat}
    (h : sequence < 2 ^ 64) : (Wal.header sessionId clock sequence).Fits where
  version := by
    change version < 2 ^ 32
    decide
  createdAt_ge := by
    have := nowNanos_nonneg clock
    change -(2 ^ 63) ≤ nowNanos clock
    omega
  createdAt_lt := nowNanos_lt clock
  lastCheckpointSeq := h

theorem valid_header (sessionId : FixedBytes 32) (clock : Option Nat) (sequence : Nat) :
    (Wal.header sessionId clock sequence).Valid sessionId := ⟨rfl, rfl, rfl⟩

namespace Wal

variable {w : Wal Key} {header : Header} {fs : List Frame} {bytes : Bytes} {pendingSyncs : Nat}

/-- A file that starts with a serialized header. -/
theorem hasHeader_of_content (hfits : header.Fits)
    (h : w.disk.file.content = serializeHeader header ++ bytes) : w.HasHeader header := by
  rw [HasHeader, h, List.take_left' (length_serializeHeader header),
    deserializeHeader_serializeHeader hfits]

theorem body_of_content (h : w.disk.file.content = serializeHeader header ++ bytes) :
    w.body = bytes := by
  rw [body, h, List.drop_left' (length_serializeHeader header)]

def readerAt (cr : Crypto Key) (header : Header) (fs : List Frame) : Replay :=
  (Replay.start header.lastCheckpointSeq).afterAll cr fs

/-- The file of the log is `header` and `fs`, a reader accepts them, and the log goes on where
    the reader stops. -/
structure Records (cr : Crypto Key) (header : Header) (fs : List Frame) (w : Wal Key) : Prop where
  steady : w.Steady
  valid : header.Valid w.sessionId
  fits : header.Fits
  content : w.disk.file.content = serializeHeader header ++ framesBytes fs
  accepts : AcceptsAll cr w.signingKey scanChecks (.start header.lastCheckpointSeq) fs
  sequence : w.nextSequence = (readerAt cr header fs).chain.nextSequence
  lastHash : w.lastHash = (readerAt cr header fs).chain.lastHash
  count : w.entryCount = fs.length

/-- The cumulative hasher is where the reader's is. -/
def Clean (cr : Crypto Key) (header : Header) (fs : List Frame) (w : Wal Key) : Prop :=
  w.cumulativeHasher = (readerAt cr header fs).chain.hasher

theorem readerAt_snoc (cr : Crypto Key) (header : Header) (fs : List Frame) (f : Frame) :
    readerAt cr header (fs ++ [f]) = (readerAt cr header fs).after cr f := afterAll_append fs [f]

theorem readerAt_sequence (cr : Crypto Key) (header : Header) (fs : List Frame) :
    (readerAt cr header fs).chain.nextSequence = header.lastCheckpointSeq + fs.length :=
  afterAll_sequence fs

theorem readerAt_count (cr : Crypto Key) (header : Header) (fs : List Frame) :
    (readerAt cr header fs).count = fs.length := (afterAll_count fs).trans (Nat.zero_add _)

/-- An append whose frame a reader accepts. -/
theorem Records.grown (hcr : cr.Correct) (h : w.Records cr header fs)
    (hfull : w.byteCount < maxWalSize) (hroom : w.nextSequence + 1 < 2 ^ 64) {a : Attempt}
    (hsize : entryOverhead + a.payload.length ≤ maxEntrySize)
    (hsyncs : pendingSyncs < w.syncInterval)
    (hcum : cr.blake3 (w.chain.hasherAfter cr (entryFor cr w a))
      = cr.blake3 ((readerAt cr header fs).chain.hasherAfter cr (entryFor cr w a))) :
    (Wal.grown cr w (entryFor cr w a) pendingSyncs).Records cr header
      (fs ++ [.ofEntry (entryFor cr w a)]) := by
  have hpayload : a.payload.length < 2 ^ 32 := by
    unfold entryOverhead maxEntrySize at hsize
    omega
  have hfits : (entryFor cr w a).Fits :=
    fits_nextEntry (show w.nextSequence < 2 ^ 64 by omega) hpayload
  have hlimit := h.steady.limit
  have haccept : Accepts cr w.signingKey scanChecks (readerAt cr header fs)
      (.ofEntry (entryFor cr w a)) := by
    refine (accepts_nextEntry hcr h.sequence h.lastHash).mpr ⟨fun _ => ?_, ?_, hcum, ?_⟩
    · rw [readerAt_count, ← h.count]
      exact hlimit
    · intro hcheck
      cases hcheck
    · rw [← h.sequence]
      exact hroom
  refine ⟨h.steady.grown hfull hpayload hsyncs, h.valid, h.fits, ?_, ?_, ?_, ?_, ?_⟩
  · change (w.disk.file.write _).content = _
    rw [OpenFile.write_atEnd h.steady.atEnd, h.content, List.append_assoc, framesBytes_append,
      Frame.frame_entryBytes hsize, framesBytes_cons, framesBytes_nil, List.append_nil]
  · exact acceptsAll_append.mpr ⟨h.accepts, Frame.readable_ofEntry hfits hsize, haccept, trivial⟩
  · rw [readerAt_snoc]
    exact congrArg (· + 1) h.sequence
  · rw [readerAt_snoc]
    rfl
  · rw [List.length_append]
    exact congrArg (· + 1) h.count

theorem Clean.grown (h : w.Clean cr header fs) {e : Entry} :
    (Wal.grown cr w e pendingSyncs).Clean cr header (fs ++ [.ofEntry e]) := by
  rw [Clean, readerAt_snoc]
  exact congrArg (· ++ (e.computeHash cr).val) h

/-! ## Opening -/

section

variable {sessionId : FixedBytes 32} {syncInterval : Nat} {clock : Option Nat} {d : Disk}

/-- A directory without a log, or with an empty file in its place. -/
structure Fresh (d : Disk) : Prop where
  quiet : d.Quiet
  empty : ∀ name, d.wal = some name → d.contentOf name = []

/-- The disk after the file of the log was opened. -/
def attached (d : Disk) : Disk :=
  if d.wal = none then { d with wal := some (.own []) }.attachWal else d.attachWal

theorem attached_quiet (hq : d.Quiet) : (attached d).Quiet := by
  unfold attached Disk.attachWal
  split
  · exact hq
  · split <;> exact hq

theorem attached_wal (d : Disk) : (attached d).wal = some .shared := by
  unfold attached
  by_cases hname : d.wal = none
  · rw [if_pos hname]
    rfl
  · obtain ⟨name, hname⟩ := Option.ne_none_iff_exists'.mp hname
    rw [if_neg (by rw [hname]; exact Option.some_ne_none _), Disk.attachWal, hname]

theorem attached_file_of_shared (h : d.wal = some .shared) :
    (attached d).file = ⟨d.file.content, 0⟩ := by
  rw [attached, if_neg (by rw [h]; exact Option.some_ne_none _), Disk.attachWal, h]
  rfl

theorem attached_file_of_fresh (h : Fresh d) : (attached d).file = ⟨[], 0⟩ := by
  by_cases hname : d.wal = none
  · rw [attached, if_pos hname]
    rfl
  · obtain ⟨name, hname⟩ := Option.ne_none_iff_exists'.mp hname
    rw [attached, if_neg (by rw [hname]; exact Option.some_ne_none _), Disk.attachWal, hname]
    exact congrArg (OpenFile.mk · 0) (h.empty name hname)

theorem openFile_quiet (hq : d.Quiet) :
    openFile cr clock (initial sessionId key syncInterval d)
      = if (attached d).file.len = 0 then
          openFresh clock (initial sessionId key syncInterval (attached d))
        else openExisting cr (initial sessionId key syncInterval (attached d)) := by
  have hopen : io Disk.openOrCreateWal (initial sessionId key syncInterval d)
      = (.ok (), initial sessionId key syncInterval (attached d)) :=
    io_of_ok (Disk.atomic_quiet hq _)
  have hq' := attached_quiet hq
  rw [openFile, Call.bind_of_ok (io_access (by exact hq)), Call.bind_of_ok hopen,
    Call.bind_of_ok (io_access (by exact hq')), Call.bind_of_ok (io_fileLen (by exact hq'))]
  exact apply_ite (fun f : WalCall Key Unit => f (initial sessionId key syncInterval (attached d)))
    _ _ _

theorem openFresh_quiet (hq : d.Quiet) (hfile : d.file = ⟨[], 0⟩) :
    openFresh clock (initial sessionId key syncInterval d)
      = (.ok (), { (initial sessionId key syncInterval d).setFile
            ⟨serializeHeader (Wal.header sessionId clock 0), headerSize⟩ with
          byteCount := headerSize }) := by
  have hwrite : d.file.write (serializeHeader (Wal.header sessionId clock 0))
      = ⟨serializeHeader (Wal.header sessionId clock 0), headerSize⟩ := by
    rw [hfile, OpenFile.write_atEnd (show OpenFile.AtEnd ⟨[], 0⟩ from rfl), length_serializeHeader]
    rfl
  have hheader : writeHeader clock (initial sessionId key syncInterval d)
      = (.ok (), (initial sessionId key syncInterval d).setFile
          ⟨serializeHeader (Wal.header sessionId clock 0), headerSize⟩) := by
    rw [writeHeader, Call.asks_id_bind, Call.bind_of_ok (io_writeAll (by exact hq) _)]
    exact (io_access (by exact hq)).trans (congrArg (fun f =>
      (Except.ok (), (initial sessionId key syncInterval d).setFile f)) hwrite)
  rw [openFresh, Call.bind_of_ok hheader, Call.bind_of_ok (Call.modify_apply _ _)]
  exact io_seek (by exact hq) headerSize

/-- A log that is opened on nothing records nothing. -/
theorem open_fresh (h : Fresh d) (hinterval : syncInterval < 2 ^ 64) :
    ∃ w, (openWithSyncInterval cr sessionId key syncInterval clock d).1 = .ok w
      ∧ w.Records cr (Wal.header sessionId clock 0) []
      ∧ w.Clean cr (Wal.header sessionId clock 0) []
      ∧ w.signingKey = key ∧ w.sessionId = sessionId
      ∧ w.disk.archives = (attached d).archives := by
  have hfile := attached_file_of_fresh h
  have hq := attached_quiet h.quiet
  have hlen := length_serializeHeader (Wal.header sessionId clock 0)
  have hsteady : Steady { (initial sessionId key syncInterval (attached d)).setFile
      ⟨serializeHeader (Wal.header sessionId clock 0), headerSize⟩ with
      byteCount := headerSize } :=
    { quiet := hq
      name := attached_wal d
      open_ := rfl
      consistent := rfl
      atEnd := hlen.symm
      byteCount := hlen.symm
      entries := Nat.le_refl _
      limit := show 0 < maxWalEntries by decide
      bytes := show headerSize < 2 ^ 33 by decide
      syncs := Nat.lt_of_lt_of_le Nat.one_pos (Nat.le_max_right _ _)
      interval := Nat.max_lt.mpr ⟨hinterval, by decide⟩ }
  refine ⟨_, ?_, ⟨hsteady, valid_header _ _ _, fits_header (by decide), ?_, trivial, rfl, rfl, rfl⟩,
    rfl, rfl, rfl, rfl⟩
  · rw [openWithSyncInterval, openFile_quiet h.quiet, if_pos (by rw [hfile]; rfl),
      openFresh_quiet hq hfile]
  · exact (List.append_nil _).symm

theorem fresh_empty : Fresh Disk.empty := ⟨rfl, by decide⟩

theorem sampleLog_fresh (cr : Crypto Unit) :
    ∃ w, sampleLog cr = .ok w ∧ w.Records cr (Wal.header (.filled 32 1) (some 3) 0) []
      ∧ w.Clean cr (Wal.header (.filled 32 1) (some 3) 0) [] := by
  obtain ⟨w, hopen, h, hclean, -⟩ :=
    @open_fresh _ cr () (.filled 32 1) 1 (some 3) _ fresh_empty (by decide)
  exact ⟨w, hopen, h, hclean⟩

theorem Records.byteCount_nil (h : w.Records cr header []) : w.byteCount = headerSize := by
  rw [h.steady.byteCount, OpenFile.len, h.content, framesBytes_nil, List.append_nil,
    length_serializeHeader]

/-! ## Closing and opening again -/

theorem close_quiet (hq : w.disk.Quiet) (hopen : w.closed = false) :
    close w = (.ok (), { w with closed := true }) := by
  rw [close, Call.asks_id_bind, if_neg (by rw [hopen]; decide),
    Call.bind_of_ok (Call.modify_apply _ _)]
  exact io_access (by exact hq)

section

/-- The log on the file that `open` finds. -/
theorem reopen_eq (hq : d.Quiet) (hname : d.wal = some .shared)
    (hcontent : d.file.content = serializeHeader header ++ bytes) :
    openFile cr clock (initial sessionId key syncInterval d)
      = openExisting cr (initial sessionId key syncInterval (attached d)) := by
  have hpos : (attached d).file.len ≠ 0 := by
    rw [attached_file_of_shared hname, OpenFile.len]
    change d.file.content.length ≠ 0
    rw [hcontent, List.length_append, length_serializeHeader, headerSize]
    omega
  rw [openFile_quiet hq, if_neg hpos]

theorem attached_content (sessionId : FixedBytes 32) (key : Key) (syncInterval : Nat)
    (hname : d.wal = some .shared)
    (hcontent : d.file.content = serializeHeader header ++ bytes) :
    (initial sessionId key syncInterval (attached d)).disk.file.content
      = serializeHeader header ++ bytes := by
  change (attached d).file.content = _
  rw [attached_file_of_shared hname]
  exact hcontent

variable (hq : d.Quiet) (hname : d.wal = some .shared) (hfits : header.Fits)
  (hvalid : header.Valid sessionId)

include hq hname hfits hvalid

/-- A log that `open` returns holds the entries that the scan accepts. -/
theorem reopen_entryCount (hcontent : d.file.content = serializeHeader header ++ bytes)
    (s : Split cr key scanChecks (.start header.lastCheckpointSeq) bytes) {w : Wal Key}
    (hopen : (openWithSyncInterval cr sessionId key syncInterval clock d).1 = .ok w) :
    w.entryCount = s.frames.length := by
  have hfile := attached_content sessionId key syncInterval hname hcontent
  obtain rfl := body_of_content hfile
  have hcount := (openExisting_entryCount (attached_quiet hq)
    (hasHeader_of_content hfits hfile) hvalid s).trans (s.final_count.trans (Nat.zero_add _))
  rw [openWithSyncInterval, reopen_eq hq hname hcontent] at hopen
  cases hresult : openExisting cr (initial sessionId key syncInterval (attached d)) with
  | mk result w' =>
    rw [hresult] at hopen hcount
    cases result with
    | error e => cases hopen
    | ok =>
      obtain rfl := Except.ok.inj hopen
      exact hcount

/-- The log that `open` returns when its scan goes to the end. -/
theorem reopen_records (hinterval : syncInterval < 2 ^ 64)
    (hcontent : d.file.content = serializeHeader header ++ bytes)
    (hbytes : (serializeHeader header ++ bytes).length < 2 ^ 33)
    (s : Split cr key scanChecks (.start header.lastCheckpointSeq) bytes)
    (hlimit : s.frames.length < maxWalEntries)
    (hfinish : ∀ offset, scanOutcome s.stop offset = (finishScan offset : WalCall Key Nat)) :
    ∃ w, (openWithSyncInterval cr sessionId key syncInterval clock d).1 = .ok w
      ∧ w.Records cr header s.frames ∧ w.Clean cr header s.frames
      ∧ w.signingKey = key ∧ w.sessionId = sessionId
      ∧ w.disk.archives = (attached d).archives := by
  have hfile := attached_content sessionId key syncInterval hname hcontent
  have hq' := attached_quiet hq
  obtain rfl := body_of_content hfile
  have hrun := openExisting_of_finish hq' (hasHeader_of_content hfits hfile) hvalid s hfinish
  have hoffset : s.final.offset = (serializeHeader header ++ framesBytes s.frames).length := by
    rw [List.length_append, length_serializeHeader]
    exact s.final_offset
  -- what does not replay is cut off
  have hcut : (attached d).file.content.take s.final.offset
      = serializeHeader header ++ framesBytes s.frames := by
    have hsplit : (attached d).file.content
        = serializeHeader header ++ framesBytes s.frames ++ s.tail := by
      rw [List.append_assoc, ← s.eq]
      exact hfile
    rw [hsplit, hoffset, List.take_left' rfl]
  have hshort : s.final.offset < 2 ^ 33 := by
    have hlen := s.length_eq
    rw [List.length_append] at hbytes
    rw [hoffset, List.length_append]
    omega
  have hsteady : Steady (opened sessionId key syncInterval (attached d) s) :=
    { quiet := hq'
      name := attached_wal d
      open_ := rfl
      consistent := rfl
      atEnd := by
        change s.final.offset = ((attached d).file.content.take s.final.offset).length
        rw [hcut, hoffset]
      byteCount := by
        change s.final.offset = ((attached d).file.content.take s.final.offset).length
        rw [hcut, hoffset]
      entries := by
        have hmin := AcceptsAll.length_le s.accepts
        have hcount : s.final.count = s.frames.length := s.final_count.trans (Nat.zero_add _)
        change headerSize + 153 * s.final.count ≤ s.final.offset
        rw [hcount, hoffset, List.length_append, length_serializeHeader]
        omega
      limit := by
        change s.final.count < maxWalEntries
        rw [s.final_count]
        exact (Nat.zero_add _).symm ▸ hlimit
      bytes := hshort
      syncs := Nat.lt_of_lt_of_le Nat.one_pos (Nat.le_max_right _ _)
      interval := Nat.max_lt.mpr ⟨hinterval, by decide⟩ }
  refine ⟨opened sessionId key syncInterval (attached d) s, ?_,
    ⟨hsteady, hvalid, hfits, hcut, s.accepts, rfl, rfl, s.final_count.trans (Nat.zero_add _)⟩,
    rfl, rfl, rfl, rfl⟩
  rw [openWithSyncInterval, reopen_eq hq hname hcontent, hrun]

end

end

end Wal

end WritersProof.Wal
