/-
  The sequence numbers of a log and its archives, over appends, failed syncs,
  recovery without cutting, rotation, and closing and opening again.

  A sync that fails leaves an entry in the file that the state does not count,
  and marks the log.  `try_recover` and `open` read it back.  `rotate_if_needed`
  does not look at the mark: it starts the next file at the state's sequence
  number, which the entry in the archive has already.  `Allowed` excludes this,
  and what makes a file invalid for its readers; then the numbers increase from
  file to file (`sequences_increase`).
-/
import WritersProof.Wal.Tampering

namespace WritersProof.Wal

set_option linter.dupNamespace false

open Rust Replay Call

variable {Key : Type}

/-! ## The files of a log -/

def parseEntries : (fuel : Nat) → Bytes → List Entry
  | 0, _ => []
  | fuel + 1, bytes =>
    if bytes.length < 4 then []
    else
      match deserializeEntry ((bytes.drop 4).take (Bytes.ofBE (bytes.take 4))) with
      | .error _ => []
      | .ok entry => entry :: parseEntries fuel (bytes.drop (4 + Bytes.ofBE (bytes.take 4)))

def entriesIn (content : Bytes) : List Entry :=
  parseEntries content.length (content.drop headerSize)

/-- The archives, oldest first, and the file under the log's path. -/
def filesOf (w : Wal Key) : List Bytes :=
  (w.disk.archives.reverse.map fun a => w.disk.contentOf a.2)
    ++ (w.disk.wal.map w.disk.contentOf).toList

def verifyFile (cr : Crypto Key) (sessionId : FixedBytes 32) (key : Key) (content : Bytes) :
    Res WalError WalVerification :=
  (Wal.verify cr (Wal.initial sessionId key 1 { Disk.empty with file := ⟨content, 0⟩ })).1

/-- No sequence number occurs twice in the files, they are in order, and every file is valid. -/
structure Sound (cr : Crypto Key) (w : Wal Key) : Prop where
  increasing : (((filesOf w).flatMap entriesIn).map Entry.sequence).Pairwise (· < ·)
  replays : ∀ content ∈ filesOf w, ∃ v,
    verifyFile cr w.sessionId w.signingKey content = .ok v ∧ v.valid = true

/-! ## Actions -/

inductive RotationSync where
  | none
  /-- before the rename -/
  | flush
  /-- behind the new header -/
  | header
  deriving DecidableEq

inductive LogAction where
  | append (a : Attempt) (syncFails : Bool)
  | tryRecover
  | rotate (maxSizeBytes : UInt64) (archiveClock headerClock : Option Nat) (sync : RotationSync)
  /-- `close`, which may fail in its sync, and `open` -/
  | reopen (syncFails : Bool) (syncInterval : UInt64) (clock : Option Nat)

namespace Wal

/-- With other I/O errors to come. -/
def withFaults (faults : List (Option Nat)) (w : Wal Key) : Wal Key :=
  { w with disk := { w.disk with faults } }

def meeting {α : Type} (faults : List (Option Nat)) (x : WalCall Key α) : WalCall Key α := fun w =>
  let (r, w') := x (w.withFaults faults)
  (r, w'.withFaults [])

end Wal

/-- `close` and `open`; without a log when `open` fails. -/
def reopenLog (cr : Crypto Key) (syncFails : Bool) (syncInterval : Nat) (clock : Option Nat) :
    WalCall Key Unit := fun w =>
  let closed := (Wal.meeting (if syncFails = true then [some 0] else []) Wal.close w).2
  match Wal.openWithSyncInterval cr w.sessionId w.signingKey syncInterval clock closed.disk with
  | (.ok w', _) => (.ok (), w')
  | (.error e, disk) => (.error e, { closed with disk })

def LogAction.run (cr : Crypto Key) (action : LogAction) (w : Wal Key) :
    Res WalError Unit × Wal Key :=
  match action with
  | .append a syncFails =>
    Wal.meeting (if syncFails = true then [none, some 0] else [])
      (Wal.append cr a.entryType a.payload a.clock) w
  | .tryRecover => (do let _ ← Wal.tryRecover cr; pure () : WalCall Key Unit) w
  | .rotate maxSizeBytes archiveClock headerClock sync =>
    let faults := match sync with
      | .none => []
      | .flush => [some 0]
      | .header => [none, none, none, none, none, some 0]
    Wal.meeting faults (do
      let _ ← Wal.rotateIfNeeded maxSizeBytes.toNat archiveClock headerClock
      pure ()) w
  | .reopen syncFails syncInterval clock => reopenLog cr syncFails syncInterval.toNat clock w

/-- The timestamp of the last entry in the file of `w` is not behind the clock. -/
def ClockAhead (clock : Option Nat) (w : Wal Key) : Prop :=
  ∀ e ∈ (entriesIn w.disk.file.content).getLast?, e.timestamp ≤ nowNanos clock

instance (clock : Option Nat) (w : Wal Key) : Decidable (ClockAhead clock w) :=
  inferInstanceAs (Decidable (∀ e ∈ (entriesIn w.disk.file.content).getLast?, _))

/-- An append that is not refused has a payload that can be read back and a clock that does not
    go back, and sequence numbers do not run out; a rotation does not leave an entry behind that
    the state does not count. -/
def Allowed (action : LogAction) (w : Wal Key) : Prop :=
  match action with
  | .append a _ => w.inconsistent = true ∨ maxWalSize ≤ w.byteCount
      ∨ a.payload.length ≤ maxEntrySize - entryOverhead ∧ ClockAhead a.clock w
        ∧ w.nextSequence + 1 < 2 ^ 64
  | .tryRecover => True
  | .rotate maxSizeBytes _ _ sync => w.byteCount < maxSizeBytes.toNat ∨ sync = .flush
      ∨ w.inconsistent = false ∨ w.disk.file.content.length ≤ headerSize
  | .reopen _ _ _ => True

instance (action : LogAction) (w : Wal Key) : Decidable (Allowed action w) :=
  match action with
  | .append a _ => inferInstanceAs (Decidable (w.inconsistent = true ∨ maxWalSize ≤ w.byteCount
      ∨ a.payload.length ≤ maxEntrySize - entryOverhead ∧ ClockAhead a.clock w
        ∧ w.nextSequence + 1 < 2 ^ 64))
  | .tryRecover => .isTrue trivial
  | .rotate maxSizeBytes _ _ sync => inferInstanceAs (Decidable (w.byteCount < maxSizeBytes.toNat
      ∨ sync = .flush ∨ w.inconsistent = false ∨ w.disk.file.content.length ≤ headerSize))
  | .reopen _ _ _ => .isTrue trivial

variable {cr : Crypto Key} {key : Key} {sessionId : FixedBytes 32} {header : Header}
  {fs : List Frame} {w : Wal Key} {r : Replay}

/-! ## The entries of a file -/

theorem parseEntries_framesBytes : ∀ {fs : List Frame} {fuel : Nat},
    (∀ f ∈ fs, Frame.Readable f) → fs.length < fuel →
    parseEntries fuel (framesBytes fs) = fs.map Frame.entry := by
  intro fs
  induction fs with
  | nil =>
    intro fuel _ hfuel
    obtain ⟨fuel, rfl⟩ := Nat.exists_eq_succ_of_ne_zero (Nat.ne_of_gt hfuel)
    rfl
  | cons f fs ih =>
    intro fuel hread hfuel
    obtain ⟨fuel, rfl⟩ := Nat.exists_eq_succ_of_ne_zero (Nat.ne_zero_of_lt hfuel)
    have hf := hread f List.mem_cons_self
    have hsize := hf.size
    have hlen : Bytes.ofBE ((framesBytes (f :: fs)).take 4) = f.body.length := by
      rw [framesBytes_cons, Frame.bytes, List.append_assoc,
        List.take_left' (Bytes.length_toBE 4 _),
        Bytes.ofBE_toBE_of_lt (by unfold maxEntrySize at hsize; omega)]
    have hbody : ((framesBytes (f :: fs)).drop 4).take f.body.length = f.body := by
      rw [framesBytes_cons, Frame.bytes, List.append_assoc,
        List.drop_left' (Bytes.length_toBE 4 _), List.take_left' rfl]
    have hrest : (framesBytes (f :: fs)).drop (4 + f.body.length) = framesBytes fs := by
      rw [framesBytes_cons, List.drop_left' f.length_bytes]
    rw [parseEntries, if_neg (by simp; omega), hlen, hbody, hf.decode, hrest]
    exact congrArg (f.entry :: ·) (ih (fun g hg => hread g (List.mem_cons_of_mem _ hg))
      (by simpa using hfuel))

theorem entriesIn_eq (hread : ∀ f ∈ fs, Frame.Readable f) :
    entriesIn (serializeHeader header ++ framesBytes fs) = fs.map Frame.entry := by
  rw [entriesIn, List.drop_left' (length_serializeHeader header)]
  apply parseEntries_framesBytes hread
  have hle := length_le_framesBytes fs
  rw [List.length_append, length_serializeHeader, headerSize]
  omega

namespace Replay

/-- A chain that started below the limit of its sequence numbers stays below it. -/
theorem AcceptsAll.sequence_lt {checks : Checks} (h : AcceptsAll cr key checks r fs)
    (hstart : r.chain.nextSequence < 2 ^ 64) : r.chain.nextSequence + fs.length < 2 ^ 64 := by
  induction fs generalizing r with
  | nil => exact hstart
  | cons f fs ih =>
    have hrest := ih h.2.2 h.2.1.room
    change r.chain.nextSequence + 1 + fs.length < 2 ^ 64 at hrest
    rw [List.length_cons]
    omega

theorem AcceptsAll.of_verify (h : AcceptsAll cr key Wal.verifyChecks r fs) (checks : Checks) :
    AcceptsAll cr key checks r fs := by
  induction fs generalizing r with
  | nil => trivial
  | cons f fs ih =>
    obtain ⟨hread, haccept, hrest⟩ := h
    refine ⟨hread, ?_, ih hrest⟩
    exact ⟨fun _ => haccept.limit rfl, haccept.sequence, fun _ => haccept.timestamp rfl,
      haccept.prevHash, haccept.cumulative, haccept.signature, haccept.room⟩

end Replay

/-! ## Files in order -/

/-- A header, and frames behind it that `verify` accepts. -/
structure GoodFile (cr : Crypto Key) (sessionId : FixedBytes 32) (key : Key) (header : Header)
    (fs : List Frame) : Prop where
  valid : header.Valid sessionId
  fits : header.Fits
  accepts : AcceptsAll cr key Wal.verifyChecks (.start header.lastCheckpointSeq) fs
  limit : fs.length < maxWalEntries

namespace GoodFile

variable (h : GoodFile cr sessionId key header fs)

include h

theorem sequence_lt :
    header.lastCheckpointSeq + fs.length < 2 ^ 64 := h.accepts.sequence_lt h.fits.lastCheckpointSeq

/-- Another copy of the loop goes through the file, too. -/
theorem exists_split (checks : Checks) :
    ∃ s : Split cr key checks (.start header.lastCheckpointSeq) (framesBytes fs),
      s.frames = fs ∧ s.tail = [] ∧ s.stop = .eof := by
  have hlimit : (Wal.readerAt cr header fs).count < maxWalEntries := by
    rw [Wal.readerAt_count]
    exact h.limit
  obtain ⟨s, hframes, htail, hstop, -⟩ :=
    exists_split_end (h.accepts.of_verify checks) fun _ => hlimit
  exact ⟨s, hframes, htail, hstop⟩

theorem verifyFile_valid :
    ∃ v, verifyFile cr sessionId key (serializeHeader header ++ framesBytes fs) = .ok v
      ∧ v.valid = true := by
  generalize hlog : Wal.initial sessionId key 1 { Disk.empty with
    file := ⟨serializeHeader header ++ framesBytes fs, 0⟩ } = log
  have hcontent : log.disk.file.content = serializeHeader header ++ framesBytes fs := by
    rw [← hlog]
    rfl
  have hq : log.disk.Quiet := by
    rw [← hlog]
    rfl
  have hkey : log.signingKey = key := by
    rw [← hlog]
    rfl
  obtain ⟨s, -, -, hstop⟩ : ∃ s : Split cr log.signingKey Wal.verifyChecks
      (.start header.lastCheckpointSeq) log.body, s.frames = fs ∧ s.tail = [] ∧ s.stop = .eof := by
    rw [Wal.body_of_content hcontent, hkey]
    exact h.exists_split Wal.verifyChecks
  rw [verifyFile, hlog, Wal.verify_quiet hq (Wal.hasHeader_of_content h.fits hcontent) s, hstop]
  exact ⟨_, rfl, rfl⟩

end GoodFile

structure Archive where
  time : Int
  header : Header
  frames : List Frame

namespace Archive

def content (x : Archive) : Bytes := serializeHeader x.header ++ framesBytes x.frames

/-- The sequence number behind the last entry. -/
def stop (x : Archive) : Nat := x.header.lastCheckpointSeq + x.frames.length

end Archive

/-- The archives are good files.  With `ordered`, the entries of each are numbered below those of
    the next, and all are below `sequence`. -/
def Archived (ordered : Prop) (cr : Crypto Key) (sessionId : FixedBytes 32) (key : Key)
    (sequence : Nat) (archives : List (Int × Named)) : Prop :=
  ∃ xs : List Archive, archives = xs.map (fun x => (x.time, .own x.content))
    ∧ (∀ x ∈ xs, GoodFile cr sessionId key x.header x.frames)
    ∧ (ordered → xs.Pairwise (fun x y => y.stop ≤ x.header.lastCheckpointSeq)
      ∧ ∀ x ∈ xs, x.stop ≤ sequence)

namespace Archived

variable {ordered : Prop} {sequence : Nat} {archives : List (Int × Named)}

/-- A rotation puts a file in front, and may replace an older one of the same name. -/
theorem rotate (h : Archived ordered cr sessionId key header.lastCheckpointSeq archives)
    (hgood : GoodFile cr sessionId key header fs) (time : Int) :
    Archived ordered cr sessionId key (header.lastCheckpointSeq + fs.length)
      ((time, .own (serializeHeader header ++ framesBytes fs))
        :: archives.filter (·.1 ≠ time)) := by
  obtain ⟨xs, rfl, hfiles, hordered⟩ := h
  refine ⟨⟨time, header, fs⟩ :: xs.filter (·.time ≠ time), ?_, ?_, fun ho => ?_⟩
  · rw [List.map_cons, List.filter_map]
    rfl
  · intro x hx
    obtain rfl | hx := List.mem_cons.mp hx
    · exact hgood
    · exact hfiles x (List.mem_of_mem_filter hx)
  · obtain ⟨horder, hbelow⟩ := hordered ho
    refine ⟨List.pairwise_cons.mpr
      ⟨fun x hx => hbelow x (List.mem_of_mem_filter hx), horder.filter _⟩, fun x hx => ?_⟩
    obtain rfl | hx := List.mem_cons.mp hx
    · exact Nat.le_refl _
    · exact Nat.le_add_right_of_le (hbelow x (List.mem_of_mem_filter hx))

theorem freeze (h : Archived ordered cr sessionId key sequence archives) (d : Disk) :
    archives.map (fun a => (a.1, d.freeze a.2)) = archives := by
  obtain ⟨xs, rfl, -⟩ := h
  rw [List.map_map]
  rfl

end Archived

/-- The files of a log: its archives, and a good file that it goes on. -/
structure Files (ordered : Prop) (cr : Crypto Key) (header : Header) (fs : List Frame)
    (w : Wal Key) : Prop where
  quiet : w.disk.Quiet
  name : w.disk.wal = some .shared
  atEnd : w.disk.file.AtEnd
  content : w.disk.file.content = serializeHeader header ++ framesBytes fs
  size : w.disk.file.len < 2 ^ 33
  good : GoodFile cr w.sessionId w.signingKey header fs
  archived : Archived ordered cr w.sessionId w.signingKey header.lastCheckpointSeq w.disk.archives

theorem Files.sound (h : Files True cr header fs w) : Sound cr w := by
  obtain ⟨xs, harchives, hfiles, hordered⟩ := h.archived
  obtain ⟨horder, hbelow⟩ := hordered trivial
  generalize hys : xs.reverse ++ [⟨0, header, fs⟩] = ys
  have hcontents : filesOf w = ys.map Archive.content := by
    rw [filesOf, harchives, h.name, ← hys, List.map_append, ← List.map_reverse, List.map_map]
    change _ ++ [w.disk.file.content] = _
    rw [h.content]
    rfl
  have hgood : ∀ y ∈ ys, GoodFile cr w.sessionId w.signingKey y.header y.frames := by
    intro y hy
    rw [← hys] at hy
    obtain hy | hy := List.mem_append.mp hy
    · exact hfiles y (List.mem_reverse.mp hy)
    · obtain rfl := List.mem_singleton.mp hy
      exact h.good
  have hsorted : ys.Pairwise fun x y => x.stop ≤ y.header.lastCheckpointSeq := by
    rw [← hys, List.pairwise_append]
    refine ⟨List.pairwise_reverse.mpr horder, List.pairwise_singleton _ _, ?_⟩
    intro x hx y hy
    obtain rfl := List.mem_singleton.mp hy
    exact hbelow x (List.mem_reverse.mp hx)
  have hentries : ∀ y ∈ ys, (entriesIn y.content).map Entry.sequence
      = List.range' y.header.lastCheckpointSeq y.frames.length := by
    intro y hy
    rw [Archive.content, entriesIn_eq (hgood y hy).accepts.readable]
    exact (hgood y hy).accepts.sequences
  constructor
  · rw [hcontents, List.flatMap_map, List.map_flatMap, List.pairwise_flatMap]
    constructor
    · intro y hy
      rw [hentries y hy]
      exact List.pairwise_lt_range'
    · refine hsorted.imp_of_mem fun {x y} hx hy hle => ?_
      rw [hentries x hx, hentries y hy]
      intro m hm n hn
      obtain ⟨i, hi, rfl⟩ := List.mem_range'.mp hm
      obtain ⟨j, hj, rfl⟩ := List.mem_range'.mp hn
      unfold Archive.stop at hle
      omega
  · intro content hcontent
    rw [hcontents] at hcontent
    obtain ⟨y, hy, rfl⟩ := List.mem_map.mp hcontent
    exact (hgood y hy).verifyFile_valid

variable {ordered : Prop}

/-! ## The state between two calls -/

/-- The log is marked inconsistent, and counts no more entries than the file has. -/
structure Waiting (header : Header) (fs : List Frame) (w : Wal Key) : Prop where
  open_ : w.closed = false
  marked : w.inconsistent = true
  sequence_ge : header.lastCheckpointSeq ≤ w.nextSequence
  sequence_le : w.nextSequence ≤ header.lastCheckpointSeq + fs.length
  interval_pos : 0 < w.syncInterval
  interval : w.syncInterval < 2 ^ 64

/-- The state follows this file, or waits for recovery. -/
def InvAt (ordered : Prop) (cr : Crypto Key) (header : Header) (fs : List Frame)
    (w : Wal Key) : Prop :=
  Files ordered cr header fs w
    ∧ (w.Records cr header fs ∧ w.Clean cr header fs ∨ Waiting header fs w)

/-- The state follows the file, or waits for recovery. -/
def Inv (ordered : Prop) (cr : Crypto Key) (w : Wal Key) : Prop :=
  ∃ header fs, Files ordered cr header fs w
    ∧ (w.Records cr header fs ∧ w.Clean cr header fs ∨ Waiting header fs w)

theorem Files.records (h : Files ordered cr header fs w) (hopen : w.closed = false)
    (hconsistent : w.inconsistent = false) (hchain : w.chain = (Wal.readerAt cr header fs).chain)
    (hcount : w.entryCount = fs.length) (hbytes : w.byteCount = w.disk.file.len)
    (hsyncs : w.pendingSyncs < w.syncInterval) (hinterval : w.syncInterval < 2 ^ 64) :
    w.Records cr header fs ∧ w.Clean cr header fs := by
  have hlen : w.disk.file.len = headerSize + (framesBytes fs).length := by
    rw [OpenFile.len, h.content, List.length_append, length_serializeHeader]
  have hmin := h.good.accepts.length_le
  have hlimit := h.good.limit
  have hsteady : w.Steady :=
    { quiet := h.quiet
      name := h.name
      open_ := hopen
      consistent := hconsistent
      atEnd := h.atEnd
      byteCount := hbytes
      entries := by omega
      limit := by omega
      bytes := hbytes ▸ h.size
      syncs := hsyncs
      interval := hinterval }
  exact ⟨⟨hsteady, h.good.valid, h.good.fits, h.content, h.good.accepts.of_verify _,
    congrArg Chain.nextSequence hchain, congrArg Chain.lastHash hchain, hcount⟩,
    congrArg Chain.hasher hchain⟩

namespace Wal

theorem withFaults_quiet (hq : w.disk.Quiet) : w.withFaults [] = w := by
  obtain ⟨⟨file, wal, walNew, archives, faults⟩, sessionId, key⟩ := w
  have hfaults : faults = [] := hq
  rw [hfaults]
  rfl

theorem meeting_nil {α : Type} {x : WalCall Key α} {result : Res WalError α} {w' : Wal Key}
    (hq : w.disk.Quiet) (hq' : w'.disk.Quiet) (h : x w = (result, w')) :
    meeting [] x w = (result, w') := by
  rw [meeting, withFaults_quiet hq, h]
  dsimp only
  rw [withFaults_quiet hq']

theorem meeting_of_eq {α : Type} {x : WalCall Key α} {result : Res WalError α} {w' : Wal Key}
    {faults : List (Option Nat)} (h : x (w.withFaults faults) = (result, w')) :
    meeting faults x w = (result, w'.withFaults []) := by
  rw [meeting, h]

end Wal

/-! ## Recovery -/

theorem InvAt.tryRecover (h : InvAt ordered cr header fs w) :
    InvAt ordered cr header fs (LogAction.run cr .tryRecover w).2 := by
  obtain ⟨hfiles, hrecords | hwaiting⟩ := h
  · have hrun : Wal.tryRecover cr w = (.ok w.entryCount, w) := by
      rw [Wal.tryRecover, asks_id_bind,
        bind_of_ok (reject_neg (by rw [hrecords.1.steady.open_]; decide) _ _),
        if_pos hrecords.1.steady.consistent]
      rfl
    rw [LogAction.run, bind_of_ok hrun]
    exact ⟨hfiles, .inl hrecords⟩
  · have hheader := Wal.hasHeader_of_content hfiles.good.fits hfiles.content
    have hbody := Wal.body_of_content hfiles.content
    obtain ⟨s, hframes, -, hstop⟩ : ∃ s : Split cr w.signingKey Wal.tryRecoverChecks
        (.start header.lastCheckpointSeq) w.body,
        s.frames = fs ∧ s.tail = [] ∧ s.stop = .eof := by
      rw [hbody]
      exact hfiles.good.exists_split Wal.tryRecoverChecks
    have hrun : Wal.tryRecover cr w = (.ok s.final.count, Wal.revalidated w s) := by
      rw [Wal.tryRecover, asks_id_bind,
        bind_of_ok (reject_neg (by rw [hwaiting.open_]; decide) _ _),
        if_neg (by rw [hwaiting.marked]; decide),
          Wal.revalidate_quiet hfiles.quiet hheader s, hstop]
      rfl
    rw [LogAction.run, bind_of_ok hrun]
    have hfinal : s.final = Wal.readerAt cr header fs := congrArg _ hframes
    have hoffset : s.final.offset = w.disk.file.len := by
      rw [s.final_offset, hframes, OpenFile.len, hfiles.content, List.length_append,
        length_serializeHeader]
      rfl
    have hfiles' : Files ordered cr header fs (Wal.revalidated w s) :=
      { quiet := hfiles.quiet
        name := hfiles.name
        atEnd := hoffset
        content := hfiles.content
        size := hfiles.size
        good := hfiles.good
        archived := hfiles.archived }
    refine ⟨hfiles', .inl (hfiles'.records hwaiting.open_ rfl ?_ ?_ hoffset
      hwaiting.interval_pos hwaiting.interval)⟩
    · exact congrArg Replay.chain hfinal
    · exact (congrArg Replay.count hfinal).trans (Wal.readerAt_count cr header fs)

/-! ## Closing and opening again -/

theorem InvAt.reopen (h : InvAt ordered cr header fs w) (syncFails : Bool) (syncInterval : UInt64)
    (clock : Option Nat) :
    ∃ w', LogAction.run cr (.reopen syncFails syncInterval clock) w = (.ok (), w')
      ∧ InvAt ordered cr header fs w' ∧ w'.Records cr header fs := by
  obtain ⟨hfiles, hstate⟩ := h
  have hopen : w.closed = false := by
    obtain hrecords | hwaiting := hstate
    · exact hrecords.1.steady.open_
    · exact hwaiting.open_
  -- whether the sync fails or not
  have hclose : (Wal.meeting (if syncFails = true then [some 0] else []) Wal.close w).2
      = { w with closed := true } := by
    have hquiet := Wal.withFaults_quiet hfiles.quiet
    cases syncFails with
    | false => exact congrArg Prod.snd (Wal.meeting_nil hfiles.quiet (by exact hfiles.quiet)
        (Wal.close_quiet hfiles.quiet hopen))
    | true =>
      have hrun : Wal.close (w.withFaults [some 0])
          = (.error (.err (.io .other)), { w.withFaults [] with closed := true }) := by
        rw [Wal.close, asks_id_bind, if_neg (by
          change ¬ w.closed = true
          rw [hopen]
          decide)]
        rfl
      rw [if_pos rfl, Wal.meeting_of_eq hrun, ← hquiet]
      rfl
  obtain ⟨s, hframes, -, hstop⟩ := hfiles.good.exists_split Wal.scanChecks
  have hsize : (serializeHeader header ++ framesBytes fs).length < 2 ^ 33 :=
    hfiles.content ▸ hfiles.size
  obtain ⟨w', hopened, hrecords, hclean, hkey, hsession, harchives⟩ :=
    @Wal.reopen_records _ cr w.signingKey header _ w.sessionId syncInterval.toNat clock w.disk
      hfiles.quiet hfiles.name hfiles.good.fits hfiles.good.valid syncInterval.toNat_lt
      hfiles.content hsize s (by rw [hframes]; exact hfiles.good.limit)
      (by rw [hstop]; exact fun _ => rfl)
  rw [hframes] at hrecords hclean
  have hrun : LogAction.run cr (.reopen syncFails syncInterval clock) w = (.ok (), w') := by
    rw [LogAction.run, reopenLog, hclose]
    dsimp only
    cases hresult : Wal.openWithSyncInterval cr w.sessionId w.signingKey syncInterval.toNat clock
        w.disk with
    | mk result disk =>
      rw [hresult] at hopened
      subst hopened
      rfl
  refine ⟨w', hrun, ⟨⟨hrecords.steady.quiet, hrecords.steady.name, hrecords.steady.atEnd,
    hrecords.content, ?_, ?_, ?_⟩, .inl ⟨hrecords, hclean⟩⟩, hrecords⟩
  · rw [OpenFile.len, hrecords.content]
    exact hsize
  · rw [hkey, hsession]
    exact hfiles.good
  · have hsame : (Wal.attached w.disk).archives = w.disk.archives := by
      rw [Wal.attached, if_neg (by rw [hfiles.name]; exact Option.some_ne_none _), Disk.attachWal,
        hfiles.name]
      exact hfiles.archived.freeze w.disk
    rw [hkey, hsession, harchives, hsame]
    exact hfiles.archived

/-! ## Appending -/

namespace Wal

variable {a : Attempt}

/-- The log after the entry was written and its sync failed. -/
def suspended (cr : Crypto Key) (w : Wal Key) (entry : Entry) : Wal Key :=
  { (hashed cr w entry).setFile (w.disk.file.write (frame (entryBytes entry))) with
    pendingSyncs := w.pendingSyncs + 1, inconsistent := true }

theorem syncAppend_fault (hq : w.disk.Quiet) (hsyncs : w.pendingSyncs < w.syncInterval)
    (hinterval : w.syncInterval < 2 ^ 64) (forceSync : Bool) :
    (∃ pendingSyncs < w.syncInterval, syncAppend forceSync (w.withFaults [some 0])
        = (.ok (), { w with pendingSyncs }.withFaults [some 0]))
      ∨ syncAppend forceSync (w.withFaults [some 0])
        = (fail (.io .other),
          { w with pendingSyncs := w.pendingSyncs + 1, inconsistent := true }) := by
  have hbump : bump (w.withFaults [some 0]).pendingSyncs 1
      = (.ok (w.pendingSyncs + 1) : Res WalError Nat) :=
    bump_eq (show w.pendingSyncs + 1 < 2 ^ 64 by omega)
  rw [syncAppend, asks_id_bind, hbump, lift_ok_bind,
    bind_of_ok (modify_apply _ _)]
  by_cases hsync : forceSync = true ∨ w.syncInterval ≤ w.pendingSyncs + 1
  · right
    have hquiet := withFaults_quiet hq
    have hfail : io Disk.access { w.withFaults [some 0] with pendingSyncs := w.pendingSyncs + 1 }
        = (.error (.err (.io .other)),
          { w.withFaults [] with pendingSyncs := w.pendingSyncs + 1 }) := rfl
    have hmark : onError (io Disk.access) markInconsistent
          { w.withFaults [some 0] with pendingSyncs := w.pendingSyncs + 1 }
        = (.error (.err (.io .other)), { w.withFaults [] with
            pendingSyncs := w.pendingSyncs + 1, inconsistent := true }) :=
      (onError_of_error hfail).trans rfl
    rw [hquiet] at hmark
    have hcond : forceSync = true
        ∨ (w.withFaults [some 0]).syncInterval ≤ w.pendingSyncs + 1 := hsync
    rw [if_pos hcond, bind_of_error hmark]
    rfl
  · left
    have hcond : ¬ (forceSync = true
      ∨ (w.withFaults [some 0]).syncInterval ≤ w.pendingSyncs + 1) := hsync
    rw [if_neg hcond]
    exact ⟨w.pendingSyncs + 1, by omega, rfl⟩

theorem append_syncFault (cr : Crypto Key) (a : Attempt) (h : w.Steady)
    (hfull : w.byteCount < maxWalSize) (hfits : a.payload.length < 2 ^ 32)
    (hnext : w.nextSequence + 1 < 2 ^ 64) :
    (∃ pendingSyncs < w.syncInterval, a.run cr (w.withFaults [none, some 0])
        = (.ok (), (grown cr w (entryFor cr w a) pendingSyncs).withFaults [some 0]))
      ∨ a.run cr (w.withFaults [none, some 0])
        = (fail (.io .other), suspended cr w (entryFor cr w a)) := by
  generalize hentry : entryFor cr w a = entry
  have hpayload : entry.payload = a.payload := by
    rw [← hentry]
    rfl
  have hsame : entryFor cr (w.withFaults [none, some 0]) a = entry := hentry
  have hwrite : io (Disk.writeAll (frame (entryBytes entry)))
        (hashed cr (w.withFaults [none, some 0]) entry)
      = (.ok (), ((hashed cr w entry).setFile
          (w.disk.file.write (frame (entryBytes entry)))).withFaults [some 0]) := rfl
  have hstart := append_enabled cr a (w := w.withFaults [none, some 0]) h.open_ h.consistent hfull
  rw [hsame, serializeEntry_eq (by rw [hpayload]; exact hfits), lift_ok_bind,
    bind_of_ok hwrite] at hstart
  obtain ⟨pendingSyncs, hlt, hsync⟩ | hsync := syncAppend_fault
    (w := (hashed cr w entry).setFile (w.disk.file.write (frame (entryBytes entry))))
    h.quiet h.syncs h.interval (a.entryType == .checkpoint)
  · left
    refine ⟨pendingSyncs, hlt, ?_⟩
    rw [hstart, bind_of_ok hsync, length_entryBytes]
    obtain ⟨hcount, hbytes⟩ := h.counters_lt hfull hfits
    rw [← hpayload] at hbytes
    exact recordAppend_eq hnext hcount hbytes
  · right
    rw [hstart, bind_of_error hsync]
    rfl

theorem append_marked (cr : Crypto Key) (a : Attempt) (hopen : w.closed = false)
    (hmarked : w.inconsistent = true) : a.run cr w = (fail .inconsistent, w) := by
  rw [Attempt.run, append, asks_id_bind,
    bind_of_ok (reject_neg (by rw [hopen]; decide) _ _),
    bind_of_error (reject_pos hmarked _ _)]
  rfl

end Wal

theorem afterAll_timestamp (r : Replay) (fs : List Frame) :
    (r.afterAll cr fs).lastTimestamp
      = ((fs.map Frame.entry).getLast?.map Entry.timestamp).getD r.lastTimestamp := by
  induction fs generalizing r with
  | nil => rfl
  | cons f fs ih =>
    rw [afterAll_cons, ih, List.map_cons, List.getLast?_cons, Option.map_some, Option.getD_some]
    cases (fs.map Frame.entry).getLast? with
    | none => rfl
    | some e => rfl

/-- The files do not depend on what the log counts. -/
theorem Files.of_disk (h : Files ordered cr header fs w) {w' : Wal Key} (hdisk : w'.disk = w.disk)
    (hsession : w'.sessionId = w.sessionId) (hkey : w'.signingKey = w.signingKey) :
    Files ordered cr header fs w' := by
  refine ⟨hdisk ▸ h.quiet, hdisk ▸ h.name, hdisk ▸ h.atEnd, hdisk ▸ h.content,
    hdisk ▸ h.size, ?_, ?_⟩
  · rw [hsession, hkey]
    exact h.good
  · rw [hsession, hkey, hdisk]
    exact h.archived

theorem Files.grown (hcr : cr.Correct) (h : Files ordered cr header fs w)
    (hrecords : w.Records cr header fs)
    (hclean : w.Clean cr header fs) (hfull : w.byteCount < maxWalSize) {a : Attempt}
    (hsize : entryOverhead + a.payload.length ≤ maxEntrySize) (hclock : ClockAhead a.clock w)
    (hroom : w.nextSequence + 1 < 2 ^ 64) {pendingSyncs : Nat}
    (hsyncs : pendingSyncs < w.syncInterval) :
    Files ordered cr header (fs ++ [.ofEntry (Wal.entryFor cr w a)])
        (Wal.grown cr w (Wal.entryFor cr w a) pendingSyncs)
      ∧ (Wal.grown cr w (Wal.entryFor cr w a) pendingSyncs).Records cr header
        (fs ++ [.ofEntry (Wal.entryFor cr w a)])
      ∧ (Wal.grown cr w (Wal.entryFor cr w a) pendingSyncs).Clean cr header
        (fs ++ [.ofEntry (Wal.entryFor cr w a)]) := by
  have hcum := congrArg (fun hasher => cr.blake3 (hasher ++
    ((Wal.entryFor cr w a).computeHash cr).val)) (hclean : w.cumulativeHasher = _)
  have hgrown := hrecords.grown hcr hfull hroom hsize hsyncs hcum
  obtain ⟨hread, haccept, -⟩ := (acceptsAll_append.mp hgrown.accepts).2
  have htime : (Wal.readerAt cr header fs).lastTimestamp ≤ nowNanos a.clock := by
    have hentries := @entriesIn_eq header fs h.good.accepts.readable
    rw [← h.content] at hentries
    rw [Wal.readerAt, afterAll_timestamp, ← hentries]
    cases hlast : (entriesIn w.disk.file.content).getLast? with
    | none => exact nowNanos_nonneg a.clock
    | some e => exact hclock e hlast
  refine ⟨⟨hgrown.steady.quiet, hgrown.steady.name, hgrown.steady.atEnd, hgrown.content,
    hgrown.steady.byteCount ▸ hgrown.steady.bytes, ⟨h.good.valid, h.good.fits, ?_, ?_⟩, h.archived⟩,
    hgrown, hclean.grown⟩
  · exact acceptsAll_append.mpr ⟨h.good.accepts, hread,
      (accepts_of_scan haccept).mpr fun _ => htime, trivial⟩
  · rw [← hgrown.count]
    exact hgrown.steady.limit

/-- An append puts its entry behind the others, or nothing. -/
theorem InvAt.append (hcr : cr.Correct) (h : InvAt ordered cr header fs w) {a : Attempt}
    {syncFails : Bool}
    (hallowed : Allowed (.append a syncFails) w) :
    ∃ gs, InvAt ordered cr header (fs ++ gs) (LogAction.run cr (.append a syncFails) w).2
      ∧ ((LogAction.run cr (.append a syncFails) w).1 = .ok () →
        gs = [.ofEntry (Wal.entryFor cr w a)]) := by
  have hinv := h
  generalize hout : LogAction.run cr (.append a syncFails) w = out
  -- A refused append changes nothing.
  have hrefused : ∀ {e : WalError}, out = (fail e, w) →
      ∃ gs, InvAt ordered cr header (fs ++ gs) out.2
        ∧ (out.1 = .ok () → gs = [.ofEntry (Wal.entryFor cr w a)]) := by
    rintro e rfl
    exact ⟨[], (List.append_nil fs).symm ▸ hinv, nofun⟩
  obtain ⟨hfiles, ⟨hrecords, hclean⟩ | hwaiting⟩ := h
  · have hsteady := hrecords.steady
    obtain hmarked | hrest := hallowed
    · rw [hsteady.consistent] at hmarked
      cases hmarked
    · by_cases hfull : maxWalSize ≤ w.byteCount
      · have hrun := Wal.append_tooLarge cr a
          (w := w.withFaults (if syncFails = true then [none, some 0] else []))
          hsteady.open_ hsteady.consistent hfull
        exact hrefused (hout.symm.trans ((Wal.meeting_of_eq hrun).trans
          (congrArg (Prod.mk _) (Wal.withFaults_quiet hfiles.quiet))))
      · obtain ⟨hsize, hclock, hroom⟩ := hrest.resolve_left hfull
        have hlt := Nat.lt_of_not_le hfull
        have hfits : a.payload.length < 2 ^ 32 := by
          unfold maxEntrySize at hsize
          omega
        have hsize : entryOverhead + a.payload.length ≤ maxEntrySize := by
          unfold maxEntrySize entryOverhead at *
          omega
        have hgrown := fun {n : Nat} (hsyncs : n < w.syncInterval) =>
          hfiles.grown hcr hrecords hclean hlt hsize hclock hroom hsyncs
        cases syncFails with
        | false =>
          obtain ⟨n, hsyncs, hrun⟩ := Wal.append_fits cr a hsteady hlt hfits hroom
          obtain rfl := hout.symm.trans (Wal.meeting_nil hfiles.quiet (by exact hfiles.quiet) hrun)
          exact ⟨_, ⟨(hgrown hsyncs).1, .inl (hgrown hsyncs).2⟩, fun _ => rfl⟩
        | true =>
          refine ⟨[.ofEntry (Wal.entryFor cr w a)], ?_, fun _ => rfl⟩
          obtain ⟨n, hsyncs, hrun⟩ | hrun := Wal.append_syncFault cr a hsteady hlt hfits hroom
          · obtain rfl := hout.symm.trans (Wal.meeting_of_eq hrun)
            obtain ⟨hfiles', hstate⟩ := hgrown hsyncs
            exact ⟨hfiles'.of_disk (congrArg _ (Wal.withFaults_quiet hfiles'.quiet)) rfl rfl,
              .inl (Wal.withFaults_quiet hfiles'.quiet ▸ hstate)⟩
          · -- the entry is in the file, and the state does not count it
            obtain rfl := hout.symm.trans (Wal.meeting_of_eq hrun)
            have hnext := (hgrown hsteady.syncs).1
            have hsequence : w.nextSequence = header.lastCheckpointSeq + fs.length := by
              rw [hrecords.sequence, Wal.readerAt_sequence]
            have hdisk := congrArg Wal.disk (Wal.withFaults_quiet hnext.quiet)
            refine ⟨hnext.of_disk hdisk rfl rfl,
              .inr ⟨hsteady.open_, rfl, hsequence ▸ Nat.le_add_right _ _, ?_,
              Nat.zero_lt_of_lt hsteady.syncs, hsteady.interval⟩⟩
            rw [List.length_append]
            exact Nat.le_trans (Nat.le_of_eq hsequence)
              (Nat.add_le_add_left (Nat.le_add_right _ _) _)
  · have hrun := Wal.append_marked cr a
      (w := w.withFaults (if syncFails = true then [none, some 0] else []))
      hwaiting.open_ hwaiting.marked
    exact hrefused (hout.symm.trans ((Wal.meeting_of_eq hrun).trans
      (congrArg (Prod.mk _) (Wal.withFaults_quiet hfiles.quiet))))

/-! ## Rotation -/

namespace Wal

/-- The log on the fresh file of a rotation, before the header is synced. -/
def rotated (time : Int) (headerClock : Option Nat) (w : Wal Key) : Wal Key :=
  { w with
    disk := { w.disk with
      file := OpenFile.write ⟨[], 0⟩
        (serializeHeader (Wal.header w.sessionId headerClock w.nextSequence))
      wal := some .shared
      archives := (time, w.disk.freeze .shared)
        :: (w.disk.archives.filter (·.1 ≠ time)).map fun a => (a.1, w.disk.freeze a.2) }
    lastHash := .filled 32 0, cumulativeHasher := [], entryCount := 0, byteCount := 0 }

section

variable {maxSizeBytes : Nat} (hopen : w.closed = false) (hlarge : ¬ w.byteCount < maxSizeBytes)
  (archiveClock headerClock : Option Nat)
include hopen hlarge

theorem rotate_due :
    rotateIfNeeded maxSizeBytes archiveClock headerClock w
      = (do
          io Disk.access
          io (Disk.renameToArchive (nowNanos archiveClock))
          onError (startFresh headerClock) markInconsistent
          pure (some (nowNanos archiveClock)) : WalCall Key (Option Int)) w := by
  rw [rotateIfNeeded, asks_id_bind, if_neg hlarge,
    bind_of_ok (reject_neg (by rw [hopen]; decide) _ _)]

theorem rotate_quiet (hq : w.disk.Quiet) (hname : w.disk.wal = some .shared) :
    rotateIfNeeded maxSizeBytes archiveClock headerClock w
      = (.ok (some (nowNanos archiveClock)),
        { (rotated (nowNanos archiveClock) headerClock w).setFile
            ((rotated (nowNanos archiveClock) headerClock w).disk.file.seek headerSize) with
          byteCount := headerSize }) := by
  rw [rotate_due hopen hlarge]
  obtain ⟨⟨file, wal, walNew, archives, faults⟩, sessionId, key⟩ := w
  obtain rfl : faults = [] := hq
  obtain rfl : wal = some .shared := hname
  rfl

theorem rotate_flushFault (hq : w.disk.Quiet) :
    rotateIfNeeded maxSizeBytes archiveClock headerClock (w.withFaults [some 0])
      = (fail (.io .other), w) := by
  rw [rotate_due (w := w.withFaults [some 0]) hopen hlarge]
  obtain ⟨⟨file, wal, walNew, archives, faults⟩, sessionId, key⟩ := w
  obtain rfl : faults = [] := hq
  rfl

theorem rotate_headerFault (hq : w.disk.Quiet) (hname : w.disk.wal = some .shared) :
    rotateIfNeeded maxSizeBytes archiveClock headerClock
        (w.withFaults [none, none, none, none, none, some 0])
      = (fail (.io .other),
        { rotated (nowNanos archiveClock) headerClock w with inconsistent := true }) := by
  rw [rotate_due (w := w.withFaults [none, none, none, none, none, some 0]) hopen hlarge]
  obtain ⟨⟨file, wal, walNew, archives, faults⟩, sessionId, key⟩ := w
  obtain rfl : faults = [] := hq
  obtain rfl : wal = some .shared := hname
  rfl

end

end Wal

theorem Wal.rotated_file (time : Int) (headerClock : Option Nat) (w : Wal Key) :
    (Wal.rotated time headerClock w).disk.file
      = ⟨serializeHeader (Wal.header w.sessionId headerClock w.nextSequence), headerSize⟩ := by
  have hend : OpenFile.AtEnd ⟨[], 0⟩ := rfl
  have hwrite := OpenFile.write_atEnd hend
    (serializeHeader (Wal.header w.sessionId headerClock w.nextSequence))
  rw [length_serializeHeader] at hwrite
  exact hwrite.trans (congrArg (OpenFile.mk _) (Nat.zero_add _))

theorem Files.rotated (h : Files ordered cr header fs w)
    (hnext : w.nextSequence = header.lastCheckpointSeq + fs.length) (time : Int)
    (headerClock : Option Nat) :
    Files ordered cr (Wal.header w.sessionId headerClock w.nextSequence) []
      (Wal.rotated time headerClock w) := by
  have hfile := Wal.rotated_file time headerClock w
  have hsequence := h.good.sequence_lt
  have hrotate := h.archived.rotate h.good time
  refine ⟨h.quiet, rfl, ?_, ?_, ?_, ⟨valid_header _ _ _, fits_header ?_, trivial, by decide⟩, ?_⟩
  · rw [hfile, OpenFile.AtEnd, length_serializeHeader]
  · rw [hfile, framesBytes_nil, List.append_nil]
  · rw [hfile, OpenFile.len, length_serializeHeader]
    decide
  · omega
  · have htail := (List.cons.inj ((List.map_cons ..).symm.trans (hrotate.freeze w.disk))).2
    have harchives : (Wal.rotated time headerClock w).disk.archives
        = (time, .own (serializeHeader header ++ framesBytes fs))
          :: w.disk.archives.filter (·.1 ≠ time) := by
      rw [← h.content]
      exact congrArg ((time, Named.own w.disk.file.content) :: ·) htail
    rw [harchives]
    change Archived ordered cr w.sessionId w.signingKey w.nextSequence _
    rw [hnext]
    exact hrotate

variable {headerClock archiveClock : Option Nat} {maxSizeBytes : UInt64} {sync : RotationSync}

/-- A log that may rotate counts all entries of its file. -/
theorem nextSequence_eq_of_allowed (hfiles : Files ordered cr header fs w)
    (hstate : w.Records cr header fs ∧ w.Clean cr header fs ∨ Waiting header fs w)
    (hallowed : Allowed (.rotate maxSizeBytes archiveClock headerClock sync) w)
    (hlarge : ¬ w.byteCount < maxSizeBytes.toNat) (hsync : sync ≠ .flush) :
    w.nextSequence = header.lastCheckpointSeq + fs.length := by
  obtain hrecords | hwaiting := hstate
  · rw [hrecords.1.sequence, Wal.readerAt_sequence]
  · obtain hconsistent | hempty := (hallowed.resolve_left hlarge).resolve_left hsync
    · rw [hwaiting.marked] at hconsistent
      cases hconsistent
    · -- marked, but its file has no entry
      have hfs : fs = [] := by
        rw [hfiles.content, List.length_append, length_serializeHeader] at hempty
        have hle := length_le_framesBytes fs
        exact List.length_eq_zero_iff.mp (by omega)
      have hle := hwaiting.sequence_le
      have hge := hwaiting.sequence_ge
      rw [hfs, List.length_nil] at hle ⊢
      omega

theorem Inv.rotate (h : Inv ordered cr w)
    (hallowed : Allowed (.rotate maxSizeBytes archiveClock headerClock sync) w) :
    Inv ordered cr (LogAction.run cr (.rotate maxSizeBytes archiveClock headerClock sync) w).2 := by
  have hinv := h
  obtain ⟨header, fs, hfiles, hstate⟩ := h
  have hopen : w.closed = false := by
    obtain hrecords | hwaiting := hstate
    · exact hrecords.1.steady.open_
    · exact hwaiting.open_
  have hquiet := Wal.withFaults_quiet hfiles.quiet
  -- the reply is dropped
  have hdrop : ∀ {faults : List (Option Nat)} {result : Res WalError (Option Int)} {w' : Wal Key},
      Wal.rotateIfNeeded maxSizeBytes.toNat archiveClock headerClock (w.withFaults faults)
        = (result, w') →
      (Wal.meeting faults (do
          let _ ← Wal.rotateIfNeeded maxSizeBytes.toNat archiveClock headerClock
          pure ()) w).2 = w'.withFaults [] := by
    intro faults result w' hrun
    rw [Wal.meeting, bind_apply, hrun]
    cases result with
    | ok time => rfl
    | error e => rfl
  generalize
    hout : (LogAction.run cr (.rotate maxSizeBytes archiveClock headerClock sync) w).2 = out
  by_cases hsmall : w.byteCount < maxSizeBytes.toNat
  · have hrun : ∀ faults, Wal.rotateIfNeeded maxSizeBytes.toNat archiveClock headerClock
        (w.withFaults faults) = (.ok none, w.withFaults faults) := by
      intro faults
      rw [Wal.rotateIfNeeded, asks_id_bind, if_pos (show (w.withFaults faults).byteCount
        < maxSizeBytes.toNat from hsmall)]
      rfl
    obtain rfl := hout.symm.trans ((hdrop (hrun _)).trans hquiet)
    exact hinv
  · cases sync with
    | flush =>
      obtain rfl := hout.symm.trans
        ((hdrop (Wal.rotate_flushFault hopen hsmall _ _ hfiles.quiet)).trans hquiet)
      exact hinv
    | none =>
      have hnext := nextSequence_eq_of_allowed hfiles hstate hallowed hsmall (by decide)
      have hfiles' := hfiles.rotated hnext (nowNanos archiveClock) headerClock
      have hrun := Wal.rotate_quiet hopen hsmall archiveClock headerClock hfiles.quiet hfiles.name
      generalize hmoved : Wal.rotated (nowNanos archiveClock) headerClock w = moved at hfiles' hrun
      have hseek : moved.disk.file.seek headerSize = moved.disk.file := by
        rw [← hmoved, Wal.rotated_file]
        rfl
      rw [hseek] at hrun
      have hfiles'' : Files ordered cr (Wal.header w.sessionId headerClock w.nextSequence) []
          { moved.setFile moved.disk.file with byteCount := headerSize } :=
        hfiles'.of_disk rfl rfl rfl
      have hrun := (congrArg _ hquiet).trans hrun
      obtain rfl := hout.symm.trans ((hdrop hrun).trans (Wal.withFaults_quiet hfiles''.quiet))
      refine ⟨_, _, hfiles'', ?_⟩
      subst hmoved
      obtain ⟨hrecords, -⟩ | hwaiting := hstate
      · refine .inl (hfiles''.records hopen hrecords.steady.consistent rfl rfl ?_
          hrecords.steady.syncs hrecords.steady.interval)
        show headerSize = (Wal.rotated (nowNanos archiveClock) headerClock w).disk.file.len
        rw [Wal.rotated_file]
        exact (length_serializeHeader _).symm
      · exact .inr ⟨hopen, hwaiting.marked, Nat.le_refl _, Nat.le_refl _, hwaiting.interval_pos,
          hwaiting.interval⟩
    | header =>
      have hnext := nextSequence_eq_of_allowed hfiles hstate hallowed hsmall (by decide)
      have hfiles' := hfiles.rotated hnext (nowNanos archiveClock) headerClock
      have hrun :=
        Wal.rotate_headerFault hopen hsmall archiveClock headerClock hfiles.quiet hfiles.name
      obtain rfl := hout.symm.trans ((hdrop hrun).trans (Wal.withFaults_quiet hfiles.quiet))
      have hinterval : 0 < w.syncInterval ∧ w.syncInterval < 2 ^ 64 := by
        obtain ⟨hrecords, -⟩ | hwaiting := hstate
        · exact ⟨Nat.zero_lt_of_lt hrecords.steady.syncs, hrecords.steady.interval⟩
        · exact ⟨hwaiting.interval_pos, hwaiting.interval⟩
      exact ⟨_, _, hfiles'.of_disk rfl rfl rfl, .inr ⟨hopen, rfl, Nat.le_refl _, Nat.le_refl _,
        hinterval.1, hinterval.2⟩⟩

/-! ## Runs -/

/-- Every allowed action keeps the invariant. -/
theorem Inv.step (hcr : cr.Correct) (action : LogAction) (w : Wal Key) (h : Inv ordered cr w)
    (hallowed : Allowed action w) : Inv ordered cr (action.run cr w).2 := by
  cases action with
  | append a syncFails =>
    obtain ⟨header, fs, hinv⟩ := h
    obtain ⟨gs, hinv', -⟩ := InvAt.append hcr hinv hallowed
    exact ⟨header, fs ++ gs, hinv'⟩
  | tryRecover =>
    obtain ⟨header, fs, hinv⟩ := h
    exact ⟨header, fs, InvAt.tryRecover hinv⟩
  | rotate maxSizeBytes archiveClock headerClock sync => exact h.rotate hallowed
  | reopen syncFails syncInterval clock =>
    obtain ⟨header, fs, hinv⟩ := h
    obtain ⟨w', hrun, hinv', -⟩ := InvAt.reopen hinv syncFails syncInterval clock
    rw [hrun]
    exact ⟨header, fs, hinv'⟩

theorem Inv.fresh {d : Disk} (hfresh : Wal.Fresh d) (harchives : d.archives = [])
    {syncInterval : Nat} (hinterval : syncInterval < 2 ^ 64) {clock : Option Nat}
    (hopen : (Wal.openWithSyncInterval cr sessionId key syncInterval clock d).1 = .ok w) :
    Inv ordered cr w := by
  obtain ⟨w', hopen', hrecords, hclean, hkey, hsession, hdisk⟩ :=
    @Wal.open_fresh _ cr key sessionId syncInterval clock d hfresh hinterval
  obtain rfl := Except.ok.inj (hopen'.symm.trans hopen)
  have hnone : w'.disk.archives = [] := by
    rw [hdisk, Wal.attached]
    split
    · simp [Disk.attachWal, Disk.attach, harchives]
    · rw [Disk.attachWal]
      split
      · exact harchives
      · simp [Disk.attach, harchives]
  refine ⟨_, _, ⟨hrecords.steady.quiet, hrecords.steady.name, hrecords.steady.atEnd,
    hrecords.content, hrecords.steady.byteCount ▸ hrecords.steady.bytes,
    ⟨hrecords.valid, hrecords.fits, trivial, by decide⟩, ⟨[], hnone, ?_⟩⟩, .inl ⟨hrecords, hclean⟩⟩
  exact ⟨fun x hx => (List.not_mem_nil hx).elim,
    fun _ => ⟨.nil, fun x hx => (List.not_mem_nil hx).elim⟩⟩

/-- In every run of allowed actions no sequence number is used twice, and every file is valid. -/
theorem sequences_increase (hcr : cr.Correct) {d : Disk} (hfresh : Wal.Fresh d)
    (harchives : d.archives = []) {syncInterval : UInt64} {clock : Option Nat}
    (hopen : (Wal.openWithSyncInterval cr sessionId key syncInterval.toNat clock d).1 = .ok w)
    (actions : List LogAction) (hallowed : Machine.Along (LogAction.run cr) Allowed actions w) :
    Sound cr (Machine.run (LogAction.run cr) actions w).2 := by
  obtain ⟨header, fs, hfiles, -⟩ := Machine.run_invariant (fun a w h hP => Inv.step hcr a w h hP)
    actions w (.fresh hfresh harchives syncInterval.toNat_lt hopen) hallowed
  exact hfiles.sound

/-- Appends, a rotation between them, and a sync that fails. -/
def rotatedRun : List LogAction :=
  [.append ⟨.heartbeat, [1], some 5⟩ false, .rotate 0 (some 6) (some 6) .none,
    .append ⟨.heartbeat, [2], some 7⟩ true, .reopen true 1 none,
    .append ⟨.checkpoint, [], some 8⟩ false]

theorem sequences_increase_rotated : ∃ w, sampleLog .sample = .ok w
      ∧ Sound .sample (Machine.run (LogAction.run .sample) rotatedRun w).2 := by
  have hrun : (sampleLog .sample).toOption.map
      (fun w => decide (Machine.Along (LogAction.run .sample) Allowed rotatedRun w))
        = some true := by
    decide +kernel
  obtain ⟨w, hopen, hallowed⟩ := exists_ok_of_toOption hrun
  exact ⟨w, hopen,
    @sequences_increase _ .sample () _ w Crypto.sample_correct _ Wal.fresh_empty rfl 1 _
    hopen rotatedRun (of_decide_eq_true hallowed)⟩

/-- The sync of the second append fails, and the log is rotated before it is recovered. -/
def reusingRun : List LogAction :=
  [.append ⟨.heartbeat, [1], some 5⟩ false, .append ⟨.heartbeat, [2], some 6⟩ true,
    .rotate 0 (some 7) (some 7) .none, .tryRecover, .append ⟨.heartbeat, [3], some 8⟩ false]

/-- Sequence number 1 is in the archive and in the current file. -/
theorem sequence_reused : ∃ w, sampleLog .sample = .ok w
      ∧ ((filesOf (Machine.run (LogAction.run .sample) reusingRun w).2).flatMap entriesIn).map
          Entry.sequence = [0, 1, 1]
      ∧ ¬ Sound .sample (Machine.run (LogAction.run .sample) reusingRun w).2 := by
  have hrun : (sampleLog .sample).toOption.map
      (fun w => ((filesOf (Machine.run (LogAction.run .sample) reusingRun w).2).flatMap
        entriesIn).map Entry.sequence) = some [0, 1, 1] := by
    decide +kernel
  obtain ⟨w, hopen, hsequences⟩ := exists_ok_of_toOption hrun
  refine ⟨w, hopen, hsequences, fun hsound => ?_⟩
  have hincreasing := hsound.increasing
  rw [hsequences] at hincreasing
  exact absurd hincreasing (by decide)

end WritersProof.Wal
