/-
  Where the log writes.

  All handles of a log share one cursor, and no method but `open`, `truncate`
  and `rotate_if_needed` looks where it is before the next append writes there.
  A reader that stops early leaves it in the middle of the file, and a write
  that fails half-way leaves it, and the end of the file, behind `byte_count`.
  These are the only ways (`Undisturbing`): in runs without them an append that
  is not refused extends the file, whatever else fails, and whatever the file
  holds.
-/
import WritersProof.Wal.Copying
import WritersProof.Wal.Rotation

namespace WritersProof.Wal

set_option linter.dupNamespace false

open Rust Replay OpenFile Call

variable {Key : Type}

/-! ## Positions -/

namespace Wal

/-- An append is not refused for the state of the log. -/
def Enabled (w : Wal Key) : Prop := w.closed = false ∧ w.inconsistent = false

/-- The cursor, `byte_count` and the end of the file coincide. -/
structure InPlace (w : Wal Key) : Prop where
  atEnd : w.disk.file.AtEnd
  byteCount : w.byteCount = w.disk.file.len

/-- They do while append is enabled. -/
def Positioned (w : Wal Key) : Prop := w.Enabled → w.InPlace

/-- They do, and an append extends the file, however it ends. -/
structure Extending (cr : Crypto Key) (w : Wal Key) : Prop where
  positioned : w.Positioned
  extends_ : ∀ (a : Attempt) (faults : List (Option Nat)),
    w.disk.file.content <+: (a.run cr (w.withFaults faults)).2.disk.file.content

/-- The first two I/O calls do not both succeed. -/
def Unmoved (w : Wal Key) : Prop := ¬ w.disk.Clear 2

/-- A write that fails has written nothing. -/
def WritesWhole (w : Wal Key) : Prop := ∀ k ∈ w.disk.faults.head?, ∀ n ∈ k, n = 0

/-- The loop with `checks` gets to the end of the file: what it does not accept is one last entry,
    and no I/O call fails. -/
def ReadsThrough (cr : Crypto Key) (checks : Checks) (w : Wal Key) : Prop :=
  ∃ header, w.HasHeader header ∧
    ∃ s : Split cr w.signingKey checks (.start header.lastCheckpointSeq) w.body,
      w.disk.Clear (4 + s.calls) ∧ s.tailBytes = s.tail.length

/-- `recover` gets to the end of the file and does not start to cut it, or it cuts it and no I/O
    call fails. -/
def Recovers (cr : Crypto Key) (w : Wal Key) : Prop :=
  ∃ header, w.HasHeader header ∧
    ∃ s : Split cr w.signingKey recoverChecks (.start header.lastCheckpointSeq) w.body,
      w.disk.Clear (4 + s.calls) ∧
        (s.tailBytes = s.tail.length
            ∧ (s.tail = [] ∨ s.frames = [] ∨ ¬ w.disk.Clear (6 + s.calls))
          ∨ s.tail ≠ [] ∧ s.frames ≠ [] ∧ w.disk.Clear (8 + s.calls))

/-- Behind the entries that `try_recover` accepts the file does not end in a few bytes more. -/
def EndsWhole (cr : Crypto Key) (w : Wal Key) : Prop :=
  ∀ header, w.HasHeader header →
    ∀ s : Split cr w.signingKey tryRecoverChecks (.start header.lastCheckpointSeq) w.body,
      s.tail.length < 4 → s.tail = []

/-- The loop of `truncate` gets to the end of the file: it accepts all entries, and no I/O call up
    to there fails. -/
def CopiesThrough (cr : Crypto Key) (beforeSeq : Nat) (w : Wal Key) : Prop :=
  headerSize ≤ w.disk.file.len ∧ ∃ fs tail, w.body = framesBytes fs ++ tail ∧ tail.length < 4
    ∧ Copy.AcceptsAll cr w.signingKey beforeSeq .start fs
    ∧ fs.length < maxWalEntries
    ∧ w.disk.Clear (6 + Copy.callsAll beforeSeq fs)

end Wal

/-! ## Runs -/

/-- What is done to a log: its methods, with what becomes of their I/O calls, and changes to the
    bytes of its file from outside. -/
inductive CursorAction (Key : Type) where
  | reopen (sessionId : FixedBytes 32) (signingKey : Key) (syncInterval : UInt64)
      (clock : Option Nat) (faults : List (Option Nat))
  | append (a : Attempt) (faults : List (Option Nat))
  | flush (faults : List (Option Nat))
  | close (faults : List (Option Nat))
  | verify (faults : List (Option Nat))
  | truncate (beforeSeq : UInt64) (clock : Option Nat) (faults : List (Option Nat))
  | recover (clock : Option Nat) (faults : List (Option Nat))
  | tryRecover (faults : List (Option Nat))
  | rotate (maxSizeBytes : UInt64) (archiveClock headerClock : Option Nat)
      (faults : List (Option Nat))
  | overwrite (content : Bytes)

namespace Wal

/-- A call and how it ends; after an abort there is no log any more. -/
def settle {α : Type} (faults : List (Option Nat)) (x : WalCall Key α) (w : Wal Key) :
    Res WalError Unit × Wal Key :=
  match x (w.withFaults faults) with
  | (.ok _, w') => (.ok (), w'.withFaults [])
  | (.error (.err e), w') => (fail e, w'.withFaults [])
  | (.error .panic, w') => (abort, { w'.withFaults [] with closed := true })

/-- `open` on the files of a log that is not used any more. -/
def openAgain (cr : Crypto Key) (sessionId : FixedBytes 32) (signingKey : Key)
    (syncInterval : Nat) (clock : Option Nat) : WalCall Key Unit := fun w =>
  match openWithSyncInterval cr sessionId signingKey syncInterval clock w.disk with
  | (.ok w', _) => (.ok (), w')
  | (.error e, disk) => (.error e, { w with disk, closed := true })

end Wal

def CursorAction.run (cr : Crypto Key) (action : CursorAction Key) (w : Wal Key) :
    Res WalError Unit × Wal Key :=
  match action with
  | .reopen sessionId signingKey syncInterval clock faults =>
    Wal.settle faults (Wal.openAgain cr sessionId signingKey syncInterval.toNat clock) w
  | .append a faults => Wal.settle faults (Wal.append cr a.entryType a.payload a.clock) w
  | .flush faults => Wal.settle faults Wal.flush w
  | .close faults => Wal.settle faults Wal.close w
  | .verify faults => Wal.settle faults (Wal.verify cr) w
  | .truncate beforeSeq clock faults =>
    Wal.settle faults (Wal.truncate cr beforeSeq.toNat clock) w
  | .recover clock faults => Wal.settle faults (Wal.recover cr clock) w
  | .tryRecover faults => Wal.settle faults (Wal.tryRecover cr) w
  | .rotate maxSizeBytes archiveClock headerClock faults =>
    Wal.settle faults (Wal.rotateIfNeeded maxSizeBytes.toNat archiveClock headerClock) w
  | .overwrite content => (.ok (), w.setFile { w.disk.file with content })

/-- While append is enabled, no write fails half-way, no reader stops before the end of the file,
    and the file keeps its length when it is overwritten; and a log that is marked is not revived
    on a file with a few bytes behind its entries. -/
def CursorAction.Undisturbing (cr : Crypto Key) (action : CursorAction Key) (w : Wal Key) : Prop :=
  match action with
  | .append a faults =>
    w.Enabled → w.byteCount < maxWalSize → a.payload.length < 2 ^ 32 →
      (w.withFaults faults).WritesWhole
  | .verify faults =>
    w.Enabled → (w.withFaults faults).Unmoved
      ∨ (w.withFaults faults).ReadsThrough cr Wal.verifyChecks
  | .truncate beforeSeq _ faults =>
    w.Enabled → (w.withFaults faults).Unmoved
      ∨ (w.withFaults faults).CopiesThrough cr beforeSeq.toNat
  | .recover _ faults =>
    w.Enabled → (w.withFaults faults).Unmoved ∨ (w.withFaults faults).Recovers cr
  | .tryRecover _ => w.closed = false → w.inconsistent = true → w.EndsWhole cr
  | .overwrite content => w.Enabled → content.length = w.disk.file.content.length
  | _ => True

/-! ## Positions and calls -/

namespace Wal

variable {α : Type} {w w' : Wal Key} {cr : Crypto Key} {checks : Checks} {header : Header}

/-- The parts of the state that no I/O call changes. -/
def marks (w : Wal Key) : Nat × Bool × Bool := (w.byteCount, w.closed, w.inconsistent)

theorem keeps_io (x : Call Disk IoError α) : Call.Keeps marks (io x : WalCall Key α) := fun _ => rfl

theorem keeps_rewind : Call.Keeps marks (rewind : WalCall Key Header) := by
  apply (keeps_io _).bind fun _ => ?_
  apply (keeps_io _).bind fun _ => ?_
  apply (keeps_io _).bind fun _ => ?_
  apply (keeps_lift _).bind fun _ => ?_
  exact (keeps_io _).bind fun _ => keeps_pure _

theorem keeps_replay (checks : Checks) (header : Header) :
    Call.Keeps marks (replay cr checks header : WalCall Key (Stop × Replay)) := fun _ => rfl

theorem Positioned.of_marks (h : w.Positioned) (hfile : w'.disk.file = w.disk.file)
    (hmarks : w'.marks = w.marks) : w'.Positioned := by
  obtain ⟨hcount, hrest⟩ := Prod.mk.inj hmarks
  obtain ⟨hclosed, hmarked⟩ := Prod.mk.inj hrest
  rintro ⟨hopen, hconsistent⟩
  have hplace := h ⟨hclosed.symm.trans hopen, hmarked.symm.trans hconsistent⟩
  exact ⟨by rw [OpenFile.AtEnd, hfile]; exact hplace.atEnd,
    by rw [hfile]; exact hcount.trans hplace.byteCount⟩

theorem disabled_of_marked (h : w.inconsistent = true) : ¬ w.Enabled := by
  rintro ⟨-, hconsistent⟩
  rw [h] at hconsistent
  cases hconsistent

theorem disabled_of_closed (h : w.closed = true) : ¬ w.Enabled := by
  rintro ⟨hopen, -⟩
  rw [h] at hopen
  cases hopen

theorem disabled_of_marks (h : ¬ w.Enabled) (hmarks : w'.marks = w.marks) : ¬ w'.Enabled := by
  obtain ⟨hclosed, hmarked⟩ := Prod.mk.inj (Prod.mk.inj hmarks).2
  exact fun henabled => h ⟨hclosed.symm.trans henabled.1, hmarked.symm.trans henabled.2⟩

theorem Positioned.of_disabled (h : ¬ w.Enabled) : w.Positioned := fun henabled =>
  absurd henabled h

theorem Positioned.of_marked (h : w.inconsistent = true) : w.Positioned :=
  .of_disabled (disabled_of_marked h)

theorem Positioned.of_closed (h : w.closed = true) : w.Positioned :=
  .of_disabled (disabled_of_closed h)

theorem InPlace.positioned (h : w.InPlace) : w.Positioned := fun _ => h

/-- A call that comes to a good end, unless it aborts. -/
theorem positioned_settle {x : WalCall Key α} {faults : List (Option Nat)}
    (h : (x (w.withFaults faults)).1 = abort ∨ (x (w.withFaults faults)).2.Positioned) :
    (settle faults x w).2.Positioned := by
  rw [settle]
  rcases hx : x (w.withFaults faults) with ⟨(e | _) | a, w'⟩
  · rw [hx] at h
    exact (h.resolve_left nofun).of_marks rfl rfl
  · exact .of_closed rfl
  · rw [hx] at h
    exact (h.resolve_left nofun).of_marks rfl rfl

/-! ## Reading back -/

theorem rewind_unmoved (h : w.Unmoved) : ∃ n, rewind w = (fail (.io .other), w.tick n) := by
  rw [rewind]
  by_cases hfirst : w.disk.Clear 1
  · have hsecond : ¬ (w.tick 1).disk.Clear 1 := fun hsecond =>
      h ((w.disk.clear_add 1 1).mpr ⟨hfirst, hsecond⟩)
    rw [bind_of_ok (io_access_clear hfirst), bind_of_error (io_seek_fault hsecond _),
      tick_tick]
    exact ⟨2, rfl⟩
  · rw [bind_of_error (io_access_fault hfirst)]
    exact ⟨1, rfl⟩

theorem rewind_clear (hclear : w.disk.Clear 4) (h : w.HasHeader header) :
    rewind w = (.ok header, (w.tick 4).readTo 0) := by
  obtain ⟨hfirst, hclear⟩ := (w.disk.clear_add 1 3).mp hclear
  obtain ⟨hsecond, hclear⟩ := ((w.disk.tick 1).clear_add 1 2).mp hclear
  rw [Disk.tick_tick] at hclear
  obtain ⟨hthird, hfourth⟩ := ((w.disk.tick 2).clear_add 1 1).mp hclear
  rw [Disk.tick_tick] at hfourth
  have hread : io (Disk.readExact headerSize) ((w.tick 2).setFile (w.disk.file.seek 0))
      = (.ok (w.disk.file.content.take headerSize),
        (w.tick 3).setFile ((w.disk.file.seek 0).advance headerSize)) := by
    rw [io_readExact_clear (by exact hthird) (by decide) h.length_le]
    rw [← tick_tick (w := w) 2 1]
    rfl
  have hseek : io (Disk.seek 0) (w.tick 1)
      = (.ok (), (w.tick 2).setFile (w.disk.file.seek 0)) := by
    rw [io_seek_clear hsecond, tick_tick]
    rfl
  have hbehind : io (Disk.seek headerSize)
      ((w.tick 3).setFile ((w.disk.file.seek 0).advance headerSize))
        = (.ok (), (w.tick 4).readTo 0) := by
    rw [io_seek_clear (by exact hfourth), ← tick_tick (w := w) 3 1]
    rfl
  rw [rewind, bind_of_ok (io_access_clear hfirst), bind_of_ok hseek,
    bind_of_ok hread, h, lift_ok_bind, bind_of_ok hbehind]
  rfl

theorem rewind_eq_ok (h : rewind w = (.ok header, w')) : w.HasHeader header ∧ w.disk.Clear 4 := by
  rw [rewind] at h
  obtain ⟨_, w₁, hfirst, h⟩ := bind_eq_ok.mp h
  obtain ⟨_, w₂, hsecond, h⟩ := bind_eq_ok.mp h
  obtain ⟨buf, w₃, hthird, h⟩ := bind_eq_ok.mp h
  obtain ⟨header', hdecode, h⟩ := lift_bind_eq_ok.mp h
  obtain ⟨_, w₄, hfourth, h⟩ := bind_eq_ok.mp h
  obtain ⟨hheader, -⟩ := Prod.mk.inj h
  obtain rfl := Except.ok.inj hheader
  obtain ⟨haccess, rfl⟩ := io_access_eq_ok hfirst
  obtain ⟨hseek, rfl⟩ := io_seek_eq_ok hsecond
  obtain ⟨hread, rfl, rfl⟩ := io_readExact_eq_ok (by decide) hthird
  obtain ⟨hbehind, -⟩ := io_seek_eq_ok hfourth
  refine ⟨hdecode, (w.disk.clear_add 1 3).mpr ⟨haccess, ?_⟩⟩
  refine ((w.disk.tick 1).clear_add 1 2).mpr ⟨hseek, ?_⟩
  exact (((w.disk.tick 1).tick 1).clear_add 1 1).mpr ⟨hread, hbehind⟩

/-- The loop of a reader whose I/O calls all succeed. -/
theorem replay_clear (s : Split cr w.signingKey checks (.start header.lastCheckpointSeq) w.body)
    {n : Nat} (hclear : w.disk.Clear (n + s.calls)) :
    replay cr checks header ((w.tick n).readTo 0)
      = (.ok (s.stop, s.final), (w.tick (n + s.calls)).readTo s.read) := by
  have hrun := s.run_clear (d := ((w.tick n).readTo 0).disk) ((w.disk.clear_add n _).mp hclear).2
  rw [← tick_tick, replay]
  exact congrArg (fun p : Stop × Replay × Disk =>
    (Except.ok (p.1, p.2.1), { (w.tick n).readTo 0 with disk := p.2.2 })) hrun

/-- The reader has stopped at the end of the file. -/
theorem inPlace_readTo (h : w.InPlace) (hheader : w.HasHeader header)
    (s : Split cr w.signingKey checks (.start header.lastCheckpointSeq) w.body)
    (hread : s.tailBytes = s.tail.length) (n : Nat) : ((w.tick n).readTo s.read).InPlace where
  atEnd := by
    have hlen := hheader.length_split s
    show headerSize + s.read = w.disk.file.len
    rw [hlen, Split.read, hread, Nat.add_assoc]
  byteCount := h.byteCount

theorem verify_positioned (h : w.Positioned)
    (hreads : w.Enabled → w.Unmoved ∨ w.ReadsThrough cr verifyChecks) :
    (verify cr w).2.Positioned := by
  have hkeeps : Call.Keeps marks (verify cr : WalCall Key WalVerification) := by
    apply keeps_rewind.bind fun _ => ?_
    exact (keeps_replay _ _).bind fun _ => keeps_lift _
  by_cases henabled : w.Enabled
  · rcases hreads henabled with hunmoved | ⟨header, hheader, s, hclear, hread⟩
    · obtain ⟨n, hrewind⟩ := rewind_unmoved hunmoved
      rw [verify, bind_of_error hrewind]
      exact h.of_marks rfl rfl
    · rw [verify, bind_of_ok (rewind_clear ((w.disk.clear_add 4 _).mp hclear).1 hheader),
        bind_of_ok (replay_clear s hclear)]
      exact (inPlace_readTo (h henabled) hheader s hread _).positioned
  · exact .of_disabled (disabled_of_marks henabled (hkeeps w))

/-! ## Appending -/

/-- The sync of an append: it leaves the file alone, and marks the log when it fails. -/
theorem syncAppend_ends (forceSync : Bool) (w : Wal Key) :
    (syncAppend forceSync w).2.disk.file = w.disk.file
      ∧ ((syncAppend forceSync w).1 = abort
        ∨ (syncAppend forceSync w).1 = fail (.io .other)
          ∧ (syncAppend forceSync w).2.inconsistent = true
        ∨ (syncAppend forceSync w).1 = .ok () ∧ (syncAppend forceSync w).2.marks = w.marks) := by
  rw [syncAppend, asks_id_bind]
  rcases checkedAdd_cases w.pendingSyncs 1 with hbump | hbump
  · rw [bump, hbump, unwrap_some, lift_ok_bind, bind_of_ok (modify_apply _ _)]
    split
    · by_cases hclear : ({ w with pendingSyncs := w.pendingSyncs + 1 } : Wal Key).disk.Clear 1
      · rw [bind_of_ok (onError_of_ok (io_access_clear hclear))]
        exact ⟨rfl, .inr (.inr ⟨rfl, rfl⟩)⟩
      · rw [bind_of_error (onError_of_error (io_access_fault hclear))]
        exact ⟨rfl, .inr (.inl ⟨rfl, rfl⟩)⟩
    · exact ⟨rfl, .inr (.inr ⟨rfl, rfl⟩)⟩
  · rw [bump, hbump]
    exact ⟨rfl, .inl rfl⟩

theorem recordAppend_ends (entryHash : FixedBytes 32) (dataLen : Nat) (w : Wal Key) :
    (recordAppend entryHash dataLen w).2.disk.file = w.disk.file
      ∧ ((recordAppend entryHash dataLen w).1 = abort
        ∨ (recordAppend entryHash dataLen w).2.marks
          = (w.byteCount + (4 + dataLen), w.closed, w.inconsistent)) := by
  rw [recordAppend, asks_id_bind]
  rcases checkedAdd_cases w.nextSequence 1 with hbump | hbump
  · rw [bump, hbump, unwrap_some, lift_ok_bind]
    rcases checkedAdd_cases w.entryCount 1 with hbump | hbump
    · rw [bump, hbump, unwrap_some, lift_ok_bind]
      rcases checkedAdd_cases w.byteCount (4 + dataLen) with hbump | hbump
      · rw [bump, hbump]
        exact ⟨rfl, .inr rfl⟩
      · rw [bump, hbump]
        exact ⟨rfl, .inl rfl⟩
    · rw [bump, hbump]
      exact ⟨rfl, .inl rfl⟩
  · rw [bump, hbump]
    exact ⟨rfl, .inl rfl⟩

theorem settleAppend_ends (forceSync : Bool) (entryHash : FixedBytes 32) (dataLen : Nat)
    (w : Wal Key) {x : WalCall Key Unit}
    (hx : x = do
      syncAppend forceSync
      recordAppend entryHash dataLen) :
    (x w).2.disk.file = w.disk.file
      ∧ ((x w).1 = abort ∨ (x w).2.inconsistent = true
        ∨ (x w).2.marks = (w.byteCount + (4 + dataLen), w.closed, w.inconsistent)) := by
  subst hx
  obtain ⟨hfile, hends⟩ := syncAppend_ends forceSync w
  rcases hsync : syncAppend forceSync w with ⟨e | _, w'⟩
  · rw [hsync] at hfile hends
    rw [bind_of_error hsync]
    refine ⟨hfile, ?_⟩
    rcases hends with habort | ⟨-, hmarked⟩ | ⟨hok, -⟩
    · exact .inl habort
    · exact .inr (.inl hmarked)
    · cases hok
  · rw [hsync] at hfile hends
    rw [bind_of_ok hsync]
    obtain ⟨hfile', hends'⟩ := recordAppend_ends entryHash dataLen w'
    refine ⟨hfile'.trans hfile, ?_⟩
    rcases hends with habort | ⟨hfail, -⟩ | ⟨-, hmarks⟩
    · cases habort
    · cases hfail
    · obtain ⟨hcount, hrest⟩ := Prod.mk.inj hmarks
      obtain ⟨hclosed, hmarked⟩ := Prod.mk.inj hrest
      rw [← hcount, ← hclosed, ← hmarked]
      exact hends'.imp_right .inr

theorem append_refused (cr : Crypto Key) (a : Attempt) (h : ¬ w.Enabled) :
    ∃ e, a.run cr w = (fail e, w) := by
  by_cases hclosed : w.closed = true
  · exact ⟨.closed, by rw [Attempt.run, append, asks_id_bind, Call.reject_bind_pos hclosed]⟩
  · have hmarked : w.inconsistent = true := by
      by_contra hmarked
      exact h ⟨Bool.eq_false_of_not_eq_true hclosed, Bool.eq_false_of_not_eq_true hmarked⟩
    exact ⟨.inconsistent, append_marked cr a (Bool.eq_false_of_not_eq_true hclosed) hmarked⟩

theorem writeAll_fault (h : ¬ w.disk.Clear 1) (bytes : Bytes) :
    ∃ k, w.disk.faults.head? = some (some k)
      ∧ io (Disk.writeAll bytes) w = (fail (.io .other),
        (w.tick 1).setFile (w.disk.file.write (bytes.take (min k (bytes.length - 1))))) := by
  obtain ⟨⟨file, wal, walNew, archives, faults⟩, sessionId, key⟩ := w
  cases faults with
  | nil => exact absurd (fun f hf => (List.not_mem_nil hf).elim) h
  | cons fault faults =>
    cases fault with
    | none => exact absurd (by simp [Disk.Clear]) h
    | some k => exact ⟨k, rfl, rfl⟩

/-- What an append does to the file and to what counts of the state. -/
theorem append_ends (cr : Crypto Key) (a : Attempt) (w : Wal Key) :
    ((a.run cr w).2.disk.file = w.disk.file ∧ (a.run cr w).2.marks = w.marks)
      ∨ w.Enabled ∧ w.byteCount < maxWalSize ∧ a.payload.length < 2 ^ 32
        ∧ ((∃ (bytes : Bytes) (k : Nat), w.disk.faults.head? = some (some k)
            ∧ (a.run cr w).2.disk.file = w.disk.file.write (bytes.take (min k (bytes.length - 1)))
            ∧ (a.run cr w).2.marks = w.marks)
          ∨ ∃ bytes, (a.run cr w).2.disk.file = w.disk.file.write bytes
            ∧ ((a.run cr w).1 = abort ∨ (a.run cr w).2.inconsistent = true
              ∨ (a.run cr w).2.marks
                = (w.byteCount + bytes.length, w.closed, w.inconsistent))) := by
  by_cases henabled : w.Enabled
  · by_cases hfull : w.byteCount < maxWalSize
    · generalize hentry : entryFor cr w a = entry
      have hpayload : entry.payload = a.payload := by
        rw [← hentry]
        rfl
      rw [append_enabled cr a henabled.1 henabled.2 hfull, hentry]
      by_cases hfits : a.payload.length < 2 ^ 32
      · refine .inr ⟨henabled, hfull, hfits, ?_⟩
        rw [serializeEntry_eq (by rw [hpayload]; exact hfits), lift_ok_bind]
        by_cases hclear : (hashed cr w entry).disk.Clear 1
        · right
          have hwrite : io (Disk.writeAll (frame (entryBytes entry))) (hashed cr w entry)
              = (.ok (), ((hashed cr w entry).tick 1).setFile
                (w.disk.file.write (frame (entryBytes entry)))) :=
            io_of_ok (Disk.io_clear hclear _ _)
          obtain ⟨hfile, hends⟩ := settleAppend_ends (a.entryType == .checkpoint)
            (entry.computeHash cr) (entryBytes entry).length
            (((hashed cr w entry).tick 1).setFile
              (w.disk.file.write (frame (entryBytes entry)))) rfl
          rw [bind_of_ok hwrite]
          exact ⟨frame (entryBytes entry), hfile, by rw [length_frame]; exact hends⟩
        · left
          obtain ⟨k, hk, hwrite⟩ := writeAll_fault hclear (frame (entryBytes entry))
          rw [bind_of_error hwrite]
          exact ⟨_, k, hk, rfl, rfl⟩
      · left
        obtain ⟨text, hfail⟩ : ∃ text, serializeEntry entry = fail (.serialization text) :=
          serializeEntry_of_le (by rw [hpayload]; exact Nat.le_of_not_lt hfits)
        rw [hfail]
        exact ⟨rfl, rfl⟩
    · left
      rw [append_tooLarge cr a henabled.1 henabled.2 (Nat.le_of_not_lt hfull)]
      exact ⟨rfl, rfl⟩
  · left
    obtain ⟨e, hrefused⟩ := append_refused cr a henabled
    rw [hrefused]
    exact ⟨rfl, rfl⟩

theorem append_positioned (a : Attempt) (h : w.Positioned)
    (hwhole : w.Enabled → w.byteCount < maxWalSize → a.payload.length < 2 ^ 32 → w.WritesWhole) :
    (a.run cr w).1 = abort ∨ (a.run cr w).2.Positioned := by
  rcases append_ends cr a w with ⟨hfile, hmarks⟩ | ⟨henabled, hfull, hfits, hends⟩
  · exact .inr (h.of_marks hfile hmarks)
  · rcases hends with ⟨bytes, k, hfault, hfile, hmarks⟩ | ⟨bytes, hfile, hends⟩
    · -- nothing was written
      obtain rfl : k = 0 := hwhole henabled hfull hfits _ hfault _ rfl
      rw [Nat.zero_min, List.take_zero, write_nil] at hfile
      exact .inr (h.of_marks hfile hmarks)
    · rcases hends with habort | hmarked | hmarks
      · exact .inl habort
      · exact .inr (.of_marked hmarked)
      · have hplace := h henabled
        refine .inr (InPlace.positioned ⟨?_, ?_⟩)
        · rw [hfile]
          exact atEnd_write hplace.atEnd bytes
        · rw [hfile, write_atEnd hplace.atEnd, len, List.length_append]
          exact (Prod.mk.inj hmarks).1.trans (by rw [hplace.byteCount]; rfl)

theorem append_extends (cr : Crypto Key) (a : Attempt) (h : w.Positioned) :
    w.disk.file.content <+: (a.run cr w).2.disk.file.content := by
  have hwrite : w.Enabled → ∀ bytes : Bytes,
      w.disk.file.content <+: (w.disk.file.write bytes).content := by
    intro henabled bytes
    rw [write_atEnd (h henabled).atEnd]
    exact List.prefix_append _ _
  rcases append_ends cr a w with ⟨hfile, -⟩ | ⟨henabled, -, -, hends⟩
  · exact hfile.symm ▸ List.prefix_rfl
  · rcases hends with ⟨bytes, k, -, hfile, -⟩ | ⟨bytes, hfile, -⟩
    · rw [hfile]
      exact hwrite henabled _
    · rw [hfile]
      exact hwrite henabled _

theorem Positioned.extending (h : w.Positioned) : w.Extending cr where
  positioned := h
  extends_ a faults := append_extends (w := w.withFaults faults) cr a (h.of_marks rfl rfl)

theorem flush_positioned (h : w.Positioned) : (flush w).2.Positioned := by
  rw [flush, asks_id_bind]
  split
  · exact h
  · split
    · by_cases hclear : w.disk.Clear 1
      · rw [bind_of_ok (io_access_clear hclear)]
        exact h.of_marks rfl rfl
      · rw [bind_of_error (io_access_fault hclear)]
        exact h.of_marks rfl rfl
    · exact h

theorem close_positioned (h : w.Positioned) : (close w).2.Positioned := by
  rw [close, asks_id_bind]
  split
  · exact h
  · rw [bind_of_ok (modify_apply _ _)]
    exact .of_closed rfl

/-! ## Recovering -/

/-- A log that refuses to append does so up to the calls that change its state. -/
theorem positioned_bind {β : Type} {x : WalCall Key α} {f : α → WalCall Key β}
    (hx : Call.Keeps marks x) (h : ¬ w.Enabled)
    (hf : ∀ a w, ¬ w.Enabled → (f a w).2.Positioned) : ((x >>= f) w).2.Positioned := by
  have hdisabled := disabled_of_marks h (hx w)
  rcases hcall : x w with ⟨e | a, w'⟩
  · rw [hcall] at hdisabled
    rw [bind_of_error hcall]
    exact .of_disabled hdisabled
  · rw [hcall] at hdisabled
    rw [bind_of_ok hcall]
    exact hf a w' hdisabled

/-- The cut leaves the log in place, unless an I/O call fails. -/
theorem cutAt_ends (clock : Option Nat) (r : Replay) (fileLen : Nat)
    (hle : r.offset ≤ w.disk.file.len) :
    w.disk.Clear 3 ∧ (cutAt clock r fileLen w).2.InPlace
      ∨ ¬ w.disk.Clear 3 ∧ (cutAt clock r fileLen w).2.marks = w.marks := by
  have hclear : w.disk.Clear 3 ↔ w.disk.Clear 1 ∧ (w.disk.tick 1).Clear 1
      ∧ ((w.disk.tick 1).tick 1).Clear 1 := by
    rw [w.disk.clear_add 1 2, (w.disk.tick 1).clear_add 1 1]
  rw [cutAt, hclear]
  by_cases hcut : w.disk.Clear 1
  · rw [bind_of_ok (io_setLen_clear hcut _)]
    by_cases hsync : ((w.tick 1).setFile (w.disk.file.truncateTo r.offset)).disk.Clear 1
    · rw [bind_of_ok (io_access_clear hsync)]
      by_cases hseek : (((w.tick 1).setFile (w.disk.file.truncateTo r.offset)).tick 1).disk.Clear 1
      · refine .inl ⟨⟨hcut, hsync, hseek⟩, ?_⟩
        rw [bind_of_ok (io_seek_clear hseek _), bind_of_ok (modify_apply _ _)]
        have hlen : (w.disk.file.content.take r.offset).length = r.offset :=
          List.length_take_of_le hle
        exact ⟨hlen.symm, hlen.symm⟩
      · refine .inr ⟨fun h => hseek h.2.2, ?_⟩
        rw [bind_of_error (io_seek_fault hseek _)]
        rfl
    · refine .inr ⟨fun h => hsync h.2.1, ?_⟩
      rw [bind_of_error (io_access_fault hsync)]
      rfl
  · refine .inr ⟨fun h => hcut h.1, ?_⟩
    rw [bind_of_error (io_setLen_fault hcut _)]
    rfl

/-- A log that refuses to append does so until its file is cut. -/
theorem recover_disabled (clock : Option Nat) (h : ¬ w.Enabled) :
    (recover cr clock w).2.Positioned := by
  rw [recover, asks_id_bind]
  apply positioned_bind (keeps_reject _ _) h
  intro _ w₁ h₁
  apply positioned_bind keeps_rewind h₁
  intro header w₂ h₂
  apply positioned_bind (keeps_replay _ _) h₂
  rintro ⟨stop, r⟩ w₃ h₃
  apply positioned_bind (keeps_lift _) h₃
  intro _ w₄ h₄
  by_cases hclear : w₄.disk.Clear 1
  · rw [bind_of_ok (io_fileLen_clear hclear)]
    split
    · exact .of_disabled h₄
    · next hlonger =>
      split
      · exact .of_disabled h₄
      · have hle : r.offset ≤ (w₄.tick 1).disk.file.len := Nat.le_of_lt (Nat.lt_of_not_le hlonger)
        rcases cutAt_ends clock r w₄.disk.file.len hle with ⟨-, hplace⟩ | ⟨-, hmarks⟩
        · exact hplace.positioned
        · exact .of_disabled (disabled_of_marks h₄ hmarks)
  · rw [bind_of_error (io_fileLen_fault hclear)]
    exact .of_disabled h₄

/-- `recover` behind its loop: it has read all and does not start to cut, or the cut succeeds. -/
theorem finishRecover_positioned {clock : Option Nat} {r : Replay} {n : Nat}
    (hends : w.InPlace ∧ (w.disk.file.len ≤ r.offset ∨ r.count = 0 ∨ ¬ w.disk.Clear 2)
      ∨ r.offset < w.disk.file.len ∧ r.count ≠ 0 ∧ w.disk.Clear 4)
    {x : WalCall Key WalRecoveryReport}
    (hx : x = do
      let fileLen ← io Disk.fileLen
      if fileLen ≤ r.offset then pure ⟨0, n, nowNanos clock⟩
      else if r.count = 0 then lift (fail .unrecoverable)
      else cutAt clock r fileLen) : (x w).2.Positioned := by
  subst hx
  rcases hends with ⟨hplace, hends⟩ | ⟨hlonger, hcounted, hclear⟩
  · by_cases hfileLen : w.disk.Clear 1
    · rw [bind_of_ok (io_fileLen_clear hfileLen)]
      split
      · exact hplace.positioned.of_marks rfl rfl
      · split
        · exact hplace.positioned.of_marks rfl rfl
        · next hlonger hcounted =>
          have hcut : ¬ (w.tick 1).disk.Clear 1 := by
            intro hcut
            rcases hends with hle | hzero | hfault
            · exact hlonger hle
            · exact hcounted hzero
            · exact hfault ((w.disk.clear_add 1 1).mpr ⟨hfileLen, hcut⟩)
          rw [cutAt, bind_of_error (io_setLen_fault hcut _), tick_tick]
          exact hplace.positioned.of_marks rfl rfl
    · rw [bind_of_error (io_fileLen_fault hfileLen)]
      exact hplace.positioned.of_marks rfl rfl
  · obtain ⟨hfileLen, hcut⟩ := (w.disk.clear_add 1 3).mp hclear
    rw [bind_of_ok (io_fileLen_clear hfileLen), if_neg (Nat.not_le_of_lt hlonger),
      if_neg hcounted]
    have hle : r.offset ≤ (w.tick 1).disk.file.len := Nat.le_of_lt hlonger
    rcases cutAt_ends clock r w.disk.file.len hle with ⟨-, hplace⟩ | ⟨hfault, -⟩
    · exact hplace.positioned
    · exact absurd hcut hfault

theorem recover_positioned (clock : Option Nat) (h : w.Positioned)
    (hrecovers : w.Enabled → w.Unmoved ∨ w.Recovers cr) :
    (recover cr clock w).1 = abort ∨ (recover cr clock w).2.Positioned := by
  by_cases henabled : w.Enabled
  · have hopen : ¬ w.closed = true := by
      rw [henabled.1]
      decide
    rw [recover, asks_id_bind, Call.reject_bind_neg hopen]
    rcases hrecovers henabled with hunmoved | ⟨header, hheader, s, hclear, hends⟩
    · obtain ⟨n, hrewind⟩ := rewind_unmoved hunmoved
      rw [bind_of_error hrewind]
      exact .inr (h.of_marks rfl rfl)
    · rw [bind_of_ok (rewind_clear ((w.disk.clear_add 4 _).mp hclear).1 hheader),
        bind_of_ok (replay_clear s hclear)]
      dsimp only
      rcases recoverOutcome_cases s with hoverflow | hok
      · rw [hoverflow]
        exact .inl rfl
      · rw [hok, lift_ok_bind]
        right
        have hlen : w.disk.file.len = s.final.offset + s.tail.length := by
          rw [hheader.length_split s, s.final_offset]
          rfl
        have hcount : s.final.count = 0 + s.frames.length := s.final_count
        have hbehind : ∀ n, w.disk.Clear (4 + s.calls + n) ↔
            ((w.tick (4 + s.calls)).readTo s.read).disk.Clear n := by
          intro n
          rw [w.disk.clear_add (4 + s.calls) n]
          exact ⟨fun hn => hn.2, fun hn => ⟨hclear, hn⟩⟩
        apply finishRecover_positioned ?_ rfl
        rcases hends with ⟨hread, hends⟩ | ⟨htail, hframes, hall⟩
        · refine .inl ⟨inPlace_readTo (h henabled) hheader s hread _, ?_⟩
          rcases hends with htail | hframes | hfault
          · rw [htail] at hlen
            exact .inl (Nat.le_of_eq hlen)
          · rw [hframes] at hcount
            exact .inr (.inl hcount)
          · rw [show 6 + s.calls = 4 + s.calls + 2 by omega, hbehind] at hfault
            exact .inr (.inr hfault)
        · have htailPos := List.length_pos_of_ne_nil htail
          have hframesPos := List.length_pos_of_ne_nil hframes
          rw [show 8 + s.calls = 4 + s.calls + 4 by omega, hbehind] at hall
          refine .inr ⟨?_, by omega, hall⟩
          show s.final.offset < w.disk.file.len
          omega
  · exact .inr (recover_disabled clock henabled)

end Wal

namespace Replay

variable {cr : Crypto Key} {key : Key} {checks : Checks}

theorem loop_fault {fs : List Frame} {tail : Bytes} {stop : Stop} {n k : Nat} :
    ∀ {r : Replay} {d : Disk} {fuel : Nat}, AcceptsAll cr key checks r fs →
      scan cr key checks (r.afterAll cr fs) tail = ⟨.error stop, n, k⟩ →
      d.file.rest = framesBytes fs ++ tail → ¬ d.Clear (2 * fs.length + k) → fs.length < fuel →
      ∃ r' d', loop cr key checks fuel r d = (.io, r', d') := by
  induction fs with
  | nil =>
    intro r d fuel _ hstop hrest hfault hfuel
    obtain ⟨fuel, rfl⟩ := Nat.exists_eq_succ_of_ne_zero (Nat.ne_of_gt hfuel)
    rw [framesBytes_nil, List.nil_append] at hrest
    rw [afterAll_nil, ← hrest] at hstop
    rw [List.length_nil, Nat.mul_zero, Nat.zero_add] at hfault
    have hfault' : ¬ d.Clear (scan cr key checks r d.file.rest).calls := by
      rw [hstop]
      exact hfault
    obtain ⟨d', hstep, -⟩ := step_fault hfault'
    exact ⟨r, d', by rw [loop, hstep]⟩
  | cons f fs ih =>
    intro r d fuel haccept hstop hrest hfault hfuel
    obtain ⟨hread, haccept, haccepts⟩ := haccept
    obtain ⟨fuel, rfl⟩ := Nat.exists_eq_succ_of_ne_zero (Nat.ne_zero_of_lt hfuel)
    rw [framesBytes_cons, List.append_assoc] at hrest
    by_cases hfirst : d.Clear 2
    · have hcalls : 2 * (f :: fs).length + k = 2 + (2 * fs.length + k) := by
        rw [List.length_cons]
        omega
      rw [hcalls, Disk.clear_add] at hfault
      obtain ⟨d', rfl, hnext, hloop⟩ := Split.loop_frame fuel hread haccept hrest hfirst
      rw [hloop]
      exact ih haccepts hstop hnext (fun h => hfault ⟨hfirst, h⟩) (by simpa using hfuel)
    · have hfault' : ¬ d.Clear (scan cr key checks r d.file.rest).calls := by
        rw [hrest, scan_frame hread haccept (framesBytes fs ++ tail)]
        exact hfirst
      obtain ⟨d', hstep, -⟩ := step_fault hfault'
      exact ⟨r, d', by rw [loop, hstep]⟩

theorem Split.run_fault {r : Replay} {d : Disk} (s : Split cr key checks r d.file.rest)
    (hfault : ¬ d.Clear s.calls) : ∃ r' d', run cr key checks r d = (.io, r', d') :=
  loop_fault s.accepts s.stops s.eq hfault s.frames_lt

end Replay

namespace Wal

variable {w w' : Wal Key} {cr : Crypto Key} {checks : Checks} {header : Header}

theorem replay_fault (s : Split cr w.signingKey checks (.start header.lastCheckpointSeq) w.body)
    {n : Nat} (hclear : w.disk.Clear n) (hfault : ¬ w.disk.Clear (n + s.calls)) :
    ∃ r w', replay cr checks header ((w.tick n).readTo 0) = (.ok (.io, r), w')
      ∧ w'.marks = w.marks := by
  rw [w.disk.clear_add] at hfault
  obtain ⟨r, d, hrun⟩ := s.run_fault (d := ((w.tick n).readTo 0).disk)
    fun h => hfault ⟨hclear, h⟩
  refine ⟨r, { (w.tick n).readTo 0 with disk := d }, ?_, rfl⟩
  rw [replay]
  exact congrArg (fun p : Stop × Replay × Disk =>
    (Except.ok (p.1, p.2.1), { (w.tick n).readTo 0 with disk := p.2.2 })) hrun

theorem revalidate_positioned (h : w.inconsistent = true) (hends : w.EndsWhole cr) :
    (revalidate cr w).2.Positioned := by
  have hrewinds := keeps_rewind w
  rw [revalidate]
  rcases hrewind : rewind w with ⟨e | header, w₁⟩
  · rw [hrewind] at hrewinds
    rw [bind_of_error hrewind]
    exact .of_disabled (disabled_of_marks (disabled_of_marked h) hrewinds)
  · obtain ⟨hheader, hclear⟩ := rewind_eq_ok hrewind
    rw [rewind_clear hclear hheader] at hrewind
    obtain ⟨-, rfl⟩ := Prod.mk.inj hrewind
    rw [bind_of_ok (rewind_clear hclear hheader)]
    obtain ⟨s⟩ := Split.exists_split cr w.signingKey tryRecoverChecks w.body
      (.start header.lastCheckpointSeq)
    by_cases hreads : w.disk.Clear (4 + s.calls)
    · rw [bind_of_ok (replay_clear s hreads)]
      dsimp only
      cases hok : tryRecoverOutcome s.stop with
      | error e => exact .of_marked h
      | ok =>
        -- only the end of the file stops the loop, so the file ends in whole frames
        have hstop := congrArg Replay.Turn.outcome s.stops
        rw [tryRecoverOutcome_ok.mp hok] at hstop
        have htail := hends header hheader s (scan_eof.mp hstop).2
        have hlen := hheader.length_split s
        rw [htail, List.length_nil, Nat.add_zero] at hlen
        have hoffset : s.final.offset = w.disk.file.len := s.final_offset.trans hlen.symm
        rw [lift_ok_bind]
        by_cases hseek : ((w.tick (4 + s.calls)).readTo s.read).disk.Clear 1
        · rw [bind_of_ok (io_seek_clear hseek _), bind_of_ok (modify_apply _ _)]
          exact InPlace.positioned ⟨hoffset, hoffset⟩
        · rw [bind_of_error (io_seek_fault hseek _)]
          exact .of_marked h
    · obtain ⟨r, w', hreplay, hmarks⟩ := replay_fault s hclear hreads
      rw [bind_of_ok hreplay]
      exact .of_disabled (disabled_of_marks (disabled_of_marked h) hmarks)

theorem tryRecover_positioned (h : w.Positioned)
    (hends : w.closed = false → w.inconsistent = true → w.EndsWhole cr) :
    (tryRecover cr w).2.Positioned := by
  rw [tryRecover, asks_id_bind]
  by_cases hclosed : w.closed = true
  · rw [Call.reject_bind_pos hclosed]
    exact h
  · rw [Call.reject_bind_neg hclosed]
    split
    · exact h
    · next hmarked =>
      have hmarked : w.inconsistent = true := Bool.eq_true_of_not_eq_false hmarked
      exact revalidate_positioned hmarked (hends (Bool.eq_false_of_not_eq_true hclosed) hmarked)

/-! ## Opening -/

theorem finishScan_inPlace {offset n : Nat} (hle : offset ≤ w.disk.file.len)
    (h : finishScan offset w = (.ok n, w')) : w'.InPlace := by
  rw [finishScan] at h
  by_cases hfileLen : w.disk.Clear 1
  · rw [bind_of_ok (onError_of_ok (io_fileLen_clear hfileLen))] at h
    obtain ⟨lost, w₁, hdrop, h⟩ := bind_eq_ok.mp h
    have hlen : w₁.disk.file.len = offset := by
      rw [dropTail] at hdrop
      split at hdrop
      · next hlt =>
        obtain ⟨_, w₂, hcut, hdrop⟩ := bind_eq_ok.mp hdrop
        have hclear := clear_of_ok hcut
        rw [io_setLen_clear hclear] at hcut
        obtain ⟨-, rfl⟩ := Prod.mk.inj hcut
        obtain ⟨-, rfl⟩ := Prod.mk.inj hdrop
        exact List.length_take_of_le hle
      · next hlt =>
        obtain ⟨-, rfl⟩ := Prod.mk.inj hdrop
        exact Nat.le_antisymm (Nat.le_of_not_lt hlt) hle
    rw [bind_of_ok (modify_apply _ _)] at h
    obtain ⟨_, w₂, hseek, h⟩ := bind_eq_ok.mp h
    obtain ⟨-, rfl⟩ := io_seek_eq_ok hseek
    obtain ⟨-, rfl⟩ := Prod.mk.inj h
    exact ⟨hlen.symm, hlen.symm⟩
  · rw [bind_of_error (onError_of_error (io_fileLen_fault hfileLen))] at h
    cases h

theorem scanOutcome_eq_ok {stop : Stop} {offset n : Nat}
    (h : scanOutcome stop offset w = (.ok n, w')) :
    stop ≠ .io ∧ finishScan offset w = (.ok n, w') := by
  cases stop with
  | undecodable e =>
    refine ⟨nofun, ?_⟩
    cases e with
    | panic => cases h
    | err e =>
      cases e with
      | serialization | invalidEntryType => exact h
      | invalidMagic | invalidVersion | corruptedEntry | brokenChain | cumulativeMismatch
      | invalidSignature | timestampRegression | closed | sequenceGap | tooManyEntries | tooLarge
      | sessionMismatch | io | inconsistent | unrecoverable => cases h
  | tooManyEntries | io | overflow | outOfFuel => cases h
  | eof | zeroLength | oversize | shortFrame | sequenceGap | timestampRegression | brokenChain
  | cumulativeMismatch | invalidSignature => exact ⟨nofun, h⟩

theorem scanToEnd_eq {stop : Stop} {r : Replay} {d : Disk}
    (hrun : Replay.run cr w.signingKey scanChecks ⟨w.chain, 0, w.entryCount, headerSize⟩ w.disk
      = (stop, r, d)) :
    scanToEnd cr w = scanOutcome stop r.offset
      { w.withChain r.chain with disk := d, entryCount := r.count } := by
  rw [scanToEnd, hrun]

variable {sessionId : FixedBytes 32} {key : Key} {syncInterval : Nat} {clock : Option Nat}
  {d : Disk}

theorem readHeader_eq_ok (h : readHeader (initial sessionId key syncInterval d) = (.ok (), w')) :
    ∃ header, (initial sessionId key syncInterval d).HasHeader header
      ∧ w' = { (initial sessionId key syncInterval (d.tick 2)).setFile
          ⟨d.file.content, headerSize⟩ with nextSequence := header.lastCheckpointSeq } := by
  rw [readHeader, asks_id_bind] at h
  obtain ⟨_, w₁, hseek, h⟩ := bind_eq_ok.mp h
  obtain ⟨buf, w₂, hread, h⟩ := bind_eq_ok.mp h
  obtain ⟨header, hdecode, h⟩ := lift_bind_eq_ok.mp h
  obtain ⟨-, h⟩ := Call.reject_bind_eq_ok.mp h
  obtain ⟨-, h⟩ := Call.reject_bind_eq_ok.mp h
  obtain ⟨-, h⟩ := Call.reject_bind_eq_ok.mp h
  obtain ⟨-, hw⟩ := Prod.mk.inj h
  obtain ⟨-, rfl⟩ := io_seek_eq_ok hseek
  obtain ⟨-, rfl, rfl⟩ := io_readExact_eq_ok (by decide) hread
  refine ⟨header, hdecode, hw.symm.trans ?_⟩
  rw [← Disk.tick_tick d 1 1]
  rfl

theorem openExisting_inPlace
    (h : openExisting cr (initial sessionId key syncInterval d) = (.ok (), w')) : w'.InPlace := by
  rw [openExisting] at h
  obtain ⟨_, w₁, hread, h⟩ := bind_eq_ok.mp h
  obtain ⟨header, hheader, rfl⟩ := readHeader_eq_ok hread
  obtain ⟨lost, w₂, hscan, h⟩ := bind_eq_ok.mp h
  obtain ⟨-, rfl⟩ := Prod.mk.inj h
  obtain ⟨s⟩ := Split.exists_split cr key scanChecks (initial sessionId key syncInterval d).body
    (.start header.lastCheckpointSeq)
  have hlen := hheader.length_split s
  have hoffset : s.final.offset = headerSize + (framesBytes s.frames).length := s.final_offset
  by_cases hreads : (d.tick 2).Clear s.calls
  · have hrun := s.run_clear
      (d := (d.tick 2).setFile ⟨d.file.content, headerSize⟩) (by exact hreads)
    rw [scanToEnd_eq (by exact hrun)] at hscan
    refine finishScan_inPlace ?_ (scanOutcome_eq_ok hscan).2
    show s.final.offset ≤ d.file.len
    rw [hoffset]
    exact hlen ▸ Nat.le_add_right _ _
  · obtain ⟨r, d', hrun⟩ := s.run_fault
      (d := (d.tick 2).setFile ⟨d.file.content, headerSize⟩) (by exact hreads)
    rw [scanToEnd_eq (by exact hrun)] at hscan
    exact absurd rfl (scanOutcome_eq_ok hscan).1

theorem length_write_header {f : OpenFile} (hfile : f = ⟨[], 0⟩) {header : Header} :
    (f.write (serializeHeader header)).content.length = headerSize := by
  rw [hfile, write_atEnd (show (⟨[], 0⟩ : OpenFile).AtEnd from rfl), List.nil_append,
    length_serializeHeader]

theorem openFresh_inPlace (hfile : d.file = ⟨[], 0⟩)
    (h : openFresh clock (initial sessionId key syncInterval d) = (.ok (), w')) : w'.InPlace := by
  rw [openFresh] at h
  obtain ⟨_, w₁, hwrite, h⟩ := bind_eq_ok.mp h
  rw [bind_of_ok (modify_apply _ _)] at h
  obtain ⟨-, hw⟩ := io_seek_eq_ok h
  rw [writeHeader, asks_id_bind] at hwrite
  obtain ⟨_, w₂, hheader, hsync⟩ := bind_eq_ok.mp hwrite
  obtain ⟨-, hw₁⟩ := io_access_eq_ok hsync
  obtain ⟨d', hbytes, hw₂⟩ := io_eq_ok.mp hheader
  obtain ⟨-, hdisk⟩ := Disk.io_eq_ok.mp hbytes
  have hlen : w₁.disk.file.len = headerSize := by
    rw [hw₁, hw₂, ← (Prod.mk.inj hdisk).2]
    exact length_write_header hfile
  rw [hw]
  exact ⟨hlen.symm, hlen.symm⟩

theorem openOrCreateWal_cursor {d' : Disk} {a : Unit} (h : Disk.openOrCreateWal d = (.ok a, d')) :
    d'.file.cursor = 0 := by
  rw [← (Prod.mk.inj (Disk.atomic_eq_ok.mp h).2).2]
  dsimp only
  split
  · rfl
  · next hname =>
    rw [Disk.attachWal]
    split
    · next hnone => exact absurd hnone hname
    · rfl

theorem openFile_inPlace
    (h : openFile cr clock (initial sessionId key syncInterval d) = (.ok (), w')) : w'.InPlace := by
  rw [openFile] at h
  obtain ⟨_, w₁, hfirst, h⟩ := bind_eq_ok.mp h
  obtain ⟨_, w₂, hattach, h⟩ := bind_eq_ok.mp h
  obtain ⟨_, w₃, hthird, h⟩ := bind_eq_ok.mp h
  obtain ⟨len, w₄, hlen, h⟩ := bind_eq_ok.mp h
  obtain ⟨d₁, -, rfl⟩ := io_eq_ok.mp hfirst
  obtain ⟨d₂, hopen, rfl⟩ := io_eq_ok.mp hattach
  have hcursor := openOrCreateWal_cursor hopen
  obtain ⟨-, rfl⟩ := io_access_eq_ok hthird
  have hclear := clear_of_ok hlen
  rw [io_fileLen_clear hclear] at hlen
  obtain ⟨hlength, rfl⟩ := Prod.mk.inj hlen
  split at h
  · next hzero =>
    refine openFresh_inPlace (d := (d₂.tick 1).tick 1) ?_ h
    have hempty : d₂.file.content = [] :=
      List.eq_nil_of_length_eq_zero ((Except.ok.inj hlength).trans hzero)
    show d₂.file = ⟨[], 0⟩
    rw [← hempty, ← hcursor]
  · exact openExisting_inPlace (d := (d₂.tick 1).tick 1) h

theorem open_inPlace
    (h : (openWithSyncInterval cr sessionId key syncInterval clock d).1 = .ok w) : w.InPlace := by
  rw [openWithSyncInterval] at h
  rcases hopen : openFile cr clock (initial sessionId key syncInterval d) with ⟨e | _, w'⟩
  · rw [hopen] at h
    cases h
  · rw [hopen] at h
    obtain rfl := Except.ok.inj h
    exact openFile_inPlace hopen

theorem openAgain_positioned : (openAgain cr sessionId key syncInterval clock w).2.Positioned := by
  rw [openAgain]
  rcases hopen : openWithSyncInterval cr sessionId key syncInterval clock w.disk with ⟨e | w', d⟩
  · exact .of_closed rfl
  · exact (open_inPlace (congrArg Prod.fst hopen)).positioned

/-! ## Rotating -/

theorem io_snd (x : Call Disk IoError α) (w : Wal Key) :
    (io x w).2 = { w with disk := (x w.disk).2 } := by
  rw [io, onDisk, zoom, Disk.orErr]
  rcases x w.disk with ⟨(e | _) | a, d⟩
  · rfl
  · rfl
  · rfl

theorem renameToArchive_file (timestamp : Int) (d : Disk) :
    (Disk.renameToArchive timestamp d).2.file = d.file := by
  by_cases hclear : d.Clear 1
  · rw [Disk.renameToArchive, Disk.atomic_clear hclear, Disk.requireName]
    split
    · rfl
    · rfl
  · rw [Disk.renameToArchive, Disk.atomic_fault hclear]
    rfl

theorem startFresh_inPlace {clock : Option Nat} (h : startFresh clock w = (.ok (), w')) :
    w'.InPlace := by
  rw [startFresh, asks_id_bind] at h
  obtain ⟨_, w₁, hcreate, h⟩ := bind_eq_ok.mp h
  obtain ⟨_, w₂, hrestrict, h⟩ := bind_eq_ok.mp h
  rw [bind_of_ok (modify_apply _ _)] at h
  obtain ⟨_, w₃, hwrite, h⟩ := bind_eq_ok.mp h
  obtain ⟨_, w₄, hsync, h⟩ := bind_eq_ok.mp h
  rw [bind_of_ok (modify_apply _ _)] at h
  obtain ⟨-, hw⟩ := io_seek_eq_ok h
  obtain ⟨-, hw₄⟩ := io_access_eq_ok hsync
  obtain ⟨d₃, hbytes, hw₃⟩ := io_eq_ok.mp hwrite
  obtain ⟨-, hdisk⟩ := Disk.io_eq_ok.mp hbytes
  obtain ⟨-, hw₂⟩ := io_access_eq_ok hrestrict
  obtain ⟨d₁, hown, hw₁⟩ := io_eq_ok.mp hcreate
  have hname : w₂.disk.wal = some (.own []) := by
    rw [hw₂, hw₁]
    show d₁.wal = some (.own [])
    rw [← (Prod.mk.inj (Disk.atomic_eq_ok.mp hown).2).2]
  have hfile : w₂.disk.attachWal.file = ⟨[], 0⟩ := by
    rw [Disk.attachWal, hname]
    rfl
  have hlen : w₄.disk.file.len = headerSize := by
    rw [hw₄, hw₃, ← (Prod.mk.inj hdisk).2]
    exact length_write_header hfile
  rw [hw]
  exact ⟨hlen.symm, hlen.symm⟩

theorem rotate_positioned (maxSizeBytes : Nat) (archiveClock headerClock : Option Nat)
    (h : w.Positioned) : (rotateIfNeeded maxSizeBytes archiveClock headerClock w).2.Positioned := by
  rw [rotateIfNeeded, asks_id_bind]
  split
  · exact h
  · by_cases hclosed : w.closed = true
    · rw [Call.reject_bind_pos hclosed]
      exact h
    · rw [Call.reject_bind_neg hclosed]
      by_cases hclear : w.disk.Clear 1
      · rw [bind_of_ok (io_access_clear hclear)]
        have hkept := io_snd (Disk.renameToArchive (nowNanos archiveClock)) (w.tick 1)
        have hfile := renameToArchive_file (nowNanos archiveClock) (w.tick 1).disk
        rcases hrename : io (Disk.renameToArchive (nowNanos archiveClock)) (w.tick 1)
          with ⟨e | _, w₁⟩
        · rw [hrename] at hkept
          rw [bind_of_error hrename]
          apply h.of_marks
          · rw [hkept]
            exact hfile
          · rw [hkept]
            rfl
        · rw [bind_of_ok hrename]
          rcases hfresh : startFresh headerClock w₁ with ⟨e | _, w₂⟩
          · rw [bind_of_error (onError_of_error hfresh)]
            exact .of_marked rfl
          · rw [bind_of_ok (onError_of_ok hfresh)]
            exact (startFresh_inPlace hfresh).positioned
      · rw [bind_of_error (io_access_fault hclear)]
        exact h.of_marks rfl rfl

/-! ## Truncating -/

/-- Behind the rename the log is in place on the new file, or marked. -/
theorem adopt_positioned (r : Retained) (w : Wal Key) {stale : WalCall Key Unit}
    (hstale : stale = do
      modify (adopt r)
      markInconsistent)
    {x : WalCall Key Unit}
    (hx : x = do
      onError (orElse (io Disk.openWal) (io Disk.openWal)) stale
      onError (io Disk.seekEnd) stale
      modify (adopt r)
      let len ← onError (io Disk.fileLen) markInconsistent
      modify fun w => { w with byteCount := len }) : (x w).2.Positioned := by
  have hmarked : ∀ w : Wal Key, (stale w).2.inconsistent = true := by
    intro w
    rw [hstale]
    rfl
  subst hx
  rcases hopen : orElse (io Disk.openWal) (io Disk.openWal) w with ⟨e | _, w₁⟩
  · rw [bind_of_error (onError_of_error hopen)]
    exact .of_marked (hmarked w₁)
  · rw [bind_of_ok (onError_of_ok hopen)]
    rcases hseek : io Disk.seekEnd w₁ with ⟨e | _, w₂⟩
    · rw [bind_of_error (onError_of_error hseek)]
      exact .of_marked (hmarked w₂)
    · rw [bind_of_ok (onError_of_ok hseek), bind_of_ok (modify_apply _ _)]
      have hclear := clear_of_ok hseek
      obtain ⟨d, hend, rfl⟩ := io_eq_ok.mp hseek
      have hd := (Prod.mk.inj (Disk.atomic_eq_ok.mp hend).2).2
      have hatEnd : d.file.AtEnd := by
        rw [← hd]
        rfl
      by_cases hfileLen : d.Clear 1
      · rw [bind_of_ok (onError_of_ok (io_fileLen_clear (by exact hfileLen)))]
        exact InPlace.positioned ⟨hatEnd, rfl⟩
      · rw [bind_of_error (onError_of_error (io_fileLen_fault (by exact hfileLen)))]
        exact .of_marked rfl

theorem copyLoop_atEnd {key : Key} {beforeSeq : Nat} {d : Disk}
    (hcursor : d.file.cursor = headerSize) (hle : headerSize ≤ d.file.len) {fs : List Frame}
    {tail : Bytes} (hbody : d.file.content.drop headerSize = framesBytes fs ++ tail)
    (hshort : tail.length < 4) (haccept : Copy.AcceptsAll cr key beforeSeq .start fs)
    (hlimit : fs.length < maxWalEntries) (hclear : d.Clear (Copy.callsAll beforeSeq fs + 1))
    {x : Call Disk WalError Retained}
    (hx : x = do
      let c ← Copy.loop cr key beforeSeq (d.file.len + 1) .start
      Disk.orErr Disk.access
      let nextSeq ← lift (match c.prevRetainedSeq with
        | none => .ok beforeSeq
        | some seq => bump seq 1)
      pure ⟨⟨nextSeq, c.lastHash, c.hasher⟩, c.retainedCount⟩) :
    (x d).2.file = ⟨d.file.content, d.file.len⟩ := by
  subst hx
  rw [bind_of_ok (Copy.loop_body hcursor hle hbody hshort haccept hlimit hclear)]
  generalize hd : Disk.setFile _ _ = d₁
  have hfile : d₁.file = ⟨d.file.content, d.file.len⟩ := by
    rw [← hd]
    rfl
  by_cases hsync : d₁.Clear 1
  · have hsynced : Disk.orErr Disk.access d₁ = (.ok (), d₁.tick 1) :=
      Disk.orErr_of_ok (Disk.atomic_clear hsync _)
    rw [bind_of_ok hsynced]
    cases (match (Copy.start.afterAll cr key beforeSeq fs).prevRetainedSeq with
        | none => Except.ok beforeSeq
        | some seq => bump seq 1 : Res WalError Nat) with
    | ok nextSeq => exact hfile
    | error e => exact hfile
  · have hfailed : Disk.orErr Disk.access d₁ = (fail (.io .other), d₁.tick 1) :=
      Disk.orErr_of_err (Disk.atomic_fault hsync _)
    rw [bind_of_error hfailed]
    exact hfile

theorem copyRetained_atEnd {key : Key} {sessionId : FixedBytes 32} {beforeSeq : Nat}
    {clock : Option Nat} {d : Disk} (hcursor : d.file.cursor = headerSize)
    (hle : headerSize ≤ d.file.len) {fs : List Frame} {tail : Bytes}
    (hbody : d.file.content.drop headerSize = framesBytes fs ++ tail) (hshort : tail.length < 4)
    (haccept : Copy.AcceptsAll cr key beforeSeq .start fs) (hlimit : fs.length < maxWalEntries)
    (hclear : d.Clear (1 + (1 + (1 + (Copy.callsAll beforeSeq fs + 1))))) :
    (copyRetained cr key sessionId beforeSeq clock d).2.file = ⟨d.file.content, d.file.len⟩ := by
  obtain ⟨hcreate, hclear⟩ := (d.clear_add 1 _).mp hclear
  obtain ⟨hrestrict, hclear⟩ := ((d.tick 1).clear_add 1 _).mp hclear
  obtain ⟨hwrite, hclear⟩ := (((d.tick 1).tick 1).clear_add 1 _).mp hclear
  have hnew : Disk.orErr Disk.createNew d = (.ok (), { d.tick 1 with walNew := some [] }) :=
    Disk.orErr_of_ok (Disk.atomic_clear hcreate _)
  have hopened : Disk.orErr Disk.access { d.tick 1 with walNew := some [] }
      = (.ok (), { (d.tick 1).tick 1 with walNew := some [] }) :=
    Disk.orErr_of_ok (Disk.atomic_clear (by exact hrestrict) _)
  have hheader := Disk.writeNew_clear (d := { (d.tick 1).tick 1 with walNew := some [] })
    (by exact hwrite) (serializeHeader (header sessionId clock beforeSeq))
  rw [copyRetained, bind_of_ok hnew, bind_of_ok hopened, bind_of_ok hheader,
    asks_bind]
  exact copyLoop_atEnd (d := Disk.copied 1 (serializeHeader (header sessionId clock beforeSeq))
    { (d.tick 1).tick 1 with walNew := some [] })
    hcursor hle hbody hshort haccept hlimit (by exact hclear) rfl

theorem removeNew_file (d : Disk) : (Disk.removeNew d).2.file = d.file := by
  by_cases hclear : d.Clear 1
  · rw [Disk.removeNew, Disk.atomic_clear hclear]
    rfl
  · rw [Disk.removeNew, Disk.atomic_fault hclear]
    rfl

theorem renameNew_file (d : Disk) : (Disk.renameNew d).2.file = d.file := by
  by_cases hclear : d.Clear 1
  · rw [Disk.renameNew, Disk.atomic_clear hclear, Disk.requireName]
    split
    · rfl
    · rfl
  · rw [Disk.renameNew, Disk.atomic_fault hclear]
    rfl

theorem positioned_removeNew (h : w.Positioned) : (io Disk.removeNew w).2.Positioned := by
  rw [io_snd]
  exact h.of_marks (removeNew_file w.disk) rfl

/-- Behind the copy a log that was in place stays in place. -/
theorem renamed_positioned (h : w.Positioned) {x : WalCall Key Unit}
    (hx : ∀ w, (x w).2.Positioned) :
    ((do
      onError (io Disk.renameNew) (io Disk.removeNew)
      x : WalCall Key Unit) w).2.Positioned := by
  have hkept := io_snd Disk.renameNew w
  rcases hrename : io Disk.renameNew w with ⟨e | _, w'⟩
  · rw [hrename] at hkept
    rw [bind_of_error (onError_of_error hrename)]
    apply positioned_removeNew
    rw [show w' = _ from hkept]
    exact h.of_marks (renameNew_file w.disk) rfl
  · rw [bind_of_ok (onError_of_ok hrename)]
    exact hx w'

theorem truncate_positioned (beforeSeq : Nat) (clock : Option Nat) (h : w.Positioned)
    (hcopies : w.Enabled → w.Unmoved ∨ w.CopiesThrough cr beforeSeq) :
    (truncate cr beforeSeq clock w).2.Positioned := by
  -- how the copy leaves the log
  have hcopy : ∀ {w₁ : Wal Key}, (∀ r, copyRetained cr w.signingKey w.sessionId beforeSeq clock
        w₁.disk = r → ({ w₁ with disk := r.2 } : Wal Key).Positioned) →
      ((do
        let r ← onError
          (onDisk (copyRetained cr w.signingKey w.sessionId beforeSeq clock)) (io Disk.removeNew)
        onError (io Disk.renameNew) (io Disk.removeNew)
        let stale : WalCall Key Unit := do
          modify (adopt r)
          markInconsistent
        onError (orElse (io Disk.openWal) (io Disk.openWal)) stale
        onError (io Disk.seekEnd) stale
        modify (adopt r)
        let len ← onError (io Disk.fileLen) markInconsistent
        modify fun w => { w with byteCount := len } : WalCall Key Unit) w₁).2.Positioned := by
    intro w₁ hplace
    rcases hresult : copyRetained cr w.signingKey w.sessionId beforeSeq clock w₁.disk
      with ⟨e | r, d⟩
    · rw [bind_of_error (onError_of_error (onDisk_of_eq hresult))]
      exact positioned_removeNew (hplace _ hresult)
    · rw [bind_of_ok (onError_of_ok (onDisk_of_eq hresult))]
      exact renamed_positioned (hplace _ hresult) fun w => adopt_positioned r w rfl rfl
  rw [truncate, asks_id_bind]
  by_cases hfirst : w.disk.Clear 1
  · rw [bind_of_ok (io_access_clear hfirst)]
    by_cases hsecond : (w.tick 1).disk.Clear 1
    · rw [bind_of_ok (io_seek_clear hsecond _)]
      apply hcopy
      rintro _ rfl
      intro henabled
      rcases hcopies henabled
        with hunmoved | ⟨hle, fs, tail, hbody, hshort, haccept, hlimit, hclear⟩
      · exact absurd ((w.disk.clear_add 1 1).mpr ⟨hfirst, hsecond⟩) hunmoved
      · have hcalls : 6 + Copy.callsAll beforeSeq fs
            = 1 + (1 + (1 + (1 + (1 + (Copy.callsAll beforeSeq fs + 1))))) := by omega
        rw [hcalls] at hclear
        obtain ⟨-, hclear⟩ := (w.disk.clear_add 1 _).mp hclear
        obtain ⟨-, hclear⟩ := ((w.disk.tick 1).clear_add 1 _).mp hclear
        have hend : (copyRetained cr w.signingKey w.sessionId beforeSeq clock
            (((w.disk.tick 1).tick 1).setFile (w.disk.file.seek headerSize))).2.file
              = ⟨w.disk.file.content, w.disk.file.len⟩ :=
          copyRetained_atEnd rfl hle hbody hshort haccept hlimit (by exact hclear)
        exact ⟨(congrArg cursor hend).trans (congrArg len hend).symm,
          (h henabled).byteCount.trans (congrArg len hend).symm⟩
    · rw [bind_of_error (io_seek_fault hsecond _)]
      exact h.of_marks rfl rfl
  · rw [bind_of_error (io_access_fault hfirst)]
    exact h.of_marks rfl rfl

end Wal

/-! ## Every run -/

/-- Whatever is called undisturbed leaves the cursor in its place. -/
theorem CursorAction.positioned (action : CursorAction Key) {w : Wal Key} (h : w.Positioned)
    (hundisturbing : action.Undisturbing cr w) : (action.run cr w).2.Positioned := by
  have hfaults : ∀ faults, (w.withFaults faults).Positioned := fun _ => h.of_marks rfl rfl
  cases action with
  | reopen sessionId signingKey syncInterval clock faults =>
    exact Wal.positioned_settle (.inr Wal.openAgain_positioned)
  | append a faults =>
    exact Wal.positioned_settle (Wal.append_positioned a (hfaults faults) hundisturbing)
  | flush faults => exact Wal.positioned_settle (.inr (Wal.flush_positioned (hfaults faults)))
  | close faults => exact Wal.positioned_settle (.inr (Wal.close_positioned (hfaults faults)))
  | verify faults =>
    exact Wal.positioned_settle (.inr (Wal.verify_positioned (hfaults faults) hundisturbing))
  | truncate beforeSeq clock faults =>
    exact Wal.positioned_settle
      (.inr (Wal.truncate_positioned beforeSeq.toNat clock (hfaults faults) hundisturbing))
  | recover clock faults =>
    exact Wal.positioned_settle (Wal.recover_positioned clock (hfaults faults) hundisturbing)
  | tryRecover faults =>
    exact Wal.positioned_settle (.inr (Wal.tryRecover_positioned (hfaults faults) hundisturbing))
  | rotate maxSizeBytes archiveClock headerClock faults =>
    exact Wal.positioned_settle (.inr (Wal.rotate_positioned maxSizeBytes.toNat archiveClock
      headerClock (hfaults faults)))
  | overwrite content =>
    intro henabled
    have hplace := h henabled
    have hlen : content.length = w.disk.file.content.length := hundisturbing henabled
    exact ⟨hplace.atEnd.trans hlen.symm, hplace.byteCount.trans hlen.symm⟩

/-- In every run of undisturbing actions the log stays in place, and an append extends the
    file. -/
theorem position_kept {cr : Crypto Key} {sessionId : FixedBytes 32} {key : Key}
    {syncInterval : UInt64} {clock : Option Nat} {d : Disk} {w : Wal Key}
    (hopen : (Wal.openWithSyncInterval cr sessionId key syncInterval.toNat clock d).1 = .ok w)
    (actions : List (CursorAction Key))
    (hundisturbing : Machine.Along (CursorAction.run cr) (CursorAction.Undisturbing cr) actions w) :
    (Machine.run (CursorAction.run cr) actions w).2.Extending cr :=
  (Machine.run_invariant (fun action _ h hP => action.positioned h hP) actions w
    (Wal.open_inPlace hopen).positioned hundisturbing).extending

/-- A log is verified, an append fails without writing, and the log is rotated. -/
def undisturbedRun : List (CursorAction Unit) :=
  [.verify [], .append ⟨.heartbeat, [1], some 5⟩ [], .append ⟨.heartbeat, [2], some 3⟩ [some 0],
    .rotate 0 (some 6) (some 6) [], .append ⟨.checkpoint, [], some 4⟩ [none, some 0]]

theorem position_kept_rotated : ∃ w, sampleLog .sample = .ok w
      ∧ (Machine.run (CursorAction.run .sample) undisturbedRun w).2.Extending .sample := by
  obtain ⟨w, hopen, hrecords, -⟩ := Wal.sampleLog_fresh .sample
  have hverify : (CursorAction.verify [] : CursorAction Unit).Undisturbing .sample w := by
    refine fun _ => .inr ⟨_, Wal.hasHeader_of_content hrecords.fits hrecords.content, ?_⟩
    rw [show (w.withFaults []).body = framesBytes [] from Wal.body_of_content hrecords.content]
    obtain ⟨s, -, htail, -, hbytes⟩ := exists_split_end
      (show AcceptsAll .sample w.signingKey Wal.verifyChecks (.start _) [] from trivial)
      (fun _ => show 0 < maxWalEntries by decide)
    exact ⟨s, Disk.Quiet.clear (d := (w.withFaults []).disk) rfl _, by rw [hbytes, htail]; rfl⟩
  refine ⟨w, hopen, @position_kept _ .sample _ _ 1 _ _ w hopen undisturbedRun
    ⟨hverify, ?_, ?_, trivial, ?_, trivial⟩⟩
  · exact fun _ _ _ k hk => by cases hk
  · rintro - - - _ ⟨⟩ _ ⟨⟩
    rfl
  · rintro - - - _ ⟨⟩ _ ⟨⟩

/-- The clock goes back before the second append, and `verify` stops there. -/
def disturbedRun : List (CursorAction Unit) :=
  [.append ⟨.heartbeat, [1], some 5⟩ [], .append ⟨.heartbeat, [2], some 3⟩ [],
    .append ⟨.heartbeat, [3], some 4⟩ [], .verify []]

def nextAttempt : Attempt := ⟨.heartbeat, [4], some 6⟩

/-- The next append goes over the third entry. -/
theorem position_lost : ∃ w, sampleLog .sample = .ok w
      ∧ (Machine.run (CursorAction.run .sample) disturbedRun w).2.Enabled
      ∧ ¬ (Machine.run (CursorAction.run .sample) disturbedRun w).2.InPlace
      ∧ ¬ (Machine.run (CursorAction.run .sample) disturbedRun w).2.disk.file.content
        <+: (nextAttempt.run .sample
          ((Machine.run (CursorAction.run .sample) disturbedRun w).2.withFaults [])
            ).2.disk.file.content := by
  have hrun : (sampleLog .sample).toOption.map
      (fun w =>
        let v := (Machine.run (CursorAction.run .sample) disturbedRun w).2
        (v.closed, v.inconsistent, v.disk.file.cursor, v.disk.file.len,
          decide (v.disk.file.content
            <+: (nextAttempt.run .sample (v.withFaults [])).2.disk.file.content)))
        = some (false, false, 372, 526, false) := by
    decide +kernel
  obtain ⟨w, hopen, hfacts⟩ := exists_ok_of_toOption hrun
  obtain ⟨hclosed, hfacts⟩ := Prod.mk.inj hfacts
  obtain ⟨hmarked, hfacts⟩ := Prod.mk.inj hfacts
  obtain ⟨hcursor, hfacts⟩ := Prod.mk.inj hfacts
  obtain ⟨hlen, hover⟩ := Prod.mk.inj hfacts
  refine ⟨w, hopen, ⟨hclosed, hmarked⟩, fun hplace => ?_, of_decide_eq_false hover⟩
  have hsame := hcursor.symm.trans (hplace.atEnd.trans hlen)
  cases hsame

end WritersProof.Wal
