/-
  Whether the four readers of a log agree on its content.

  The scan of `open` does not compare timestamps; `verify`, `recover` and
  `try_recover` do, and `append` writes whatever the clock shows.  So they stop
  at the first entry that is older than the one before it, where `open` goes on.
  `recover` has no limit on the number of entries, and `try_recover` takes up to
  three stray bytes for the end of the file; `AgreeWhen` collects when none of
  this matters.
-/
import Mathlib.Data.List.Chain
import WritersProof.Wal.Durability

namespace WritersProof.Wal

set_option linter.dupNamespace false

open Rust Replay

variable {Key : Type}

/-- No timestamp is below the one before it, or the first one below `t`. -/
def Ordered (t : Int) (fs : List Frame) : Prop :=
  (t :: fs.map fun f => f.entry.timestamp).IsChain (· ≤ ·)

/-- `bytes` goes on with a frame that the loop accepts. -/
def Continues (cr : Crypto Key) (key : Key) (checks : Checks) (r : Replay) (bytes : Bytes) :
    Prop :=
  ∃ f rest, bytes = Frame.bytes f ++ rest ∧ f.Readable ∧ Accepts cr key checks r f

/-- The number of entries that a copy of the loop has counted when it stops. -/
def counted (cr : Crypto Key) (checks : Checks) (w : Wal Key) : Res WalError Nat :=
  (do
    let header ← Wal.rewind
    let (_, r) ← Wal.replay cr checks header
    pure r.count : WalCall Key Nat) w |>.1

/-- The number of entries that `open` accepts from the file of `w`, also if it then fails. -/
def accepted (cr : Crypto Key) (w : Wal Key) : Nat :=
  (Wal.openExisting cr (Wal.initial w.sessionId w.signingKey 1 w.disk)).2.entryCount

/-- The file of `w'` is the header and the first `m` entries of that of `w`. -/
def Keeps (m : Nat) (w w' : Wal Key) : Prop :=
  ∃ fs tail, (∀ f ∈ fs, Frame.Readable f) ∧ fs.length = m ∧ w.body = framesBytes fs ++ tail
    ∧ w'.disk.file.content = w.disk.file.content.take headerSize ++ framesBytes fs

/-- The file of `w` is the header and `m` entries. -/
def Whole (m : Nat) (w : Wal Key) : Prop :=
  ∃ fs, (∀ f ∈ fs, Frame.Readable f) ∧ fs.length = m ∧ w.body = framesBytes fs

structure Agree (cr : Crypto Key) (w : Wal Key) (m : Nat) : Prop where
  verify_counts : counted cr Wal.verifyChecks w = .ok m
  verify_reports : ∀ v, (Wal.verify cr w).1 = .ok v → v.entries = m
  recover_counts : counted cr Wal.recoverChecks w = .ok m
  recover_keeps : ∀ clock report, (Wal.recover cr clock w).1 = .ok report →
    Keeps m w (Wal.recover cr clock w).2
  /-- on a log that is marked inconsistent: on others it returns without reading the file -/
  tryRecover_whole :
    (∃ n, (Wal.tryRecover cr { w with inconsistent := true }).1 = .ok n) ↔ Whole m w

/-- The entries that are chained from the start of the file have ordered timestamps, and the
    bytes behind them are none that the readers treat differently. -/
def AgreeWhen (cr : Crypto Key) (header : Header) (w : Wal Key) : Prop :=
  ∃ fs tail, w.body = framesBytes fs ++ tail
    ∧ AcceptsAll cr w.signingKey Wal.scanChecks (.start header.lastCheckpointSeq) fs
    ∧ ¬ Continues cr w.signingKey Wal.scanChecks (Wal.readerAt cr header fs) tail
    ∧ Ordered 0 fs
    ∧ if fs.length < maxWalEntries then tail.length = 0 ∨ 4 ≤ tail.length
      else tail ≠ []
        ∧ ¬ Continues cr w.signingKey Wal.recoverChecks (Wal.readerAt cr header fs) tail

/-- `w` is a log after `attempts`: `open` keeps all of them, `verify` reports them as valid, and
    `recover` loses none. -/
structure Intact (cr : Crypto Key) (attempts : List Attempt) (w : Wal Key) : Prop where
  reopened : ∀ syncInterval < 2 ^ 64, ∀ clock, ∃ w',
    (Wal.openWithSyncInterval cr w.sessionId w.signingKey syncInterval clock
      (Wal.close w).2.disk).1 = .ok w'
    ∧ w'.entryCount = attempts.length ∧ Holds w'.disk.file.content (attempts.map Attempt.stored)
  verified : ∃ v, (Wal.verify cr w).1 = .ok v ∧ v.valid = true ∧ v.entries = attempts.length
  recovered : ∀ clock, ∃ report, (Wal.recover cr clock w).1 = .ok report ∧ report.lostCount = 0
    ∧ (Wal.recover cr clock w).2.disk.file.content = w.disk.file.content

variable {cr : Crypto Key} {key : Key} {checks : Checks} {r : Replay} {fs gs : List Frame}
  {tail : Bytes}

@[simp] theorem ordered_nil (t : Int) : Ordered t [] := List.isChain_singleton _

theorem ordered_cons {t : Int} {f : Frame} :
    Ordered t (f :: fs) ↔ t ≤ f.entry.timestamp ∧ Ordered f.entry.timestamp fs :=
  List.isChain_cons_cons

/-! ## One content, two copies of the loop -/

theorem continues_iff {bytes : Bytes} :
    Continues cr key checks r bytes ↔ ∃ r', (scan cr key checks r bytes).outcome = .ok r' := by
  constructor
  · rintro ⟨f, rest, rfl, hread, haccept⟩
    exact ⟨r.after cr f, by rw [scan_frame hread haccept]⟩
  · rintro ⟨r', hok⟩
    obtain ⟨f, rest, hbytes, hread, haccept, -⟩ := scan_eq_ok hok
    exact ⟨f, rest, hbytes, hread, haccept⟩

/-- The frames of a content are determined by their number. -/
theorem framesBytes_inj {tail' : Bytes} (hf : ∀ f ∈ fs, Frame.Readable f)
    (hg : ∀ g ∈ gs, Frame.Readable g) (hlen : fs.length = gs.length)
    (h : framesBytes fs ++ tail = framesBytes gs ++ tail') : fs = gs ∧ tail = tail' := by
  induction fs generalizing gs with
  | nil =>
    obtain rfl := List.length_eq_zero_iff.mp hlen.symm
    exact ⟨rfl, h⟩
  | cons f fs ih =>
    cases gs with
    | nil => cases hlen
    | cons g gs =>
      rw [framesBytes_cons, framesBytes_cons, List.append_assoc, List.append_assoc] at h
      obtain ⟨rfl, hrest⟩ := Frame.bytes_inj (hf f List.mem_cons_self) (hg g List.mem_cons_self) h
      obtain ⟨rfl, htail⟩ := ih (fun f' hf' => hf f' (List.mem_cons_of_mem _ hf'))
        (fun g' hg' => hg g' (List.mem_cons_of_mem _ hg')) (Nat.succ.inj hlen) hrest
      exact ⟨rfl, htail⟩

namespace Replay.Split

variable {bytes : Bytes}

theorem not_continues (s : Split cr key checks r bytes) :
    ¬ Continues cr key checks s.final s.tail := by
  intro hcontinues
  obtain ⟨r', hok⟩ := continues_iff.mp hcontinues
  have hstops : (scan cr key checks s.final s.tail).outcome = .error s.stop :=
    congrArg Turn.outcome s.stops
  rw [hstops] at hok
  cases hok

theorem frames_eq : ∀ {fs : List Frame} {r : Replay} {bytes : Bytes}
    (s : Split cr key checks r bytes), bytes = framesBytes fs ++ tail →
    AcceptsAll cr key checks r fs → ¬ Continues cr key checks (r.afterAll cr fs) tail →
    s.frames = fs ∧ s.tail = tail := by
  intro fs
  induction fs with
  | nil =>
    rintro r bytes ⟨_ | ⟨g, gs⟩, tail', stop, n, k, heq, haccepts, hstops⟩ rfl _ hcontinues
    · exact ⟨rfl, heq.symm⟩
    · rw [framesBytes_cons, List.append_assoc] at heq
      exact absurd ⟨g, _, heq, haccepts.1, haccepts.2.1⟩ hcontinues
  | cons f fs ih =>
    rintro r bytes ⟨_ | ⟨g, gs⟩, tail', stop, n, k, heq, haccepts, hstops⟩ rfl haccept hcontinues
    · rw [framesBytes_cons, framesBytes_nil, List.nil_append, List.append_assoc] at heq
      rw [afterAll_nil, ← heq, scan_frame haccept.1 haccept.2.1] at hstops
      cases hstops
    · have heq' := heq
      rw [framesBytes_cons, framesBytes_cons, List.append_assoc, List.append_assoc] at heq'
      obtain ⟨rfl, hrest⟩ := Frame.bytes_inj haccept.1 haccepts.1 heq'
      obtain ⟨hframes, htail⟩ := ih
        ⟨gs, tail', stop, n, k, hrest, haccepts.2.2, hstops⟩ rfl haccept.2.2 hcontinues
      exact ⟨congrArg (f :: ·) hframes, htail⟩

end Replay.Split

/-- The scan makes every check of the other copies but that of the timestamp. -/
theorem accepts_of_scan {f : Frame} (h : Accepts cr key Wal.scanChecks r f) :
    Accepts cr key checks r f
      ↔ (checks.timestamp = true → r.lastTimestamp ≤ f.entry.timestamp) := by
  refine ⟨fun h => h.timestamp, fun htime => ?_⟩
  exact ⟨fun _ => h.limit rfl, h.sequence, htime, h.prevHash, h.cumulative, h.signature, h.room⟩

theorem acceptsAll_of_scan (h : AcceptsAll cr key Wal.scanChecks r fs) :
    AcceptsAll cr key checks r fs ↔ (checks.timestamp = true → Ordered r.lastTimestamp fs) := by
  induction fs generalizing r with
  | nil => exact ⟨fun _ _ => ordered_nil _, fun _ => trivial⟩
  | cons f fs ih =>
    rw [AcceptsAll, accepts_of_scan h.2.1, ih h.2.2, ordered_cons]
    constructor
    · rintro ⟨-, htime, hordered⟩ hcheck
      exact ⟨htime hcheck, hordered hcheck⟩
    · intro hordered
      exact ⟨h.1, fun hcheck => (hordered hcheck).1, fun hcheck => (hordered hcheck).2⟩

/-- Another copy of the loop stops where the scan stops, below its limit. -/
theorem not_continues_of_scan (h : ¬ Continues cr key Wal.scanChecks r tail)
    (hlimit : checks.limit = true ∨ r.count < maxWalEntries) :
    ¬ Continues cr key checks r tail := by
  rintro ⟨f, rest, hbytes, hread, haccept⟩
  refine h ⟨f, rest, hbytes, hread, ?_⟩
  refine ⟨fun _ => ?_, haccept.sequence, ?_, haccept.prevHash, haccept.cumulative,
    haccept.signature, haccept.room⟩
  · obtain hcheck | hlt := hlimit
    · exact haccept.limit hcheck
    · exact hlt
  · intro hcheck
    cases hcheck

/-! ## The readers of a log -/

namespace Wal

variable {w : Wal Key} {header : Header}

section

variable (hq : w.disk.Quiet) (h : w.HasHeader header)

include hq h

theorem counted_eq (s : Split cr w.signingKey checks (.start header.lastCheckpointSeq) w.body) :
    counted cr checks w = .ok s.frames.length := by
  have hcount : s.final.count = s.frames.length := s.final_count.trans (Nat.zero_add _)
  rw [counted, Call.bind_of_ok (rewind_quiet hq h), Call.bind_of_ok (replay_quiet hq s), ← hcount]
  rfl

theorem accepted_eq (hvalid : header.Valid w.sessionId)
    (s : Split cr w.signingKey scanChecks (.start header.lastCheckpointSeq) w.body) :
    accepted cr w = s.frames.length :=
  (openExisting_entryCount hq h hvalid s).trans (s.final_count.trans (Nat.zero_add _))

theorem verify_entries
    (s : Split cr w.signingKey verifyChecks (.start header.lastCheckpointSeq) w.body)
    {v : WalVerification} (hok : (verify cr w).1 = .ok v) : v.entries = s.frames.length := by
  have hcount : s.final.count = s.frames.length := s.final_count.trans (Nat.zero_add _)
  rw [verify_quiet hq h s] at hok
  rw [← hcount]
  revert hok
  generalize s.stop = stop
  intro hok
  cases stop with
  | eof | tooManyEntries | oversize | sequenceGap | timestampRegression | brokenChain
  | cumulativeMismatch | invalidSignature =>
    cases hok
    rfl
  | zeroLength | io | shortFrame | undecodable | overflow | outOfFuel => cases hok

end

theorem keeps_of_split (h : w.HasHeader header)
    (s : Split cr w.signingKey checks (.start header.lastCheckpointSeq) w.body) {w' : Wal Key}
    (hcontent : w'.disk.file.content = w.disk.file.content.take s.final.offset) :
    Keeps s.frames.length w w' := by
  have hle := h.length_le
  have hoffset : s.final.offset = headerSize + (framesBytes s.frames).length := s.final_offset
  refine ⟨s.frames, s.tail, s.accepts.readable, rfl, s.eq, ?_⟩
  have hbody : w.body.take (framesBytes s.frames).length = framesBytes s.frames := by
    have := congrArg (List.take (framesBytes s.frames).length) s.eq
    rwa [List.take_left' rfl] at this
  rw [hcontent, hoffset, List.take_add]
  exact congrArg (w.disk.file.content.take headerSize ++ ·) hbody

theorem recover_keeps (hq : w.disk.Quiet) (hclosed : w.closed = false) (h : w.HasHeader header)
    (s : Split cr w.signingKey recoverChecks (.start header.lastCheckpointSeq) w.body)
    {clock : Option Nat} {report : WalRecoveryReport}
    (hok : (recover cr clock w).1 = .ok report) :
    Keeps s.frames.length w (recover cr clock w).2 := by
  obtain hover | houtcome := recoverOutcome_cases s
  · rw [recover, Call.asks_id_bind,
      Call.bind_of_ok (Call.reject_neg (by rw [hclosed]; decide) _ _),
      Call.bind_of_ok (rewind_quiet hq h), Call.bind_of_ok (replay_quiet hq s)] at hok
    dsimp only at hok
    rw [hover] at hok
    cases hok
  · have hrun : recover cr clock w = _ := recover_quiet hq hclosed h s houtcome
    by_cases htail : s.tail = []
    · rw [if_pos htail] at hrun
      rw [hrun]
      have hlen := h.length_split s
      have hoffset : s.final.offset = headerSize + (framesBytes s.frames).length := s.final_offset
      rw [htail, List.length_nil, OpenFile.len] at hlen
      have hall : w.disk.file.content.take s.final.offset = w.disk.file.content :=
        List.take_of_length_le (by omega)
      exact keeps_of_split h s hall.symm
    · rw [if_neg htail] at hrun
      by_cases hframes : s.frames = []
      · rw [if_pos hframes] at hrun
        rw [hrun] at hok
        cases hok
      · rw [if_neg hframes] at hrun
        rw [hrun]
        exact keeps_of_split h s rfl

theorem tryRecover_ok_iff (hq : w.disk.Quiet) (hclosed : w.closed = false) (h : w.HasHeader header)
    (s : Split cr w.signingKey tryRecoverChecks (.start header.lastCheckpointSeq) w.body) :
    (∃ n, (tryRecover cr { w with inconsistent := true }).1 = .ok n) ↔ s.stop = .eof := by
  have hrun : tryRecover cr { w with inconsistent := true }
      = revalidate cr { w with inconsistent := true } := by
    rw [tryRecover, Call.asks_id_bind,
      Call.bind_of_ok (Call.reject_neg (by rw [hclosed]; decide) _ _)]
    rfl
  rw [hrun, revalidate_quiet (w := { w with inconsistent := true }) hq h s, ← tryRecoverOutcome_ok]
  cases tryRecoverOutcome s.stop with
  | ok => exact ⟨fun _ => rfl, fun _ => ⟨_, rfl⟩⟩
  | error e =>
    constructor
    · rintro ⟨n, hok⟩
      cases hok
    · intro hok
      cases hok

end Wal

variable {w : Wal Key} {header : Header} {bytes : Bytes}

/-- The entries of a file are those at which a loop stops, if there are as many of them. -/
theorem frames_eq_of_length
    (s : Split cr w.signingKey checks (.start header.lastCheckpointSeq) bytes)
    (hread : ∀ f ∈ fs, Frame.Readable f) (hbytes : bytes = framesBytes fs ++ tail)
    (hlen : s.frames.length = fs.length) : s.frames = fs ∧ s.tail = tail :=
  framesBytes_inj s.accepts.readable hread hlen (s.eq.symm.trans hbytes)

/-- Whether a file is whole, from where a loop stops. -/
theorem whole_iff (hread : ∀ f ∈ fs, Frame.Readable f) (hbody : w.body = framesBytes fs ++ tail) :
    Whole fs.length w ↔ tail = [] := by
  constructor
  · rintro ⟨gs, hgs, hlen, hwhole⟩
    exact (framesBytes_inj hread hgs hlen.symm
      (hbody.symm.trans (hwhole.trans (List.append_nil _).symm))).2
  · rintro rfl
    exact ⟨fs, hread, rfl, hbody.trans (List.append_nil _)⟩

/-- The loop of `try_recover` reaches what it takes for the end of the file. -/
theorem stop_eof_iff (hlimit : checks.limit = true)
    (s : Split cr key checks (.start header.lastCheckpointSeq) bytes) :
    s.stop = .eof ↔ s.frames.length < maxWalEntries ∧ s.tail.length < 4 := by
  have hstops : (scan cr key checks s.final s.tail).outcome = .error s.stop :=
    congrArg Turn.outcome s.stops
  have hcount : s.final.count = s.frames.length := s.final_count.trans (Nat.zero_add _)
  have heof : s.stop = .eof ↔ (scan cr key checks s.final s.tail).outcome = .error .eof := by
    rw [hstops, Except.error.injEq]
  rw [heof, scan_eof, hcount]
  simp only [hlimit, true_and, Nat.not_le]

/-! ## Logs that were only appended to -/

section

variable {attempts : List Attempt}

namespace Wal

variable (h : w.Records cr header fs)

include h

/-- A reader that compares timestamps goes through a log whose timestamps are ordered. -/
theorem Records.exists_split (hordered : Ordered 0 fs) (checks : Checks) :
    ∃ s : Split cr w.signingKey checks (.start header.lastCheckpointSeq) w.body,
      s.frames = fs ∧ s.tail = [] ∧ s.stop = .eof := by
  have hlimit : (readerAt cr header fs).count < maxWalEntries := by
    rw [readerAt_count, ← h.count]
    exact h.steady.limit
  rw [body_of_content h.content]
  have haccept : AcceptsAll cr w.signingKey checks (.start header.lastCheckpointSeq) fs :=
    (acceptsAll_of_scan h.accepts).mpr fun _ => hordered
  obtain ⟨s, hframes, htail, hstop, -⟩ := exists_split_end haccept fun _ => hlimit
  exact ⟨s, hframes, htail, hstop⟩

/-- `verify` counts all entries of a log exactly when their timestamps are ordered. -/
theorem Records.verify_iff :
    (∃ v, (verify cr w).1 = .ok v ∧ v.valid = true ∧ v.entries = fs.length) ↔ Ordered 0 fs := by
  have hheader := hasHeader_of_content h.fits h.content
  constructor
  · rintro ⟨v, hok, -, hentries⟩
    obtain ⟨s⟩ := Split.exists_split cr w.signingKey verifyChecks w.body
      (.start header.lastCheckpointSeq)
    rw [verify_entries h.steady.quiet hheader s hok] at hentries
    obtain ⟨hframes, -⟩ := frames_eq_of_length s h.accepts.readable
      ((body_of_content h.content).trans (List.append_nil _).symm) hentries
    exact (acceptsAll_of_scan h.accepts).mp (hframes ▸ s.accepts) rfl
  · intro hordered
    obtain ⟨s, hframes, -, hstop⟩ := h.exists_split hordered verifyChecks
    have hcount : s.final.count = fs.length := by
      rw [s.final_count, hframes]
      exact Nat.zero_add _
    rw [verify_quiet h.steady.quiet hheader s, hstop]
    exact ⟨_, rfl, rfl, hcount⟩

theorem Records.recover_nothing (hordered : Ordered 0 fs) (clock : Option Nat) :
    ∃ report, (recover cr clock w).1 = .ok report ∧ report.lostCount = 0
      ∧ (recover cr clock w).2.disk.file.content = w.disk.file.content := by
  obtain ⟨s, -, htail, hstop⟩ := h.exists_split hordered recoverChecks
  rw [recover_quiet h.steady.quiet h.steady.open_ (hasHeader_of_content h.fits h.content) s
    (by rw [hstop]; rfl), if_pos htail]
  exact ⟨_, rfl, rfl, rfl⟩

theorem Records.agreeWhen (hordered : Ordered 0 fs) :
    AgreeWhen cr header w := by
  refine ⟨fs, [], (body_of_content h.content).trans (List.append_nil _).symm, h.accepts, ?_,
    hordered, ?_⟩
  · rintro ⟨f, rest, hnil, -⟩
    have := congrArg List.length hnil
    rw [List.length_append, Frame.length_bytes, List.length_nil] at this
    omega
  · rw [if_pos (by rw [← h.count]; exact h.steady.limit)]
    exact .inl rfl

end Wal

/-- Appends whose payloads a reader takes survive. -/
theorem survives_of_sizes (bytes : Nat)
    (h : ∀ a ∈ attempts, a.payload.length ≤ maxEntrySize - entryOverhead) :
    Survives bytes false attempts := by
  induction attempts generalizing bytes with
  | nil => trivial
  | cons a attempts ih =>
    have hrest := fun a' ha' => h a' (List.mem_cons_of_mem _ ha')
    have hsize := h a List.mem_cons_self
    rw [Survives]
    split
    · exact ih bytes hrest
    · unfold maxEntrySize entryOverhead at hsize
      rw [if_neg (by omega)]
      exact ⟨rfl, by unfold entryOverhead maxEntrySize; omega, ih _ hrest⟩

theorem acked_eq_self : ∀ {attempts : List Attempt} {replies : List (Res WalError Unit)},
    replies.length = attempts.length → (∀ reply ∈ replies, reply = .ok ()) →
    acked attempts replies = attempts := by
  intro attempts
  induction attempts with
  | nil => exact fun _ _ => rfl
  | cons a attempts ih =>
    intro replies hlen hok
    cases replies with
    | nil => cases hlen
    | cons reply replies =>
      obtain rfl := hok reply List.mem_cons_self
      rw [acked_cons_ok, ih (Nat.succ.inj hlen) fun r hr => hok r (List.mem_cons_of_mem _ hr)]

theorem length_appendAll : ∀ {attempts : List Attempt} {w : Wal Key},
    (appendAll cr attempts w).1.length = attempts.length := by
  intro attempts
  induction attempts with
  | nil => exact fun {_} => rfl
  | cons a attempts ih =>
    intro w
    exact congrArg (· + 1) ih

/-- The first payload that no reader takes hides everything behind it. -/
theorem blocked_of_oversize (hcr : cr.Correct) (hzero : header.lastCheckpointSeq = 0) :
    ∀ {attempts : List Attempt} {w : Wal Key} {fs : List Frame}, w.Records cr header fs →
      w.Clean cr header fs → (∀ reply ∈ (appendAll cr attempts w).1, reply = .ok ()) →
      (∃ a ∈ attempts, maxEntrySize - entryOverhead < a.payload.length) →
      ∃ gs, Blocked cr header gs (appendAll cr attempts w).2
        ∧ gs.length < fs.length + attempts.length := by
  intro attempts
  induction attempts with
  | nil =>
    rintro w fs _ _ _ ⟨a, ha, -⟩
    exact (List.not_mem_nil ha).elim
  | cons a attempts ih =>
    intro w fs h hclean hok hlarge
    have hfull : w.byteCount < maxWalSize := by
      by_contra hge
      rw [appendAll_cons (Wal.append_full cr a h.steady (Nat.le_of_not_lt hge))] at hok
      exact absurd (hok _ List.mem_cons_self) (fail_ne_ok _ _)
    have hpayload : a.payload.length < 2 ^ 32 := by
      by_contra hge
      obtain ⟨text, hrun⟩ := Wal.append_huge cr a h.steady hfull (Nat.le_of_not_lt hge)
      rw [appendAll_cons hrun] at hok
      exact absurd (hok _ List.mem_cons_self) (fail_ne_ok _ _)
    obtain ⟨pendingSyncs, hsyncs, hrun⟩ :=
      Wal.append_fits cr a h.steady hfull hpayload (h.room hzero)
    rw [appendAll_cons hrun] at hok ⊢
    rw [List.length_cons]
    by_cases hsize : entryOverhead + a.payload.length ≤ maxEntrySize
    · have hcum := congrArg (fun hasher => cr.blake3 (hasher ++
        ((Wal.entryFor cr w a).computeHash cr).val)) (hclean : w.cumulativeHasher = _)
      obtain ⟨gs, hblocked, hlt⟩ := ih (h.grown hcr hfull (h.room hzero) hsize hsyncs hcum)
        hclean.grown (fun reply hr => hok reply (List.mem_cons_of_mem _ hr)) (by
          obtain ⟨a', ha', hlarge⟩ := hlarge
          obtain rfl | ha' := List.mem_cons.mp ha'
          · omega
          · exact ⟨a', ha', hlarge⟩)
      rw [List.length_append, List.length_singleton] at hlt
      exact ⟨gs, hblocked, by omega⟩
    · exact ⟨fs, (h.blocked hzero hfull hpayload hsyncs
        (blocks_oversize (Nat.lt_of_not_le hsize) hpayload)).afterAppends, by omega⟩

/-- A log that holds the attempts, as its readers see it. -/
theorem intact_iff_ordered (h : w.Records cr header fs)
    (hrecorded : fs.map Frame.recorded = attempts.map Attempt.recorded) :
    Intact cr attempts w ↔ Ordered 0 fs := by
  have hlength : fs.length = attempts.length := by
    have := congrArg List.length hrecorded
    rwa [List.length_map, List.length_map] at this
  constructor
  · intro hintact
    apply h.verify_iff.mp
    rw [hlength]
    exact hintact.verified
  · intro hordered
    refine ⟨fun syncInterval hinterval clock => ?_, hlength ▸ h.verify_iff.mpr hordered,
      h.recover_nothing hordered⟩
    obtain ⟨w', hopen, hrecords, -⟩ := h.reopened hinterval clock
    exact ⟨w', hopen, hrecords.count.trans hlength, hrecords.holds hrecorded⟩

/-- The timestamps of a log are the clock readings of its appends. -/
theorem ordered_iff (hrecorded : fs.map Frame.recorded = attempts.map Attempt.recorded) :
    Ordered 0 fs ↔ (attempts.map fun a => nowNanos a.clock).IsChain (· ≤ ·) := by
  have htimes : (fs.map fun f => f.entry.timestamp) = attempts.map fun a => nowNanos a.clock := by
    have := congrArg (List.map Prod.fst) hrecorded
    rwa [List.map_map, List.map_map] at this
  rw [Ordered, htimes, List.isChain_cons]
  refine ⟨fun h => h.2, fun h => ⟨fun t ht => ?_, h⟩⟩
  obtain ⟨a, -, rfl⟩ := List.mem_map.mp (List.mem_of_mem_head? ht)
  exact nowNanos_nonneg a.clock

/-- Appends that all succeed leave an intact log exactly when their payloads can be read and
    the clock did not go back. -/
theorem intact_iff (hcr : cr.Correct) (hzero : header.lastCheckpointSeq = 0)
    (h : w.Records cr header []) (hclean : w.Clean cr header [])
    (hok : ∀ reply ∈ (appendAll cr attempts w).1, reply = .ok ()) :
    Intact cr attempts (appendAll cr attempts w).2
      ↔ (∀ a ∈ attempts, a.payload.length ≤ maxEntrySize - entryOverhead)
        ∧ (attempts.map fun a => nowNanos a.clock).IsChain (· ≤ ·) := by
  by_cases hsizes : ∀ a ∈ attempts, a.payload.length ≤ maxEntrySize - entryOverhead
  · obtain ⟨gs, hrecords, hrecorded⟩ :=
      records_appendAll hcr hzero h (fun _ => hclean) (survives_of_sizes _ hsizes)
    rw [acked_eq_self length_appendAll hok] at hrecorded
    rw [intact_iff_ordered hrecords hrecorded, List.nil_append, ordered_iff hrecorded]
    exact ⟨fun hordered => ⟨hsizes, hordered⟩, fun hboth => hboth.2⟩
  · refine ⟨fun hintact => ?_, fun hboth => absurd hboth.1 hsizes⟩
    -- the log that is opened again has fewer entries
    obtain ⟨a, hlarge⟩ := not_forall.mp hsizes
    obtain ⟨ha, hlarge⟩ := Classical.not_imp.mp hlarge
    obtain ⟨gs, hblocked, hlt⟩ := blocked_of_oversize hcr hzero h hclean hok
      ⟨a, ha, Nat.lt_of_not_le hlarge⟩
    obtain ⟨w', hopen, hcount, -⟩ := hintact.reopened 1 (by decide) none
    rw [hblocked.entryCount_reopened hopen] at hcount
    rw [List.length_nil, Nat.zero_add] at hlt
    omega

end

/-- On every file with a valid header the readers agree on the entries that `open` accepts,
    exactly when `AgreeWhen` holds. -/
theorem agree_iff {w : Wal Key} {header : Header} (hq : w.disk.Quiet) (hclosed : w.closed = false)
    (h : w.HasHeader header) (hvalid : header.Valid w.sessionId) :
    Agree cr w (accepted cr w) ↔ AgreeWhen cr header w := by
  obtain ⟨s⟩ := Split.exists_split cr w.signingKey Wal.scanChecks w.body
    (.start header.lastCheckpointSeq)
  obtain ⟨sv⟩ := Split.exists_split cr w.signingKey Wal.verifyChecks w.body
    (.start header.lastCheckpointSeq)
  obtain ⟨sr⟩ := Split.exists_split cr w.signingKey Wal.recoverChecks w.body
    (.start header.lastCheckpointSeq)
  obtain ⟨st⟩ := Split.exists_split cr w.signingKey Wal.tryRecoverChecks w.body
    (.start header.lastCheckpointSeq)
  -- with ordered timestamps the other copies accept what the scan accepts
  have hall : ∀ {checks : Checks}, Ordered 0 s.frames →
      AcceptsAll cr w.signingKey checks (.start header.lastCheckpointSeq) s.frames :=
    fun hordered => (acceptsAll_of_scan s.accepts).mpr fun _ => hordered
  have htframes : Ordered 0 s.frames → st.frames = s.frames ∧ st.tail = s.tail := fun hordered =>
    st.frames_eq s.eq (hall hordered) (not_continues_of_scan s.not_continues (.inl rfl))
  have htry : (∃ n, (Wal.tryRecover cr { w with inconsistent := true }).1 = .ok n)
      ↔ st.frames.length < maxWalEntries ∧ st.tail.length < 4 :=
    (Wal.tryRecover_ok_iff hq hclosed h st).trans (stop_eof_iff rfl st)
  have hwhole : Whole s.frames.length w ↔ s.tail = [] := whole_iff s.accepts.readable s.eq
  rw [Wal.accepted_eq hq h hvalid s]
  constructor
  · intro hagree
    have hv := Except.ok.inj ((Wal.counted_eq hq h sv).symm.trans hagree.verify_counts)
    have hr := Except.ok.inj ((Wal.counted_eq hq h sr).symm.trans hagree.recover_counts)
    obtain ⟨hvframes, -⟩ := frames_eq_of_length sv s.accepts.readable s.eq hv
    obtain ⟨hrframes, hrtail⟩ := frames_eq_of_length sr s.accepts.readable s.eq hr
    have hordered : Ordered 0 s.frames :=
      (acceptsAll_of_scan s.accepts).mp (hvframes ▸ sv.accepts) rfl
    have hfield := htry.symm.trans (hagree.tryRecover_whole.trans hwhole)
    rw [(htframes hordered).1, (htframes hordered).2] at hfield
    refine ⟨s.frames, s.tail, s.eq, s.accepts, s.not_continues, hordered, ?_⟩
    by_cases hlimit : s.frames.length < maxWalEntries
    · rw [if_pos hlimit]
      by_cases hshort : s.tail.length < 4
      · exact .inl (List.length_eq_zero_iff.mpr (hfield.mp ⟨hlimit, hshort⟩))
      · exact .inr (Nat.le_of_not_lt hshort)
    · rw [if_neg hlimit]
      refine ⟨fun hnil => hlimit (hfield.mpr hnil).1, ?_⟩
      have hstop := sr.not_continues
      rwa [Split.final, hrframes, hrtail] at hstop
  · rintro ⟨fs, tail, hbody, haccept, hcontinues, hordered, hlimit⟩
    obtain ⟨rfl, rfl⟩ := s.frames_eq hbody haccept hcontinues
    obtain ⟨hvframes, -⟩ := sv.frames_eq hbody (hall hordered)
      (not_continues_of_scan hcontinues (.inl rfl))
    have hrstop : ¬ Continues cr w.signingKey Wal.recoverChecks
        (Wal.readerAt cr header s.frames) s.tail := by
      by_cases hlt : s.frames.length < maxWalEntries
      · exact not_continues_of_scan hcontinues (.inr (by rw [Wal.readerAt_count]; exact hlt))
      · rw [if_neg hlt] at hlimit
        exact hlimit.2
    obtain ⟨hrframes, -⟩ := sr.frames_eq hbody (hall hordered) hrstop
    refine ⟨?_, fun v hok => ?_, ?_, fun clock report hok => ?_, ?_⟩
    · rw [Wal.counted_eq hq h sv, hvframes]
    · rw [Wal.verify_entries hq h sv hok, hvframes]
    · rw [Wal.counted_eq hq h sr, hrframes]
    · rw [← hrframes]
      exact Wal.recover_keeps hq hclosed h sr hok
    · rw [htry, hwhole, (htframes hordered).1, (htframes hordered).2]
      split at hlimit
      next hlt =>
        rw [← List.length_eq_zero_iff]
        omega
      next hge => exact ⟨fun hsmall => absurd hsmall.1 hge, fun hnil => absurd hnil hlimit.1⟩

/-- The readers agree on a file exactly when `AgreeWhen` holds, and on a log that was only
    appended to exactly when its payloads can be read and the clock did not go back. -/
theorem readers_agree_iff (hcr : cr.Correct) :
    (∀ (w : Wal Key) (header : Header), w.disk.Quiet → w.closed = false → w.HasHeader header →
      header.Valid w.sessionId → (Agree cr w (accepted cr w) ↔ AgreeWhen cr header w))
    ∧ ∀ (d : Disk) (sessionId : FixedBytes 32) (key : Key) (syncInterval : Nat)
        (clock : Option Nat) (w : Wal Key) (attempts : List Attempt), Wal.Fresh d →
      syncInterval < 2 ^ 64 →
      (Wal.openWithSyncInterval cr sessionId key syncInterval clock d).1 = .ok w →
      (∀ reply ∈ (appendAll cr attempts w).1, reply = .ok ()) →
      (Intact cr attempts (appendAll cr attempts w).2
        ↔ (∀ a ∈ attempts, a.payload.length ≤ maxEntrySize - entryOverhead)
          ∧ (attempts.map fun a => nowNanos a.clock).IsChain (· ≤ ·)) := by
  refine ⟨fun w header hq hclosed h hvalid => agree_iff hq hclosed h hvalid, ?_⟩
  intro d sessionId key syncInterval clock w attempts hfresh hinterval hopen hok
  obtain ⟨w', hopen', h, hclean, -⟩ := Wal.open_fresh hfresh hinterval
  obtain rfl := Except.ok.inj (hopen'.symm.trans hopen)
  exact intact_iff hcr rfl h hclean hok

/-- Two appends, in the order of their clock readings. -/
def forwards : List Attempt := [⟨.heartbeat, [1], some 5⟩, ⟨.checkpoint, [], some 7⟩]

theorem readers_agree_two : ∃ w, sampleLog .sample = .ok w
    ∧ Agree .sample (appendAll .sample forwards w).2
        (accepted .sample (appendAll .sample forwards w).2)
    ∧ Intact .sample forwards (appendAll .sample forwards w).2 := by
  have hsizes : ∀ a ∈ forwards, a.payload.length ≤ maxEntrySize - entryOverhead := by decide
  have hclocks : (forwards.map fun a => nowNanos a.clock).IsChain (· ≤ ·) := by decide
  obtain ⟨w, hopen, h, hclean⟩ := Wal.sampleLog_fresh .sample
  have hok : ∀ reply ∈ (appendAll .sample forwards w).1, reply = .ok () := by
    have hreplies : (sampleLog .sample).toOption.map (fun w => (appendAll .sample forwards w).1)
          = some [.ok (), .ok ()] := by
      decide +kernel
    obtain ⟨w', hopen', hreplies⟩ := exists_ok_of_toOption hreplies
    obtain rfl := Except.ok.inj (hopen.symm.trans hopen')
    rw [hreplies]
    decide
  obtain ⟨gs, hrecords, hrecorded⟩ := records_appendAll Crypto.sample_correct rfl h
    (fun _ => hclean) (survives_of_sizes w.byteCount hsizes)
  rw [acked_eq_self length_appendAll hok] at hrecorded
  refine ⟨w, hopen, ?_, ?_⟩
  · exact ((readers_agree_iff Crypto.sample_correct).1 _ _ hrecords.steady.quiet
      hrecords.steady.open_ (Wal.hasHeader_of_content hrecords.fits hrecords.content)
      hrecords.valid).mpr (hrecords.agreeWhen ((ordered_iff hrecorded).mpr hclocks))
  · exact ((readers_agree_iff Crypto.sample_correct).2 _ _ _ _ _ _ _ Wal.fresh_empty (by decide)
      hopen hok).mpr ⟨hsizes, hclocks⟩

/-- Two appends, and the clock goes back between them. -/
def backwards : List Attempt := [⟨.heartbeat, [1], some 5⟩, ⟨.heartbeat, [2], some 3⟩]

/-- Both return `Ok`; `open` keeps both, and `verify` and `recover` stop behind the first. -/
theorem readers_disagree : ∃ w, sampleLog .sample = .ok w
    ∧ (appendAll .sample backwards w).1 = [.ok (), .ok ()]
    ∧ (appendAll .sample backwards w).2.HasHeader (Wal.header (.filled 32 1) (some 3) 0)
    ∧ accepted .sample (appendAll .sample backwards w).2 = 2
    ∧ ¬ Agree .sample (appendAll .sample backwards w).2
        (accepted .sample (appendAll .sample backwards w).2)
    ∧ ¬ Intact .sample backwards (appendAll .sample backwards w).2 := by
  have hrun : (sampleLog .sample).toOption.map
      (fun w => ((appendAll .sample backwards w).1,
        deserializeHeader ((appendAll .sample backwards w).2.disk.file.content.take headerSize),
        accepted .sample (appendAll .sample backwards w).2,
        (Wal.verify .sample (appendAll .sample backwards w).2).1.toOption.map
          WalVerification.entries))
      = some ([.ok (), .ok ()], .ok (Wal.header (.filled 32 1) (some 3) 0), 2, some 1) := by
    decide +kernel
  obtain ⟨w, hopen, hrun⟩ := exists_ok_of_toOption hrun
  simp only [Prod.mk.injEq] at hrun
  obtain ⟨hreplies, hheader, haccepted, hverify⟩ := hrun
  obtain ⟨v, hok, hentries⟩ := exists_ok_of_toOption hverify
  refine ⟨w, hopen, hreplies, hheader, haccepted, fun hagree => ?_, fun hintact => ?_⟩
  · have htwo := hagree.verify_reports v hok
    omega
  · obtain ⟨v', hok', -, htwo⟩ := hintact.verified
    obtain rfl := Except.ok.inj (hok.symm.trans hok')
    rw [hentries] at htwo
    exact absurd htwo (by decide)

end WritersProof.Wal
