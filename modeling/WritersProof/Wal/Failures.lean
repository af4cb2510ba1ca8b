/-
  What a failed append leaves behind, and the calls after it.

  `append` can fail in three places behind its refusals.  The failed sync marks the log, and
  nothing is appended until the file has been read again.  The other two do not: the payload that
  is too long for its length field, and the write that fails after some of its bytes.  Both have
  put the hash of the entry into the cumulative hasher, and a write may have left bytes that the
  next append writes behind.  `Contained` is what a run keeps that meets neither of them.
-/
import WritersProof.Wal.Copying
import WritersProof.Wal.Recovery

namespace WritersProof.Wal

set_option linter.dupNamespace false

open Rust Replay Machine

variable {Key : Type}

/-! ## Actions -/

/-- What a caller does with the log, with the I/O errors of an append. -/
inductive FailureAction where
  | log (action : LogAction)
  /-- an append whose `write_all` fails after so many bytes -/
  | appendTorn (a : Attempt) (written : Nat)
  | recover (clock : Option Nat)
  | flush (syncFails : Bool)
  | verify
  | truncate (beforeSeq : UInt64) (clock : Option Nat)

def FailureAction.run (cr : Crypto Key) (action : FailureAction) (w : Wal Key) :
    Res WalError Unit × Wal Key :=
  match action with
  | .log action => action.run cr w
  | .appendTorn a written =>
    Wal.meeting [some written] (Wal.append cr a.entryType a.payload a.clock) w
  | .recover clock => (do let _ ← Wal.recover cr clock; pure () : WalCall Key Unit) w
  | .flush syncFails => Wal.meeting (if syncFails = true then [some 0] else []) Wal.flush w
  | .verify => (do let _ ← Wal.verify cr; pure () : WalCall Key Unit) w
  | .truncate beforeSeq clock => Wal.truncate cr beforeSeq.toNat clock w

/-- The actions are allowed that keep the files of the log in order, an append whose write
    fails only if it is refused before, and a truncation that does not start before the file. -/
def FailureAction.Allowed (action : FailureAction) (w : Wal Key) : Prop :=
  match action with
  | .log action => Wal.Allowed action w
  | .appendTorn _ _ => w.inconsistent = true ∨ maxWalSize ≤ w.byteCount
  | .truncate beforeSeq _ =>
    ∀ e ∈ (entriesIn w.disk.file.content).head?, e.sequence ≤ beforeSeq.toNat
  | _ => True

instance (action : FailureAction) (w : Wal Key) : Decidable (action.Allowed w) :=
  match action with
  | .log action => inferInstanceAs (Decidable (Wal.Allowed action w))
  | .appendTorn _ _ =>
    inferInstanceAs (Decidable (w.inconsistent = true ∨ maxWalSize ≤ w.byteCount))
  | .recover _ => .isTrue trivial
  | .flush _ => .isTrue trivial
  | .verify => .isTrue trivial
  | .truncate beforeSeq _ => inferInstanceAs
    (Decidable (∀ e ∈ (entriesIn w.disk.file.content).head?, e.sequence ≤ beforeSeq.toNat))

def FailureAction.InFile : FailureAction → Prop
  | .log (.rotate _ _ _ _) | .truncate _ _ => False
  | _ => True

/-- The appends that returned `Ok` -/
def acknowledged (actions : List FailureAction) (replies : List (Res WalError Unit)) :
    List Attempt :=
  (actions.zip replies).filterMap fun step =>
    match step with
    | (.log (.append a _), .ok ()) => some a
    | (.appendTorn a _, .ok ()) => some a
    | _ => none

def Entry.recorded (e : Entry) : Int × EntryType × Bytes := (e.timestamp, e.entryType, e.payload)

/-- A log that is marked refuses appends, another one goes on where its file ends; `verify`
    reports the file as valid, and all its entries are there after opening it again. -/
structure Contained (cr : Crypto Key) (w : Wal Key) : Prop where
  refuses_or_restored :
    (w.inconsistent = true ∧ ∀ (a : Attempt) faults,
      Wal.meeting faults (Wal.append cr a.entryType a.payload a.clock) w = (fail .inconsistent, w))
    ∨ Restored cr w
  verified : ∃ v, (Wal.verify cr w).1 = .ok v ∧ v.valid = true
    ∧ v.entries = (entriesIn w.disk.file.content).length
  reopened : ∀ syncFails syncInterval clock, ∃ w',
    LogAction.run cr (.reopen syncFails syncInterval clock) w = (.ok (), w')
      ∧ w'.disk.file.content = w.disk.file.content
      ∧ w'.entryCount = (entriesIn w.disk.file.content).length

variable {cr : Crypto Key} {w : Wal Key} {header : Header} {fs : List Frame} {ordered : Prop}

/-! ## Readers of a good file -/

section

variable (h : Files ordered cr header fs w)

include h

theorem Files.unbroken : Unbroken cr header fs w where
  hasHeader := Wal.hasHeader_of_content h.good.fits h.content
  body := Wal.body_of_content h.content
  accepts := h.good.accepts.of_verify _

theorem Files.length_entriesIn :
    (entriesIn w.disk.file.content).length = fs.length := by
  rw [h.unbroken.entriesIn_eq, List.length_map]

/-- A copy of the loop ends where the cursor was. -/
theorem Files.exists_split (checks : Checks) :
    ∃ s : Split cr w.signingKey checks (.start header.lastCheckpointSeq) w.body,
      s.tail = [] ∧ s.stop = .eof ∧ w.readTo s.read = w := by
  have hlimit : (Wal.readerAt cr header fs).count < maxWalEntries := by
    rw [Wal.readerAt_count]
    exact h.good.limit
  obtain ⟨s, hframes, htail, hstop, hbytes⟩ : ∃ s : Split cr w.signingKey checks
      (.start header.lastCheckpointSeq) w.body,
      s.frames = fs ∧ s.tail = [] ∧ s.stop = .eof ∧ s.tailBytes = 0 := by
    rw [h.unbroken.body]
    exact exists_split_end (h.good.accepts.of_verify checks) fun _ => hlimit
  refine ⟨s, htail, hstop, ?_⟩
  have hcursor : w.disk.file.cursor = headerSize + s.read := by
    have hend : w.disk.file.cursor = w.disk.file.len := h.atEnd
    rw [hend, h.unbroken.length_eq, Split.read, hframes, hbytes, Nat.add_zero]
  rw [Wal.readTo, ← hcursor]
  rfl

theorem Files.verify_eq :
    ∃ result, Wal.verify cr w = (.ok result, w) := by
  obtain ⟨s, -, hstop, hsame⟩ := h.exists_split Wal.verifyChecks
  rw [Wal.verify_quiet h.quiet h.unbroken.hasHeader s, hstop, hsame]
  exact ⟨_, rfl⟩

theorem Files.recover_eq (hopen : w.closed = false) (clock : Option Nat) :
    ∃ report, Wal.recover cr clock w = (.ok report, w) := by
  obtain ⟨s, htail, hstop, hsame⟩ := h.exists_split Wal.recoverChecks
  rw [Wal.recover_quiet h.quiet hopen h.unbroken.hasHeader s (by rw [hstop]; rfl), if_pos htail,
    hsame]
  exact ⟨_, rfl⟩

end

/-! ## The state between two actions -/

namespace InvAt

variable (h : InvAt False cr header fs w)

include h

theorem open_ : w.closed = false := by
  obtain ⟨-, hrecords | hwaiting⟩ := h
  · exact hrecords.1.steady.open_
  · exact hwaiting.open_

theorem setPending {pendingSyncs : Nat} (hlt : pendingSyncs ≤ w.pendingSyncs) :
    InvAt False cr header fs { w with pendingSyncs } := by
  obtain ⟨hfiles, ⟨hrecords, hclean⟩ | hwaiting⟩ := h
  · have hsteady := hrecords.steady
    have hsyncs := hsteady.syncs
    refine ⟨hfiles.of_disk rfl rfl rfl, .inl ⟨⟨⟨hsteady.quiet, hsteady.name, hsteady.open_,
      hsteady.consistent, hsteady.atEnd, hsteady.byteCount, hsteady.entries, hsteady.limit,
      hsteady.bytes, ?_, hsteady.interval⟩, hrecords.valid, hrecords.fits, hrecords.content,
      hrecords.accepts, hrecords.sequence, hrecords.lastHash, hrecords.count⟩, hclean⟩⟩
    show pendingSyncs < w.syncInterval
    omega
  · exact ⟨hfiles.of_disk rfl rfl rfl, .inr ⟨hwaiting.open_, hwaiting.marked, hwaiting.sequence_ge,
      hwaiting.sequence_le, hwaiting.interval_pos, hwaiting.interval⟩⟩

/-- A log that is not marked goes on where its file ends. -/
theorem marked_or_restored :
    w.inconsistent = true ∨ Restored cr w := by
  obtain ⟨hfiles, ⟨hrecords, hclean⟩ | hwaiting⟩ := h
  · refine .inr ⟨hrecords.steady.consistent, hfiles.atEnd, header, fs, hfiles.unbroken, ?_,
      hrecords.count, hrecords.steady.byteCount⟩
    show Chain.mk w.nextSequence w.lastHash w.cumulativeHasher = _
    rw [hrecords.sequence, hrecords.lastHash, hclean]
  · exact .inl hwaiting.marked

theorem contained : Contained cr w := by
  have hfiles := h.1
  refine ⟨?_, ?_, ?_⟩
  · obtain hmarked | hrestored := h.marked_or_restored
    · refine .inl ⟨hmarked, fun a faults => ?_⟩
      have hrun := Wal.append_marked cr a (w := w.withFaults faults) h.open_ hmarked
      exact (Wal.meeting_of_eq hrun).trans
        (congrArg (Prod.mk _) (Wal.withFaults_quiet hfiles.quiet))
    · exact .inr hrestored
  · rw [hfiles.length_entriesIn]
    exact hfiles.unbroken.verify_valid hfiles.quiet hfiles.good.limit
  · intro syncFails syncInterval clock
    obtain ⟨w', hrun, hinv, hrecords⟩ := h.reopen syncFails syncInterval clock
    refine ⟨w', hrun, ?_, ?_⟩
    · rw [hinv.1.content, hfiles.content]
    · rw [hrecords.count, hfiles.length_entriesIn]

end InvAt

/-! ## One action -/

namespace InvAt

/-- A truncation starts the file anew; what the state counts is what was retained. -/
theorem truncate (hcr : cr.Correct) (h : InvAt False cr header fs w) {beforeSeq : UInt64}
    {clock : Option Nat} (hallowed : FailureAction.Allowed (.truncate beforeSeq clock) w) :
    Inv False cr (FailureAction.run cr (.truncate beforeSeq clock) w).2 := by
  obtain ⟨hfiles, hstate⟩ := h
  obtain ⟨gs, r, hrun, -, hcount, hle, hlen, hkept, -⟩ := Wal.truncate_kept hcr hfiles.quiet
    hfiles.content hfiles.good.accepts hfiles.good.limit beforeSeq.toNat clock
  have hstart : gs = [] ∨ header.lastCheckpointSeq ≤ beforeSeq.toNat := by
    have haccepts := hfiles.good.accepts
    have hentries := hfiles.unbroken.entriesIn_eq
    cases fs with
    | nil => exact .inl (List.length_eq_zero_iff.mp (Nat.le_zero.mp hle))
    | cons f fs =>
      have hfirst := hallowed f.entry (by rw [hentries]; rfl)
      rw [haccepts.2.1.sequence] at hfirst
      exact .inr hfirst
  obtain ⟨haccepts, hchain⟩ := hkept hstart
  have hsize := hfiles.size
  have hlimit := hfiles.good.limit
  rw [OpenFile.len, hfiles.content, List.length_append, length_serializeHeader] at hsize
  have hfiles' : Files False cr (Wal.header w.sessionId clock beforeSeq.toNat) gs
      (w.replaced r (serializeHeader (Wal.header w.sessionId clock beforeSeq.toNat)
        ++ framesBytes gs)) := by
    refine ⟨rfl, rfl, rfl, rfl, ?_, ⟨valid_header _ _ _, fits_header beforeSeq.toNat_lt, haccepts,
      by omega⟩, ?_⟩
    · show (serializeHeader _ ++ framesBytes gs).length < 2 ^ 33
      rw [List.length_append, length_serializeHeader]
      omega
    · obtain ⟨xs, harchives, hgood, -⟩ := hfiles.archived
      exact ⟨xs, (hfiles.archived.freeze _).trans harchives, hgood, False.elim⟩
  rw [FailureAction.run, hrun]
  refine ⟨_, gs, hfiles', ?_⟩
  obtain ⟨hrecords, -⟩ | hwaiting := hstate
  · exact .inl (hfiles'.records hrecords.steady.open_ hrecords.steady.consistent hchain hcount rfl
      hrecords.steady.syncs hrecords.steady.interval)
  · have hnext : r.chain.nextSequence = beforeSeq.toNat + gs.length := by
      rw [hchain, Wal.readerAt_sequence]
      rfl
    refine .inr ⟨hwaiting.open_, hwaiting.marked, ?_, Nat.le_of_eq hnext, hwaiting.interval_pos,
      hwaiting.interval⟩
    show beforeSeq.toNat ≤ r.chain.nextSequence
    rw [hnext]
    exact Nat.le_add_right _ _

/-- A write that fails is one of an append that is refused. -/
theorem appendTorn (h : InvAt False cr header fs w) {a : Attempt} {written : Nat}
    (hallowed : FailureAction.Allowed (.appendTorn a written) w) :
    ∃ e, FailureAction.run cr (.appendTorn a written) w = (fail e, w) := by
  have hquiet := Wal.withFaults_quiet h.1.quiet
  have hrefused : ∀ {e : WalError}, a.run cr (w.withFaults [some written])
        = (fail e, w.withFaults [some written]) →
      ∃ e, FailureAction.run cr (.appendTorn a written) w = (fail e, w) := by
    intro e hrun
    exact ⟨e, (Wal.meeting_of_eq hrun).trans (congrArg (Prod.mk _) hquiet)⟩
  by_cases hmarked : w.inconsistent = true
  · exact hrefused (Wal.append_marked cr a (w := w.withFaults [some written]) h.open_ hmarked)
  · have hfull := hallowed.resolve_left hmarked
    exact hrefused (Wal.append_tooLarge cr a (w := w.withFaults [some written]) h.open_
      (Bool.eq_false_of_not_eq_true hmarked) hfull)

theorem flush (h : InvAt False cr header fs w) (syncFails : Bool) :
    InvAt False cr header fs (FailureAction.run cr (.flush syncFails) w).2 := by
  have hquiet := Wal.withFaults_quiet h.1.quiet
  have hopen : ¬ w.closed = true := Bool.eq_false_iff.mp h.open_
  by_cases hpending : 0 < w.pendingSyncs
  · have hstart : ∀ faults, Wal.flush (w.withFaults faults)
        = (do
            Wal.io Disk.access
            Call.modify fun w => { w with pendingSyncs := 0 } : WalCall Key Unit)
          (w.withFaults faults) := by
      intro faults
      rw [Wal.flush, Call.asks_id_bind,
        if_neg (show ¬ (w.withFaults faults).closed = true from hopen),
        if_pos (show 0 < (w.withFaults faults).pendingSyncs from hpending)]
    cases syncFails with
    | false =>
      have hflush : Wal.flush (w.withFaults [])
          = (.ok (), { w.withFaults [] with pendingSyncs := 0 }) := hstart []
      have hrun : FailureAction.run cr (.flush false) w
          = (.ok (), { w.withFaults [] with pendingSyncs := 0 }) := Wal.meeting_of_eq hflush
      rw [hrun]
      show InvAt False cr header fs { w.withFaults [] with pendingSyncs := 0 }
      rw [hquiet]
      exact h.setPending (Nat.zero_le _)
    | true =>
      have hflush : Wal.flush (w.withFaults [some 0]) = (fail (.io .other), w.withFaults []) :=
        hstart [some 0]
      have hmeeting : Wal.meeting [some 0] Wal.flush w
          = (fail (.io .other), (w.withFaults []).withFaults []) := Wal.meeting_of_eq hflush
      have hrun : FailureAction.run cr (.flush true) w = (fail (.io .other), w.withFaults []) :=
        hmeeting
      rw [hrun]
      show InvAt False cr header fs (w.withFaults [])
      rw [hquiet]
      exact h
  · have hsame : ∀ faults, Wal.flush (w.withFaults faults) = (.ok (), w.withFaults faults) := by
      intro faults
      rw [Wal.flush, Call.asks_id_bind,
        if_neg (show ¬ (w.withFaults faults).closed = true from hopen),
        if_neg (show ¬ 0 < (w.withFaults faults).pendingSyncs from hpending)]
      rfl
    have hrun : FailureAction.run cr (.flush syncFails) w = (.ok (), w) :=
      (Wal.meeting_of_eq (hsame _)).trans (congrArg (Prod.mk _) hquiet)
    rw [hrun]
    exact h

end InvAt

theorem acknowledged_cons (action : FailureAction) (actions : List FailureAction)
    (reply : Res WalError Unit) (replies : List (Res WalError Unit)) :
    acknowledged (action :: actions) (reply :: replies)
      = acknowledged [action] [reply] ++ acknowledged actions replies := by
  show List.filterMap _ ([(action, reply)] ++ actions.zip replies) = _
  exact List.filterMap_append

/-- An action in the file puts entries behind the others, those of an acknowledged append too. -/
theorem FailureAction.step_inFile (hcr : cr.Correct) (h : InvAt False cr header fs w)
    {action : FailureAction} (hallowed : action.Allowed w) (hin : action.InFile) :
    ∃ gs, InvAt False cr header (fs ++ gs) (action.run cr w).2
      ∧ ((acknowledged [action] [(action.run cr w).1]).map Attempt.recorded).Sublist
        (gs.map Frame.recorded) := by
  -- without a new entry
  have hsame : InvAt False cr header fs (action.run cr w).2 →
      acknowledged [action] [(action.run cr w).1] = [] →
      ∃ gs, InvAt False cr header (fs ++ gs) (action.run cr w).2
        ∧ ((acknowledged [action] [(action.run cr w).1]).map Attempt.recorded).Sublist
          (gs.map Frame.recorded) := by
    intro hinv hnone
    rw [hnone]
    exact ⟨[], (List.append_nil fs).symm ▸ hinv, List.Sublist.refl _⟩
  cases action with
  | log action =>
    cases action with
    | append a syncFails =>
      obtain ⟨gs, hinv, hok⟩ := h.append hcr hallowed
      refine ⟨gs, hinv, ?_⟩
      show ((acknowledged [.log (.append a syncFails)]
        [(LogAction.run cr (.append a syncFails) w).1]).map Attempt.recorded).Sublist _
      cases hreply : (LogAction.run cr (.append a syncFails) w).1 with
      | ok _ =>
        rw [hok hreply]
        exact List.Sublist.refl _
      | error e => exact List.nil_sublist _
    | tryRecover => exact hsame h.tryRecover rfl
    | rotate maxSizeBytes archiveClock headerClock sync => exact hin.elim
    | reopen syncFails syncInterval clock =>
      obtain ⟨w', hrun, hinv, -⟩ := h.reopen syncFails syncInterval clock
      refine hsame ?_ rfl
      show InvAt False cr header fs (LogAction.run cr (.reopen syncFails syncInterval clock) w).2
      rw [hrun]
      exact hinv
  | appendTorn a written =>
    obtain ⟨e, hrun⟩ := h.appendTorn hallowed
    rw [hrun] at hsame ⊢
    exact hsame h rfl
  | recover clock =>
    obtain ⟨report, hrun⟩ := h.1.recover_eq h.open_ clock
    refine hsame ?_ rfl
    rw [FailureAction.run, Call.bind_of_ok hrun]
    exact h
  | flush syncFails => exact hsame (h.flush syncFails) rfl
  | verify =>
    obtain ⟨result, hrun⟩ := h.1.verify_eq
    refine hsame ?_ rfl
    rw [FailureAction.run, Call.bind_of_ok hrun]
    exact h
  | truncate beforeSeq clock => exact hin.elim

/-- Every allowed action keeps the invariant. -/
theorem FailureAction.inv_step (hcr : cr.Correct) (action : FailureAction) (w : Wal Key)
    (h : Inv False cr w) (hallowed : action.Allowed w) : Inv False cr (action.run cr w).2 := by
  have hinFile : action.InFile → Inv False cr (action.run cr w).2 := by
    intro hin
    obtain ⟨header, fs, hinv⟩ := h
    obtain ⟨gs, hinv, -⟩ := FailureAction.step_inFile hcr hinv hallowed hin
    exact ⟨header, fs ++ gs, hinv⟩
  cases action with
  | log action =>
    cases action with
    | rotate maxSizeBytes archiveClock headerClock sync => exact h.rotate hallowed
    | append a syncFails => exact hinFile trivial
    | tryRecover => exact hinFile trivial
    | reopen syncFails syncInterval clock => exact hinFile trivial
  | appendTorn a written => exact hinFile trivial
  | recover clock => exact hinFile trivial
  | flush syncFails => exact hinFile trivial
  | verify => exact hinFile trivial
  | truncate beforeSeq clock =>
    obtain ⟨header, fs, hinv⟩ := h
    exact InvAt.truncate hcr hinv hallowed

/-! ## Runs -/

/-- A run that stays in the file adds frames for what it acknowledges. -/
theorem run_inFile (hcr : cr.Correct) : ∀ {actions : List FailureAction} {w : Wal Key}
    {fs : List Frame}, InvAt False cr header fs w →
    Machine.Along (FailureAction.run cr) FailureAction.Allowed actions w →
    (∀ action ∈ actions, action.InFile) →
    ∃ gs, InvAt False cr header (fs ++ gs) (run (FailureAction.run cr) actions w).2
      ∧ ((acknowledged actions (run (FailureAction.run cr) actions w).1).map
          Attempt.recorded).Sublist (gs.map Frame.recorded) := by
  intro actions
  induction actions with
  | nil =>
    intro w fs h _ _
    exact ⟨[], (List.append_nil fs).symm ▸ h, List.nil_sublist _⟩
  | cons action actions ih =>
    intro w fs h hallowed hin
    rw [List.forall_mem_cons] at hin
    obtain ⟨gs, hstep, hacked⟩ := FailureAction.step_inFile hcr h hallowed.1 hin.1
    obtain ⟨gs', hrun, hrest⟩ := ih hstep hallowed.2 hin.2
    refine ⟨gs ++ gs', List.append_assoc .. ▸ hrun, ?_⟩
    rw [run_cons, acknowledged_cons, List.map_append, List.map_append]
    exact hacked.append hrest

/-- In every run of allowed actions, a log that is marked refuses appends, and another one goes on
    where its file ends; its file is valid and read back whole, and the appends that returned `Ok`
    since the last rotation or truncation are in it. -/
theorem failures_contained (hcr : cr.Correct) {d : Disk} (hfresh : Wal.Fresh d)
    (harchives : d.archives = []) {sessionId : FixedBytes 32} {key : Key} {syncInterval : UInt64}
    {clock : Option Nat}
    (hopen : (Wal.openWithSyncInterval cr sessionId key syncInterval.toNat clock d).1 = .ok w)
    (before later : List FailureAction)
    (hallowed : Machine.Along (FailureAction.run cr) FailureAction.Allowed (before ++ later) w)
    (hin : ∀ action ∈ later, action.InFile) :
    let reached := (run (FailureAction.run cr) before w).2
    let run := run (FailureAction.run cr) later reached
    Contained cr run.2 ∧ ((acknowledged later run.1).map Attempt.recorded).Sublist
      ((entriesIn run.2.disk.file.content).map Entry.recorded) := by
  intro reached run
  obtain ⟨hbefore, hlater⟩ := along_append.mp hallowed
  obtain ⟨header, fs, hreached⟩ := run_invariant
    (fun action w h hP => FailureAction.inv_step hcr action w h hP) before w
    (.fresh hfresh harchives syncInterval.toNat_lt hopen) hbefore
  obtain ⟨gs, hinv, hacked⟩ := run_inFile hcr hreached hlater hin
  refine ⟨hinv.contained, ?_⟩
  have hentries : (entriesIn run.2.disk.file.content).map Entry.recorded
      = fs.map Frame.recorded ++ gs.map Frame.recorded := by
    rw [hinv.1.unbroken.entriesIn_eq, List.map_map, ← List.map_append]
    rfl
  rw [hentries]
  exact hacked.trans (List.sublist_append_right _ _)

/-- Two appends, and a truncation that keeps the second -/
def truncatedRun : List FailureAction :=
  [.log (.append ⟨.heartbeat, [1], some 5⟩ false), .log (.append ⟨.heartbeat, [2], some 6⟩ false),
    .truncate 1 (some 6)]

/-- A sync that fails between two appends, and a recovery -/
def containedRun : List FailureAction :=
  [.log (.append ⟨.heartbeat, [3], some 7⟩ true), .appendTorn ⟨.heartbeat, [4], some 7⟩ 2,
    .recover (some 7), .verify, .log .tryRecover, .flush true,
    .log (.append ⟨.checkpoint, [], some 8⟩ false)]

theorem failures_contained_synced : ∃ w, sampleLog .sample = .ok w
      ∧ Contained .sample (run (FailureAction.run .sample) containedRun
        (run (FailureAction.run .sample) truncatedRun w).2).2 := by
  have hrun : (sampleLog .sample).toOption.map
      (fun w => decide (Machine.Along (FailureAction.run .sample) FailureAction.Allowed
        (truncatedRun ++ containedRun) w)) = some true := by
    decide +kernel
  obtain ⟨w, hopen, hallowed⟩ := exists_ok_of_toOption hrun
  refine ⟨w, hopen, ?_⟩
  have hboth :=
    @failures_contained _ .sample w Crypto.sample_correct _ Wal.fresh_empty rfl _ () 1 _ hopen
    truncatedRun containedRun (of_decide_eq_true hallowed)
    (by simp [containedRun, FailureAction.InFile])
  exact hboth.1

/-- A write that fails after three bytes, and an append that returns `Ok`: `verify` does not
    report the file as valid. -/
theorem not_failures_contained : ∃ w, sampleLog .sample = .ok w
      ∧ (run (FailureAction.run .sample) [.appendTorn ⟨.heartbeat, [1], some 5⟩ 3,
          .log (.append ⟨.heartbeat, [2], some 6⟩ false)] w).1 = [fail (.io .other), .ok ()]
      ∧ ¬ Contained .sample (run (FailureAction.run .sample)
          [.appendTorn ⟨.heartbeat, [1], some 5⟩ 3,
            .log (.append ⟨.heartbeat, [2], some 6⟩ false)] w).2 := by
  have hrun : (sampleLog .sample).toOption.map
      (fun w =>
        let run := run (FailureAction.run .sample) [.appendTorn ⟨.heartbeat, [1], some 5⟩ 3,
          .log (.append ⟨.heartbeat, [2], some 6⟩ false)] w
        (run.1, (Wal.verify .sample run.2).1.toOption.isSome))
      = some ([fail (.io .other), .ok ()], false) := by
    decide +kernel
  obtain ⟨w, hopen, hboth⟩ := exists_ok_of_toOption hrun
  refine ⟨w, hopen, congrArg Prod.fst hboth, fun hcontained => ?_⟩
  obtain ⟨v, hv, -⟩ := hcontained.verified
  have hnone := congrArg Prod.snd hboth
  dsimp only at hnone
  rw [hv] at hnone
  cases hnone

end WritersProof.Wal
