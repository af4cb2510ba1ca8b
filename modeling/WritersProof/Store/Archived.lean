/-
  WritersProof.Store.Archived

  What a call of `archive_old_events` leaves on disk, wherever it stops.

  Before the transaction only the new files change, the commit moves the old events
  to the `.tmp` archive, and the rename puts it under its final name.  A call that
  stops between the two leaves these events under the `.tmp` name alone.
-/
import WritersProof.Store.Archive

namespace WritersProof.Store

open Rust Disk

variable {Extra : Type} {C : Crypto} {key : Bytes} {o : Outcomes} {cutoff : Int} {date : String}
  {d : Disk Extra}

/-! ## Steps -/

section Steps

variable {α : Type} {step : IoStep} {f : Disk Extra → Disk Extra}
  {g : Unit → Call (Disk Extra) String α}

theorem io_ok (h : o step = .ok) : io o step f d = (.ok (), f d) := by
  rw [io, h]

theorem io_ne (h : o step ≠ .ok) : ∃ e, io o step f d = (.error e, d) := by
  unfold io
  cases hs : o step with
  | ok => exact absurd hs h
  | err => exact ⟨_, rfl⟩
  | crash => exact ⟨_, rfl⟩

theorem io_bind_ok (h : o step = .ok) : (io o step f >>= g) d = g () (f d) :=
  Call.bind_of_ok (io_ok h)

/-- A step that does not succeed ends the call and leaves the disk as it was. -/
theorem io_bind_ne (h : o step ≠ .ok) : ∃ e, (io o step f >>= g) d = (.error e, d) := by
  obtain ⟨e, he⟩ := io_ne (f := f) (d := d) h
  exact ⟨e, Call.bind_of_error he⟩

theorem io_bind_eq_ok {a : α} {d' : Disk Extra} :
    (io o step f >>= g) d = (.ok a, d') ↔ o step = .ok ∧ g () (f d) = (.ok a, d') := by
  by_cases hstep : o step = .ok
  · rw [io_bind_ok hstep]
    exact ⟨fun h => ⟨hstep, h⟩, And.right⟩
  · obtain ⟨e, he⟩ := io_bind_ne (f := f) (g := g) (d := d) hstep
    rw [he]
    exact ⟨nofun, fun h => absurd h.1 hstep⟩

/-- A step whose error is dropped only ends the call when the process dies there. -/
theorem attempt_io_bind {x : Call (Disk Extra) String α} :
    (Call.attempt (io o step f) >>= fun _ => x) d =
      if o step = .crash then (abort, d) else x (if o step = .ok then f d else d) := by
  rw [Call.bind_apply, Call.attempt, io]
  cases o step with
  | ok => rfl
  | err => rfl
  | crash => rfl

end Steps

/-! ## Files -/

theorem without_append_of_notMem {files : List (String × Archive Extra)}
    (h : date ∉ files.map Prod.fst) (archive : Archive Extra) :
    without (files ++ [(date, archive)]) date = files := by
  unfold without
  rw [List.filter_append, List.filter_eq_self.mpr]
  · simp
  · intro file hfile
    refine decide_eq_true fun heq => h ?_
    exact List.mem_map.mpr ⟨file, hfile, heq⟩

@[simp] theorem writeTmp_db (archive : Archive Extra) : (d.writeTmp date archive).db = d.db := rfl

@[simp] theorem tmp?_writeTmp (archive : Archive Extra) :
    (d.writeTmp date archive).tmp? date = some archive := by
  have hnone : (without d.tmps date).find? (fun file => file.1 = date) = none := by
    rw [List.find?_eq_none]
    intro file hfile
    simpa [without] using (List.mem_filter.mp hfile).2
  unfold tmp? writeTmp
  dsimp only
  rw [List.find?_append, hnone]
  simp

@[simp] theorem tmp?_removeTmp : (d.removeTmp date).tmp? date = none := by
  unfold tmp? removeTmp
  dsimp only
  rw [Option.map_eq_none_iff, List.find?_eq_none]
  intro file hfile
  simpa [without] using (List.mem_filter.mp hfile).2

/-- A placeholder that was just created goes again, and nothing else does. -/
theorem removePlaceholder_addPlaceholder (h : date ∉ d.archives.map Prod.fst) :
    (d.addPlaceholder date).removePlaceholder date = d := by
  unfold addPlaceholder removePlaceholder
  dsimp only
  rw [without_append_of_notMem h]

/-! ## Before the transaction -/

/-- What the loss of an event shows in: the active database and the archives under
    their final names. -/
def kept (d : Disk Extra) : Database Extra × List (String × Archive Extra) := (d.db, d.archives)

theorem keeps_io {step : IoStep} {f : Disk Extra → Disk Extra} (hf : ∀ d, kept (f d) = kept d) :
    Call.Keeps kept (io o step f) := by
  intro d
  unfold io
  cases o step with
  | ok => exact hf d
  | err => rfl
  | crash => rfl

/-- All that `reserve` may leave behind when it stops is a file of no content. -/
theorem reserve_cases (o : Outcomes) (date : String) (d : Disk Extra) :
    (reserve o date d = (.ok (), d) ∧ date ∉ d.archives.map Prod.fst)
      ∨ ∃ e d', reserve o date d = (.error e, d')
        ∧ (d' = d ∨ d' = { d with archives := d.archives ++ [(date, Archive.blank)] }) := by
  unfold reserve
  rw [Call.asks_id_bind]
  by_cases hdate : date ∈ d.archives.map Prod.fst
  · rw [Call.reject_bind_pos hdate]
    exact .inr ⟨_, _, rfl, .inl rfl⟩
  rw [Call.reject_bind_neg hdate]
  by_cases hcreate : o .createFinal = .ok
  · rw [io_bind_ok hcreate]
    by_cases hremove : o .removePlaceholder = .ok
    · rw [io_ok hremove, removePlaceholder_addPlaceholder hdate]
      exact .inl ⟨rfl, hdate⟩
    · obtain ⟨e, he⟩ := io_ne hremove
      exact .inr ⟨e, _, he, .inr rfl⟩
  · obtain ⟨e, he⟩ := io_bind_ne hcreate
    exact .inr ⟨e, _, he, .inl rfl⟩

theorem keeps_prepare : Call.Keeps kept (@prepare Extra o cutoff date) := by
  unfold prepare
  apply Call.Keeps.bind (Call.Keeps.attempt (keeps_io (f := removeTmp date) fun _ => rfl))
  intro _
  apply Call.Keeps.bind (Call.keeps_asks id)
  intro d
  apply Call.Keeps.bind (keeps_io (f := id) fun _ => rfl)
  intro _
  apply Call.Keeps.bind (Call.keeps_lift _)
  intro link
  apply Call.Keeps.bind (keeps_io (f := id) fun _ => rfl)
  intro _
  apply Call.Keeps.bind (Call.keeps_lift _)
  intro _
  apply Call.Keeps.bind (keeps_io (f := fun d => d.writeTmp date ((d.tmp? date).getD Archive.blank))
    fun _ => rfl)
  intro _
  apply Call.Keeps.bind (keeps_io (f := id) fun _ => rfl)
  intro _
  exact Call.keeps_pure link

/-- The disk after the leftover of an earlier call was to be removed. -/
def afterRemoval (o : Outcomes) (date : String) (d : Disk Extra) : Disk Extra :=
  if o .removeLeftover = .ok then d.removeTmp date else d

/-- The archive that the `.tmp` name then stands for. -/
def leftover (o : Outcomes) (date : String) (d : Disk Extra) : Archive Extra :=
  ((afterRemoval o date d).tmp? date).getD Archive.blank

theorem kept_afterRemoval : kept (afterRemoval o date d) = kept d := by
  unfold afterRemoval
  split <;> rfl

theorem leftover_of_ok (h : o .removeLeftover = .ok) : leftover o date d = Archive.blank := by
  rw [leftover, afterRemoval, if_pos h, tmp?_removeTmp, Option.getD_none]

variable {link : Digest} {archive : Archive Extra} {d' : Disk Extra} {db : Database Extra}
  {result : ArchiveResult}

theorem prepare_eq_ok :
    prepare o cutoff date d = (.ok link, d') ↔
      o .removeLeftover ≠ .crash
        ∧ (∀ step ∈ [IoStep.chainLink, .firstRemaining, .createSchema, .attach], o step = .ok)
        ∧ chainLink cutoff d.db = .ok link ∧ checkContinuity cutoff link d.db = .ok ()
        ∧ d' = (afterRemoval o date d).writeTmp date (leftover o date d) := by
  have hdb : (afterRemoval o date d).db = d.db := congrArg Prod.fst kept_afterRemoval
  unfold prepare
  rw [attempt_io_bind]
  by_cases hcrash : o .removeLeftover = .crash
  · rw [if_pos hcrash]
    exact ⟨nofun, fun h => absurd hcrash h.1⟩
  rw [if_neg hcrash, ← afterRemoval, Call.asks_id_bind, io_bind_eq_ok, Call.lift_bind_eq_ok]
  simp only [io_bind_eq_ok, Call.lift_bind_eq_ok, Call.pure_apply, id, hdb, List.forall_mem_cons,
    Prod.mk.injEq, Except.ok.injEq]
  constructor
  · rintro ⟨hlink, link', hok, hfirst, ⟨⟩, hcontinuity, hschema, hattach, rfl, rfl⟩
    exact ⟨hcrash, ⟨hlink, hfirst, hschema, hattach, nofun⟩, hok, hcontinuity, rfl⟩
  · rintro ⟨-, ⟨hlink, hfirst, hschema, hattach, -⟩, hok, hcontinuity, rfl⟩
    exact ⟨hlink, link, hok, hfirst, (), hcontinuity, hschema, hattach, rfl, rfl⟩

/-! ## The transaction -/

/-- A transaction that commits: the archive holds the old events, the database all
    others. -/
theorem moveOld_eq_ok :
    moveOld C key o cutoff date link d = (.ok archive, d') ↔
      o .transaction = .ok ∧ o .commit = .ok ∧ ∃ db,
        fillArchive C key link ((d.tmp? date).getD Archive.blank)
          (d.db.events.records.filter (Record.old cutoff)) = .ok archive
        ∧ deleteOld C key cutoff d.db = .ok db ∧ d' = { d.writeTmp date archive with db } := by
  unfold moveOld
  rw [io_bind_eq_ok, Call.asks_id_bind, Call.lift_bind_eq_ok]
  simp only [io_bind_eq_ok, Call.lift_bind_eq_ok, Call.pure_apply, id, Prod.mk.injEq,
    Except.ok.injEq]
  constructor
  · rintro ⟨htransaction, _, hfill, db, hdelete, hcommit, rfl, rfl⟩
    exact ⟨htransaction, hcommit, db, hfill, hdelete, rfl⟩
  · rintro ⟨htransaction, hcommit, db, hfill, hdelete, rfl⟩
    exact ⟨htransaction, archive, hfill, db, hdelete, hcommit, rfl, rfl⟩

/-- The move fails as a whole, or it commits. -/
theorem moveOld_cases (C : Crypto) (key : Bytes) (o : Outcomes) (cutoff : Int) (date : String)
    (link : Digest) (d : Disk Extra) :
    (∃ e, moveOld C key o cutoff date link d = (.error e, d))
      ∨ ∃ archive d', moveOld C key o cutoff date link d = (.ok archive, d') := by
  unfold moveOld
  by_cases htransaction : o .transaction = .ok
  · rw [io_bind_ok htransaction, id, Call.asks_id_bind]
    cases fillArchive C key link ((d.tmp? date).getD Archive.blank)
        (d.db.events.records.filter (Record.old cutoff)) with
    | error e => exact .inl ⟨e, rfl⟩
    | ok archive =>
      rw [Call.lift_ok_bind]
      cases deleteOld C key cutoff d.db with
      | error e => exact .inl ⟨e, rfl⟩
      | ok db =>
        rw [Call.lift_ok_bind]
        by_cases hcommit : o .commit = .ok
        · rw [io_bind_ok hcommit]
          exact .inr ⟨archive, _, rfl⟩
        · obtain ⟨e, he⟩ := io_bind_ne hcommit
          exact .inl ⟨e, he⟩
  · obtain ⟨e, he⟩ := io_bind_ne htransaction
    exact .inl ⟨e, he⟩

theorem fillArchive_records {tmp archive : Archive Extra} {archived : List (Record Extra)}
    (h : fillArchive C key link tmp archived = .ok archive) :
    archive.records = tmp.records ++ archived := by
  obtain ⟨-, h⟩ := reject_bind_eq_ok.mp h
  obtain ⟨-, h⟩ := reject_bind_eq_ok.mp h
  rw [← Except.ok.inj h]

theorem deleteOld_records {db' : Database Extra} (h : deleteOld C key cutoff db = .ok db') :
    db'.events.records = db.events.records.filter fun r => !r.old cutoff := by
  obtain ⟨_, _, h⟩ := res_bind_eq_ok.mp h
  obtain ⟨_, _, h⟩ := res_bind_eq_ok.mp h
  rw [← Except.ok.inj h]
  exact Table.records_filter _ _

/-! ## After the transaction -/

/-- The steps between the commit and the rename all succeed. -/
def Promotes (o : Outcomes) : Prop := o .detach ≠ .crash ∧ o .finalize = .ok ∧ o .rename = .ok

instance : Decidable (Promotes o) := inferInstanceAs (Decidable (_ ∧ _ ∧ _))

/-- Once the rename is done the archive is under its final name. -/
theorem promote_kept (hfinalize : o .finalize = .ok) (hrename : o .rename = .ok) :
    kept (promote o date archive d).2 = (d.db, d.archives ++ [(date, archive)]) := by
  have hrest : Call.Keeps kept (io o .vacuum id >>= fun _ => io o .setPermissions id >>= fun _ =>
      io o .activeSize id : Call (Disk Extra) String Unit) := by
    apply Call.Keeps.bind (keeps_io fun _ => rfl)
    intro _
    apply Call.Keeps.bind (keeps_io fun _ => rfl)
    intro _
    exact keeps_io fun _ => rfl
  unfold promote
  rw [io_bind_ok hfinalize, io_bind_ok hrename]
  exact hrest ((id d).rename date archive)

/-- A call that stops before the rename leaves the archive under its `.tmp` name. -/
theorem promote_stopped (h : ¬(o .finalize = .ok ∧ o .rename = .ok)) :
    (promote o date archive d).2 = d := by
  unfold promote
  by_cases hfinalize : o .finalize = .ok
  · rw [io_bind_ok hfinalize]
    obtain ⟨e, he⟩ := io_bind_ne (f := rename date archive) (d := id d)
      fun hrename => h ⟨hfinalize, hrename⟩
    rw [he]
    rfl
  · obtain ⟨e, he⟩ := io_bind_ne hfinalize
    rw [he]

theorem settle_ok_snd :
    (settle o date result (.ok archive) d).2 = (promote o date archive d).2 := by
  rw [settle, Call.bind_apply]
  rcases promote o date archive d with ⟨_ | _, d'⟩ <;> rfl

theorem settle_error {e : String} :
    ∃ e' d', settle o date result (.error e) d = (.error e', d') ∧ kept d' = kept d := by
  rw [settle, attempt_io_bind]
  split
  · exact ⟨_, d, rfl, rfl⟩
  · refine ⟨_, _, rfl, ?_⟩
    split <;> rfl

/-! ## The call -/

def stepsToCommit : List IoStep :=
  [.diskSpace, .countEvents, .createFinal, .removePlaceholder, .chainLink, .firstRemaining,
    .createSchema, .attach, .transaction, .commit]

/-- The transaction of a call commits, with this archive and this database. -/
structure Commits (C : Crypto) (key : Bytes) (o : Outcomes) (ageDays : Option Nat) (cutoff : Int)
    (date : String) (d : Disk Extra) (link : Digest) (archive : Archive Extra)
    (db : Database Extra) : Prop where
  age : ageDays ≠ some 0
  steps : ∀ step ∈ stepsToCommit, o step = .ok
  removal : o .removeLeftover ≠ .crash
  date_notMem : date ∉ d.archives.map Prod.fst
  link_eq : chainLink cutoff d.db = .ok link
  continuity : checkContinuity cutoff link d.db = .ok ()
  filled : fillArchive C key link (leftover o date d)
    (d.db.events.records.filter (Record.old cutoff)) = .ok archive
  deleted : deleteOld C key cutoff d.db = .ok db

theorem old_ne_nil_of_chainLink (h : chainLink cutoff db = .ok link) :
    db.events.records.filter (Record.old cutoff) ≠ [] := by
  intro hnil
  obtain ⟨last, hlast, -⟩ := res_bind_eq_ok.mp h
  rw [okOr_eq_ok, hnil] at hlast
  cases hlast

/-- A file that was reserved is gone again, unless the call stops there. -/
theorem reserve_eq_ok :
    reserve o date d = (.ok (), d') ↔ o .createFinal = .ok ∧ o .removePlaceholder = .ok
      ∧ date ∉ d.archives.map Prod.fst ∧ d' = d := by
  unfold reserve
  rw [Call.asks_id_bind, Call.reject_bind_eq_ok, io_bind_eq_ok]
  constructor
  · rintro ⟨hdate, hcreate, h⟩
    by_cases hremove : o .removePlaceholder = .ok
    · rw [io_ok hremove, removePlaceholder_addPlaceholder hdate] at h
      exact ⟨hcreate, hremove, hdate, (congrArg Prod.snd h).symm⟩
    · obtain ⟨e, he⟩ :=
        io_ne (f := removePlaceholder date) (d := d.addPlaceholder date) hremove
      rw [he] at h
      cases h
  · rintro ⟨hcreate, hremove, hdate, rfl⟩
    refine ⟨hdate, hcreate, ?_⟩
    rw [io_ok hremove, removePlaceholder_addPlaceholder hdate]

section Call

variable {ageDays : Option Nat}

def committed (o : Outcomes) (date : String) (d : Disk Extra) (archive : Archive Extra)
    (db : Database Extra) : Disk Extra :=
  { ((afterRemoval o date d).writeTmp date (leftover o date d)).writeTmp date archive with db }

theorem kept_committed : kept (committed o date d archive db) = (db, d.archives) :=
  congrArg (Prod.mk db) (congrArg Prod.snd kept_afterRemoval)

section

variable (h : Commits C key o ageDays cutoff date d link archive db)

include h

theorem Commits.prepare_eq :
    prepare o cutoff date d
      = (.ok link, (afterRemoval o date d).writeTmp date (leftover o date d)) := by
  refine prepare_eq_ok.mpr ⟨h.removal, fun step hstep => h.steps step ?_, h.link_eq, h.continuity,
    rfl⟩
  revert step
  decide

theorem Commits.moveOld_eq :
    moveOld C key o cutoff date link ((afterRemoval o date d).writeTmp date (leftover o date d))
      = (.ok archive, committed o date d archive db) := by
  have hdb : (afterRemoval o date d).db = d.db := congrArg Prod.fst kept_afterRemoval
  refine moveOld_eq_ok.mpr ⟨h.steps _ (by decide), h.steps _ (by decide), db, ?_, ?_, rfl⟩
  · rw [tmp?_writeTmp, Option.getD_some, writeTmp_db, hdb]
    exact h.filled
  · rw [writeTmp_db, hdb]
    exact h.deleted

theorem archiveOldEvents_of_commits :
    kept (archiveOldEvents C key o ageDays cutoff date d).2
      = (db, if Promotes o then d.archives ++ [(date, archive)] else d.archives) := by
  have hstep : ∀ step, step ∈ stepsToCommit → o step = .ok := h.steps
  have hold : (d.db.events.records.filter (Record.old cutoff)).length ≠ 0 := fun hnil =>
    old_ne_nil_of_chainLink h.link_eq (List.length_eq_zero_iff.mp hnil)
  have hreserve : reserve o date d = (.ok (), d) :=
    reserve_eq_ok.mpr ⟨hstep _ (by decide), hstep _ (by decide), h.date_notMem, rfl⟩
  unfold archiveOldEvents
  rw [Call.reject_bind_neg h.age, io_bind_ok (hstep _ (by decide)),
    io_bind_ok (hstep _ (by decide)), Call.asks_id_bind]
  dsimp only [id]
  rw [if_neg hold, Call.bind_of_ok hreserve, Call.bind_of_ok h.prepare_eq,
    Call.bind_of_ok (Call.attempt_of_ok h.moveOld_eq), attempt_io_bind]
  have hkept := @kept_committed Extra o date d archive db
  by_cases hdetach : o .detach = .crash
  · rw [if_pos hdetach, if_neg fun hp : Promotes o => hp.1 hdetach]
    exact hkept
  rw [if_neg hdetach, settle_ok_snd]
  simp only [id, ite_self]
  by_cases hrest : o .finalize = .ok ∧ o .rename = .ok
  · have hpromotes : Promotes o := ⟨hdetach, hrest⟩
    rw [promote_kept hrest.1 hrest.2, if_pos hpromotes]
    exact congrArg (fun k => (k.1, k.2 ++ [(date, archive)])) hkept
  · rw [promote_stopped hrest, if_neg fun hp : Promotes o => hrest hp.2]
    exact hkept

end

/-- A call returns without having done anything, fails before the commit, or commits. -/
theorem archiveOldEvents_cases (C : Crypto) (key : Bytes) (o : Outcomes) (ageDays : Option Nat)
    (cutoff : Int) (date : String) (d : Disk Extra) :
    (d.db.events.records.filter (Record.old cutoff) = []
        ∧ archiveOldEvents C key o ageDays cutoff date d = (.ok none, d))
      ∨ (∃ e d', archiveOldEvents C key o ageDays cutoff date d = (.error e, d')
        ∧ (kept d' = kept d ∨ kept d' = (d.db, d.archives ++ [(date, Archive.blank)])))
      ∨ ∃ link archive db, Commits C key o ageDays cutoff date d link archive db := by
  unfold archiveOldEvents
  -- up to the count nothing is written
  by_cases hage : ageDays = some 0
  · rw [Call.reject_bind_pos hage]
    exact .inr (.inl ⟨_, d, rfl, .inl rfl⟩)
  rw [Call.reject_bind_neg hage]
  by_cases hspace : o .diskSpace = .ok
  swap
  · obtain ⟨e, he⟩ := io_bind_ne hspace
    exact .inr (.inl ⟨e, d, he, .inl rfl⟩)
  rw [io_bind_ok hspace]
  by_cases hcount : o .countEvents = .ok
  swap
  · obtain ⟨e, he⟩ := io_bind_ne hcount
    exact .inr (.inl ⟨e, _, he, .inl rfl⟩)
  rw [io_bind_ok hcount, Call.asks_id_bind]
  dsimp only [id]
  split
  next hempty => exact .inl ⟨List.length_eq_zero_iff.mp hempty, rfl⟩
  next hold =>
  right
  -- the reservation leaves an empty archive at the most
  rcases reserve_cases o date d with ⟨hreserve, -⟩ | ⟨e, d', hreserve, hkept⟩
  swap
  · refine .inl ⟨e, d', Call.bind_of_error hreserve, hkept.imp ?_ ?_⟩
    · rintro rfl
      rfl
    · rintro rfl
      rfl
  rw [Call.bind_of_ok hreserve]
  rcases hprepare : prepare o cutoff date d with ⟨e | link, d'⟩
  · refine .inl ⟨e, d', Call.bind_of_error hprepare, .inl ?_⟩
    have hkept := @keeps_prepare Extra o cutoff date d
    rwa [hprepare] at hkept
  rw [Call.bind_of_ok hprepare]
  obtain ⟨hremoval, hsteps, hlink, hcontinuity, rfl⟩ := prepare_eq_ok.mp hprepare
  have hafter := @kept_afterRemoval Extra o date d
  rcases moveOld_cases C key o cutoff date link
    ((afterRemoval o date d).writeTmp date (leftover o date d))
      with ⟨e, hmove⟩ | ⟨archive, d', hmove⟩
  · left
    cases e with
    | err e =>
      rw [Call.bind_of_ok (Call.attempt_of_fail hmove), attempt_io_bind]
      split
      · exact ⟨_, _, rfl, .inl hafter⟩
      · simp only [id, ite_self]
        apply settle_error.imp
        intro e'
        apply Exists.imp
        rintro d' ⟨hsettle, hkept⟩
        exact ⟨hsettle, .inl (hkept.trans hafter)⟩
    | panic =>
      rw [Call.bind_of_error (Call.attempt_of_abort hmove)]
      exact ⟨_, _, rfl, .inl hafter⟩
  · right
    obtain ⟨htransaction, hcommit, db, hfill, hdelete, rfl⟩ := moveOld_eq_ok.mp hmove
    obtain ⟨hcreate, hremove, hdate, -⟩ := reserve_eq_ok.mp hreserve
    have hdb : (afterRemoval o date d).db = d.db := congrArg Prod.fst hafter
    rw [tmp?_writeTmp, Option.getD_some, writeTmp_db, hdb] at hfill
    rw [writeTmp_db, hdb] at hdelete
    refine ⟨link, archive, db, hage, ?_, hremoval, hdate, hlink, hcontinuity, hfill, hdelete⟩
    simp only [List.forall_mem_cons] at hsteps
    obtain ⟨hchain, hfirst, hschema, hattach, -⟩ := hsteps
    simp only [stepsToCommit, List.forall_mem_cons]
    exact ⟨hspace, hcount, hcreate, hremove, hchain, hfirst, hschema, hattach, htransaction,
      hcommit, nofun⟩

theorem archiveOldEvents_clear {r : Option ArchiveResult} {d' : Disk Extra}
    (h : archiveOldEvents C key Outcomes.clear ageDays cutoff date d = (.ok r, d')) :
    (d.db.events.records.filter (Record.old cutoff) = [] ∧ d' = d)
      ∨ ∃ link archive db, d.db.events.records.filter (Record.old cutoff) ≠ []
        ∧ chainLink cutoff d.db = .ok link ∧ checkContinuity cutoff link d.db = .ok ()
        ∧ archive.records = d.db.events.records.filter (Record.old cutoff)
        ∧ deleteOld C key cutoff d.db = .ok db
        ∧ kept d' = (db, d.archives ++ [(date, archive)]) := by
  rcases archiveOldEvents_cases C key Outcomes.clear ageDays cutoff date d with
    ⟨hempty, hcall⟩ | ⟨e, d₁, hcall, -⟩ | ⟨link, archive, db, hcommits⟩
  · exact .inl ⟨hempty, congrArg Prod.snd (h.symm.trans hcall)⟩
  · rw [hcall] at h
    cases h
  · have hkept := archiveOldEvents_of_commits hcommits
    have hpromotes : Promotes Outcomes.clear := ⟨by decide, rfl, rfl⟩
    rw [h, if_pos hpromotes] at hkept
    refine .inr ⟨link, archive, db, old_ne_nil_of_chainLink hcommits.link_eq, hcommits.link_eq,
      hcommits.continuity, ?_, hcommits.deleted, hkept⟩
    rw [fillArchive_records hcommits.filled, leftover_of_ok rfl]
    rfl

end Call

end WritersProof.Store
