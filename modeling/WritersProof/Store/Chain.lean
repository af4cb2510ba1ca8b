/-
  WritersProof.Store.Chain

  One database over adding events, archiving and reopening.

  The archives in the order they were made, followed by the active rows, are the
  events ever added, and each links to the one before it.  What an open needs is more:
  it counts the ids above the last verified one, and takes an id of 0 to say that no
  event was ever verified.  Archiving every event sets it to 0 as well, so until an
  archive leaves some event behind the database must not be reopened.
-/
import WritersProof.Store.Archived
import WritersProof.Store.Verification

namespace WritersProof.Store

open Rust HashChain Record FixedBytes Table

variable {Extra : Type} {C : Crypto} {key : Bytes}

/-! ## Runs -/

/-- A process with its store open, and the events added so far. -/
structure Session (Extra : Type) where
  disk : Disk Extra
  lastHash : Digest
  added : List (EventData × Extra)

inductive Action (Extra : Type) where
  | add (e : SecureEvent Extra)
  | archive (ageDays : Option Nat) (cutoff : Int) (date : String)
  | reopen

section Defs

variable (C : Crypto) (key : Bytes)

/-- The store after the first open of a new database. -/
def Session.start : Session Extra :=
  { disk := { db := { Database.fresh with integrity := some (initialIntegrity C key) },
              archives := [], tmps := [] }
    lastHash := zeroHash, added := [] }

/-- One call that returns, without I/O failures. -/
def Session.step (s : Session Extra) : Action Extra → Res String (Session Extra)
  | .add e => do
    let store ← addSecureEvent C key { db := s.disk.db, lastHash := s.lastHash } e
    .ok { disk := { s.disk with db := store.db }, lastHash := store.lastHash
          added := s.added ++ [(e.data s.lastHash, e.extra)] }
  | .archive ageDays cutoff date =>
    match archiveOldEvents C key Outcomes.clear ageDays cutoff date s.disk with
    | (.ok _, disk) => .ok { s with disk }
    | (.error e, _) => .error e
  | .reopen => do
    let store ← openStore C key s.disk.db
    .ok { s with disk := { s.disk with db := store.db }, lastHash := store.lastHash }

variable (s : Session Extra)

/-- Calls made one after the other. -/
def Session.steps (actions : List (Action Extra)) : Res String (Session Extra) :=
  actions.foldlM (fun s action => s.step C key action) s

/-- The columns of the events ever added. -/
def Session.records : List (Record Extra) :=
  s.added.map fun event => event.1.record C key event.2

def Session.archived : List (Record Extra) :=
  s.disk.archives.flatMap fun file => file.2.records

/-- A last verified sequence of 0 means that nothing was ever archived. -/
def Session.Reopenable : Prop :=
  ∀ integrity ∈ s.disk.db.integrity, integrity.lastVerifiedSequence = 0 → s.disk.archives = []

/-- The states of a database that was only reopened where it was `Reopenable`. -/
inductive Run : Session Extra → Prop
  | start : Run (Session.start C key)
  | step {s s' : Session Extra} (action : Action Extra) :
      Run s → (action = .reopen → s.Reopenable) → s.step C key action = .ok s' → Run s'

/-- SHA-256 shows no collision on these events, and no hash is the zero sentinel. -/
structure NoCollision (datas : List EventData) : Prop where
  bytes_eq : ∀ d ∈ datas, ∀ e ∈ datas, computeEventHash C d = computeEventHash C e →
    d.bytes = e.bytes
  ne_zero : ∀ d ∈ datas, computeEventHash C d ≠ zeroHash

/-- The chain of the events ever added. -/
structure Survives (s : Session Extra) : Prop where
  complete : s.archived ++ s.disk.db.events.records = s.records C key
  linked : Linked previousHash eventHash zeroHash.val (s.records C key)
  nextLink : s.lastHash.val = tip eventHash zeroHash.val (s.records C key)
  reopens : s.Reopenable ↔
    ∃ store, openStore C key s.disk.db = .ok store ∧ store.lastHash = s.lastHash

end Defs

/-! ## Tables -/

namespace Table

theorem filter_le_append_filter_lt {rows : List (Row Extra)}
    (h : rows.Pairwise fun a b => a.id < b.id) (l : Int) :
    rows.filter (fun row => row.id ≤ l) ++ rows.filter (fun row => l < row.id) = rows := by
  induction rows with
  | nil => rfl
  | cons row rows ih =>
    obtain ⟨hrow, hrows⟩ := List.pairwise_cons.mp h
    by_cases hle : row.id ≤ l
    · rw [List.filter_cons_of_pos (by simpa using hle),
        List.filter_cons_of_neg (by simpa using hle), List.cons_append, ih hrows]
    · have hlt : l < row.id := Int.lt_of_not_ge hle
      have hnil : rows.filter (fun row => row.id ≤ l) = [] := by
        rw [List.filter_eq_nil_iff]
        intro x hx
        have := hrow x hx
        simp only [decide_eq_true_eq]
        omega
      have hall : rows.filter (fun row => l < row.id) = rows := by
        rw [List.filter_eq_self]
        intro x hx
        have := hrow x hx
        simp only [decide_eq_true_eq]
        omega
      rw [List.filter_cons_of_neg (by simpa using hlt),
        List.filter_cons_of_pos (by simpa using hlt), hnil, hall, List.nil_append]

theorem maxId_of_getLast? {t : Table Extra} {row : Row Extra} (h : t.rows.getLast? = some row) :
    t.maxId = row.id := by
  rw [maxId, h, Option.map_some, Option.getD_some]

@[simp] theorem maxId_insert (t : Table Extra) (sequence : Int) (record : Record Extra) :
    (t.insert sequence record).maxId = max sequence t.maxId + 1 := by
  have hlast : (t.insert sequence record).rows.getLast?
      = some ⟨max sequence t.maxId + 1, record⟩ := by
    rw [rows_insert, List.getLast?_concat]
  exact maxId_of_getLast? hlast

end Table

/-! ## What every call keeps -/

/-- The part of the invariant that does not depend on whether the database can be
    reopened. -/
structure Inv (C : Crypto) (key : Bytes) (s : Session Extra) : Prop where
  complete : s.archived ++ s.disk.db.events.records = s.records C key
  linked : LinkedFrom C zeroHash (s.added.map Prod.fst)
  nextLink : s.lastHash = tip (computeEventHash C) zeroHash (s.added.map Prod.fst)
  archived_ne : s.disk.archives ≠ [] → s.archived ≠ []
  id_pos : ∀ row ∈ s.disk.db.events.rows, 0 < row.id
  sequence_nonneg : 0 ≤ s.disk.db.sequence
  sequence_le : s.disk.db.sequence ≤ i64Max
  maxId_eq : s.disk.db.events.rows ≠ [] → s.disk.db.events.maxId = s.disk.db.sequence

/-- The integrity record is authentic, and where the database can be reopened it
    counts the ids that were ever used. -/
structure Recorded (C : Crypto) (key : Bytes) (s : Session Extra) (integrity : Integrity) :
    Prop where
  eq : s.disk.db.integrity = some integrity
  authentic : ∃ chainHash : Digest, integrity.chainHash = chainHash.val ∧
    integrity.hmac = (computeIntegrityHmac C key chainHash integrity.eventCount
      integrity.lastVerifiedSequence).val
  nonneg : 0 ≤ integrity.lastVerifiedSequence
  count : s.Reopenable → integrity.eventCount = s.disk.db.sequence
  fresh : s.Reopenable → integrity.lastVerifiedSequence
    + (newRows s.disk.db integrity.lastVerifiedSequence).length = s.disk.db.sequence
  verified : s.Reopenable → 0 < integrity.lastVerifiedSequence →
    ∃ row ∈ s.disk.db.events.rows, row.id = integrity.lastVerifiedSequence

variable {s : Session Extra} {integrity : Integrity} {e : SecureEvent Extra} {cutoff : Int}

theorem reopenable_iff (h : s.disk.db.integrity = some integrity) :
    s.Reopenable ↔ (integrity.lastVerifiedSequence = 0 → s.disk.archives = []) := by
  unfold Session.Reopenable
  rw [h]
  constructor
  · exact fun hall => hall integrity rfl
  · rintro hone _ ⟨⟩
    exact hone

/-! ## Adding -/

def Session.afterAdd (C : Crypto) (key : Bytes) (s : Session Extra) (e : SecureEvent Extra)
    (integrity : Integrity) : Session Extra :=
  let data := e.data s.lastHash
  let eventHash := computeEventHash C data
  { disk := { s.disk with
      db := {
        events := s.disk.db.events.insert s.disk.db.sequence (data.record C key e.extra)
        sequence := max s.disk.db.sequence s.disk.db.events.maxId + 1
        integrity := some {
          chainHash := eventHash.val
          eventCount := integrity.eventCount + 1
          lastVerifiedSequence := integrity.lastVerifiedSequence
          hmac := (computeIntegrityHmac C key eventHash (integrity.eventCount + 1)
            integrity.lastVerifiedSequence).val } } }
    lastHash := eventHash
    added := s.added ++ [(data, e.extra)] }

variable {s' : Session Extra} {db : Database Extra} {l : Int} {added : List (EventData × Extra)}
  {rows : List (Row Extra)} {date : String} {action : Action Extra} {datas : List EventData}

theorem step_add (h : s.step C key (.add e) = .ok s') :
    ∃ integrity, s.disk.db.integrity = some integrity
      ∧ max s.disk.db.sequence s.disk.db.events.maxId < i64Max
      ∧ s' = s.afterAdd C key e integrity := by
  obtain ⟨store, hadd, h⟩ := res_bind_eq_ok.mp h
  obtain ⟨db, hinsert, hadd⟩ := res_bind_eq_ok.mp hadd
  obtain ⟨hfull, hinsert⟩ := reject_bind_eq_ok.mp hinsert
  obtain ⟨-, hinsert⟩ := reject_bind_eq_ok.mp hinsert
  obtain rfl := Except.ok.inj hinsert
  obtain ⟨integrity, hintegrity, hadd⟩ := res_bind_eq_ok.mp hadd
  obtain ⟨count, hcount, hadd⟩ := res_bind_eq_ok.mp hadd
  rw [okOr_eq_ok] at hintegrity hcount
  obtain ⟨-, rfl⟩ := checkedAddI64_eq_some.mp hcount
  obtain rfl := Except.ok.inj hadd
  exact ⟨integrity, hintegrity, Int.lt_of_not_ge hfull, (Except.ok.inj h).symm⟩

theorem newRows_insert {record : Record Extra} {integrity : Option Integrity} {sequence : Int}
    (h : l < max db.sequence db.events.maxId + 1) :
    newRows { events := db.events.insert db.sequence record, sequence, integrity } l
      = newRows db l ++ [⟨max db.sequence db.events.maxId + 1, record⟩] := by
  unfold newRows
  rw [rows_insert, List.filter_append, List.filter_singleton, decide_eq_true h]
  rfl

theorem newRows_maxId (db : Database Extra) : newRows db db.events.maxId = [] := by
  rw [newRows, List.filter_eq_nil_iff]
  intro row hrow
  have := db.events.id_le_maxId hrow
  simp only [decide_eq_true_eq]
  omega

theorem Inv.max_eq (h : Inv C key s) :
    max s.disk.db.sequence s.disk.db.events.maxId = s.disk.db.sequence := by
  by_cases hrows : s.disk.db.events.rows = []
  · have hzero : s.disk.db.events.maxId = 0 := by
      rw [maxId, hrows]
      rfl
    rw [hzero]
    have := h.sequence_nonneg
    omega
  · rw [h.maxId_eq hrows]
    omega

theorem Inv.maxId_nonneg (h : Inv C key s) : 0 ≤ s.disk.db.events.maxId := by
  by_cases hrows : s.disk.db.events.rows = []
  · rw [maxId, hrows]
    exact Int.le_refl 0
  · rw [h.maxId_eq hrows]
    exact h.sequence_nonneg

theorem inv_add (h : Inv C key s) (hfull : max s.disk.db.sequence s.disk.db.events.maxId < i64Max) :
    Inv C key (s.afterAdd C key e integrity) := by
  have hmax := h.max_eq
  have hnonneg := h.sequence_nonneg
  rw [hmax] at hfull
  unfold Session.afterAdd
  refine ⟨?_, ?_, ?_, h.archived_ne, ?_, ?_, ?_, ?_⟩
  · have hcomplete := h.complete
    unfold Session.archived Session.records at *
    dsimp only
    rw [records_insert, ← List.append_assoc, hcomplete, List.map_append]
    rfl
  · dsimp only
    rw [List.map_append, List.map_singleton]
    exact linked_concat.mpr ⟨h.linked, h.nextLink⟩
  · dsimp only
    rw [List.map_append, List.map_singleton, tip_concat]
  · intro row hrow
    rcases List.mem_append.mp hrow with hrow | hrow
    · exact h.id_pos row hrow
    · rw [List.mem_singleton.mp hrow]
      dsimp only
      rw [hmax]
      omega
  · dsimp only
    rw [hmax]
    omega
  · dsimp only
    rw [hmax]
    omega
  · intro _
    exact maxId_insert _ _ _

theorem recorded_add (h : Inv C key s) (hr : Recorded C key s integrity) :
    ∃ integrity', Recorded C key (s.afterAdd C key e integrity) integrity' := by
  have hmax := h.max_eq
  -- neither the last verified sequence nor the archives change
  have hopen : (s.afterAdd C key e integrity).Reopenable → s.Reopenable := by
    intro ho
    rw [reopenable_iff rfl] at ho
    exact (reopenable_iff hr.eq).mpr ho
  refine ⟨_, rfl, ⟨_, rfl, rfl⟩, hr.nonneg, fun ho => ?_, fun ho => ?_, fun ho hpos => ?_⟩
  · have hcount := hr.count (hopen ho)
    unfold Session.afterAdd
    dsimp only
    rw [hmax, hcount]
  · have hfresh := hr.fresh (hopen ho)
    unfold Session.afterAdd
    dsimp only
    rw [newRows_insert (by omega), List.length_append, List.length_singleton, hmax]
    omega
  · obtain ⟨row, hrow, hid⟩ := hr.verified (hopen ho) hpos
    exact ⟨row, List.mem_append_left _ hrow, hid⟩

/-! ## Archiving -/

/-- The events that the archives and the table hold do not collide. -/
theorem collisionFree_records (h : NoCollision C (added.map Prod.fst)) :
    CollisionFree previousHash eventHash zeroHash.val
      (added.map fun event => event.1.record C key event.2) := by
  refine ⟨?_, ?_⟩
  · intro x hx y hy heq
    obtain ⟨d, hd, rfl⟩ := List.mem_map.mp hx
    obtain ⟨e, he, rfl⟩ := List.mem_map.mp hy
    have hbytes := h.bytes_eq _ (List.mem_map_of_mem hd) _ (List.mem_map_of_mem he)
      (ext_val heq)
    exact congrArg val (previousHash_of_bytes hbytes)
  · intro x hx heq
    obtain ⟨d, hd, rfl⟩ := List.mem_map.mp hx
    exact h.ne_zero _ (List.mem_map_of_mem hd) (ext_val heq)

theorem linked_records :
    Linked previousHash eventHash zeroHash.val
        (added.map fun event => event.1.record C key event.2)
      ↔ LinkedFrom C zeroHash (added.map Prod.fst) := by
  have hinj : ∀ a b : Digest, a.val = b.val → a = b := fun _ _ => ext_val
  have hrecord := @linked_map (EventData × Extra) Digest (fun event => event.1.previousHash)
    (fun event => computeEventHash C event.1) (Record Extra) Bytes previousHash
    eventHash (fun event => event.1.record C key event.2) val (fun _ => rfl)
    (fun _ => rfl) hinj zeroHash added
  have hdata := @linked_map (EventData × Extra) Digest (fun event => event.1.previousHash)
    (fun event => computeEventHash C event.1) EventData Digest EventData.previousHash
    (computeEventHash C) Prod.fst id (fun _ => rfl) (fun _ => rfl) (fun _ _ h => h) zeroHash added
  exact hrecord.trans hdata.symm

theorem tip_records {added : List (EventData × Extra)} :
    tip eventHash zeroHash.val (added.map fun event => event.1.record C key event.2)
      = (tip (computeEventHash C) zeroHash (added.map Prod.fst)).val := by
  have hrecord := @tip_map (EventData × Extra) Digest (fun event => computeEventHash C event.1)
    (Record Extra) Bytes eventHash (fun event => event.1.record C key event.2)
    val (fun _ => rfl) zeroHash added
  have hdata := @tip_map (EventData × Extra) Digest (fun event => computeEventHash C event.1)
    EventData Digest (computeEventHash C) Prod.fst id (fun _ => rfl) zeroHash added
  exact hrecord.trans (congrArg val hdata.symm)

/-- What archiving moves stands before what stays. -/
theorem split_of_continuity {link : Digest} (h : Inv C key s)
    (hfree : NoCollision C (s.added.map Prod.fst)) (hlink : chainLink cutoff s.disk.db = .ok link)
    (hcontinuity : checkContinuity cutoff link s.disk.db = .ok ()) :
    s.disk.db.events.records.filter (old cutoff)
      ++ (s.disk.db.events.records.filter fun r => !r.old cutoff)
      = s.disk.db.events.records := by
  obtain ⟨last, hlast, hlink⟩ := res_bind_eq_ok.mp hlink
  rw [okOr_eq_ok] at hlast hlink
  rw [tryFrom_eq_some] at hlink
  unfold checkContinuity at hcontinuity
  split at hcontinuity
  next hnone =>
    have hnil := List.head?_eq_none_iff.mp hnone
    rw [hnil, List.append_nil, List.filter_eq_self]
    intro r hr
    have := List.filter_eq_nil_iff.mp hnil r hr
    simpa using this
  next first hfirst =>
    have hprev := not_not.mp (reject_eq_ok.mp hcontinuity)
    have hrecords : s.archived ++ s.disk.db.events.records = s.records C key := h.complete
    have hl : Linked previousHash eventHash zeroHash.val
        (s.archived ++ s.disk.db.events.records) := by
      rw [hrecords]
      exact linked_records.mpr h.linked
    have hc : CollisionFree previousHash eventHash zeroHash.val
        (s.archived ++ s.disk.db.events.records) := by
      rw [hrecords]
      exact collisionFree_records hfree
    exact hl.filter_append hc hlast hfirst (hprev.trans hlink.symm)

theorem suffix_of_records {p : Record Extra → Bool}
    (h : ((rows.map Sql.Row.record).filter p) ++ ((rows.map Sql.Row.record).filter fun r => !p r)
      = rows.map Sql.Row.record) :
    (rows.filter fun row => !p row.record) <:+ rows := by
  let n := ((rows.map Sql.Row.record).filter p).length
  have hold : (rows.take n).map Sql.Row.record = (rows.map Sql.Row.record).filter p := by
    have htake := congrArg (List.take n) h
    rw [List.take_left] at htake
    rw [List.map_take, htake]
  have hnew : (rows.drop n).map Sql.Row.record = (rows.map Sql.Row.record).filter fun r =>
      !p r := by
    have hdrop := congrArg (List.drop n) h
    rw [List.drop_left] at hdrop
    rw [List.map_drop, hdrop]
  have htake : ((rows.take n).filter fun row => !p row.record) = [] := by
    rw [List.filter_eq_nil_iff]
    intro row hrow
    have hmem : row.record ∈ (rows.map Sql.Row.record).filter p := hold ▸ List.mem_map_of_mem hrow
    simpa using (List.mem_filter.mp hmem).2
  have hdrop : ((rows.drop n).filter fun row => !p row.record) = rows.drop n := by
    rw [List.filter_eq_self]
    intro row hrow
    have hmem : row.record ∈ (rows.map Sql.Row.record).filter fun r => !p r :=
      hnew ▸ List.mem_map_of_mem hrow
    exact (List.mem_filter.mp hmem).2
  have hsplit : (rows.filter fun row => !p row.record) = rows.drop n := by
    have hrows := congrArg (List.filter fun row => !p row.record) (List.take_append_drop n rows)
    rw [List.filter_append, htake, hdrop, List.nil_append] at hrows
    exact hrows.symm
  rw [hsplit]
  exact List.drop_suffix n rows

theorem maxId_of_suffix {t u : Table Extra} (h : t.rows <:+ u.rows) (hne : t.rows ≠ []) :
    t.maxId = u.maxId := by
  obtain ⟨pre, hpre⟩ := h
  rw [maxId, maxId, ← hpre, List.getLast?_append_of_ne_nil _ hne]

theorem deleteOld_eq_ok {db' : Database Extra} (h : deleteOld C key cutoff db = .ok db') :
    ∃ (integrity : Integrity) (chainHash : Digest), db.integrity = some integrity
      ∧ integrity.chainHash = chainHash.val
      ∧ db' = { db with
          events := db.events.filter fun r => !r.old cutoff
          integrity := some { integrity with
            eventCount := (db.events.filter fun r => !r.old cutoff).maxId
            lastVerifiedSequence := (db.events.filter fun r => !r.old cutoff).maxId
            hmac := (computeIntegrityHmac C key chainHash
              (db.events.filter fun r => !r.old cutoff).maxId
              (db.events.filter fun r => !r.old cutoff).maxId).val } } := by
  obtain ⟨integrity, hintegrity, h⟩ := res_bind_eq_ok.mp h
  obtain ⟨chainHash, hchain, h⟩ := res_bind_eq_ok.mp h
  rw [okOr_eq_ok] at hintegrity hchain
  rw [tryFrom_eq_some] at hchain
  exact ⟨integrity, chainHash, hintegrity, hchain, (Except.ok.inj h).symm⟩

/-- An archiving call changes nothing, or moves the old events, a prefix, into a new
    archive. -/
theorem step_archive {ageDays : Option Nat} (h : Inv C key s)
    (hfree : NoCollision C (s.added.map Prod.fst))
    (hstep : s.step C key (.archive ageDays cutoff date) = .ok s') :
    s' = s ∨ ∃ archive, s'.lastHash = s.lastHash ∧ s'.added = s.added
      ∧ s'.disk.archives = s.disk.archives ++ [(date, archive)]
      ∧ archive.records = s.disk.db.events.records.filter (old cutoff)
      ∧ archive.records ≠ []
      ∧ archive.records ++ s'.disk.db.events.records = s.disk.db.events.records
      ∧ s'.disk.db.events.rows <:+ s.disk.db.events.rows
      ∧ deleteOld C key cutoff s.disk.db = .ok s'.disk.db := by
  unfold Session.step at hstep
  dsimp only at hstep
  split at hstep
  next r disk hcall =>
    obtain rfl := Except.ok.inj hstep
    rcases archiveOldEvents_clear hcall with ⟨-, rfl⟩ |
      ⟨link, archive, db, hne, hlink, hcontinuity, hrecords, hdelete, hkept⟩
    · exact .inl rfl
    · obtain ⟨hdb, harchives⟩ := Prod.mk.inj hkept
      have hsplit := split_of_continuity h hfree hlink hcontinuity
      obtain ⟨_, _, -, -, hdb'⟩ := deleteOld_eq_ok hdelete
      refine .inr ⟨archive, rfl, rfl, harchives, hrecords, ?_, ?_, ?_, ?_⟩
      · rwa [hrecords]
      · dsimp only
        rw [hdb, hrecords, deleteOld_records hdelete, hsplit]
      · dsimp only
        rw [hdb, hdb']
        exact suffix_of_records hsplit
      · dsimp only
        rw [hdb, hdelete]
  next e _ _ =>
    cases hstep

theorem inv_archive {archive : Archive Extra} (h : Inv C key s) (hhash : s'.lastHash = s.lastHash)
    (hadded : s'.added = s.added)
    (harchives : s'.disk.archives = s.disk.archives ++ [(date, archive)])
    (hne : archive.records ≠ [])
    (hsplit : archive.records ++ s'.disk.db.events.records = s.disk.db.events.records)
    (hsuffix : s'.disk.db.events.rows <:+ s.disk.db.events.rows)
    (hsequence : s'.disk.db.sequence = s.disk.db.sequence) : Inv C key s' := by
  have harchived : s'.archived = s.archived ++ archive.records := by
    unfold Session.archived
    rw [harchives, List.flatMap_append, List.flatMap_singleton]
  refine ⟨?_, ?_, ?_, ?_, ?_, ?_, ?_, ?_⟩
  · have hcomplete := h.complete
    unfold Session.records at *
    rw [harchived, List.append_assoc, hsplit, hadded, hcomplete]
  · rw [hadded]
    exact h.linked
  · rw [hhash, hadded]
    exact h.nextLink
  · intro _
    rw [harchived]
    exact List.append_ne_nil_of_right_ne_nil _ hne
  · exact fun row hrow => h.id_pos row (hsuffix.mem hrow)
  · rw [hsequence]
    exact h.sequence_nonneg
  · rw [hsequence]
    exact h.sequence_le
  · intro hrows
    have hnonempty : s.disk.db.events.rows ≠ [] := by
      intro hnil
      rw [hnil] at hsuffix
      exact hrows (List.suffix_nil.mp hsuffix)
    rw [maxId_of_suffix hsuffix hrows, h.maxId_eq hnonempty, hsequence]

/-- After archiving, the record counts the ids ever used unless no event remained. -/
theorem recorded_archive (h : Inv C key s') (hne : s'.disk.archives ≠ [])
    (hdelete : deleteOld C key cutoff s.disk.db = .ok s'.disk.db) :
    ∃ integrity, Recorded C key s' integrity := by
  obtain ⟨integrity, chainHash, -, hchain, hdb⟩ := deleteOld_eq_ok hdelete
  have hevents : (s.disk.db.events.filter fun r => !r.old cutoff) = s'.disk.db.events := by
    rw [hdb]
  have hrecord : s'.disk.db.integrity = some { integrity with
      eventCount := s'.disk.db.events.maxId
      lastVerifiedSequence := s'.disk.db.events.maxId
      hmac := (computeIntegrityHmac C key chainHash s'.disk.db.events.maxId
        s'.disk.db.events.maxId).val } := by
    rw [← hevents, hdb]
  have hreopen := reopenable_iff hrecord
  dsimp only at hreopen
  -- an empty table has the largest id 0, and a non-empty one that of the last event
  have hrows : s'.Reopenable → s'.disk.db.events.rows ≠ [] := by
    intro ho hnil
    refine hne (hreopen.mp ho ?_)
    rw [maxId, hnil]
    rfl
  have hnew : newRows s'.disk.db s'.disk.db.events.maxId = [] := newRows_maxId _
  refine ⟨_, hrecord, ⟨chainHash, hchain, rfl⟩, h.maxId_nonneg, fun ho => ?_, fun ho => ?_,
    fun ho _ => ?_⟩
  · exact h.maxId_eq (hrows ho)
  · dsimp only
    rw [hnew, h.maxId_eq (hrows ho)]
    simp
  · obtain ⟨row, hrow⟩ := Option.isSome_iff_exists.mp (List.getLast?_isSome.mpr (hrows ho))
    exact ⟨row, List.mem_of_getLast? hrow, (maxId_of_getLast? hrow).symm⟩

/-! ## Reopening -/

def oldRows (db : Database Extra) (lastVerified : Int) : List (Row Extra) :=
  db.events.rows.filter fun row => row.id ≤ lastVerified

theorem oldRows_append_newRows (db : Database Extra) (l : Int) :
    oldRows db l ++ newRows db l = db.events.rows :=
  filter_le_append_filter_lt db.events.ascending l

theorem oldRows_getLast? {row : Row Extra} (hrow : row ∈ db.events.rows) (hid : row.id = l) :
    (oldRows db l).getLast? = some row := by
  have hmem : row ∈ oldRows db l := List.mem_filter.mpr ⟨hrow, by simpa using Int.le_of_eq hid⟩
  obtain ⟨init, last, hold⟩ := (List.eq_nil_or_concat (oldRows db l)).resolve_left
    (List.ne_nil_of_mem hmem)
  rw [List.concat_eq_append] at hold
  have hlast : last ∈ oldRows db l := by
    rw [hold]
    exact List.mem_append_right _ List.mem_cons_self
  obtain ⟨hlastrow, hle⟩ := List.mem_filter.mp hlast
  have hsorted : (oldRows db l).Pairwise fun a b => a.id < b.id := db.events.ascending.filter _
  rw [hold] at hmem hsorted ⊢
  rw [List.getLast?_concat]
  rcases List.mem_append.mp hmem with hinit | hmem
  · have hlt := (List.pairwise_append.mp hsorted).2.2 row hinit last List.mem_cons_self
    have hle : last.id ≤ l := by simpa using hle
    omega
  · rw [List.mem_singleton.mp hmem]

theorem storesAll_of_records
    (h : rows.map Sql.Row.record = added.map fun event => event.1.record C key event.2) :
    StoresAll C key rows (added.map Prod.fst) := by
  induction rows generalizing added with
  | nil =>
    rw [List.map_nil, eq_comm, List.map_eq_nil_iff] at h
    rw [h]
    exact List.Forall₂.nil
  | cons row rows ih =>
    cases added with
    | nil => cases h
    | cons event added =>
      rw [List.map_cons, List.map_cons, List.cons.injEq] at h
      refine List.Forall₂.cons ?_ (ih h.2)
      rw [h.1]
      exact stores_record _ _

section

variable (h : Inv C key s)

include h

/-- The events added so far: those in archives, those in old rows, those in new ones. -/
theorem added_split (l : Int) :
    ∃ before after, s.added = before ++ after
      ∧ (before.map fun event => event.1.record C key event.2)
        = s.archived ++ (oldRows s.disk.db l).map Sql.Row.record
      ∧ (newRows s.disk.db l).map Sql.Row.record
        = after.map fun event => event.1.record C key event.2 := by
  have hcomplete := h.complete
  unfold Session.records records at hcomplete
  rw [← oldRows_append_newRows s.disk.db l, List.map_append, ← List.append_assoc, eq_comm]
    at hcomplete
  obtain ⟨before, after, hadded, hbefore, hafter⟩ := List.map_eq_append_iff.mp hcomplete
  exact ⟨before, after, hadded, hbefore, hafter.symm⟩

theorem resumeHash_of_reopenable (hr : Recorded C key s integrity) (ho : s.Reopenable)
    {before : List (EventData × Extra)}
    (hbefore : (before.map fun event => event.1.record C key event.2)
      = s.archived ++ (oldRows s.disk.db integrity.lastVerifiedSequence).map Sql.Row.record) :
    resumeHash s.disk.db integrity.lastVerifiedSequence
      = .ok (tip (computeEventHash C) zeroHash (before.map Prod.fst)) := by
  rw [resumeHash_eq_ok]
  by_cases hzero : integrity.lastVerifiedSequence = 0
  · refine .inl ⟨Int.le_of_eq hzero, ?_⟩
    have harchives := (reopenable_iff hr.eq).mp ho hzero
    have hold : oldRows s.disk.db integrity.lastVerifiedSequence = [] := by
      rw [oldRows, List.filter_eq_nil_iff]
      intro row hrow
      have := h.id_pos row hrow
      simp only [decide_eq_true_eq]
      omega
    rw [hold, Session.archived, harchives, List.flatMap_nil, List.map_nil, List.append_nil,
      List.map_eq_nil_iff] at hbefore
    rw [hbefore]
    rfl
  · have hpos : 0 < integrity.lastVerifiedSequence := by
      have := hr.nonneg
      omega
    obtain ⟨row, hrow, hid⟩ := hr.verified ho hpos
    refine .inr ⟨hpos, row, ?_, ?_⟩
    · obtain ⟨found, hfound⟩ : ∃ found, s.disk.db.events.rows.find?
          (fun row => row.id = integrity.lastVerifiedSequence) = some found := by
        rw [← Option.isSome_iff_exists, List.find?_isSome]
        exact ⟨row, hrow, decide_eq_true hid⟩
      have hfid : found.id = integrity.lastVerifiedSequence := by
        simpa using List.find?_some hfound
      rw [hfound, Sql.eq_of_key_eq s.disk.db.events.ascending (List.mem_of_find?_eq_some hfound)
        hrow (hfid.trans hid.symm)]
    · have hlast := oldRows_getLast? hrow hid
      obtain ⟨init, hinit⟩ := List.getLast?_eq_some_iff.mp hlast
      rw [hinit, List.map_append, ← List.append_assoc] at hbefore
      have htip := @tip_records Extra C key before
      rw [hbefore] at htip
      rw [← htip]
      exact (tip_concat _ _ _).symm

/-- A database that is `Reopenable` opens, with the hash that its session had. -/
theorem verifyRecord_of_reopenable (hr : Recorded C key s integrity) (ho : s.Reopenable) :
    ∃ chainHash : Digest, integrity.chainHash = chainHash.val
      ∧ verifyRecord C key s.disk.db integrity = .ok (markVerified C key s.disk.db integrity
      chainHash (lastSeq integrity.lastVerifiedSequence
        (newRows s.disk.db integrity.lastVerifiedSequence)), s.lastHash) := by
  obtain ⟨chainHash, hchain, hhmac⟩ := hr.authentic
  obtain ⟨before, after, hadded, hbefore, hafter⟩ := added_split h integrity.lastVerifiedSequence
  have hlinked := h.linked
  have hnext := h.nextLink
  rw [hadded, List.map_append] at hlinked hnext
  have hcount := hr.count ho
  have hfresh := hr.fresh ho
  have hnonneg := hr.nonneg
  have hle := h.sequence_le
  have hge := h.sequence_nonneg
  refine ⟨chainHash, hchain, verifyRecord_eq_ok.mpr ⟨chainHash, _, after.map Prod.fst,
    { chainHash_eq := hchain
      hmac_eq := hhmac
      resume_eq := resumeHash_of_reopenable h hr ho hbefore
      stored := storesAll_of_records hafter
      linked := (linked_append.mp hlinked).2
      length_le := by omega
      total_ge := by rw [i64Min]; omega
      total_le := by omega
      total_eq := by omega }, rfl, ?_⟩⟩
  rw [hnext, tip_append]

theorem lastSeq_newRows (hne : newRows s.disk.db l ≠ []) :
    lastSeq l (newRows s.disk.db l) = s.disk.db.sequence := by
  have hrows := oldRows_append_newRows s.disk.db l
  have hmax : s.disk.db.events.maxId = lastSeq l (newRows s.disk.db l) := by
    obtain ⟨init, last, hnew⟩ := (List.eq_nil_or_concat _).resolve_left hne
    rw [List.concat_eq_append] at hnew
    rw [maxId, lastSeq, ← hrows, List.getLast?_append_of_ne_nil _ hne, hnew,
      List.getLast?_concat]
    rfl
  rw [← hmax]
  apply h.maxId_eq
  rw [← hrows]
  exact List.append_ne_nil_of_right_ne_nil _ hne

/-- Reopening changes the integrity record only, and keeps what it promises. -/
theorem recorded_markVerified {chainHash : Digest} (hr : Recorded C key s integrity)
    (ho : s.Reopenable) (hchain : integrity.chainHash = chainHash.val)
    (hdb : s'.disk.db = markVerified C key s.disk.db integrity chainHash
      (lastSeq integrity.lastVerifiedSequence (newRows s.disk.db integrity.lastVerifiedSequence))) :
    (∃ integrity', Recorded C key s' integrity') ∧ s'.disk.db.events = s.disk.db.events
      ∧ s'.disk.db.sequence = s.disk.db.sequence := by
  unfold markVerified at hdb
  split at hdb
  next hlt =>
    have hne : newRows s.disk.db integrity.lastVerifiedSequence ≠ [] := by
      intro hnil
      rw [hnil] at hlt
      exact Int.lt_irrefl _ hlt
    rw [lastSeq_newRows h hne] at hdb
    have hrows : s.disk.db.events.rows ≠ [] := by
      intro hnil
      exact hne (by rw [newRows, hnil, List.filter_nil])
    have hmax := h.maxId_eq hrows
    have hevents : s'.disk.db.events = s.disk.db.events := by rw [hdb]
    have hsequence : s'.disk.db.sequence = s.disk.db.sequence := by rw [hdb]
    have hrecord : s'.disk.db.integrity = some { integrity with
        lastVerifiedSequence := s.disk.db.sequence
        hmac := (computeIntegrityHmac C key chainHash integrity.eventCount
          s.disk.db.sequence).val } := by
      rw [hdb]
    refine ⟨⟨_, hrecord, ⟨chainHash, hchain, rfl⟩, h.sequence_nonneg, fun _ => ?_, fun _ => ?_,
      fun _ _ => ?_⟩, hevents, hsequence⟩
    · rw [hsequence]
      exact hr.count ho
    · have hnil : newRows s'.disk.db s.disk.db.sequence = [] := by
        rw [newRows, hevents, ← hmax]
        exact newRows_maxId s.disk.db
      dsimp only
      rw [hnil, hsequence]
      simp
    · obtain ⟨row, hrow⟩ := Option.isSome_iff_exists.mp (List.getLast?_isSome.mpr hrows)
      refine ⟨row, ?_, ?_⟩
      · rw [hevents]
        exact List.mem_of_getLast? hrow
      · rw [← maxId_of_getLast? hrow, hmax]
  next hge =>
    refine ⟨⟨integrity, ?_⟩, by rw [hdb], by rw [hdb]⟩
    refine ⟨by rw [hdb, hr.eq], hr.authentic, hr.nonneg, fun _ => ?_, fun _ => ?_, fun _ => ?_⟩
    · rw [hdb, hr.count ho]
    · rw [hdb, hr.fresh ho]
    · rw [hdb]
      exact hr.verified ho

theorem Inv.of_same (hadded : s'.added = s.added) (hhash : s'.lastHash = s.lastHash)
    (harchives : s'.disk.archives = s.disk.archives)
    (hevents : s'.disk.db.events = s.disk.db.events)
    (hsequence : s'.disk.db.sequence = s.disk.db.sequence) : Inv C key s' := by
  obtain ⟨hcomplete, hlinked, hnext, hne, hpos, hnonneg, hle, hmax⟩ := h
  unfold Session.archived Session.records at hcomplete
  unfold Session.archived at hne
  refine ⟨?_, ?_, ?_, ?_, ?_, ?_, ?_, ?_⟩
  · unfold Session.archived Session.records
    rwa [hadded, harchives, hevents]
  · rwa [hadded]
  · rwa [hadded, hhash]
  · unfold Session.archived
    rwa [harchives]
  · rwa [hevents]
  · rwa [hsequence]
  · rwa [hsequence]
  · rwa [hevents, hsequence]

end

/-! ## Runs -/

theorem added_of_step (h : s.step C key action = .ok s') : ∀ event ∈ s.added, event ∈ s'.added := by
  intro event hevent
  cases action with
  | add e =>
    obtain ⟨integrity, -, -, rfl⟩ := step_add h
    exact List.mem_append_left _ hevent
  | archive ageDays cutoff date =>
    unfold Session.step at h
    dsimp only at h
    split at h
    · rw [← Except.ok.inj h]
      exact hevent
    · cases h
  | reopen =>
    obtain ⟨store, -, h⟩ := res_bind_eq_ok.mp h
    rw [← Except.ok.inj h]
    exact hevent

theorem NoCollision.mono {added' : List (EventData × Extra)}
    (h : NoCollision C (added'.map Prod.fst)) (hsub : ∀ event ∈ added, event ∈ added') :
    NoCollision C (added.map Prod.fst) := by
  have hmem : ∀ d ∈ added.map Prod.fst, d ∈ added'.map Prod.fst := by
    intro d hd
    obtain ⟨event, hevent, rfl⟩ := List.mem_map.mp hd
    exact List.mem_map_of_mem (hsub event hevent)
  exact ⟨fun d hd e he => h.bytes_eq d (hmem d hd) e (hmem e he), fun d hd =>
    h.ne_zero d (hmem d hd)⟩

/-- Every step keeps the chain of all events, where no two of them collide, -/
theorem inv_step (h : Inv C key s) (hr : Recorded C key s integrity)
    (hfree : NoCollision C (s.added.map Prod.fst)) (ho : action = .reopen → s.Reopenable)
    (hstep : s.step C key action = .ok s') :
    Inv C key s' ∧ ∃ integrity', Recorded C key s' integrity' := by
  cases action with
  | add e =>
    obtain ⟨integrity', heq, hfull, rfl⟩ := step_add hstep
    obtain rfl : integrity = integrity' := Option.some.inj (hr.eq.symm.trans heq)
    exact ⟨inv_add h hfull, recorded_add h hr⟩
  | archive ageDays cutoff date =>
    rcases step_archive h hfree hstep with rfl |
      ⟨archive, hhash, hadded, harchives, -, hne, hsplit, hsuffix, hdelete⟩
    · exact ⟨h, integrity, hr⟩
    · have hsequence : s'.disk.db.sequence = s.disk.db.sequence := by
        obtain ⟨_, _, -, -, hdb⟩ := deleteOld_eq_ok hdelete
        rw [hdb]
      have hinv := inv_archive h hhash hadded harchives hne hsplit hsuffix hsequence
      refine ⟨hinv, recorded_archive hinv ?_ hdelete⟩
      rw [harchives]
      exact List.append_ne_nil_of_right_ne_nil _ (List.cons_ne_nil _ _)
  | reopen =>
    obtain ⟨store, hopen, hstep⟩ := res_bind_eq_ok.mp hstep
    obtain ⟨⟨db, lastHash⟩, hverify, hstore⟩ := res_bind_eq_ok.mp hopen
    obtain rfl := Except.ok.inj hstore
    rw [verifyIntegrity, hr.eq] at hverify
    obtain ⟨chainHash, hchain, hok⟩ := verifyRecord_of_reopenable h hr (ho rfl)
    obtain ⟨hdb, hhash⟩ := Prod.mk.inj (Except.ok.inj (hverify.symm.trans hok))
    have hs : s'.disk.db = db ∧ s'.disk.archives = s.disk.archives ∧ s'.added = s.added
        ∧ s'.lastHash = lastHash := by
      rw [← Except.ok.inj hstep]
      exact ⟨rfl, rfl, rfl, rfl⟩
    obtain ⟨hsdb, hsarchives, hsadded, hslast⟩ := hs
    obtain ⟨hrecorded, hevents, hsequence⟩ :=
      recorded_markVerified h hr (ho rfl) hchain (hsdb.trans hdb)
    exact ⟨h.of_same hsadded (hslast.trans hhash) hsarchives hevents hsequence, hrecorded⟩

theorem inv_start : Inv C key (Session.start C key : Session Extra) :=
  { complete := rfl
    linked := linked_nil _
    nextLink := rfl
    archived_ne := fun h => absurd rfl h
    id_pos := fun _ h => absurd h List.not_mem_nil
    sequence_nonneg := Int.le_refl 0
    sequence_le := by unfold i64Max; exact Int.natCast_nonneg _
    maxId_eq := fun h => absurd rfl h }

theorem recorded_start : Recorded C key (Session.start C key : Session Extra)
    (initialIntegrity C key) :=
  { eq := rfl
    authentic := ⟨zeroHash, rfl, rfl⟩
    nonneg := Int.le_refl 0
    count := fun _ => rfl
    fresh := fun _ => rfl
    verified := fun _ h => absurd h (Int.lt_irrefl 0) }

/-- and so does every run. -/
theorem Run.inv (h : Run C key s) (hfree : NoCollision C (s.added.map Prod.fst)) :
    Inv C key s ∧ ∃ integrity, Recorded C key s integrity := by
  induction h with
  | start => exact ⟨inv_start, _, recorded_start⟩
  | step action hrun ho hstep ih =>
    have hbefore := hfree.mono (added_of_step hstep)
    obtain ⟨hinv, integrity, hrecorded⟩ := ih hbefore
    exact inv_step hinv hrecorded hbefore ho hstep

theorem NoCollision.tip_ne_zero (h : NoCollision C datas) (hne : datas ≠ []) :
    tip (computeEventHash C) zeroHash datas ≠ zeroHash := by
  obtain ⟨init, last, rfl⟩ := (List.eq_nil_or_concat datas).resolve_left hne
  rw [List.concat_eq_append] at h ⊢
  rw [tip_concat]
  exact h.ne_zero last (List.mem_append_right _ List.mem_cons_self)

theorem StoresAll.unique {datas' : List EventData} (h : StoresAll C key rows datas)
    (h' : StoresAll C key rows datas') : datas = datas' := by
  induction h generalizing datas' with
  | nil =>
    cases h'
    rfl
  | cons hdata _ ih =>
    cases h' with
    | cons hdata' hall' => rw [hdata.unique hdata', ih hall']

/-- With archives, an open that resumes at the zero sentinel does not find the hash of
    the last event. -/
theorem lastHash_ne_of_not_reopenable {store : SecureStore Extra} (h : Inv C key s)
    (hr : Recorded C key s integrity) (hfree : NoCollision C (s.added.map Prod.fst))
    (hno : ¬s.Reopenable) (hopen : openStore C key s.disk.db = .ok store) :
    store.lastHash ≠ s.lastHash := by
  rw [reopenable_iff hr.eq, Classical.not_imp] at hno
  obtain ⟨hzero, harchives⟩ := hno
  obtain ⟨⟨db, lastHash⟩, hverify, hstore⟩ := res_bind_eq_ok.mp hopen
  obtain rfl := Except.ok.inj hstore
  rw [verifyIntegrity, hr.eq] at hverify
  obtain ⟨chainHash, resume, datas, hacc, -, hhash⟩ := verifyRecord_eq_ok.mp hverify
  have hresume : resume = zeroHash := by
    rcases resumeHash_eq_ok.mp hacc.resume_eq with ⟨-, hresume⟩ | ⟨hpos, -⟩
    · exact hresume
    · omega
  obtain ⟨before, after, hadded, hbefore, hafter⟩ := added_split h integrity.lastVerifiedSequence
  have hdatas : datas = after.map Prod.fst := hacc.stored.unique (storesAll_of_records hafter)
  -- the archives hold the first of the events
  have hne : before.map Prod.fst ≠ [] := by
    intro hnil
    rw [List.map_eq_nil_iff] at hnil
    rw [hnil, List.map_nil, eq_comm] at hbefore
    exact h.archived_ne harchives (List.append_eq_nil_iff.mp hbefore).1
  have htip : tip (computeEventHash C) zeroHash (before.map Prod.fst) ≠ zeroHash := by
    refine (NoCollision.mono hfree fun event hevent => ?_).tip_ne_zero hne
    rw [hadded]
    exact List.mem_append_left _ hevent
  have hlinked := h.linked
  have hnext := h.nextLink
  have hscan := hacc.linked
  rw [hadded, List.map_append] at hlinked hnext
  rw [hdatas, hresume] at hscan hhash
  dsimp only
  rw [hhash, hnext, tip_append]
  cases hcase : after.map Prod.fst with
  | nil =>
    rw [tip_nil, tip_nil]
    exact htip.symm
  | cons first rest =>
    rw [hcase] at hlinked hscan
    exact absurd ((linked_append.mp hlinked).2.1.symm.trans hscan.1) htip

/-- In every run that reopens where it may, the archives and the table hold the chain of
    the events added, and reopening finds its end exactly where it may be done. -/
theorem survives_of_run {s : Session Extra} (h : Run C key s)
    (hfree : NoCollision C (s.added.map Prod.fst)) : Survives C key s := by
  obtain ⟨hinv, integrity, hrecorded⟩ := h.inv hfree
  refine ⟨hinv.complete, linked_records.mpr hinv.linked, ?_, ?_, ?_⟩
  · rw [hinv.nextLink]
    exact tip_records.symm
  · intro ho
    obtain ⟨chainHash, -, hok⟩ := verifyRecord_of_reopenable hinv hrecorded ho
    obtain ⟨db, hverify⟩ : ∃ db, verifyIntegrity C key s.disk.db = .ok (db, s.lastHash) := by
      rw [verifyIntegrity, hrecorded.eq]
      exact ⟨_, hok⟩
    exact ⟨{ db, lastHash := s.lastHash }, res_bind_eq_ok.mpr ⟨_, hverify, rfl⟩, rfl⟩
  · rintro ⟨store, hopen, hhash⟩
    by_contra hno
    exact lastHash_ne_of_not_reopenable hinv hrecorded hfree hno hopen hhash

/-! ## Two runs -/

theorem Run.steps {actions : List (Action Extra)} (hno : Action.reopen ∉ actions) (h : Run C key s)
    (hok : s.steps C key actions = .ok s') :
    Run C key s' := by
  induction actions generalizing s with
  | nil => exact Except.ok.inj hok ▸ h
  | cons action actions ih =>
    rw [Session.steps, List.foldlM_cons] at hok
    obtain ⟨s₁, hstep, hok⟩ := res_bind_eq_ok.mp hok
    refine ih (fun hmem => hno (List.mem_cons_of_mem _ hmem)) (h.step action (fun heq => ?_) hstep)
      hok
    exact absurd (heq ▸ List.mem_cons_self) hno

/-- A hash that tells apart the two events below. -/
def sumHash : Crypto :=
  { sha256 := fun bytes => filled 32 bytes.sum
    hmac := fun key bytes => filled 32 (key.sum + bytes.sum) }

def savedAt (timestampNs : Int) : SecureEvent Unit :=
  { deviceId := default, timestampNs, filePath := "a.txt", contentHash := default, fileSize := 1,
    sizeDelta := ⟨1, by decide⟩, extra := () }

theorem survives_of_run_partial : ∃ s : Session Unit, Run sumHash [] s
    ∧ s.disk.archives.map (fun file => file.2.records.length) = [1]
    ∧ s.disk.db.events.rows.length = 1 ∧ Survives sumHash [] s := by
  have hrun : ((Session.start sumHash []).steps sumHash []
      [.add (savedAt 1), .add (savedAt 9), .archive (some 30) 5 "2026-01-01"]).toOption.map
        (fun s => (s.disk.archives.map fun file => file.2.records.length,
          s.disk.db.events.rows.length, s.added.map Prod.fst))
      = some ([1], 1, [(savedAt 1).data zeroHash,
          (savedAt 9).data (computeEventHash sumHash ((savedAt 1).data zeroHash))]) := by
    decide +kernel
  obtain ⟨s, hok, hs⟩ := exists_ok_of_toOption hrun
  obtain ⟨harchives, hs⟩ := Prod.mk.inj hs
  obtain ⟨hrows, hadded⟩ := Prod.mk.inj hs
  have hs := Run.steps (by simp) Run.start hok
  refine ⟨s, hs, harchives, hrows, survives_of_run hs ?_⟩
  rw [hadded]
  exact ⟨by decide +kernel, by decide +kernel⟩

/-- Archiving the only event and reopening: the next event links to nothing. -/
theorem not_linked_after_reopen : ∃ s : Session Unit,
    (Session.start sumHash []).steps sumHash []
      [.add (savedAt 1), .archive (some 30) 5 "2026-01-01", .reopen, .add (savedAt 9)] = .ok s
    ∧ NoCollision sumHash (s.added.map Prod.fst)
    ∧ ¬Linked previousHash eventHash zeroHash.val (s.records sumHash []) := by
  have hrun : ((Session.start sumHash []).steps sumHash []
      [.add (savedAt 1), .archive (some 30) 5 "2026-01-01", .reopen, .add (savedAt 9)]).toOption.map
        Session.added
      = some [((savedAt 1).data zeroHash, ()), ((savedAt 9).data zeroHash, ())] := by
    decide +kernel
  obtain ⟨s, hok, hadded⟩ := exists_ok_of_toOption hrun
  refine ⟨s, hok, ?_, ?_⟩
  · rw [hadded]
    exact ⟨by decide +kernel, by decide +kernel⟩
  · rw [Session.records, hadded]
    rintro ⟨-, hnext, -⟩
    revert hnext
    decide +kernel

end WritersProof.Store
