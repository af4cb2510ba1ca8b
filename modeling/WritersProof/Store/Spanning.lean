/-
  WritersProof.Store.Spanning

  Queries over the archives and the active database
  (crates/cpoe/src/store/archive.rs, store/events.rs).

  `query_archive` reports a file that cannot be opened, a row that does not parse
  and a row whose HMAC is wrong; `query_spanning` drops what it reports and goes on
  with the next file.
-/
import WritersProof.Store.Chain

namespace WritersProof.Store

open Rust

/-! ## Rows as events -/

/-- The columns that no hash covers.  A column that may be `NULL` is an `Option`. -/
structure ExtraColumns where
  machineId : String
  contextType : Option String
  contextNote : Option String
  vdfInput : Option Bytes
  vdfOutput : Option Bytes
  vdfIterations : Option Int
  /-- the bits of the `REAL` -/
  forensicScore : Option Nat
  isPaste : Option Int
  hardwareCounter : Option Int
  inputMethod : Option String
  lamportSignature : Option Bytes
  lamportPubkeyFingerprint : Option Bytes
  challengeNonce : Option String
  hwCosignSignature : Option Bytes
  hwCosignPubkey : Option Bytes
  hwCosignSaltCommitment : Option Bytes
  hwCosignChainIndex : Option Int
  hwCosignEntangledHash : Option Bytes
  hwCosignEntropyDigest : Option Bytes
  hwCosignEntropyBytes : Option Int
  posmeProof : Option Bytes
  semanticSummary : Option String

structure StoredEvent where
  id : Int
  deviceId : FixedBytes 16
  machineId : String
  timestampNs : Int
  filePath : String
  contentHash : Digest
  fileSize : Int
  sizeDelta : I32
  previousHash : Digest
  eventHash : Digest
  contextType : Option String
  contextNote : Option String
  vdfInput : Option Digest
  vdfOutput : Option Digest
  vdfIterations : Nat
  forensicScore : Nat
  isPaste : Bool
  hardwareCounter : Option Nat
  inputMethod : Option String
  lamportSignature : Option Bytes
  lamportPubkeyFingerprint : Option Bytes
  challengeNonce : Option String
  hwCosignSignature : Option Bytes
  hwCosignPubkey : Option Bytes
  hwCosignSaltCommitment : Option Bytes
  hwCosignChainIndex : Option Nat
  hwCosignEntangledHash : Option Bytes
  hwCosignEntropyDigest : Option Bytes
  hwCosignEntropyBytes : Option Nat
  posmeProof : Option Bytes
  semanticSummary : Option String

def StoredEvent.data (e : StoredEvent) : EventData :=
  { deviceId := e.deviceId, timestampNs := e.timestampNs, filePath := e.filePath,
    contentHash := e.contentHash, fileSize := e.fileSize, sizeDelta := e.sizeDelta,
    previousHash := e.previousHash }

/-- `rusqlite::Error::InvalidColumnType` -/
def invalidColumnType (index : Nat) (name type : String) : String :=
  s!"Invalid column type {type} at index: {index}, name: {name}"

def blobColumn (n index : Nat) (name : String) (bytes : Bytes) : Res String (FixedBytes n) :=
  okOr (FixedBytes.tryFrom n bytes) (invalidColumnType index name "Blob")

def notNull {α : Type} (index : Nat) (name : String) (value : Option α) : Res String α :=
  okOr value (invalidColumnType index name "Null")

/-- An integer that is stored for a `u64`. -/
def u64Column (index : Nat) (name : String) (value : Int) : Res String Nat :=
  if 0 ≤ value then .ok value.toNat else fail (invalidColumnType index name "Integer")

/-- `value.map(f).transpose()?` -/
def transpose {α β : Type} (f : α → Res String β) : Option α → Res String (Option β)
  | none => .ok none
  | some a => do
    let b ← f a
    .ok (some b)

/-- `row.get::<_, i32>` -/
def i32Column (index : Nat) (value : Int) : Res String I32 :=
  okOr (I32.tryFrom value) s!"Integer {value} out of range at index {index}"

def rowToEvent (row : Row ExtraColumns) : Res String StoredEvent := do
  let r := row.record
  let x := r.extra
  let deviceId ← blobColumn 16 1 "device_id" r.deviceId
  let contentHash ← blobColumn 32 5 "content_hash" r.contentHash
  let sizeDelta ← i32Column 7 r.sizeDelta
  let previousHash ← blobColumn 32 8 "previous_hash" r.previousHash
  let eventHash ← blobColumn 32 9 "event_hash" r.eventHash
  let vdfInput ← transpose (blobColumn 32 13 "vdf_input") x.vdfInput
  let vdfOutput ← transpose (blobColumn 32 14 "vdf_output") x.vdfOutput
  let iterations ← notNull 15 "vdf_iterations" x.vdfIterations
  let vdfIterations ← u64Column 15 "vdf_iterations" iterations
  let forensicScore ← notNull 16 "forensic_score" x.forensicScore
  let paste ← notNull 17 "is_paste" x.isPaste
  let paste ← i32Column 17 paste
  let hardwareCounter ← transpose (u64Column 18 "hardware_counter") x.hardwareCounter
  let hwCosignChainIndex ← transpose (u64Column 26 "hw_cosign_chain_index") x.hwCosignChainIndex
  let hwCosignEntropyBytes ←
    transpose (u64Column 29 "hw_cosign_entropy_bytes") x.hwCosignEntropyBytes
  .ok {
    id := row.id, deviceId, machineId := x.machineId, timestampNs := r.timestampNs
    filePath := r.filePath, contentHash, fileSize := r.fileSize, sizeDelta, previousHash, eventHash
    contextType := x.contextType, contextNote := x.contextNote, vdfInput, vdfOutput
    vdfIterations, forensicScore, isPaste := decide (paste.val ≠ 0), hardwareCounter
    inputMethod := x.inputMethod, lamportSignature := x.lamportSignature
    lamportPubkeyFingerprint := x.lamportPubkeyFingerprint, challengeNonce := x.challengeNonce
    hwCosignSignature := x.hwCosignSignature, hwCosignPubkey := x.hwCosignPubkey
    hwCosignSaltCommitment := x.hwCosignSaltCommitment, hwCosignChainIndex
    hwCosignEntangledHash := x.hwCosignEntangledHash
    hwCosignEntropyDigest := x.hwCosignEntropyDigest, hwCosignEntropyBytes
    posmeProof := x.posmeProof, semanticSummary := x.semanticSummary }

/-! ## Queries -/

/-- `file_path = ?1 AND timestamp_ns >= ?2 AND timestamp_ns <= ?3` -/
structure Query where
  filePath : String
  startNs : Int
  endNs : Int

def Query.matches (q : Query) (row : Row ExtraColumns) : Bool :=
  row.record.filePath = q.filePath ∧ q.startNs ≤ row.record.timestampNs
    ∧ row.record.timestampNs ≤ q.endNs

/-- The matching rows of a table, `ORDER BY id ASC`. -/
def Query.select (q : Query) (t : Table ExtraColumns) : List (Row ExtraColumns) :=
  t.rows.filter q.matches

/-- A file next to the database: what the store wrote to it, what it holds now (`none` if it
cannot be opened and read as a database), and whether `read_dir` yields its entry. -/
structure DirEntry where
  name : String
  listed : Bool
  written : Table ExtraColumns
  content : Option (Table ExtraColumns)

section Calls

variable (C : Crypto) (key : Bytes)

/-- The event of a row, once its HMAC has been checked. -/
def readRow (mismatch : Int → String) (row : Row ExtraColumns) : Res String StoredEvent := do
  let event ← rowToEvent row
  reject (row.record.hmac ≠ (computeEventHmac C key event.data).val) (mismatch event.id)
  .ok event

def readRows (mismatch : Int → String) : List (Row ExtraColumns) → Res String (List StoredEvent)
  | [] => .ok []
  | row :: rows => do
    let event ← readRow C key mismatch row
    let events ← readRows mismatch rows
    .ok (event :: events)

def getEventsForFileInRange (db : Database ExtraColumns) (q : Query) :
    Res String (List StoredEvent) :=
  readRows C key (fun id => s!"event {id} HMAC mismatch: possible mid-session tampering")
    (q.select db.events)

/-- `starts_with("events_archive_") && ends_with(".db")` -/
def isArchiveName (name : String) : Bool :=
  "events_archive_".toList.isPrefixOf name.toList && ".db".toList.isSuffixOf name.toList

variable (dir : Option (List DirEntry))

/-- `list_archives`.  An entry that `read_dir` cannot yield is skipped. -/
def listArchives : Res String (List DirEntry) := do
  let entries ← okOr dir "cannot read the directory"
  let archives := (entries.filter DirEntry.listed).filter fun entry => isArchiveName entry.name
  .ok (archives.insertionSort fun a b => a.name ≤ b.name)

def queryArchive (q : Query) (archive : DirEntry) : Res String (List StoredEvent) := do
  let table ← okOr archive.content "unable to open database file"
  readRows C key (fun id => s!"Archive event {id} HMAC mismatch in {archive.name}") (q.select table)

/-- `if let Ok(events) = Self::query_archive(...) { all_events.extend(events); }` for every
archive. -/
def archivedEvents (q : Query) (archives : List DirEntry) : List StoredEvent :=
  archives.flatMap fun archive =>
    match queryArchive C key q archive with
    | .ok events => events
    | .error _ => []

def querySpanning (db : Database ExtraColumns) (q : Query) :
    Res String (List StoredEvent) := do
  let archives ← listArchives dir
  let activeEvents ← getEventsForFileInRange C key db q
  let allEvents := archivedEvents C key q archives ++ activeEvents
  .ok (allEvents.insertionSort fun a b => a.timestampNs ≤ b.timestampNs)

/-! ## What is complete -/

def Verifies (row : Row ExtraColumns) : Prop :=
  ∃ event, rowToEvent row = .ok event ∧ row.record.hmac = (computeEventHmac C key event.data).val

/-- The archive can be found and opened, and every matching row in it verifies. -/
structure Reads (q : Query) (archive : DirEntry) : Prop where
  listed : archive.listed = true
  opens : archive.content.isSome
  verifies : ∀ table ∈ archive.content, ∀ row ∈ q.select table, Verifies C key row

/-- The archives next to the database, whether or not they can be found. -/
def archivesOf (entries : List DirEntry) : List DirEntry :=
  entries.filter fun entry => isArchiveName entry.name

/-- The matching rows that the archives hold now. -/
def Query.held (q : Query) (entries : List DirEntry) : List (Row ExtraColumns) :=
  (archivesOf entries).flatMap fun archive => (archive.content.map q.select).getD []

/-- The matching rows that the store wrote to the archives. -/
def Query.written (q : Query) (entries : List DirEntry) : List (Row ExtraColumns) :=
  (archivesOf entries).flatMap fun archive => q.select archive.written

/-- An outcome is complete if it is an error, or if no archive was left out and the events are
those of the rows written to the archives and of the active rows, each once, by time. -/
def Complete (db : Database ExtraColumns) (q : Query) (outcome : Res String (List StoredEvent)) :
    Prop :=
  ∀ events, outcome = .ok events →
    ∃ entries, dir = some entries
      ∧ (∀ archive ∈ archivesOf entries, Reads C key q archive)
      ∧ (events.map Except.ok).Perm ((q.written entries ++ q.select db.events).map rowToEvent)
      ∧ events.Pairwise fun a b => a.timestampNs ≤ b.timestampNs

end Calls

/-! ## Reading rows -/

section Read

variable {C : Crypto} {key : Bytes} {q : Query} {mismatch : Int → String}
  {rows : List (Row ExtraColumns)} {events : List StoredEvent} {entries : List DirEntry}
  {db : Database ExtraColumns}

theorem readRow_eq_ok {row : Row ExtraColumns} {event : StoredEvent} :
    readRow C key mismatch row = .ok event ↔
      rowToEvent row = .ok event ∧ row.record.hmac = (computeEventHmac C key event.data).val := by
  unfold readRow
  rw [res_bind_eq_ok]
  constructor
  · rintro ⟨event', hrow, h⟩
    rw [reject_bind_eq_ok, Decidable.not_not] at h
    cases h.2
    exact ⟨hrow, h.1⟩
  · rintro ⟨hrow, hhmac⟩
    exact ⟨event, hrow, reject_bind_eq_ok.mpr ⟨not_not.mpr hhmac, rfl⟩⟩

theorem readRows_eq_ok :
    readRows C key mismatch rows = .ok events ↔
      (∀ row ∈ rows, Verifies C key row) ∧ rows.map rowToEvent = events.map Except.ok := by
  induction rows generalizing events with
  | nil => cases events <;> simp [readRows]
  | cons row rows ih =>
    rw [readRows, res_bind_eq_ok, List.forall_mem_cons, List.map_cons]
    constructor
    · rintro ⟨event, hrow, hrest⟩
      obtain ⟨rest, hreads, hevents⟩ := res_bind_eq_ok.mp hrest
      cases hevents
      have hrow := readRow_eq_ok.mp hrow
      have hrest := ih.mp hreads
      exact ⟨⟨⟨event, hrow⟩, hrest.1⟩, by rw [hrow.1, hrest.2, List.map_cons]⟩
    · rintro ⟨⟨⟨event, hevent, hhmac⟩, hrows⟩, hmap⟩
      cases events with
      | nil => cases hmap
      | cons event' rest =>
        rw [List.map_cons, List.cons.injEq, hevent, Except.ok.injEq] at hmap
        obtain ⟨rfl, hmap⟩ := hmap
        exact ⟨event, readRow_eq_ok.mpr ⟨hevent, hhmac⟩,
          res_bind_eq_ok.mpr ⟨rest, ih.mpr ⟨hrows, hmap⟩, rfl⟩⟩

theorem exists_readRows (mismatch : Int → String) (h : ∀ row ∈ rows, Verifies C key row) :
    ∃ events, readRows C key mismatch rows = .ok events := by
  have hevents : ∃ events : List StoredEvent, rows.map rowToEvent = events.map Except.ok := by
    induction rows with
    | nil => exact ⟨[], rfl⟩
    | cons row rows ih =>
      obtain ⟨⟨event, hevent, -⟩, hrows⟩ := List.forall_mem_cons.mp h
      obtain ⟨events, hmap⟩ := ih hrows
      exact ⟨event :: events, by rw [List.map_cons, List.map_cons, hevent, hmap]⟩
  obtain ⟨events, hmap⟩ := hevents
  exact ⟨events, readRows_eq_ok.mpr ⟨h, hmap⟩⟩

theorem queryArchive_of_reads {archive : DirEntry} (h : Reads C key q archive) :
    ∃ events, queryArchive C key q archive = .ok events
      ∧ events.map Except.ok = ((archive.content.map q.select).getD []).map rowToEvent := by
  obtain ⟨table, htable⟩ := Option.isSome_iff_exists.mp h.opens
  unfold queryArchive
  rw [htable, okOr_some, res_ok_bind]
  obtain ⟨events, hevents⟩ := exists_readRows
    (fun id => s!"Archive event {id} HMAC mismatch in {archive.name}") (h.verifies table htable)
  exact ⟨events, hevents, (readRows_eq_ok.mp hevents).2.symm⟩

theorem archivedEvents_of_reads {archives : List DirEntry}
    (h : ∀ archive ∈ archives, Reads C key q archive) :
    (archivedEvents C key q archives).map Except.ok
      = (archives.flatMap fun archive => (archive.content.map q.select).getD []).map
          rowToEvent := by
  unfold archivedEvents
  rw [List.map_flatMap, List.map_flatMap]
  apply List.flatMap_congr
  intro archive harchive
  obtain ⟨events, hok, hmap⟩ := queryArchive_of_reads (h archive harchive)
  rw [hok]
  exact hmap

theorem listArchives_perm (h : ∀ archive ∈ archivesOf entries, archive.listed = true) :
    ∃ archives, listArchives (some entries) = .ok archives
      ∧ archives.Perm (archivesOf entries) := by
  refine ⟨_, rfl, (List.perm_insertionSort _ _).trans ?_⟩
  have hlisted : (archivesOf entries).filter DirEntry.listed = archivesOf entries :=
    List.filter_eq_self.mpr h
  rw [List.filter_comm]
  show ((archivesOf entries).filter DirEntry.listed).Perm _
  rw [hlisted]

/-! ## Spanning queries -/

theorem querySpanning_eq_ok {dir : Option (List DirEntry)} :
    querySpanning C key dir db q = .ok events ↔
      ∃ archives active, listArchives dir = .ok archives
        ∧ getEventsForFileInRange C key db q = .ok active
        ∧ (archivedEvents C key q archives ++ active).insertionSort
            (fun a b => a.timestampNs ≤ b.timestampNs) = events := by
  unfold querySpanning
  simp only [res_bind_eq_ok, Except.ok.injEq]
  constructor
  · rintro ⟨archives, harchives, active, hactive, hevents⟩
    exact ⟨archives, active, harchives, hactive, hevents⟩
  · rintro ⟨archives, active, harchives, hactive, hevents⟩
    exact ⟨archives, harchives, active, hactive, hevents⟩

theorem querySpanning_of_reads (hreads : ∀ archive ∈ archivesOf entries, Reads C key q archive)
    (hactive : ∀ row ∈ q.select db.events, Verifies C key row) :
    ∃ events, querySpanning C key (some entries) db q = .ok events
      ∧ (events.map Except.ok).Perm ((q.held entries ++ q.select db.events).map rowToEvent)
      ∧ events.Pairwise fun a b => a.timestampNs ≤ b.timestampNs := by
  obtain ⟨archives, hlist, hperm⟩ :=
    listArchives_perm fun archive harchive => (hreads archive harchive).listed
  obtain ⟨active, hread⟩ := exists_readRows
    (fun id => s!"event {id} HMAC mismatch: possible mid-session tampering") hactive
  have htotal : Std.Total fun a b : StoredEvent => a.timestampNs ≤ b.timestampNs :=
    ⟨fun a b => Int.le_total a.timestampNs b.timestampNs⟩
  have htrans : IsTrans StoredEvent fun a b => a.timestampNs ≤ b.timestampNs :=
    ⟨fun _ _ _ => Int.le_trans⟩
  refine ⟨_, querySpanning_eq_ok.mpr ⟨archives, active, hlist, hread, rfl⟩, ?_,
    List.pairwise_insertionSort _ _⟩
  refine ((List.perm_insertionSort _ _).map _).trans ?_
  have harchived := archivedEvents_of_reads
    fun archive harchive => hreads archive (hperm.mem_iff.mp harchive)
  rw [List.map_append, List.map_append, harchived, (readRows_eq_ok.mp hread).2]
  exact ((hperm.flatMap_right _).map _).append_right _

/-- A query is complete exactly when it cannot list the directory or read the active rows, or
when every archive reads and holds the matching rows that were written to it. -/
theorem complete_querySpanning_iff (C : Crypto) (key : Bytes) (dir : Option (List DirEntry))
    (db : Database ExtraColumns) (q : Query) :
    Complete C key dir db q (querySpanning C key dir db q) ↔
      dir = none ∨ (∃ row ∈ q.select db.events, ¬ Verifies C key row)
        ∨ ∃ entries, dir = some entries
          ∧ (∀ archive ∈ archivesOf entries, Reads C key q archive)
          ∧ ((q.held entries).map rowToEvent).Perm ((q.written entries).map rowToEvent) := by
  constructor
  · intro hcomplete
    cases dir with
    | none => exact .inl rfl
    | some entries =>
      right
      by_cases hactive : ∀ row ∈ q.select db.events, Verifies C key row
      · right
        -- The active rows are read, so an archive that is not read would be left out.
        obtain ⟨active, hread⟩ := exists_readRows
          (fun id => s!"event {id} HMAC mismatch: possible mid-session tampering") hactive
        obtain ⟨entries', hdir, hreads, hwritten, -⟩ :=
          hcomplete _ (querySpanning_eq_ok.mpr ⟨_, active, rfl, hread, rfl⟩)
        cases hdir
        obtain ⟨events, hok, hheld, -⟩ := querySpanning_of_reads hreads hactive
        obtain ⟨entries', hdir, -, hwritten, -⟩ := hcomplete events hok
        cases hdir
        refine ⟨entries, rfl, hreads, ?_⟩
        have hperm := hheld.symm.trans hwritten
        rw [List.map_append, List.map_append] at hperm
        exact (List.perm_append_right_iff _).mp hperm
      · left
        push Not at hactive
        exact hactive
  · rintro (rfl | ⟨row, hrow, hbad⟩ | ⟨entries, rfl, hreads, hperm⟩) events hok
    · obtain ⟨archives, active, hlist, -⟩ := querySpanning_eq_ok.mp hok
      cases hlist
    · obtain ⟨archives, active, -, hread, -⟩ := querySpanning_eq_ok.mp hok
      exact absurd ((readRows_eq_ok.mp hread).1 row hrow) hbad
    · obtain ⟨archives, active, -, hread, -⟩ := querySpanning_eq_ok.mp hok
      obtain ⟨events', hok', hheld, hsorted⟩ :=
        querySpanning_of_reads hreads (readRows_eq_ok.mp hread).1
      cases hok.symm.trans hok'
      refine ⟨entries, rfl, hreads, hheld.trans ?_, hsorted⟩
      rw [List.map_append, List.map_append]
      exact hperm.append_right _

end Read

/-! ## A tampered archive -/

def noExtras : ExtraColumns where
  machineId := ""
  contextType := none
  contextNote := none
  vdfInput := none
  vdfOutput := none
  vdfIterations := some 0
  forensicScore := some 0
  isPaste := some 0
  hardwareCounter := none
  inputMethod := none
  lamportSignature := none
  lamportPubkeyFingerprint := none
  challengeNonce := none
  hwCosignSignature := none
  hwCosignPubkey := none
  hwCosignSaltCommitment := none
  hwCosignChainIndex := none
  hwCosignEntangledHash := none
  hwCosignEntropyDigest := none
  hwCosignEntropyBytes := none
  posmeProof := none
  semanticSummary := none

def savedRow (timestampNs : Int) : Row ExtraColumns :=
  { id := 1, record := ((savedAt timestampNs).data zeroHash).record sumHash [] noExtras }

def oneRow (row : Row ExtraColumns) : Table ExtraColumns := ⟨[row], List.pairwise_singleton _ _⟩

/-- The archive of an event saved at 1; its time has been changed to 2 in the file. -/
def tamperedArchive : DirEntry where
  name := "events_archive_20260101.db"
  listed := true
  written := oneRow (savedRow 1)
  content := some (oneRow { savedRow 1 with record.timestampNs := 2 })

def activeRow : Database ExtraColumns :=
  { events := oneRow (savedRow 9), sequence := 2, integrity := none }

def wholeFile : Query := { filePath := "a.txt", startNs := 0, endNs := 100 }

/-- The active event alone is returned, and no error. -/
theorem not_complete_of_tampered :
    (querySpanning sumHash [] (some [tamperedArchive]) activeRow wholeFile).toOption.map
        (List.map StoredEvent.timestampNs) = some [9]
      ∧ ¬ Complete sumHash [] (some [tamperedArchive]) activeRow wholeFile
          (querySpanning sumHash [] (some [tamperedArchive]) activeRow wholeFile) := by
  have hrun : (querySpanning sumHash [] (some [tamperedArchive]) activeRow wholeFile).toOption.map
      (List.map StoredEvent.timestampNs) = some [9] := by decide +kernel
  refine ⟨hrun, fun hcomplete => ?_⟩
  obtain ⟨events, hok, -⟩ := exists_ok_of_toOption hrun
  obtain ⟨entries, hdir, hreads, -⟩ := hcomplete events hok
  cases hdir
  have harchive : tamperedArchive ∈ archivesOf [tamperedArchive] := by
    rw [archivesOf, List.filter_cons_of_pos (by decide +kernel)]
    exact List.mem_cons_self
  obtain ⟨_, hquery, -⟩ := queryArchive_of_reads (hreads tamperedArchive harchive)
  have hnone : (queryArchive sumHash [] wholeFile tamperedArchive).toOption = none := by
    decide +kernel
  rw [hquery] at hnone
  cases hnone

end WritersProof.Store
