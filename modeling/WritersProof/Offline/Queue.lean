/-
  WritersProof.Offline.Queue

  The offline queue (crates/cpoe/src/writersproof/queue.rs, types.rs): text attestations and
  anchors that could not be submitted, one JSON file for each.

  A call is taken to be over at the time it starts.  `attempts` is no part of the program: it has
  what was submitted under each id since the id was last queued.
-/
import Mathlib.Data.List.AList
import Mathlib.Data.List.Sort
import WritersProof.Lib.Hex
import WritersProof.Lib.Vec

namespace WritersProof.Offline

open Rust

/-! ## Entries -/

structure TextAttestationRequest where
  contentHash : String
  tier : String
  writersproofId : String
  signatureHex : String
  publicKeyHex : String
  attestedAt : String
  appBundleId : Option String
  deviceId : Option String

structure AnchorMetadata where
  documentName : Option String
  tier : Option String

structure AnchorRequest where
  evidenceHash : String
  authorDid : String
  signature : String
  metadata : Option AnchorMetadata

structure QueuedAnchor where
  evidenceHash : String
  signature : String
  tier : Option String

/-- The two queues -/
inductive Kind where
  | text
  | anchors

namespace Kind

def maxTextRetries : Nat := 10

def maxAnchorRetries : Nat := 5

def maxRetries : Kind → Nat
  | text => maxTextRetries
  | anchors => maxAnchorRetries

/-- What is stored of a request -/
def Body : Kind → Type
  | text => TextAttestationRequest
  | anchors => QueuedAnchor

/-- What is submitted -/
def Request : Kind → Type
  | text => TextAttestationRequest
  | anchors => AnchorRequest

def request : (kind : Kind) → kind.Body → kind.Request
  | text, request => request
  | anchors, ⟨evidenceHash, signature, tier⟩ =>
    { evidenceHash, authorDid := "", signature, metadata := some { documentName := none, tier } }

theorem maxRetries_le (kind : Kind) : kind.maxRetries ≤ 10 := by
  cases kind <;> decide

end Kind

/-- `QueuedTextAttestation`, `QueuedAnchorRequest` -/
structure Entry (kind : Kind) where
  id : String
  body : kind.Body
  retryCount : Nat
  lastError : Option String
  createdAt : String

def Entry.refused {kind : Kind} (entry : Entry kind) (error : String) : Entry kind :=
  { entry with retryCount := entry.retryCount + 1, lastError := some error }

/-- `format!("{id}.json")` -/
def fileName (id : String) : String := id ++ ".json"

theorem fileName_injective {a b : String} (h : fileName a = fileName b) : a = b :=
  (String.append_left_inj ".json").mp h

/-- `Path::extension` of a file name: what follows the last dot, unless the name starts there -/
def extension (name : String) : Option String :=
  match name.toList.reverse.dropWhile (· ≠ '.') with
  | _ :: _ :: _ => some (String.ofList (name.toList.reverse.takeWhile (· ≠ '.')).reverse)
  | _ => none

/-- Only these ids make a file name. -/
def ValidId (id : String) : Prop := id ≠ "" ∧ ∀ c ∈ id.toList, c.isAlphanum ∨ c = '-' ∨ c = '_'

instance (id : String) : Decidable (ValidId id) :=
  @instDecidableAnd _ _ _ (List.decidableBAll _ _)

def validateId (id : String) : Res String Unit :=
  reject (¬ ValidId id) s!"invalid queue entry ID: {id.quote}"

/-- The crates that the queue rests on.  Times are in nanoseconds since the Unix epoch. -/
structure Crates (kind : Kind) (Data : Type) where
  format : Int → String
  toRfc3339 : Int → String
  parseFromRfc3339 : String → Option Int
  toVecPretty : Entry kind → Data
  fromSlice : Data → Option (Entry kind)
  fromSlice_toVecPretty : ∀ entry, entry.retryCount < 2 ^ 32 →
    fromSlice (toVecPretty entry) = some entry

/-! ## The queue directory -/

structure Attempt (kind : Kind) where
  time : Int
  request : kind.Request
  error : Option String

structure OfflineQueue (kind : Kind) (Data : Type) where
  dir : AList fun _ : String => Data
  attempts : String → List (Attempt kind)

/-- How a file is written: not at all, or all of it, and then its permissions may fail -/
inductive Write where
  | done
  | lost (error : String)
  | kept (error : String)

/-- What the server and the file system answer while one entry has its turn -/
structure Turn where
  response : Option String
  openDir : Option String
  remove : Option String
  write : Write

/-- `fs::read_dir` has the names in any order. -/
structure ReadDir where
  list : List String → List String
  perm : ∀ names, (list names).Perm names

structure Drain where
  now : Int
  openDir : Bool
  /-- An error of one of its entries ends the listing as well. -/
  readDir : Except String ReadDir
  unreadable : String → Bool
  turn : Nat → Turn

structure Enqueue (kind : Kind) where
  body : kind.Body
  stampedAt : Int
  random : FixedBytes 4
  createdAt : Int
  openDir : Option String
  write : Write

abbrev QueueCall (kind : Kind) (Data α : Type) := Call (OfflineQueue kind Data) String α

variable {kind : Kind} {Data : Type} (failure : Option String)

def answered : QueueCall kind Data Unit :=
  match failure with
  | some e => Call.lift (fail e)
  | none => pure ()

variable (path : String)

def insertFile (data : Data) : QueueCall kind Data Unit :=
  Call.modify fun s => { s with dir := s.dir.insert path data }

def eraseFile : QueueCall kind Data Unit :=
  Call.modify fun s => { s with dir := s.dir.erase path }

def pathExists : QueueCall kind Data Bool :=
  Call.asks fun s => (s.dir.lookup path).isSome

/-- The temporary file takes the place of the old one before its permissions are set. -/
def persist (write : Write) (store : QueueCall kind Data Unit) : QueueCall kind Data Unit :=
  match write with
  | .done => store
  | .lost e => Call.lift (fail e)
  | .kept e => do
    store
    Call.lift (fail e)

def atomicWrite (write : Write) (path : String) (data : Data) : QueueCall kind Data Unit :=
  persist write (insertFile path data)

/-- `fs::remove_file(&path)?` -/
def removeFile : QueueCall kind Data Unit := do
  answered failure
  eraseFile path

/-- `if let Err(e) = fs::remove_file(&path)`: the failure is logged. -/
def removeLogged : QueueCall kind Data Unit :=
  match failure with
  | some _ => pure ()
  | none => eraseFile path

/-- The file of an entry in `self.text_dir()?` or `self.anchor_dir()?` -/
def entryPath (turn : Turn) (id : String) : QueueCall kind Data String := do
  Call.lift (validateId id)
  answered turn.openDir
  pure (fileName id)

/-! ## Calls -/

section Calls

variable (X : Crates kind Data)

def newEntry (c : Enqueue kind) : Entry kind where
  id := s!"{X.format c.stampedAt}-{Hex.encode c.random.val}"
  body := c.body
  retryCount := 0
  lastError := none
  createdAt := X.toRfc3339 c.createdAt

def forget (id : String) : QueueCall kind Data Unit :=
  Call.modify fun s => { s with attempts := Function.update s.attempts id [] }

/-- `enqueue_text_attestation`, `enqueue_anchor` -/
def enqueue (c : Enqueue kind) : QueueCall kind Data String := do
  let entry := newEntry X c
  answered c.openDir
  persist c.write do
    insertFile (fileName entry.id) (X.toVecPretty entry)
    forget entry.id
  pure entry.id

def maxListEntries : Nat := 1000

/-- The entry in a file, if the file is one of the queue's and can be read -/
def readEntry (d : Drain) (dir : AList fun _ : String => Data) (name : String) :
    Option (Entry kind) :=
  if extension name = some "json" ∧ d.unreadable name = false then
    (dir.lookup name).bind X.fromSlice
  else none

/-- The loop of `list_text_attestations` and `list_anchors` -/
def listFrom (d : Drain) (dir : AList fun _ : String => Data) :
    List String → List (Entry kind) → List (Entry kind)
  | [], entries => entries
  | name :: names, entries =>
    if extension name ≠ some "json" then listFrom d dir names entries
    else
      let entries := match readEntry X d dir name with
        | some queued => entries ++ [queued]
        | none => entries
      if maxListEntries ≤ entries.length then entries else listFrom d dir names entries

def sortByCreatedAt (entries : List (Entry kind)) : List (Entry kind) :=
  entries.insertionSort fun a b => a.createdAt ≤ b.createdAt

/-- `list_text_attestations`, `list_anchors` -/
def listEntries (d : Drain) (dir : AList fun _ : String => Data) : Res String (List (Entry kind)) :=
  if d.openDir = false then .ok []
  else
    match d.readDir with
    | .error e => fail e
    | .ok order => .ok (sortByCreatedAt (listFrom X d dir (order.list dir.keys) []))

/-- The entry has failed before and `created_at` is not far enough back. -/
def backingOff (now : Int) (entry : Entry kind) : Bool :=
  0 < entry.retryCount &&
    match X.parseFromRfc3339 entry.createdAt with
    | some created =>
      let backoffSecs := 1 <<< min entry.retryCount 9
      now < created + (backoffSecs * entry.retryCount : Nat) * 1000000000
    | none => false

/-- `client.submit_text_attestation`, `client.anchor` -/
def submit (now : Int) (turn : Turn) (entry : Entry kind) :
    QueueCall kind Data (Option String) := do
  let attempt : Attempt kind := ⟨now, kind.request entry.body, turn.response⟩
  Call.modify fun s =>
    { s with attempts := Function.update s.attempts entry.id (s.attempts entry.id ++ [attempt]) }
  pure turn.response

/-- An entry of `drain_text_attestations` that has used up its retries -/
def discardText (turn : Turn) (id : String) : QueueCall kind Data Unit := do
  let path ← entryPath turn id
  if ← pathExists path then removeFile turn.remove path

/-- An entry of `drain_anchors` that has used up its retries -/
def discardAnchor (turn : Turn) (id : String) : QueueCall kind Data Unit := do
  let path ← entryPath turn id
  if ← pathExists path then removeLogged turn.remove path

def discard (kind : Kind) (turn : Turn) (id : String) : QueueCall kind Data Unit :=
  match kind with
  | .text => discardText turn id
  | .anchors => discardAnchor turn id

/-- An entry that the server took -/
def clear (turn : Turn) (id : String) : QueueCall kind Data Unit := do
  let path ← entryPath turn id
  if ← pathExists path then removeLogged turn.remove path

def postpone (turn : Turn) (entry : Entry kind) : QueueCall kind Data Unit := do
  let path ← entryPath turn entry.id
  atomicWrite turn.write path (X.toVecPretty entry)

/-- The body of the drain's loop, on the numbers of submitted and of discarded entries -/
def attemptEntry (now : Int) (turn : Turn) (entry : Entry kind) (counts : Nat × Nat) :
    QueueCall kind Data (Nat × Nat) :=
  if kind.maxRetries ≤ entry.retryCount then do
    discard kind turn entry.id
    pure (counts.1, counts.2 + 1)
  else if backingOff X now entry then pure counts
  else do
    match ← submit now turn entry with
    | none => do
      clear turn entry.id
      pure (counts.1 + 1, counts.2)
    | some e => do
      postpone X turn (entry.refused e)
      pure counts

def drainFrom (d : Drain) : Nat → List (Entry kind) → Nat × Nat → QueueCall kind Data (Nat × Nat)
  | _, [], counts => pure counts
  | i, entry :: entries, counts => do
    let counts ← attemptEntry X d.now (d.turn i) entry counts
    drainFrom d (i + 1) entries counts

/-- `drain_text_attestations`, `drain_anchors` -/
def drain (d : Drain) : QueueCall kind Data (Nat × Nat) := do
  let dir ← Call.asks OfflineQueue.dir
  let entries ← Call.lift (listEntries X d dir)
  drainFrom X d 0 entries (0, 0)

end Calls

/-! ## Listing -/

section Listing

variable {X : Crates kind Data} {d : Drain} {dir : AList fun _ : String => Data}

theorem listFrom_eq (names : List String) :
    ∀ {entries : List (Entry kind)}, entries.length < maxListEntries →
      listFrom X d dir names entries
        = (entries ++ names.filterMap (readEntry X d dir)).take maxListEntries := by
  induction names with
  | nil =>
    intro entries h
    rw [List.filterMap_nil, List.append_nil, List.take_of_length_le (Nat.le_of_lt h)]
    rfl
  | cons name names ih =>
    intro entries h
    rw [listFrom]
    split_ifs with hext
    · have hnone : readEntry X d dir name = none := by
        rw [readEntry, if_neg fun hread => hext hread.1]
      rw [ih h, List.filterMap_cons_none hnone]
    · cases hread : readEntry X d dir name with
      | none =>
        show (if maxListEntries ≤ entries.length then _ else _) = _
        rw [if_neg (Nat.not_le.mpr h), ih h, List.filterMap_cons_none hread]
      | some queued =>
        rw [List.filterMap_cons_some hread, List.append_cons]
        show (if maxListEntries ≤ (entries ++ [queued]).length then _ else _) = _
        split_ifs with hfull
        · -- the listing is full, and what comes later is cut off
          have hlen : (entries ++ [queued]).length = maxListEntries := by
            rw [List.length_append, List.length_singleton] at hfull ⊢
            omega
          rw [List.take_append_of_le_length hfull, ← hlen, List.take_length]
        · exact ih (Nat.not_le.mp hfull)

def readable (X : Crates kind Data) (d : Drain) (order : ReadDir)
    (dir : AList fun _ : String => Data) : List (Entry kind) :=
  (order.list dir.keys).filterMap (readEntry X d dir)

def listed (X : Crates kind Data) (d : Drain) (order : ReadDir)
    (dir : AList fun _ : String => Data) : List (Entry kind) :=
  sortByCreatedAt ((readable X d order dir).take maxListEntries)

/-- A listing has the first thousand entries that can be read, in the order of their `created_at`.
    -/
theorem listEntries_eq_ok {entries : List (Entry kind)} :
    listEntries X d dir = .ok entries ↔
      d.openDir = false ∧ entries = []
        ∨ d.openDir = true ∧ ∃ order, d.readDir = .ok order ∧ entries = listed X d order dir := by
  rw [listEntries]
  cases hopen : d.openDir with
  | false => simp [eq_comm]
  | true =>
    cases hread : d.readDir with
    | error e => simp [fail]
    | ok order =>
      have hlist : listFrom X d dir (order.list dir.keys) []
          = (readable X d order dir).take maxListEntries :=
        listFrom_eq _ (Nat.succ_pos 999)
      show Except.ok (sortByCreatedAt (listFrom X d dir (order.list dir.keys) [])) = _ ↔ _
      rw [hlist]
      simp [listed, eq_comm]

end Listing

/-! ## One turn -/

section Turns

variable {turn : Turn} {id : String} {s : OfflineQueue kind Data}

/-- Nothing has changed but one file, which has stayed as it was or come to `file`. -/
structure Affects (id : String) (file : Option Data) (s s' : OfflineQueue kind Data) : Prop where
  attempts : s'.attempts = s.attempts
  file : s'.dir.lookup (fileName id) = s.dir.lookup (fileName id)
    ∨ s'.dir.lookup (fileName id) = file
  others : ∀ name ≠ fileName id, s'.dir.lookup name = s.dir.lookup name

theorem Affects.refl (id : String) (file : Option Data) (s : OfflineQueue kind Data) :
    Affects id file s s := ⟨rfl, .inl rfl, fun _ _ => rfl⟩

theorem affects_erase (id : String) (s : OfflineQueue kind Data) :
    Affects id none s { s with dir := s.dir.erase (fileName id) } :=
  ⟨rfl, .inr (AList.lookup_erase _ _), fun _ hname => AList.lookup_erase_ne hname⟩

theorem affects_insert (id : String) (data : Data) (s : OfflineQueue kind Data) :
    Affects id (some data) s { s with dir := s.dir.insert (fileName id) data } :=
  ⟨rfl, .inr (AList.lookup_insert _), fun _ hname => AList.lookup_insert_ne hname⟩

theorem entryPath_bind {α : Type} (h : ValidId id ∧ turn.openDir = none)
    (f : String → QueueCall kind Data α) (s : OfflineQueue kind Data) :
    (entryPath turn id >>= f) s = f (fileName id) s := by
  have hpath : (entryPath turn id : QueueCall kind Data String) s = (.ok (fileName id), s) := by
    rw [entryPath, validateId, reject, if_neg (not_not_intro h.1), Call.lift_ok_bind, h.2]
    rfl
  exact Call.bind_of_ok hpath

theorem entryPath_bind_error {α : Type} (h : ¬(ValidId id ∧ turn.openDir = none))
    (f : String → QueueCall kind Data α) (s : OfflineQueue kind Data) :
    ∃ e, (entryPath turn id >>= f) s = (.error e, s) := by
  have hpath : ∃ e, (entryPath turn id : QueueCall kind Data String) s = (.error e, s) := by
    rw [entryPath, validateId, reject]
    by_cases hvalid : ValidId id
    · cases hopen : turn.openDir with
      | none => exact absurd ⟨hvalid, hopen⟩ h
      | some e =>
        rw [if_neg (not_not_intro hvalid), Call.lift_ok_bind]
        exact ⟨_, rfl⟩
    · rw [if_pos hvalid]
      exact ⟨_, rfl⟩
  obtain ⟨e, he⟩ := hpath
  exact ⟨e, Call.bind_of_error he⟩

theorem removeLogged_affects (failure : Option String) (id : String) (s : OfflineQueue kind Data) :
    (removeLogged failure (fileName id) s).1 = .ok ()
      ∧ Affects id none s (removeLogged failure (fileName id) s).2 := by
  cases failure with
  | none => exact ⟨rfl, affects_erase id s⟩
  | some e => exact ⟨rfl, .refl id none s⟩

theorem removeFile_affects (failure : Option String) (id : String) (s : OfflineQueue kind Data) :
    ((removeFile failure (fileName id) s).1 = .ok () ↔ failure = none)
      ∧ Affects id none s (removeFile failure (fileName id) s).2 := by
  cases failure with
  | none => exact ⟨⟨fun _ => rfl, fun _ => rfl⟩, affects_erase id s⟩
  | some e => exact ⟨⟨nofun, nofun⟩, .refl id none s⟩

theorem pathExists_of_isSome {name : String} (h : (s.dir.lookup name).isSome) :
    (pathExists name : QueueCall kind Data Bool) s = (.ok true, s) :=
  congrArg (fun found => (Except.ok found, s)) h

/-- A file that cannot be removed ends the drain of text attestations, not that of anchors. -/
theorem discard_affects (hfile : (s.dir.lookup (fileName id)).isSome) :
    ((discard kind turn id s).1 = .ok () ↔
        (ValidId id ∧ turn.openDir = none) ∧ (kind = .text → turn.remove = none))
      ∧ Affects id none s (discard kind turn id s).2 := by
  by_cases h : ValidId id ∧ turn.openDir = none
  · have hexists := pathExists_of_isSome hfile
    cases kind with
    | text =>
      obtain ⟨hok, haffects⟩ := removeFile_affects turn.remove id s
      rw [discard, discardText, entryPath_bind h, Call.bind_of_ok hexists, if_pos rfl, hok]
      exact ⟨⟨fun hremove => ⟨h, fun _ => hremove⟩, fun hall => hall.2 rfl⟩, haffects⟩
    | anchors =>
      obtain ⟨hok, haffects⟩ := removeLogged_affects turn.remove id s
      rw [discard, discardAnchor, entryPath_bind h, Call.bind_of_ok hexists, if_pos rfl]
      exact ⟨⟨fun _ => ⟨h, nofun⟩, fun _ => hok⟩, haffects⟩
  · have hstop : ∃ e, discard kind turn id s = (.error e, s) := by
      cases kind with
      | text => exact entryPath_bind_error h _ s
      | anchors => exact entryPath_bind_error h _ s
    obtain ⟨e, he⟩ := hstop
    rw [he]
    exact ⟨⟨nofun, fun hall => absurd hall.1 h⟩, .refl id none s⟩

theorem clear_affects (hfile : (s.dir.lookup (fileName id)).isSome) :
    ((clear turn id s).1 = .ok () ↔ ValidId id ∧ turn.openDir = none)
      ∧ Affects id none s (clear turn id s).2 := by
  by_cases h : ValidId id ∧ turn.openDir = none
  · have hexists := pathExists_of_isSome hfile
    obtain ⟨hok, haffects⟩ := removeLogged_affects turn.remove id s
    rw [clear, entryPath_bind h, Call.bind_of_ok hexists, if_pos rfl]
    exact ⟨⟨fun _ => h, fun _ => hok⟩, haffects⟩
  · obtain ⟨e, he⟩ := entryPath_bind_error h
      (fun path => do if ← pathExists path then removeLogged turn.remove path) s
    rw [clear, he]
    exact ⟨⟨nofun, fun hall => absurd hall h⟩, .refl id none s⟩

theorem postpone_affects (X : Crates kind Data) (entry : Entry kind) :
    ((postpone X turn entry s).1 = .ok () ↔
        (ValidId entry.id ∧ turn.openDir = none) ∧ turn.write = .done)
      ∧ Affects entry.id (some (X.toVecPretty entry)) s (postpone X turn entry s).2 := by
  by_cases h : ValidId entry.id ∧ turn.openDir = none
  · rw [postpone, entryPath_bind h]
    cases hwrite : turn.write with
    | done => exact ⟨⟨fun _ => ⟨h, rfl⟩, fun _ => rfl⟩, affects_insert _ _ s⟩
    | lost e => exact ⟨⟨nofun, nofun⟩, .refl _ _ s⟩
    | kept e => exact ⟨⟨nofun, nofun⟩, affects_insert _ _ s⟩
  · obtain ⟨e, he⟩ := entryPath_bind_error h
      (fun path => atomicWrite turn.write path (X.toVecPretty entry)) s
    rw [postpone, he]
    exact ⟨⟨nofun, fun hall => absurd hall.1 h⟩, .refl _ _ s⟩

/-- What a turn can make of the file and the attempts of its entry -/
inductive Treated (X : Crates kind Data) (now : Int) (turn : Turn) (entry : Entry kind)
    (file : Option Data) (attempts : List (Attempt kind)) :
    Option Data → List (Attempt kind) → Prop
  | discarded {file' : Option Data} (hretries : kind.maxRetries ≤ entry.retryCount)
      (hfile : file' = file ∨ file' = none) : Treated X now turn entry file attempts file' attempts
  | waiting (hretries : entry.retryCount < kind.maxRetries)
      (hback : backingOff X now entry = true) : Treated X now turn entry file attempts file attempts
  | submitted {file' : Option Data} (hretries : entry.retryCount < kind.maxRetries)
      (hback : backingOff X now entry = false) (hresponse : turn.response = none)
      (hfile : file' = file ∨ file' = none) :
      Treated X now turn entry file attempts file'
        (attempts ++ [⟨now, kind.request entry.body, none⟩])
  | refused {file' : Option Data} (e : String) (hretries : entry.retryCount < kind.maxRetries)
      (hback : backingOff X now entry = false) (hresponse : turn.response = some e)
      (hfile : file' = file ∨ file' = some (X.toVecPretty (entry.refused e))) :
      Treated X now turn entry file attempts file'
        (attempts ++ [⟨now, kind.request entry.body, some e⟩])

def Passes (X : Crates kind Data) (now : Int) (turn : Turn) (entry : Entry kind) : Prop :=
  if kind.maxRetries ≤ entry.retryCount then
    (ValidId entry.id ∧ turn.openDir = none) ∧ (kind = .text → turn.remove = none)
  else
    backingOff X now entry = true
      ∨ (ValidId entry.id ∧ turn.openDir = none) ∧ (turn.response ≠ none → turn.write = .done)

variable {X : Crates kind Data} {now : Int} {entry : Entry kind} {counts : Nat × Nat}

/-- Only the file and the attempts of the entry have changed, as its turn makes them. -/
structure Turned (X : Crates kind Data) (now : Int) (turn : Turn) (entry : Entry kind)
    (s s' : OfflineQueue kind Data) : Prop where
  treated : Treated X now turn entry (s.dir.lookup (fileName entry.id)) (s.attempts entry.id)
    (s'.dir.lookup (fileName entry.id)) (s'.attempts entry.id)
  files : ∀ name ≠ fileName entry.id, s'.dir.lookup name = s.dir.lookup name
  attempts : ∀ id ≠ entry.id, s'.attempts id = s.attempts id

theorem then_pure {x : QueueCall kind Data Unit} (counts : Nat × Nat) :
    ((∃ counts', ((x >>= fun _ => pure counts) s).1 = .ok counts') ↔ (x s).1 = .ok ())
      ∧ ((x >>= fun _ => pure counts) s).2 = (x s).2 := by
  rw [Call.bind_apply]
  rcases x s with ⟨_ | _, s'⟩
  · exact ⟨⟨nofun, nofun⟩, rfl⟩
  · exact ⟨⟨fun _ => rfl, fun _ => ⟨counts, rfl⟩⟩, rfl⟩

/-- The state in which the answer of the server is dealt with -/
def recorded (now : Int) (turn : Turn) (entry : Entry kind) (s : OfflineQueue kind Data) :
    OfflineQueue kind Data :=
  let attempt : Attempt kind := ⟨now, kind.request entry.body, turn.response⟩
  { s with attempts := Function.update s.attempts entry.id (s.attempts entry.id ++ [attempt]) }

theorem attempts_recorded :
    (recorded now turn entry s).attempts entry.id
      = s.attempts entry.id ++ [⟨now, kind.request entry.body, turn.response⟩] :=
  Function.update_self _ _ _

theorem attempts_recorded_ne (h : id ≠ entry.id) :
    (recorded now turn entry s).attempts id = s.attempts id := Function.update_of_ne h _ _

theorem submit_bind {α : Type} (f : Option String → QueueCall kind Data α) :
    (submit now turn entry >>= f) s = f turn.response (recorded now turn entry s) := rfl

/-- What one turn of the drain does to its entry, that it does nothing to the others, and when the
    next one has its turn. -/
theorem attemptEntry_spec (hfile : (s.dir.lookup (fileName entry.id)).isSome) :
    ((∃ counts', (attemptEntry X now turn entry counts s).1 = .ok counts') ↔
        Passes X now turn entry)
      ∧ Turned X now turn entry s (attemptEntry X now turn entry counts s).2 := by
  rw [attemptEntry, Passes]
  split_ifs with hretries hback
  · obtain ⟨hok, haffects⟩ := @discard_affects kind Data turn entry.id s hfile
    obtain ⟨hreturns, hstate⟩ := then_pure (s := s) (x := discard kind turn entry.id)
      (counts.1, counts.2 + 1)
    rw [hreturns, hstate, hok]
    refine ⟨Iff.rfl, ?_, haffects.others, fun id _ => congrFun haffects.attempts id⟩
    rw [haffects.attempts]
    exact .discarded hretries haffects.file
  · refine ⟨⟨fun _ => .inl hback, fun _ => ⟨counts, rfl⟩⟩, ?_, fun _ _ => rfl, fun _ _ => rfl⟩
    exact .waiting (Nat.not_le.mp hretries) hback
  · have hnot : backingOff X now entry = false := Bool.eq_false_iff.mpr hback
    have hlt := Nat.not_le.mp hretries
    have hrecorded : ((recorded now turn entry s).dir.lookup (fileName entry.id)).isSome := hfile
    have hattempts := @attempts_recorded kind Data turn s now entry
    rw [submit_bind]
    cases hresponse : turn.response with
    | none =>
      obtain ⟨hok, haffects⟩ :=
        @clear_affects kind Data turn entry.id (recorded now turn entry s) hrecorded
      obtain ⟨hreturns, hstate⟩ := then_pure (s := recorded now turn entry s)
        (x := clear turn entry.id) (counts.1 + 1, counts.2)
      refine ⟨hreturns.trans (hok.trans ?_), ?_⟩
      · show _ ↔ _ ∨ _ ∧ (none ≠ none → _)
        exact ⟨fun h => .inr ⟨h, fun hne => absurd rfl hne⟩, fun h => (h.resolve_left hback).1⟩
      · show Turned X now turn entry s ((clear turn entry.id >>= fun _ => pure _) _).2
        rw [hstate]
        refine ⟨?_, haffects.others, fun id hid => ?_⟩
        · rw [haffects.attempts, hattempts, hresponse]
          exact .submitted hlt hnot hresponse haffects.file
        · rw [haffects.attempts, attempts_recorded_ne hid]
    | some e =>
      obtain ⟨hok, haffects⟩ :=
        @postpone_affects kind Data turn (recorded now turn entry s) X (entry.refused e)
      obtain ⟨hreturns, hstate⟩ := then_pure (s := recorded now turn entry s)
        (x := postpone X turn (entry.refused e)) counts
      refine ⟨hreturns.trans (hok.trans ?_), ?_⟩
      · show (ValidId entry.id ∧ _) ∧ _ ↔ _ ∨ _ ∧ (some e ≠ none → _)
        exact ⟨fun h => .inr ⟨h.1, fun _ => h.2⟩, fun h =>
          ⟨(h.resolve_left hback).1, (h.resolve_left hback).2 (Option.some_ne_none e)⟩⟩
      · show Turned X now turn entry s ((postpone X turn _ >>= fun _ => pure _) _).2
        rw [hstate]
        refine ⟨?_, haffects.others, fun id hid => ?_⟩
        · rw [haffects.attempts, hattempts, hresponse]
          exact .refused e hlt hnot hresponse haffects.file
        · rw [haffects.attempts, attempts_recorded_ne hid]

end Turns

/-! ## The loop -/

section Loop

variable {X : Crates kind Data} {d : Drain} {entries : List (Entry kind)}

/-- The entry has the turn `n`: the drain goes on behind all those before it. -/
def HasTurn (X : Crates kind Data) (d : Drain) :
    Nat → List (Entry kind) → Nat → Entry kind → Prop
  | _, [], _, _ => False
  | i, first :: entries, n, entry =>
    n = i ∧ entry = first ∨ Passes X d.now (d.turn i) first ∧ HasTurn X d (i + 1) entries n entry

theorem HasTurn.mem :
    ∀ {i n : Nat} {entry : Entry kind}, HasTurn X d i entries n entry → entry ∈ entries := by
  induction entries with
  | nil => exact fun h => h.elim
  | cons first entries ih =>
    rintro i n entry (⟨-, rfl⟩ | ⟨-, h⟩)
    · exact List.mem_cons_self
    · exact List.mem_cons_of_mem _ (ih h)

structure Drained (X : Crates kind Data) (d : Drain) (i : Nat) (entries : List (Entry kind))
    (s s' : OfflineQueue kind Data) : Prop where
  files : ∀ name, (∀ e ∈ entries, name ≠ fileName e.id) → s'.dir.lookup name = s.dir.lookup name
  attempts : ∀ id, (∀ e ∈ entries, id ≠ e.id) → s'.attempts id = s.attempts id
  treated : ∀ n e, HasTurn X d i entries n e →
    Treated X d.now (d.turn n) e (s.dir.lookup (fileName e.id)) (s.attempts e.id)
      (s'.dir.lookup (fileName e.id)) (s'.attempts e.id)
  unreached : ∀ e ∈ entries, (∀ n, ¬ HasTurn X d i entries n e) →
    s'.dir.lookup (fileName e.id) = s.dir.lookup (fileName e.id)
      ∧ s'.attempts e.id = s.attempts e.id

/-- The same for the whole loop. -/
theorem drainFrom_spec :
    ∀ (i : Nat) (counts : Nat × Nat) (s : OfflineQueue kind Data),
      (entries.map Entry.id).Nodup → (∀ e ∈ entries, (s.dir.lookup (fileName e.id)).isSome) →
      Drained X d i entries s (drainFrom X d i entries counts s).2 := by
  induction entries with
  | nil => exact fun _ _ _ _ _ => ⟨fun _ _ => rfl, fun _ _ => rfl, fun _ _ h => h.elim, nofun⟩
  | cons first entries ih =>
    intro i counts s hnodup hfiles
    obtain ⟨hpasses, hturned⟩ := @attemptEntry_spec kind Data (d.turn i) s X d.now first counts
      (hfiles first List.mem_cons_self)
    obtain ⟨hfresh, hnodup'⟩ := List.nodup_cons.mp hnodup
    have hne : ∀ e ∈ entries, e.id ≠ first.id := by
      intro e he heq
      exact hfresh (heq ▸ List.mem_map_of_mem he)
    have hname : ∀ e ∈ entries, fileName e.id ≠ fileName first.id := fun e he heq =>
      hne e he (fileName_injective heq)
    generalize hfirst : attemptEntry X d.now (d.turn i) first counts s = out at hpasses hturned
    obtain ⟨outcome, s₁⟩ := out
    cases outcome with
    | error e =>
      -- the drain ends here
      have hstop : ¬ Passes X d.now (d.turn i) first := by
        intro h
        obtain ⟨counts', hok⟩ := hpasses.mpr h
        cases hok
      rw [drainFrom, Call.bind_of_error hfirst]
      refine ⟨fun name hall => hturned.files name (hall first List.mem_cons_self),
        fun id hall => hturned.attempts id (hall first List.mem_cons_self), ?_, ?_⟩
      · rintro n entry (⟨rfl, rfl⟩ | ⟨hpass, -⟩)
        · exact hturned.treated
        · exact absurd hpass hstop
      · intro entry hmem hno
        cases hmem with
        | head => exact absurd (.inl ⟨rfl, rfl⟩) (hno i)
        | tail _ hmem =>
          exact ⟨hturned.files _ (hname entry hmem), hturned.attempts _ (hne entry hmem)⟩
    | ok counts' =>
      have hpass : Passes X d.now (d.turn i) first := hpasses.mp ⟨counts', rfl⟩
      have hfiles' : ∀ e ∈ entries, (s₁.dir.lookup (fileName e.id)).isSome := by
        intro e he
        rw [hturned.files _ (hname e he)]
        exact hfiles e (List.mem_cons_of_mem _ he)
      have hrest := ih (i + 1) counts' s₁ hnodup' hfiles'
      rw [drainFrom, Call.bind_of_ok hfirst]
      refine ⟨fun name hall => ?_, fun id hall => ?_, ?_, ?_⟩
      · rw [hrest.files name fun e he => hall e (List.mem_cons_of_mem _ he),
          hturned.files name (hall first List.mem_cons_self)]
      · rw [hrest.attempts id fun e he => hall e (List.mem_cons_of_mem _ he),
          hturned.attempts id (hall first List.mem_cons_self)]
      · rintro n entry (⟨rfl, rfl⟩ | ⟨-, h⟩)
        · rw [hrest.files _ fun e he => (hname e he).symm,
            hrest.attempts _ fun e he => (hne e he).symm]
          exact hturned.treated
        · have htreated := hrest.treated n entry h
          rw [hturned.files _ (hname entry h.mem), hturned.attempts _ (hne entry h.mem)] at htreated
          exact htreated
      · intro entry hmem hno
        cases hmem with
        | head => exact absurd (.inl ⟨rfl, rfl⟩) (hno i)
        | tail _ hmem =>
          have hsame := hrest.unreached entry hmem fun n h => hno n (.inr ⟨hpass, h⟩)
          rw [hturned.files _ (hname entry hmem), hturned.attempts _ (hne entry hmem)] at hsame
          exact hsame

end Loop

end WritersProof.Offline
