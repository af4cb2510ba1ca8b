/-
  WritersProof.Store.AccessLog

  The access log (crates/cpoe/src/store/access_log.rs) and edits of its table by someone who does
  not have the key.

  A row holds an HMAC of its own columns.  A row without one, from before the column was there, is
  skipped, and no row says which rows are next to it.
-/
import WritersProof.Lib.Machine
import WritersProof.Lib.Reader
import WritersProof.Lib.Text
import WritersProof.Lib.Hex
import WritersProof.Store.Database

namespace WritersProof.AccessLog

open Rust Bytes Machine
open WritersProof.Store (Crypto Digest)

/-! ## Entries and rows -/

inductive AccessAction where
  | read
  | write
  | delete
  | «export»
  | verify

def AccessAction.asStr : AccessAction → String
  | read => "read"
  | write => "write"
  | delete => "delete"
  | «export» => "export"
  | verify => "verify"

inductive AccessResult where
  | success
  | denied

def AccessResult.asStr : AccessResult → String
  | success => "success"
  | denied => "denied"

/-- `AccessLogEntry`.  The id is set by `logAccess`. -/
structure AccessLogEntry where
  id : Option Int
  timestampNs : Int64
  actorId : String
  action : AccessAction
  resource : String
  result : AccessResult
  ipOrSource : String

/-- The columns that an HMAC is about -/
structure Fields where
  timestampNs : Int64
  actorId : String
  action : String
  resource : String
  result : String
  ipOrSource : String

def AccessLogEntry.fields (e : AccessLogEntry) : Fields where
  timestampNs := e.timestampNs
  actorId := e.actorId
  action := e.action.asStr
  resource := e.resource
  result := e.result.asStr
  ipOrSource := e.ipOrSource

/-- The longest text or blob that SQLite takes or gives -/
def sqliteMaxLength : Nat := 1000000000

/-- A text of the database.  Nothing says that it is UTF-8. -/
structure SqlText where
  bytes : Bytes
  length_le : bytes.length ≤ sqliteMaxLength

/-- What a column can hold, whatever it was declared as -/
inductive Value where
  | null
  | integer (n : Int64)
  | real (bits : UInt64)
  | text (text : SqlText)
  | blob (bytes : Bytes)

/-- The columns of `access_log` other than the id -/
structure Columns where
  timestampNs : Value
  actorId : Value
  action : Value
  resource : Value
  result : Value
  ipOrSource : Value
  entryHmac : Value

abbrev LogTable := Sql.Table Columns

/-! ## The HMAC of an entry -/

def accessLogHmacDst : Bytes := utf8 "cpoe-access-log-v1"

/-- A field behind its length as `u32`, whose four bytes are the low ones -/
def lengthPrefixed (field : String) : Bytes :=
  toBE 4 (utf8 field).length ++ utf8 field

def Fields.texts (f : Fields) : List String :=
  [f.actorId, f.action, f.resource, f.result, f.ipOrSource]

def Fields.message (f : Fields) : Bytes :=
  accessLogHmacDst ++ (toBE 8 f.timestampNs.toUInt64.toNat ++ f.texts.flatMap lengthPrefixed)

variable (C : Crypto) (key : Bytes)

def computeAccessEntryHmac (f : Fields) : Digest := C.hmac key f.message

def hmacHex (f : Fields) : String :=
  Hex.encode (computeAccessEntryHmac C key f).val

/-! ## Writing -/

def bindText (s : String) : Res String SqlText :=
  if h : (utf8 s).length ≤ sqliteMaxLength then .ok ⟨utf8 s, h⟩
  else fail "String or BLOB exceeded size limit"

def bindEntry (e : AccessLogEntry) : Res String Columns := do
  let hmacHex := hmacHex C key e.fields
  let actorId ← bindText e.actorId
  let action ← bindText e.action.asStr
  let resource ← bindText e.resource
  let result ← bindText e.result.asStr
  let ipOrSource ← bindText e.ipOrSource
  let entryHmac ← bindText hmacHex
  pure {
    timestampNs := .integer e.timestampNs
    actorId := .text actorId
    action := .text action
    resource := .text resource
    result := .text result
    ipOrSource := .text ipOrSource
    entryHmac := .text entryHmac }

/-- `failure` is a reason of its own for which the `INSERT` fails. -/
def logAccess (failure : Option String) (e : AccessLogEntry) :
    Call LogTable String AccessLogEntry := do
  let row ← Call.lift (bindEntry C key e)
  Call.reject failure.isSome (failure.getD "")
  let sequence ← Call.asks Sql.Table.sequence
  Call.reject (sequence ≥ i64Max) "database or disk is full"
  Call.modify fun t => t.insert row
  pure { e with id := some (sequence + 1) }

/-! ## Verification -/

def Value.typeName : Value → String
  | null => "Null"
  | integer _ => "Integer"
  | real _ => "Real"
  | text _ => "Text"
  | blob _ => "Blob"

/-- `row.get::<_, i64>` -/
def Value.getI64 (index : Nat) (name : String) : Value → Res String Int64
  | integer n => .ok n
  | v => fail s!"Invalid column type {v.typeName} at index: {index}, name: {name}"

/-- `row.get::<_, String>` -/
def Value.getString (index : Nat) (name : String) : Value → Res String String
  | text t => okOr (Text.fromUtf8 t.bytes)
      s!"Conversion error from type Text at index: {index}, invalid utf-8 sequence"
  | v => fail s!"Invalid column type {v.typeName} at index: {index}, name: {name}"

/-- `row.get::<_, Option<String>>` -/
def Value.getOptString (index : Nat) (name : String) : Value → Res String (Option String)
  | null => .ok none
  | v => some <$> v.getString index name

def Columns.fields (row : Columns) : Res String Fields := do
  let timestampNs ← row.timestampNs.getI64 0 "timestamp_ns"
  let actorId ← row.actorId.getString 1 "actor_id"
  let action ← row.action.getString 2 "action"
  let resource ← row.resource.getString 3 "resource"
  let result ← row.result.getString 4 "result"
  let ipOrSource ← row.ipOrSource.getString 5 "ip_or_source"
  pure ⟨timestampNs, actorId, action, resource, result, ipOrSource⟩

/-- One turn of the loop: whether it goes on -/
def verifyRow (row : Columns) : Res String Bool := do
  let storedHmac ← row.entryHmac.getOptString 6 "entry_hmac"
  match storedHmac with
  | none => pure true
  | some storedHmac =>
    let fields ← row.fields
    let expectedHex := hmacHex C key fields
    pure (decide (utf8 storedHmac = utf8 expectedHex))

/-- What can go wrong while a table is read: the preparation of the statement, and each
`rows.next()` -/
structure ReadEnv where
  prepare : Option String
  next : Nat → Option String

/-- The loop over the rows, at its `n`th turn -/
def verifyRows (C : Crypto) (key : Bytes) (next : Nat → Option String) :
    Nat → List Columns → Res String Bool
  | n, [] => do
    reject (next n).isSome ((next n).getD "")
    pure true
  | n, row :: rows => do
    reject (next n).isSome ((next n).getD "")
    let same ← verifyRow C key row
    if same then verifyRows C key next (n + 1) rows else pure false

def verifyAccessLogIntegrity (env : ReadEnv) (t : LogTable) :
    Res String Bool := do
  reject env.prepare.isSome (env.prepare.getD "")
  verifyRows C key env.next 0 t.records

/-! ## What a row shows -/

def Value.IsText (v : Value) (s : String) : Prop := ∃ t, v = text t ∧ t.bytes = utf8 s

structure Columns.Shows (row : Columns) (f : Fields) : Prop where
  timestampNs : row.timestampNs = .integer f.timestampNs
  actorId : row.actorId.IsText f.actorId
  action : row.action.IsText f.action
  resource : row.resource.IsText f.resource
  result : row.result.IsText f.result
  ipOrSource : row.ipOrSource.IsText f.ipOrSource

def Columns.Tagged (row : Columns) (f : Fields) : Prop :=
  row.Shows f ∧ row.entryHmac.IsText (hmacHex C key f)

/-- Every statement gets through, down to the end of the table. -/
structure ReadEnv.Reads (env : ReadEnv) (t : LogTable) : Prop where
  prepare : env.prepare = none
  next : ∀ n ≤ t.records.length, env.next n = none

section Reading

variable {C : Crypto} {key : Bytes} {row : Columns} {f g : Fields} {v : Value} {s s' : String}
  {index : Nat} {name : String}

theorem Value.getI64_eq_ok {n : Int64} : v.getI64 index name = .ok n ↔ v = .integer n := by
  cases v <;> simp [getI64]

theorem Value.getString_eq_ok : v.getString index name = .ok s ↔ v.IsText s := by
  cases v with
  | text t =>
    rw [getString, okOr_eq_ok, Text.fromUtf8_eq_some]
    exact ⟨fun h => ⟨t, rfl, h⟩, fun ⟨t', ht, h⟩ => (text.inj ht).symm ▸ h⟩
  | _ => simp [getString, IsText]

/-- A column that is not empty is read as a text. -/
theorem Value.getOptString_eq_ok {o : Option String} :
    v.getOptString index name = .ok o ↔ v = .null ∧ o = none ∨ ∃ s, v.IsText s ∧ o = some s := by
  have htext : ∀ w : Value, (some <$> w.getString index name : Res String (Option String)) = .ok o ↔
      ∃ s, w.IsText s ∧ o = some s := by
    intro w
    rw [map_eq_pure_bind, res_bind_eq_ok]
    simp only [getString_eq_ok, res_pure, Except.ok.injEq, eq_comm (b := o)]
  cases v with
  | null =>
    rw [getOptString]
    simp [IsText, eq_comm]
  | _ =>
    rw [getOptString, htext]
    · simp
    · exact nofun

theorem Value.IsText.length_lt (h : v.IsText s) : (utf8 s).length < 256 ^ 4 := by
  obtain ⟨t, -, ht⟩ := h
  rw [← ht]
  exact lt_of_le_of_lt t.length_le (by decide)

theorem Columns.fields_eq_ok : row.fields = .ok f ↔ row.Shows f := by
  rw [fields]
  simp only [res_bind_eq_ok, Value.getI64_eq_ok, Value.getString_eq_ok, res_pure, Except.ok.injEq]
  constructor
  · rintro ⟨ts, hts, actor, hactor, action, haction, resource, hresource, result, hresult, source,
      hsource, rfl⟩
    exact ⟨hts, hactor, haction, hresource, hresult, hsource⟩
  · intro h
    exact ⟨_, h.timestampNs, _, h.actorId, _, h.action, _, h.resource, _, h.result, _,
      h.ipOrSource, rfl⟩

theorem Columns.Shows.unique (h : row.Shows f) (h' : row.Shows g) : f = g := by
  have hread := Columns.fields_eq_ok.mpr h
  rw [Columns.fields_eq_ok.mpr h'] at hread
  exact (Except.ok.inj hread).symm

theorem verifyRow_eq_true :
    verifyRow C key row = .ok true ↔ row.entryHmac = .null ∨ ∃ f, row.Tagged C key f := by
  rw [verifyRow, res_bind_eq_ok]
  simp only [Value.getOptString_eq_ok]
  constructor
  · rintro ⟨stored, ⟨hnull, -⟩ | ⟨s, htext, rfl⟩, hrest⟩
    · exact .inl hnull
    · obtain ⟨f, hf, hsame⟩ := res_bind_eq_ok.mp hrest
      have hbytes := of_decide_eq_true (Except.ok.inj hsame)
      exact .inr ⟨f, Columns.fields_eq_ok.mp hf, utf8_injective hbytes ▸ htext⟩
  · rintro (hnull | ⟨f, hshows, htext⟩)
    · exact ⟨none, .inl ⟨hnull, rfl⟩, rfl⟩
    · refine ⟨_, .inr ⟨_, htext, rfl⟩, ?_⟩
      show (do
        let fields ← row.fields
        pure (decide (utf8 (hmacHex C key f) = utf8 (hmacHex C key fields)))) = _
      rw [Columns.fields_eq_ok.mpr hshows]
      simp

theorem verifyRows_eq_true {next : Nat → Option String} {rows : List Columns} {n : Nat} :
    verifyRows C key next n rows = .ok true ↔
      (∀ m ≤ rows.length, next (n + m) = none)
        ∧ ∀ row ∈ rows, row.entryHmac = .null ∨ ∃ f, row.Tagged C key f := by
  induction rows generalizing n with
  | nil =>
    rw [verifyRows, reject_bind_eq_ok]
    simp
  | cons row rows ih =>
    rw [verifyRows, reject_bind_eq_ok, res_bind_eq_ok, List.forall_mem_cons, ← verifyRow_eq_true]
    have hsplit : (∀ m ≤ (row :: rows).length, next (n + m) = none) ↔
        next n = none ∧ ∀ m ≤ rows.length, next (n + 1 + m) = none := by
      constructor
      · intro h
        refine ⟨h 0 (Nat.zero_le _), fun m hm => ?_⟩
        rw [Nat.add_assoc, Nat.add_comm 1 m]
        exact h (m + 1) (Nat.succ_le_succ hm)
      · rintro ⟨hzero, hrest⟩ m hm
        cases m with
        | zero => exact hzero
        | succ m =>
          rw [Nat.add_comm m 1, ← Nat.add_assoc]
          exact hrest m (Nat.le_of_succ_le_succ hm)
    rw [hsplit]
    constructor
    · rintro ⟨hnext, same, hrow, hrest⟩
      cases same with
      | false => cases hrest
      | true =>
        obtain ⟨hnexts, hrows⟩ := ih.mp hrest
        exact ⟨⟨by simpa using hnext, hnexts⟩, hrow, hrows⟩
    · rintro ⟨⟨hnext, hnexts⟩, hrow, hrows⟩
      exact ⟨by simp [hnext], true, hrow, ih.mpr ⟨hnexts, hrows⟩⟩

/-- What a verification that reports true has found in the table. -/
theorem verify_eq_true_iff {env : ReadEnv} {t : LogTable} :
    verifyAccessLogIntegrity C key env t = .ok true ↔
      env.Reads t ∧ ∀ row ∈ t.records, row.entryHmac = .null ∨ ∃ f, row.Tagged C key f := by
  rw [verifyAccessLogIntegrity, reject_bind_eq_ok, verifyRows_eq_true]
  simp only [Nat.zero_add]
  constructor
  · rintro ⟨hprepare, hnext, hrows⟩
    exact ⟨⟨by simpa using hprepare, hnext⟩, hrows⟩
  · rintro ⟨⟨hprepare, hnext⟩, hrows⟩
    exact ⟨by simp [hprepare], hnext, hrows⟩

/-! ## Messages and fields -/

def Fields.Short (f : Fields) : Prop := ∀ s ∈ f.texts, (utf8 s).length < 256 ^ 4

theorem Columns.Shows.short (h : row.Shows f) : f.Short := by
  intro s hs
  simp only [Fields.texts, List.mem_cons, List.not_mem_nil, or_false] at hs
  rcases hs with rfl | rfl | rfl | rfl | rfl
  · exact h.actorId.length_lt
  · exact h.action.length_lt
  · exact h.resource.length_lt
  · exact h.result.length_lt
  · exact h.ipOrSource.length_lt

theorem separates_lengthPrefixed :
    PrefixCode.Separates (fun s => (utf8 s).length < 256 ^ 4) lengthPrefixed :=
  (PrefixCode.separates_prefixed 4).comap (f := utf8) fun _ _ => utf8_injective

theorem fields_of_message (hf : f.Short) (hg : g.Short) (h : f.message = g.message) : f = g := by
  rw [Fields.message, Fields.message, List.append_cancel_left_eq] at h
  have hbound : ∀ n : Int64, n.toUInt64.toNat < 256 ^ 8 := fun n => n.toUInt64.toNat_lt
  obtain ⟨htime, htexts⟩ := PrefixCode.separates_toBE 8 _ _ (hbound _) (hbound _) _ _ h
  have htime : f.timestampNs = g.timestampNs :=
    congrArg Int64.ofUInt64 (UInt64.toNat_inj.mp htime)
  have hlen : f.texts.length = g.texts.length := rfl
  have htexts := (separates_lengthPrefixed.flatMap hlen hf hg (congrArg (· ++ []) htexts)).1
  simp only [Fields.texts, List.cons.injEq] at htexts
  obtain ⟨hactor, haction, hresource, hresult, hsource, -⟩ := htexts
  cases f
  cases g
  cases htime
  cases hactor
  cases haction
  cases hresource
  cases hresult
  cases hsource
  rfl

end Reading

/-! ## Runs with edits -/

/-- A call of `log_access`, or an edit of the whole table while nobody has it open -/
inductive Action where
  | log (failure : Option String) (e : AccessLogEntry)
  | edit (t : LogTable)

/-- The table, and the entries for which `log_access` returned `Ok` -/
structure State where
  table : LogTable
  entries : List AccessLogEntry

def Action.step (C : Crypto) (key : Bytes) : Action → State → Res String Unit × State
  | log failure e, st =>
    match logAccess C key failure e st.table with
    | (.ok e', t) => (.ok (), ⟨t, st.entries ++ [e']⟩)
    | (.error fault, t) => (.error fault, { st with table := t })
  | edit t, st => (.ok (), { st with table := t })

def State.init : State := ⟨.empty, []⟩

/-- Who edits the table has no HMAC under the key but those of the entries that were logged. -/
def Unforgeable (C : Crypto) (key : Bytes) : Action → State → Prop
  | .log _ _, _ => True
  | .edit t, st => ∀ row ∈ t.records, ∀ f, row.Tagged C key f →
    ∃ e ∈ st.entries, e.fields.message = f.message

section Runs

variable {C : Crypto} {key : Bytes} {st : State} {a : Action}

theorem bindText_eq_ok {s : String} {t : SqlText} (h : bindText s = .ok t) :
    (Value.text t).IsText s := by
  rw [bindText] at h
  split at h
  · exact ⟨t, rfl, congrArg SqlText.bytes (Except.ok.inj h).symm⟩
  · cases h

variable {e : AccessLogEntry} {failure : Option String} {t t' : LogTable}

theorem tagged_of_bindEntry {row : Columns} (h : bindEntry C key e = .ok row) :
    row.Tagged C key e.fields := by
  simp only [bindEntry, res_bind_eq_ok, res_pure, Except.ok.injEq] at h
  obtain ⟨actor, hactor, action, haction, resource, hresource, result, hresult, source, hsource,
    tag, htag, rfl⟩ := h
  exact ⟨⟨rfl, bindText_eq_ok hactor, bindText_eq_ok haction, bindText_eq_ok hresource,
    bindText_eq_ok hresult, bindText_eq_ok hsource⟩, bindText_eq_ok htag⟩

/-- An entry that is logged is a new row. -/
theorem logAccess_eq_ok {e' : AccessLogEntry} (h : logAccess C key failure e t = (.ok e', t')) :
    e'.fields = e.fields ∧ ∃ row, row.Tagged C key e.fields ∧ t' = t.insert row := by
  rw [logAccess, Call.lift_bind_eq_ok] at h
  obtain ⟨row, hrow, h⟩ := h
  rw [Call.reject_bind_eq_ok, Call.asks_bind, Call.reject_bind_eq_ok,
    Call.bind_of_ok (Call.modify_apply _ _), Call.pure_apply] at h
  obtain ⟨hok, rfl⟩ := Prod.mk.inj h.2.2
  rw [← Except.ok.inj hok]
  exact ⟨rfl, row, tagged_of_bindEntry hrow, rfl⟩

theorem logAccess_error {fault : Fault String}
    (h : logAccess C key failure e t = (.error fault, t')) : t' = t := by
  rw [logAccess] at h
  rcases hrow : bindEntry C key e with fault' | row
  · rw [hrow, Call.lift_error_bind] at h
    exact (Prod.mk.inj h).2.symm
  · rw [hrow, Call.lift_ok_bind] at h
    by_cases hfailure : failure.isSome
    · rw [Call.reject_bind_pos hfailure] at h
      exact (Prod.mk.inj h).2.symm
    · rw [Call.reject_bind_neg hfailure, Call.asks_bind] at h
      by_cases hfull : t.sequence ≥ i64Max
      · rw [Call.reject_bind_pos hfull] at h
        exact (Prod.mk.inj h).2.symm
      · rw [Call.reject_bind_neg hfull, Call.bind_of_ok (Call.modify_apply _ _)] at h
        cases h

/-- What a step does to the table and to the entries -/
theorem step_cases (C : Crypto) (key : Bytes) (a : Action) (st : State) :
    (∃ e row, row.Tagged C key e.fields
        ∧ (a.step C key st).2 = ⟨st.table.insert row, st.entries ++ [e]⟩)
      ∨ (a.step C key st).2 = st
      ∨ ∃ t, a = .edit t ∧ (a.step C key st).2 = { st with table := t } := by
  cases a with
  | log failure e =>
    rw [Action.step]
    rcases hlog : logAccess C key failure e st.table with ⟨fault | e', t⟩
    · obtain rfl := logAccess_error hlog
      exact .inr (.inl rfl)
    · obtain ⟨hfields, row, hrow, rfl⟩ := logAccess_eq_ok hlog
      exact .inl ⟨e', row, hfields ▸ hrow, rfl⟩
  | edit t => exact .inr (.inr ⟨t, rfl, rfl⟩)

/-- The entries have short texts, and every row with an HMAC of its own has that of an entry. -/
structure Inv (C : Crypto) (key : Bytes) (st : State) : Prop where
  short : ∀ e ∈ st.entries, e.fields.Short
  logged : ∀ row ∈ st.table.records, ∀ f, row.Tagged C key f →
    ∃ e ∈ st.entries, e.fields.message = f.message

theorem inv_init : Inv C key .init := ⟨List.forall_mem_nil _, List.forall_mem_nil _⟩

/-- No action breaks the invariant without a forged tag. -/
theorem inv_step (hst : Inv C key st) (h : Unforgeable C key a st) :
    Inv C key (a.step C key st).2 := by
  rcases step_cases C key a st with ⟨e, row, hrow, hstep⟩ | hstep | ⟨t, rfl, hstep⟩
  · rw [hstep]
    refine ⟨?_, ?_⟩
    · intro e' he'
      rcases List.mem_append.mp he' with hold | hnew
      · exact hst.short e' hold
      · rw [List.mem_singleton.mp hnew]
        exact hrow.1.short
    · intro row' hrow' f hf
      rw [Sql.Table.records_insert] at hrow'
      rcases List.mem_append.mp hrow' with hold | hnew
      · obtain ⟨e', he', hmessage⟩ := hst.logged row' hold f hf
        exact ⟨e', List.mem_append_left _ he', hmessage⟩
      · -- The new row shows nothing but the entry it was made of.
        rw [List.mem_singleton.mp hnew] at hf
        exact ⟨e, List.mem_append_right _ List.mem_cons_self,
          congrArg Fields.message (hrow.1.unique hf.1)⟩
  · rw [hstep]
    exact hst
  · rw [hstep]
    exact ⟨hst.short, h⟩

/-- Who only takes rows away has forged nothing. -/
theorem unforgeable_of_subset (hst : Inv C key st) (h : ∀ row ∈ t.records, row ∈ st.table.records) :
    Unforgeable C key (.edit t) st :=
  fun row hrow => hst.logged row (h row hrow)

/-- After a run in which nobody forges an HMAC, a verification reports true just when it reads the
whole table and every row has no HMAC, or has the columns and the HMAC of an entry that was
logged. -/
theorem verify_iff_logged (as : List Action)
    (h : Machine.Along (Action.step C key) (Unforgeable C key) as .init) (env : ReadEnv) :
    verifyAccessLogIntegrity C key env (run (Action.step C key) as .init).2.table = .ok true
      ↔ env.Reads (run (Action.step C key) as .init).2.table
        ∧ ∀ row ∈ (run (Action.step C key) as .init).2.table.records,
          row.entryHmac = .null ∨ ∃ e ∈ (run (Action.step C key) as .init).2.entries,
            row.Tagged C key e.fields := by
  have hinv := run_invariant (fun _ _ => inv_step) as _ inv_init h
  rw [verify_eq_true_iff]
  refine and_congr_right fun _ => forall₂_congr fun row hrow => or_congr_right ?_
  constructor
  · rintro ⟨f, hf⟩
    obtain ⟨e, he, hmessage⟩ := hinv.logged row hrow f hf
    rw [← fields_of_message (hinv.short e he) hf.1.short hmessage] at hf
    exact ⟨e, he, hf⟩
  · rintro ⟨e, -, he⟩
    exact ⟨e.fields, he⟩

end Runs

/-! ### A row that is taken away -/

/-- An HMAC that tells apart the messages below -/
def sumHmac : Crypto where
  sha256 bytes := FixedBytes.filled 32 bytes.sum
  hmac key bytes := FixedBytes.filled 32 (key.sum + bytes.sum)

def entryAt (timestampNs : Int64) : AccessLogEntry where
  id := none
  timestampNs := timestampNs
  actorId := "did:key:z6MkTest"
  action := .read
  resource := "/tmp/doc.txt"
  result := .success
  ipOrSource := "ipc"

def twoLogged : State :=
  (Action.step sumHmac [7] (.log none (entryAt 2))
    (Action.step sumHmac [7] (.log none (entryAt 1)) .init).2).2

/-- Two entries are logged, and the row of the first one is deleted. -/
def deletion : List Action :=
  [.log none (entryAt 1), .log none (entryAt 2), .edit (twoLogged.table.delete 1)]

theorem unforgeable_deletion :
    Machine.Along (Action.step sumHmac [7]) (Unforgeable sumHmac [7]) deletion .init := by
  have hone : Inv sumHmac [7] (Action.step sumHmac [7] (.log none (entryAt 1)) .init).2 :=
    inv_step inv_init trivial
  have htwo : Inv sumHmac [7] twoLogged := inv_step hone trivial
  have hdelete : Unforgeable sumHmac [7] (.edit (twoLogged.table.delete 1)) twoLogged :=
    unforgeable_of_subset htwo fun row hrow =>
      (twoLogged.table.records_delete_sublist 1).subset hrow
  exact ⟨trivial, trivial, hdelete, trivial⟩

/-- Nothing goes wrong while the table is read. -/
def quietRead : ReadEnv := ⟨none, fun _ => none⟩

theorem verify_iff_logged_deletion :
    verifyAccessLogIntegrity sumHmac [7] quietRead
        (run (Action.step sumHmac [7]) deletion .init).2.table = .ok true
      ↔ quietRead.Reads (run (Action.step sumHmac [7]) deletion .init).2.table
        ∧ ∀ row ∈ (run (Action.step sumHmac [7]) deletion .init).2.table.records,
          row.entryHmac = .null
            ∨ ∃ e ∈ (run (Action.step sumHmac [7]) deletion .init).2.entries,
              row.Tagged sumHmac [7] e.fields :=
  verify_iff_logged deletion unforgeable_deletion quietRead

/-- The verification reports true of the one row that is left. -/
theorem verify_true_of_deletion :
    ¬ ∀ as : List Action,
      Machine.Along (Action.step sumHmac [7]) (Unforgeable sumHmac [7]) as .init →
      verifyAccessLogIntegrity sumHmac [7] quietRead
          (run (Action.step sumHmac [7]) as .init).2.table = .ok true →
        List.Forall₂ (fun row e => row.Tagged sumHmac [7] e.fields)
          (run (Action.step sumHmac [7]) as .init).2.table.records
          (run (Action.step sumHmac [7]) as .init).2.entries := by
  intro h
  have htrue : verifyAccessLogIntegrity sumHmac [7] quietRead
      (run (Action.step sumHmac [7]) deletion .init).2.table = .ok true := by
    decide +kernel
  have hlen := (h deletion unforgeable_deletion htrue).length_eq
  exact absurd hlen (by decide +kernel)

end WritersProof.AccessLog
