/-
  WritersProof.Store.Fragments

  Text fragments of the secure store (crates/cpoe/src/store/text_fragments.rs, the tables of
  store/integrity.rs).

  A fragment comes in through `insertTextFragment`, `applyRemoteFragment` or
  `resolveSyncConflict`.  Outside a transaction a statement that was executed stays executed:
  `resolveSyncConflict` deletes the local fragment before anything about the remote one is
  checked, so what refuses the remote one leaves neither.
-/
import WritersProof.Lib.SqlTable
import WritersProof.Lib.Bytes
import Mathlib.Data.List.Nodup

namespace WritersProof.Fragments

open Rust Sql

/-! ## Fragments and their tables -/

section Types

variable (Extra : Type)

/-- `TextFragment`.  `extra` is what is copied and nothing checks: the session, the source, the
keystroke context and its evidence.  The id that a caller passes is not read. -/
structure TextFragment where
  fragmentHash : Bytes
  sourceSignature : Bytes
  nonce : Bytes
  timestamp : Int
  cloudkitRecordId : Option String
  syncState : Option String
  extra : Extra
  deriving DecidableEq

/-- `text_fragments` and `used_nonces`, with their unique columns -/
structure FragmentStore where
  fragments : Sql.Table (TextFragment Extra)
  usedNonces : List (Bytes × Int)
  hashes_nodup : (fragments.records.map (·.fragmentHash)).Nodup
  nonces_nodup : (fragments.records.map (·.nonce)).Nodup
  used_nodup : (usedNonces.map Prod.fst).Nodup

end Types

inductive Statement where
  | selectNonce
  | begin
  | insertFragment
  | insertNonce
  | commit
  | updateSyncState
  | selectTimestamp
  | delete

/-- What a call finds: the clock, and the statements that fail for reasons of their own (a
locked database, a full disk), each at its one execution -/
structure Env where
  /-- `utils::now_ms` -/
  clock : Nat
  failure : Statement → Option String

def Env.nowMs (env : Env) : Int := Bytes.toInt 8 (env.clock % 2 ^ 64)

inductive SyncResolutionStrategy where
  | keepLocal
  | keepRemote
  | keepNewest

variable {Extra : Type}

def TextFragment.synced (state : String) (cloudkitRecordId : Option String)
    (f : TextFragment Extra) : TextFragment Extra :=
  { f with
    syncState := some state
    cloudkitRecordId := cloudkitRecordId.or f.cloudkitRecordId }

/-- The same fragment with `sync_state = 'synced'` -/
def TextFragment.markSynced (f : TextFragment Extra) : TextFragment Extra :=
  { f with syncState := some "synced" }

namespace FragmentStore

def empty : FragmentStore Extra :=
  ⟨.empty, [], List.nodup_nil, List.nodup_nil, List.nodup_nil⟩

variable (s : FragmentStore Extra)

def nonces : List Bytes := s.usedNonces.map Prod.fst

def delete (s : FragmentStore Extra) (id : Int) : FragmentStore Extra where
  fragments := s.fragments.delete id
  usedNonces := s.usedNonces
  hashes_nodup := s.hashes_nodup.sublist ((s.fragments.records_delete_sublist id).map _)
  nonces_nodup := s.nonces_nodup.sublist ((s.fragments.records_delete_sublist id).map _)
  used_nodup := s.used_nodup

def setSynced (id : Int) (state : String) (cloudkitRecordId : Option String) :
    FragmentStore Extra where
  fragments := s.fragments.update id (.synced state cloudkitRecordId)
  usedNonces := s.usedNonces
  hashes_nodup := by
    rw [Sql.Table.map_records_update]
    · exact s.hashes_nodup
    · exact fun _ => rfl
  nonces_nodup := by
    rw [Sql.Table.map_records_update]
    · exact s.nonces_nodup
    · exact fun _ => rfl
  used_nodup := s.used_nodup

/-- A fragment that the unique columns leave room for -/
def Fits (f : TextFragment Extra) : Prop :=
  f.fragmentHash ∉ s.fragments.records.map (·.fragmentHash)
    ∧ f.nonce ∉ s.fragments.records.map (·.nonce)

instance (s : FragmentStore Extra) (f : TextFragment Extra) : Decidable (s.Fits f) :=
  inferInstanceAs (Decidable (_ ∧ _))

def insert (s : FragmentStore Extra) (f : TextFragment Extra) (h : s.Fits f) :
    FragmentStore Extra where
  fragments := s.fragments.insert f
  usedNonces := s.usedNonces
  hashes_nodup := by
    rw [Sql.Table.records_insert, List.map_append]
    exact s.hashes_nodup.append (List.nodup_singleton _) (List.disjoint_singleton.mpr h.1)
  nonces_nodup := by
    rw [Sql.Table.records_insert, List.map_append]
    exact s.nonces_nodup.append (List.nodup_singleton _) (List.disjoint_singleton.mpr h.2)
  used_nodup := s.used_nodup

def useNonce (nonce : Bytes) (usedAt : Int) (h : nonce ∉ s.nonces) :
    FragmentStore Extra where
  fragments := s.fragments
  usedNonces := s.usedNonces ++ [(nonce, usedAt)]
  hashes_nodup := s.hashes_nodup
  nonces_nodup := s.nonces_nodup
  used_nodup := by
    rw [List.map_append]
    exact s.used_nodup.append (List.nodup_singleton _) (List.disjoint_singleton.mpr h)

end FragmentStore

/-! ## Calls -/

abbrev StoreCall (Extra α : Type) := Call (FragmentStore Extra) String α

variable (env : Env)

def Env.exec (statement : Statement) : StoreCall Extra Unit :=
  match env.failure statement with
  | some e => Call.lift (fail e)
  | none => pure ()

variable (f : TextFragment Extra)

/-- `INSERT INTO text_fragments`: the counter must not be used up. -/
def insertRow : StoreCall Extra Int := fun s =>
  if s.fragments.sequence ≥ i64Max then (fail "database or disk is full", s)
  else if h : s.Fits f then (.ok (s.fragments.sequence + 1), s.insert f h)
  else if f.fragmentHash ∈ s.fragments.records.map (·.fragmentHash) then
    (fail "UNIQUE constraint failed: text_fragments.fragment_hash", s)
  else (fail "UNIQUE constraint failed: text_fragments.nonce", s)

def insertNonce (nonce : Bytes) (usedAt : Int) : StoreCall Extra Unit := fun s =>
  if h : nonce ∈ s.nonces then (fail "UNIQUE constraint failed: used_nonces.nonce", s)
  else (.ok (), s.useNonce nonce usedAt h)

/-- Check field lengths and the nonce; the time of the check -/
def validateFragmentFields : StoreCall Extra Int := do
  Call.reject (f.fragmentHash.length ≠ 32)
    s!"fragment_hash must be 32 bytes, got {f.fragmentHash.length}"
  Call.reject (f.nonce.length ≠ 16) s!"nonce must be 16 bytes, got {f.nonce.length}"
  Call.reject (f.sourceSignature.length ≠ 64)
    s!"source_signature must be 64 bytes (Ed25519), got {f.sourceSignature.length}"
  env.exec .selectNonce
  let nonceUsed ← Call.asks fun s => decide (f.nonce ∈ s.nonces)
  Call.reject (nonceUsed = true) "Nonce replay detected"
  pure env.nowMs

/-- The transaction that both ways of insertion end with -/
def storeFragment (nowMs : Int) (f : TextFragment Extra) : StoreCall Extra Int :=
  transaction do
    env.exec .begin
    env.exec .insertFragment
    let id ← insertRow f
    env.exec .insertNonce
    insertNonce f.nonce nowMs
    env.exec .commit
    pure id

/-- `5 * 60 * 1000` -/
def maxSkewMs : Int := 5 * 60 * 1000

def insertTextFragment : StoreCall Extra Int := do
  let nowMs ← validateFragmentFields env f
  -- `now_ms + 5 * 60 * 1000` is a checked addition.
  let latest ← Call.lift (if nowMs + maxSkewMs ≤ i64Max then .ok (nowMs + maxSkewMs) else abort)
  Call.reject (f.timestamp > latest)
    s!"Rejected fragment with future timestamp (ms): {f.timestamp} > {nowMs}"
  storeFragment env nowMs f

/-- The same without the check of the timestamp -/
def applyRemoteFragment : StoreCall Extra Int := do
  let nowMs ← validateFragmentFields env f
  storeFragment env nowMs f.markSynced

def validStates : List String := ["pending", "syncing", "synced", "failed", "conflict"]

def updateFragmentSyncState (fragmentId : Int) (state : String) (cloudkitRecordId : Option String) :
    StoreCall Extra Unit := do
  Call.reject (state ∉ validStates)
    (s!"Invalid sync state '{state}'; expected one of: " ++
      "[\"pending\", \"syncing\", \"synced\", \"failed\", \"conflict\"]")
  env.exec .updateSyncState
  let updated ← Call.asks fun s => (s.fragments.get? fragmentId).isSome
  Call.modify fun s => s.setSynced fragmentId state cloudkitRecordId
  Call.reject (updated = false) s!"No fragment found with id {fragmentId}"

def replaceLocal (fragmentId : Int) (remote : TextFragment Extra) :
    StoreCall Extra Unit := do
  env.exec .delete
  Call.modify fun s => s.delete fragmentId
  let _ ← applyRemoteFragment env remote
  pure ()

def resolveSyncConflict (fragmentId : Int) (strategy : SyncResolutionStrategy)
    (remoteFragment : Option (TextFragment Extra)) : StoreCall Extra Unit :=
  match strategy with
  | .keepLocal => updateFragmentSyncState env fragmentId "synced" none
  | .keepRemote => do
    let remote ← Call.lift (okOr remoteFragment "Remote fragment required for KeepRemote strategy")
    replaceLocal env fragmentId remote
  | .keepNewest =>
    match remoteFragment with
    | some remote => do
      env.exec .selectTimestamp
      let localTs ← Call.asks fun s => (s.fragments.get? fragmentId).map (·.timestamp)
      match localTs with
      | some ts =>
        if ts ≥ remote.timestamp then updateFragmentSyncState env fragmentId "synced" none
        else replaceLocal env fragmentId remote
      | none => replaceLocal env fragmentId remote
    | none => updateFragmentSyncState env fragmentId "synced" none

/-! ## What a store admits -/

/-- The lengths that the columns of a fragment must have -/
structure TextFragment.WellSized (f : TextFragment Extra) : Prop where
  fragmentHash : f.fragmentHash.length = 32
  nonce : f.nonce.length = 16
  sourceSignature : f.sourceSignature.length = 64

/-- The statements of an insertion get through. -/
structure Env.Inserts (env : Env) : Prop where
  selectNonce : env.failure .selectNonce = none
  begin : env.failure .begin = none
  insertFragment : env.failure .insertFragment = none
  insertNonce : env.failure .insertNonce = none
  commit : env.failure .commit = none

/-- Nothing keeps the fragment out of the store but, perhaps, its timestamp. -/
structure Admits (env : Env) (s : FragmentStore Extra) (f : TextFragment Extra) : Prop where
  sized : f.WellSized
  fresh : f.nonce ∉ s.nonces
  fits : s.Fits f
  room : s.fragments.sequence < i64Max
  inserts : env.Inserts

def FragmentStore.enter (s : FragmentStore Extra) (f : TextFragment Extra) (usedAt : Int)
    (hfits : s.Fits f) (hfresh : f.nonce ∉ s.nonces) : FragmentStore Extra :=
  (s.insert f hfits).useNonce f.nonce usedAt hfresh

/-! ### One lemma a call -/

section Spec

variable {env : Env} {s s' : FragmentStore Extra} {f : TextFragment Extra}

theorem Env.exec_bind_eq_ok {statement : Statement} {α : Type} {k : Unit → StoreCall Extra α}
    {a : α} :
    (env.exec statement >>= k) s = (.ok a, s') ↔
      env.failure statement = none ∧ k () s = (.ok a, s') := by
  rw [Env.exec]
  cases env.failure statement with
  | some e => exact ⟨nofun, nofun⟩
  | none => exact (and_iff_right rfl).symm

variable {e : Fault String}

variable {id nowMs : Int}

theorem insertRow_eq_ok :
    insertRow f s = (.ok id, s') ↔
      s.fragments.sequence < i64Max ∧ ∃ h : s.Fits f,
        id = s.fragments.sequence + 1 ∧ s' = s.insert f h := by
  rw [insertRow]
  by_cases hroom : s.fragments.sequence ≥ i64Max
  · rw [if_pos hroom]
    simp [fail, not_lt.mpr hroom]
  rw [if_neg hroom]
  by_cases hfits : s.Fits f
  · rw [dif_pos hfits, Prod.mk.injEq, Except.ok.injEq]
    constructor
    · rintro ⟨rfl, rfl⟩
      exact ⟨not_le.mp hroom, hfits, rfl, rfl⟩
    · rintro ⟨-, -, rfl, rfl⟩
      exact ⟨rfl, rfl⟩
  · rw [dif_neg hfits]
    constructor
    · intro h
      split at h <;> cases h
    · rintro ⟨-, h, -⟩
      exact absurd h hfits

theorem insertNonce_eq_ok {nonce : Bytes} {usedAt : Int} :
    insertNonce nonce usedAt s = (.ok (), s') ↔
      ∃ h : nonce ∉ s.nonces, s' = s.useNonce nonce usedAt h := by
  rw [insertNonce]
  by_cases h : nonce ∈ s.nonces
  · rw [dif_pos h]
    simp [fail, h]
  · rw [dif_neg h, Prod.mk.injEq]
    exact ⟨fun hs => ⟨h, hs.2.symm⟩, fun hs => ⟨rfl, hs.2.symm⟩⟩

theorem validateFragmentFields_eq_ok :
    validateFragmentFields env f s = (.ok nowMs, s') ↔
      f.WellSized ∧ f.nonce ∉ s.nonces ∧ env.failure .selectNonce = none
        ∧ nowMs = env.nowMs ∧ s' = s := by
  rw [validateFragmentFields, Call.reject_bind_eq_ok, Call.reject_bind_eq_ok,
    Call.reject_bind_eq_ok, Env.exec_bind_eq_ok, Call.asks_bind, Call.reject_bind_eq_ok,
    Call.pure_apply, Prod.mk.injEq, Except.ok.injEq]
  simp only [ne_eq, not_not, decide_eq_true_eq]
  constructor
  · rintro ⟨hhash, hnonce, hsig, hselect, hfresh, rfl, rfl⟩
    exact ⟨⟨hhash, hnonce, hsig⟩, hfresh, hselect, rfl, rfl⟩
  · rintro ⟨⟨hhash, hnonce, hsig⟩, hfresh, hselect, rfl, rfl⟩
    exact ⟨hhash, hnonce, hsig, hselect, hfresh, rfl, rfl⟩

/-- The transaction of an insertion, behind a check of the nonce that got through -/
theorem storeFragment_eq_ok (hselect : env.failure .selectNonce = none) (hsized : f.WellSized) :
    storeFragment env nowMs f s = (.ok id, s') ↔
      ∃ h : Admits env s f, id = s.fragments.sequence + 1
        ∧ s' = s.enter f nowMs h.fits h.fresh := by
  rw [storeFragment, transaction_eq_ok, Env.exec_bind_eq_ok, Env.exec_bind_eq_ok, Call.bind_eq_ok]
  constructor
  · rintro ⟨hbegin, hinsert, row, t, hrow, hrest⟩
    obtain ⟨hroom, hfits, rfl, rfl⟩ := insertRow_eq_ok.mp hrow
    rw [Env.exec_bind_eq_ok, Call.bind_eq_ok] at hrest
    obtain ⟨hnonce, ⟨⟩, t, hused, hrest⟩ := hrest
    obtain ⟨hfresh, rfl⟩ := insertNonce_eq_ok.mp hused
    rw [Env.exec_bind_eq_ok, Call.pure_apply, Prod.mk.injEq, Except.ok.injEq] at hrest
    obtain ⟨hcommit, rfl, rfl⟩ := hrest
    exact ⟨⟨hsized, hfresh, hfits, hroom, ⟨hselect, hbegin, hinsert, hnonce, hcommit⟩⟩, rfl, rfl⟩
  · rintro ⟨h, rfl, rfl⟩
    refine ⟨h.inserts.begin, h.inserts.insertFragment, _, _,
      insertRow_eq_ok.mpr ⟨h.room, h.fits, rfl, rfl⟩, ?_⟩
    rw [Env.exec_bind_eq_ok, Call.bind_eq_ok]
    refine ⟨h.inserts.insertNonce, (), _, insertNonce_eq_ok.mpr ⟨h.fresh, rfl⟩, ?_⟩
    rw [Env.exec_bind_eq_ok]
    exact ⟨h.inserts.commit, rfl⟩

theorem validateFragmentFields_snd : (validateFragmentFields env f s).2 = s := by
  have hkeeps : Call.Keeps (fun s : FragmentStore Extra => s) (validateFragmentFields env f) := by
    apply (Call.keeps_reject _ _).bind fun _ => ?_
    apply (Call.keeps_reject _ _).bind fun _ => ?_
    apply (Call.keeps_reject _ _).bind fun _ => ?_
    apply Call.Keeps.bind
    · rw [Env.exec]
      cases env.failure .selectNonce with
      | none => exact Call.keeps_pure _
      | some e => exact Call.keeps_lift _
    · intro _
      apply (Call.keeps_asks _).bind fun _ => ?_
      exact (Call.keeps_reject _ _).bind fun _ => Call.keeps_pure _
  exact hkeeps s

theorem TextFragment.wellSized_markSynced : f.markSynced.WellSized ↔ f.WellSized :=
  ⟨fun h => ⟨h.1, h.2, h.3⟩, fun h => ⟨h.1, h.2, h.3⟩⟩

theorem admits_markSynced : Admits env s f.markSynced ↔ Admits env s f :=
  ⟨fun h => ⟨TextFragment.wellSized_markSynced.mp h.sized, h.fresh, h.fits, h.room, h.inserts⟩,
    fun h => ⟨TextFragment.wellSized_markSynced.mpr h.sized, h.fresh, h.fits, h.room, h.inserts⟩⟩

/-- A remote fragment comes in just when nothing but its timestamp could keep it out. -/
theorem applyRemoteFragment_eq_ok :
    applyRemoteFragment env f s = (.ok id, s') ↔
      ∃ h : Admits env s f, id = s.fragments.sequence + 1
        ∧ s' = s.enter f.markSynced env.nowMs h.fits h.fresh := by
  rw [applyRemoteFragment, Call.bind_eq_ok]
  constructor
  · rintro ⟨nowMs, t, hvalid, hstore⟩
    obtain ⟨hsized, -, hselect, rfl, rfl⟩ := validateFragmentFields_eq_ok.mp hvalid
    have hsized' := TextFragment.wellSized_markSynced.mpr hsized
    obtain ⟨h, hrest⟩ := (storeFragment_eq_ok hselect hsized').mp hstore
    exact ⟨admits_markSynced.mp h, hrest⟩
  · rintro ⟨h, hrest⟩
    have h' := admits_markSynced.mpr h
    exact ⟨_, s, validateFragmentFields_eq_ok.mpr
      ⟨h.sized, h.fresh, h.inserts.selectNonce, rfl, rfl⟩,
      (storeFragment_eq_ok h'.inserts.selectNonce h'.sized).mpr ⟨h', hrest⟩⟩

/-- A validation and a transaction behind it -/
theorem unchanged_of_validated {α : Type} {k : Int → StoreCall Extra α}
    (hk : ∀ nowMs s', k nowMs s = (.error e, s') → s' = s)
    (h : (validateFragmentFields env f >>= k) s = (.error e, s')) : s' = s := by
  have hsnd : (validateFragmentFields env f s).2 = s := validateFragmentFields_snd
  rw [Call.bind_apply] at h
  rcases hvalid : validateFragmentFields env f s with ⟨_ | nowMs, t⟩
  · rw [hvalid] at h hsnd
    exact (Prod.mk.inj h).2.symm.trans hsnd
  · rw [hvalid] at h hsnd
    obtain rfl : t = s := hsnd
    exact hk nowMs s' h

theorem applyRemoteFragment_error (h : applyRemoteFragment env f s = (.error e, s')) : s' = s :=
  unchanged_of_validated (fun _ _ => transaction_error) h

/-- A fragment of this device must not come from the future, either. -/
theorem insertTextFragment_eq_ok :
    insertTextFragment env f s = (.ok id, s') ↔
      env.nowMs + maxSkewMs ≤ i64Max ∧ f.timestamp ≤ env.nowMs + maxSkewMs
        ∧ ∃ h : Admits env s f, id = s.fragments.sequence + 1
          ∧ s' = s.enter f env.nowMs h.fits h.fresh := by
  rw [insertTextFragment, Call.bind_eq_ok]
  constructor
  · rintro ⟨nowMs, t, hvalid, hrest⟩
    obtain ⟨hsized, -, hselect, rfl, rfl⟩ := validateFragmentFields_eq_ok.mp hvalid
    rw [Call.lift_bind_eq_ok] at hrest
    obtain ⟨latest, hlatest, hrest⟩ := hrest
    obtain ⟨hbound, rfl⟩ := ite_abort_eq_ok.mp hlatest
    rw [Call.reject_bind_eq_ok, gt_iff_lt, not_lt] at hrest
    exact ⟨hbound, hrest.1, (storeFragment_eq_ok hselect hsized).mp hrest.2⟩
  · rintro ⟨hbound, htime, h, hrest⟩
    refine ⟨_, s, validateFragmentFields_eq_ok.mpr
      ⟨h.sized, h.fresh, h.inserts.selectNonce, rfl, rfl⟩, ?_⟩
    rw [Call.lift_bind_eq_ok]
    refine ⟨_, ite_abort_eq_ok.mpr ⟨hbound, rfl⟩, ?_⟩
    rw [Call.reject_bind_eq_ok, gt_iff_lt, not_lt]
    exact ⟨htime, (storeFragment_eq_ok h.inserts.selectNonce h.sized).mpr ⟨h, hrest⟩⟩

theorem insertTextFragment_error (h : insertTextFragment env f s = (.error e, s')) : s' = s := by
  refine unchanged_of_validated (fun nowMs t ht => ?_) h
  by_cases hbound : nowMs + maxSkewMs ≤ i64Max
  · rw [if_pos hbound, Call.lift_ok_bind] at ht
    by_cases htime : f.timestamp > nowMs + maxSkewMs
    · rw [Call.reject_bind_pos htime] at ht
      exact (Prod.mk.inj ht).2.symm
    · rw [Call.reject_bind_neg htime] at ht
      exact transaction_error ht
  · rw [if_neg hbound] at ht
    exact (Prod.mk.inj ht).2.symm

end Spec

end WritersProof.Fragments
