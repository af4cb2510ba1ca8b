/-
  WritersProof.Store.FragmentSync

  What the calls on text fragments leave in the store
  (crates/cpoe/src/store/text_fragments.rs).
-/
import WritersProof.Store.Fragments
import WritersProof.Lib.Machine

namespace WritersProof.Fragments

open Rust Call

variable {Extra : Type}

/-! ## Resolving a conflict -/

def SyncResolutionStrategy.winner (strategy : SyncResolutionStrategy)
    (localFragment : TextFragment Extra)
    (remote : Option (TextFragment Extra)) : TextFragment Extra :=
  match strategy, remote with
  | .keepRemote, some remote => remote
  | .keepNewest, some remote =>
    if localFragment.timestamp ≥ remote.timestamp then localFragment else remote
  | _, _ => localFragment

/-- The call gets past the deletion of the local fragment: the remote one is to replace it. -/
structure Deletes (env : Env) (s : FragmentStore Extra) (fragmentId : Int)
    (strategy : SyncResolutionStrategy) (remote : TextFragment Extra) : Prop where
  delete : env.failure .delete = none
  wins : strategy = .keepRemote ∨ strategy = .keepNewest ∧ env.failure .selectTimestamp = none
    ∧ ∀ l, s.fragments.get? fragmentId = some l → l.timestamp < remote.timestamp

/-- An error leaves the local fragment as it was; otherwise exactly the winner is stored, under
one of the given ids, and at least one of the two is there in any case. -/
structure Resolves (ids : Int → Prop) (env : Env) (s : FragmentStore Extra) (fragmentId : Int)
    (strategy : SyncResolutionStrategy) (remote : Option (TextFragment Extra))
    (l : TextFragment Extra) : Prop where
  kept : ∀ e s', resolveSyncConflict env fragmentId strategy remote s = (.error e, s') →
    s'.fragments.get? fragmentId = some l
  replaced : ∀ s', resolveSyncConflict env fragmentId strategy remote s = (.ok (), s') →
    ∃ id, ids id ∧ s'.fragments.get? id = some (strategy.winner l remote).markSynced
      ∧ (id ≠ fragmentId → s'.fragments.get? fragmentId = none)
  stored : ∃ id f,
    (resolveSyncConflict env fragmentId strategy remote s).2.fragments.get? id = some f
    ∧ (f = l ∨ f = l.markSynced ∨ ∃ r, remote = some r ∧ f = r.markSynced)

section Resolve

variable {env : Env} {s : FragmentStore Extra} {fragmentId : Int}
  {strategy : SyncResolutionStrategy} {remote : Option (TextFragment Extra)}
  {l r : TextFragment Extra}

/-- A call of which only the state and the fact that it returned are kept -/
def dropId {α : Type} : Res String α × FragmentStore Extra → Res String Unit × FragmentStore Extra
  | (.ok _, s) => (.ok (), s)
  | (.error e, s) => (.error e, s)

theorem TextFragment.synced_none (f : TextFragment Extra) : f.synced "synced" none = f.markSynced :=
  rfl

/-- Where the local fragment is to stay, it is marked, or nothing changes. -/
theorem updateFragmentSyncState_cases :
    (∃ e, updateFragmentSyncState env fragmentId "synced" none s = (.error e, s))
      ∨ (∃ e, s.fragments.get? fragmentId = none
        ∧ updateFragmentSyncState env fragmentId "synced" none s
          = (.error e, s.setSynced fragmentId "synced" none))
      ∨ updateFragmentSyncState env fragmentId "synced" none s
        = (.ok (), s.setSynced fragmentId "synced" none) := by
  rw [updateFragmentSyncState, reject_bind_neg (by decide), Env.exec]
  cases env.failure .updateSyncState with
  | some e => exact .inl ⟨.err e, rfl⟩
  | none =>
    rw [bind_of_ok (pure_apply () s), asks_bind,
      bind_of_ok (modify_apply _ s)]
    cases hget : s.fragments.get? fragmentId with
    | none => exact .inr (.inl ⟨_, rfl, reject_pos rfl _ _⟩)
    | some l => exact .inr (.inr (reject_neg (by simp) _ _))

theorem replaceLocal_of_ok (h : env.failure .delete = none) :
    replaceLocal env fragmentId r s = dropId (applyRemoteFragment env r (s.delete fragmentId)) := by
  rw [replaceLocal, Env.exec, h]
  rw [bind_of_ok (pure_apply () s), bind_of_ok (modify_apply _ s),
    bind_apply]
  rcases applyRemoteFragment env r (s.delete fragmentId) with ⟨_ | id, t⟩ <;> rfl

theorem replaceLocal_of_failure {e : String} (h : env.failure .delete = some e) :
    replaceLocal env fragmentId r s = (fail e, s) := by
  rw [replaceLocal, Env.exec, h]
  rfl

theorem resolve_newest (h : env.failure .selectTimestamp = none) :
    resolveSyncConflict env fragmentId .keepNewest (some r) s
      = if ∃ l ∈ s.fragments.get? fragmentId, l.timestamp ≥ r.timestamp then
          updateFragmentSyncState env fragmentId "synced" none s
        else replaceLocal env fragmentId r s := by
  rw [resolveSyncConflict, Env.exec, h, bind_of_ok (pure_apply () s), asks_bind]
  cases s.fragments.get? fragmentId with
  | none =>
    rw [if_neg (by simp)]
    rfl
  | some l =>
    rw [Option.map_some]
    by_cases hge : l.timestamp ≥ r.timestamp
    · rw [if_pos ⟨l, rfl, hge⟩]
      show (if l.timestamp ≥ r.timestamp then _ else _ : StoreCall Extra Unit) s = _
      rw [if_pos hge]
    · rw [if_neg (by simpa using hge)]
      show (if l.timestamp ≥ r.timestamp then _ else _ : StoreCall Extra Unit) s = _
      rw [if_neg hge]

theorem not_exists_newer
    (h : ∀ l, s.fragments.get? fragmentId = some l → l.timestamp < r.timestamp) :
    ¬ ∃ l ∈ s.fragments.get? fragmentId, l.timestamp ≥ r.timestamp := by
  rintro ⟨l, hl, hge⟩
  exact absurd (h l hl) (not_lt.mpr hge)

theorem resolve_of_deletes (h : Deletes env s fragmentId strategy r) :
    resolveSyncConflict env fragmentId strategy (some r) s
      = dropId (applyRemoteFragment env r (s.delete fragmentId)) := by
  rcases h.wins with rfl | ⟨rfl, hselect, hnewer⟩
  · rw [resolveSyncConflict, okOr_some, lift_ok_bind, replaceLocal_of_ok h.delete]
  · rw [resolve_newest hselect, if_neg (not_exists_newer hnewer), replaceLocal_of_ok h.delete]

theorem resolve_of_not_deletes (h : ∀ r, remote = some r → ¬ Deletes env s fragmentId strategy r) :
    (∃ e, resolveSyncConflict env fragmentId strategy remote s = (.error e, s))
      ∨ resolveSyncConflict env fragmentId strategy remote s
          = updateFragmentSyncState env fragmentId "synced" none s
        ∧ ∀ l, s.fragments.get? fragmentId = some l → strategy.winner l remote = l := by
  cases strategy with
  | keepLocal => exact .inr ⟨rfl, fun _ _ => by cases remote <;> rfl⟩
  | keepRemote =>
    left
    cases remote with
    | none => exact ⟨_, rfl⟩
    | some r =>
      cases hdelete : env.failure .delete with
      | none => exact absurd ⟨hdelete, .inl rfl⟩ (h r rfl)
      | some e =>
        refine ⟨.err e, ?_⟩
        rw [resolveSyncConflict, okOr_some, lift_ok_bind, replaceLocal_of_failure hdelete]
        rfl
  | keepNewest =>
    cases remote with
    | none => exact .inr ⟨rfl, fun _ _ => rfl⟩
    | some r =>
      cases hselect : env.failure .selectTimestamp with
      | some e =>
        left
        refine ⟨.err e, ?_⟩
        rw [resolveSyncConflict, Env.exec, hselect]
        rfl
      | none =>
        rw [resolve_newest hselect]
        by_cases hwins : ∀ l, s.fragments.get? fragmentId = some l → l.timestamp < r.timestamp
        · left
          -- The remote one would win, so it is the deletion that fails.
          cases hdelete : env.failure .delete with
          | none => exact absurd ⟨hdelete, .inr ⟨rfl, hselect, hwins⟩⟩ (h r rfl)
          | some e =>
            rw [if_neg (not_exists_newer hwins)]
            exact ⟨.err e, replaceLocal_of_failure hdelete⟩
        · right
          simp only [not_forall, not_lt] at hwins
          obtain ⟨l, hget, hge⟩ := hwins
          refine ⟨if_pos ⟨l, hget, hge⟩, fun l' hl' => ?_⟩
          obtain rfl := Option.some.inj (hget.symm.trans hl')
          exact if_pos hge

theorem resolve_deleted (h : Deletes env s fragmentId strategy r) :
    (∃ hadmits : Admits env (s.delete fragmentId) r,
        resolveSyncConflict env fragmentId strategy (some r) s
          = (.ok (), (s.delete fragmentId).enter r.markSynced env.nowMs hadmits.fits hadmits.fresh))
      ∨ ¬ Admits env (s.delete fragmentId) r
        ∧ ∃ e, resolveSyncConflict env fragmentId strategy (some r) s
          = (.error e, s.delete fragmentId) := by
  rw [resolve_of_deletes h]
  rcases happly : applyRemoteFragment env r (s.delete fragmentId) with ⟨e | id, t⟩
  · right
    obtain rfl := applyRemoteFragment_error happly
    refine ⟨fun hadmits => ?_, e, rfl⟩
    have hok := applyRemoteFragment_eq_ok.mpr ⟨hadmits, rfl, rfl⟩
    rw [happly] at hok
    cases hok
  · left
    obtain ⟨hadmits, -, rfl⟩ := applyRemoteFragment_eq_ok.mp happly
    exact ⟨hadmits, rfl⟩

theorem winner_of_deletes (hl : s.fragments.get? fragmentId = some l)
    (h : Deletes env s fragmentId strategy r) : strategy.winner l (some r) = r := by
  rcases h.wins with rfl | ⟨rfl, -, hnewer⟩
  · rfl
  · exact if_neg (not_le.mpr (hnewer l hl))

theorem resolves_of_not_deletes (hl : s.fragments.get? fragmentId = some l)
    (h : ∀ r, remote = some r → ¬ Deletes env s fragmentId strategy r) {ids : Int → Prop}
    (hid : ids fragmentId) : Resolves ids env s fragmentId strategy remote l := by
  have hmarked : (s.setSynced fragmentId "synced" none).fragments.get? fragmentId
      = some l.markSynced := by
    show (s.fragments.update fragmentId (.synced "synced" none)).get? fragmentId = _
    rw [Sql.Table.get?_update_self, hl, Option.map_some, TextFragment.synced_none]
  rcases resolve_of_not_deletes h with ⟨e, hrun⟩ | ⟨hrun, hwinner⟩
  · exact {
      kept := by
        intro e s' h'
        cases hrun.symm.trans h'
        exact hl
      replaced := by
        intro s' h'
        cases hrun.symm.trans h'
      stored := ⟨fragmentId, l, by rw [hrun]; exact hl, .inl rfl⟩ }
  · rcases @updateFragmentSyncState_cases _ env s fragmentId
      with ⟨e, hup⟩ | ⟨e, hnone, -⟩ | hup
    · rw [hup] at hrun
      exact {
        kept := by
          intro e s' h'
          cases hrun.symm.trans h'
          exact hl
        replaced := by
          intro s' h'
          cases hrun.symm.trans h'
        stored := ⟨fragmentId, l, by rw [hrun]; exact hl, .inl rfl⟩ }
    · rw [hl] at hnone
      cases hnone
    · rw [hup] at hrun
      exact {
        kept := by
          intro e s' h'
          cases hrun.symm.trans h'
        replaced := by
          intro s' h'
          cases hrun.symm.trans h'
          rw [hwinner l hl]
          exact ⟨fragmentId, hid, hmarked, fun hne => absurd rfl hne⟩
        stored := ⟨fragmentId, _, by rw [hrun]; exact hmarked, .inr (.inl rfl)⟩ }

/-- A conflict is resolved under the id of the local fragment just when that is not deleted, and
under some id just when what is left after the deletion, if any, admits the remote one. -/
theorem resolves_iff (hl : s.fragments.get? fragmentId = some l) :
    (Resolves (· = fragmentId) env s fragmentId strategy remote l ↔
        ∀ r, remote = some r → ¬ Deletes env s fragmentId strategy r)
      ∧ (Resolves (fun _ => True) env s fragmentId strategy remote l ↔
        ∀ r, remote = some r → Deletes env s fragmentId strategy r →
          Admits env (s.delete fragmentId) r) := by
  have hbound : fragmentId ≤ s.fragments.sequence := Sql.Table.le_sequence_of_get? hl
  have hle : fragmentId ≤ (s.delete fragmentId).fragments.sequence := hbound
  have hgone : (s.delete fragmentId).fragments.get? fragmentId = none :=
    Sql.Table.get?_delete_self _ _
  refine ⟨⟨?_, fun h => resolves_of_not_deletes hl h rfl⟩, ⟨?_, ?_⟩⟩
  · rintro hres r rfl hdel
    rcases resolve_deleted hdel with ⟨hadmits, hrun⟩ | ⟨-, e, hrun⟩
    · -- The new row has an id of its own.
      obtain ⟨id, hid, hget, -⟩ := hres.replaced _ hrun
      rw [show id = fragmentId from hid] at hget
      have hold : ((s.delete fragmentId).fragments.insert r.markSynced).get? fragmentId = none := by
        rw [Sql.Table.get?_insert_of_le _ _ hle]
        exact hgone
      have hnew : ((s.delete fragmentId).fragments.insert r.markSynced).get? fragmentId
          = some (strategy.winner l (some r)).markSynced := hget
      rw [hold] at hnew
      cases hnew
    · have hkept := hres.kept _ _ hrun
      rw [hgone] at hkept
      cases hkept
  · rintro hres r rfl hdel
    rcases resolve_deleted hdel with ⟨hadmits, -⟩ | ⟨-, e, hrun⟩
    · exact hadmits
    · have hkept := hres.kept _ _ hrun
      rw [hgone] at hkept
      cases hkept
  · intro h
    by_cases hdel : ∃ r, remote = some r ∧ Deletes env s fragmentId strategy r
    · obtain ⟨r, rfl, hdel⟩ := hdel
      rcases resolve_deleted hdel with ⟨hadmits, hrun⟩ | ⟨hnot, -⟩
      · have hnew : ((s.delete fragmentId).fragments.insert r.markSynced).get?
            ((s.delete fragmentId).fragments.sequence + 1) = some r.markSynced :=
          Sql.Table.get?_insert_next _ _
        exact {
          kept := by
            intro e s' h'
            cases hrun.symm.trans h'
          replaced := by
            intro s' h'
            cases hrun.symm.trans h'
            rw [winner_of_deletes hl hdel]
            refine ⟨_, trivial, hnew, fun _ => ?_⟩
            have hold := (s.delete fragmentId).fragments.get?_insert_of_le r.markSynced hle
            exact hold.trans hgone
          stored := by
            rw [hrun]
            exact ⟨_, _, hnew, .inr (.inr ⟨r, rfl, rfl⟩)⟩ }
      · exact absurd (h r rfl hdel) hnot
    · exact resolves_of_not_deletes hl (fun r hr hd => hdel ⟨r, hr, hd⟩) trivial

end Resolve

/-! ### A remote copy with the nonce of the local one -/

/-- Every statement gets through. -/
def quietEnv (clock : Nat) : Env := ⟨clock, fun _ => none⟩

def plainFragment (byte : UInt8) (timestamp : Int) : TextFragment Unit where
  fragmentHash := List.replicate 32 byte
  sourceSignature := List.replicate 64 byte
  nonce := List.replicate 16 byte
  timestamp := timestamp
  cloudkitRecordId := none
  syncState := none
  extra := ()

def plainStore : FragmentStore Unit :=
  (insertTextFragment (quietEnv 1000) (plainFragment 1 10) .empty).2

theorem resolves_iff_plainStore :
    (Resolves (· = 1) (quietEnv 2000) plainStore 1 .keepNewest (some (plainFragment 2 20))
          (plainFragment 1 10) ↔
        ∀ r, some (plainFragment 2 20) = some r →
          ¬ Deletes (quietEnv 2000) plainStore 1 .keepNewest r)
      ∧ (Resolves (fun _ => True) (quietEnv 2000) plainStore 1 .keepNewest
            (some (plainFragment 2 20)) (plainFragment 1 10) ↔
          ∀ r, some (plainFragment 2 20) = some r →
            Deletes (quietEnv 2000) plainStore 1 .keepNewest r →
              Admits (quietEnv 2000) (plainStore.delete 1) r) :=
  resolves_iff (by decide +kernel)

/-- The newer copy of the same fragment has its nonce, which is used up: the call fails, and
neither of the two is stored any more. -/
theorem not_resolves_copy :
    plainStore.fragments.get? 1 = some (plainFragment 1 10)
      ∧ (resolveSyncConflict (quietEnv 2000) 1 .keepNewest (some (plainFragment 1 20))
          plainStore).2.fragments.records = []
      ∧ ¬ Resolves (fun _ => True) (quietEnv 2000) plainStore 1 .keepNewest
          (some (plainFragment 1 20)) (plainFragment 1 10) := by
  have hempty : (resolveSyncConflict (quietEnv 2000) 1 .keepNewest (some (plainFragment 1 20))
      plainStore).2.fragments.records = [] := by decide +kernel
  refine ⟨by decide +kernel, hempty, fun h => ?_⟩
  obtain ⟨id, f, hget, -⟩ := h.stored
  have hmem := Sql.Table.mem_records_of_get? hget
  rw [hempty] at hmem
  cases hmem

/-! ## Admission over a run -/

def TextFragment.core (f : TextFragment Extra) : TextFragment Extra :=
  { f with cloudkitRecordId := none, syncState := none }

/-- A fragment that was stored, under which id and at which reading of the clock -/
structure Admission (Extra : Type) where
  id : Int
  fragment : TextFragment Extra
  nowMs : Int

/-- A store and all that it ever admitted -/
structure Audited (Extra : Type) where
  store : FragmentStore Extra
  admitted : List (Admission Extra)

inductive FragmentAction (Extra : Type) where
  | insert (env : Env) (f : TextFragment Extra)
  | applyRemote (env : Env) (f : TextFragment Extra)
  | resolve (env : Env) (fragmentId : Int) (strategy : SyncResolutionStrategy)
      (remote : Option (TextFragment Extra))

namespace FragmentAction

def env : FragmentAction Extra → Env
  | insert env _ => env
  | applyRemote env _ => env
  | resolve env _ _ _ => env

def call : FragmentAction Extra → FragmentStore Extra → Res String Unit × FragmentStore Extra
  | insert env f, s => dropId (insertTextFragment env f s)
  | applyRemote env f, s => dropId (applyRemoteFragment env f s)
  | resolve env fragmentId strategy remote, s =>
      resolveSyncConflict env fragmentId strategy remote s

def Offers : FragmentAction Extra → FragmentStore Extra → TextFragment Extra →
    FragmentStore Extra → Prop
  | insert _ f, s, g, t => g = f ∧ t = s
  | applyRemote _ f, s, g, t => g = f ∧ t = s
  | resolve env fragmentId strategy remote, s, g, t =>
    remote = some g ∧ Deletes env s fragmentId strategy g ∧ t = s.delete fragmentId

def IsRemote : FragmentAction Extra → Prop
  | insert _ _ => False
  | applyRemote _ _ => True
  | resolve _ _ _ _ => True

end FragmentAction

def newRows (s s' : FragmentStore Extra) : List (Sql.Row (TextFragment Extra)) :=
  s'.fragments.rows.filter fun row => s.fragments.sequence < row.id

def FragmentAction.step (a : FragmentAction Extra) (st : Audited Extra) :
    Res String Unit × Audited Extra :=
  let reply := a.call st.store
  (reply.1, {
    store := reply.2
    admitted := st.admitted
      ++ (newRows st.store reply.2).map fun row => ⟨row.id, row.record, a.env.nowMs⟩ })

def Audited.nonces (st : Audited Extra) : List Bytes := st.admitted.map (·.fragment.nonce)

/-- What the entry points are to make sure of a fragment -/
structure Admissible (nowMs : Int) (st : Audited Extra) (f : TextFragment Extra) : Prop where
  sized : f.WellSized
  timely : f.timestamp ≤ nowMs + maxSkewMs
  fresh : f.nonce ∉ st.nonces

/-- Lengths and nonces of what is stored -/
structure Sized (st : Audited Extra) : Prop where
  rows : ∀ row ∈ st.store.fragments.rows, row.record.WellSized
    ∧ ∃ a ∈ st.admitted, a.id = row.id ∧ a.fragment.core = row.record.core
  nonces : st.nonces.Nodup

/-- Every stored fragment has the lengths, a timestamp that fits the clock at its admission, and
a nonce that no other admitted fragment ever had. -/
structure WellAdmitted (st : Audited Extra) : Prop where
  sized : Sized st
  timely : ∀ row ∈ st.store.fragments.rows, ∃ a ∈ st.admitted, a.id = row.id
    ∧ a.fragment.core = row.record.core ∧ row.record.timestamp ≤ a.nowMs + maxSkewMs

/-- A fragment that is not admissible is refused: the call fails and stores nothing. -/
def Rejects (a : FragmentAction Extra) (st : Audited Extra) : Prop :=
  ∀ f t, a.Offers st.store f t → ¬ Admissible a.env.nowMs st f →
    (∃ e, (a.step st).1 = .error e) ∧ (a.step st).2.admitted = st.admitted

/-- Of the remote fragments that the store would take in none has a timestamp past the skew. -/
def Timely (a : FragmentAction Extra) (st : Audited Extra) : Prop :=
  ∀ f t, a.IsRemote → a.Offers st.store f t → Admits a.env t f →
    f.timestamp ≤ a.env.nowMs + maxSkewMs

/-! ### One call -/

/-- Nothing was stored: every row was there before, up to what synchronisation changes. -/
structure Keeps (s s' : FragmentStore Extra) : Prop where
  sequence : s'.fragments.sequence = s.fragments.sequence
  used : s'.usedNonces = s.usedNonces
  rows : ∀ row' ∈ s'.fragments.rows, ∃ row ∈ s.fragments.rows,
    row.id = row'.id ∧ row.record.core = row'.record.core

section Step

variable {s s' : FragmentStore Extra} {st : Audited Extra} {a : FragmentAction Extra}

theorem Keeps.refl (s : FragmentStore Extra) : Keeps s s :=
  ⟨rfl, rfl, fun row hrow => ⟨row, hrow, rfl, rfl⟩⟩

theorem keeps_delete (s : FragmentStore Extra) (id : Int) : Keeps s (s.delete id) :=
  ⟨rfl, rfl, fun row hrow => ⟨row, (List.mem_filter.mp hrow).1, rfl, rfl⟩⟩

theorem keeps_setSynced (s : FragmentStore Extra) (id : Int) (state : String)
    (cloudkitRecordId : Option String) : Keeps s (s.setSynced id state cloudkitRecordId) := by
  refine ⟨rfl, rfl, fun row' hrow' => ?_⟩
  obtain ⟨row, hrow, rfl⟩ := List.mem_map.mp hrow'
  refine ⟨row, hrow, (Sql.Row.id_change _ _ _).symm, ?_⟩
  rw [Sql.Row.change]
  split <;> rfl

theorem keeps_updateFragmentSyncState {env : Env} {fragmentId : Int} :
    Keeps s (updateFragmentSyncState env fragmentId "synced" none s).2 := by
  rcases @updateFragmentSyncState_cases _ env s fragmentId with ⟨e, h⟩ | ⟨e, -, h⟩ | h
  all_goals rw [h]
  · exact Keeps.refl s
  · exact keeps_setSynced s fragmentId "synced" none
  · exact keeps_setSynced s fragmentId "synced" none

variable {f : TextFragment Extra} {t : FragmentStore Extra}

/-- The store that an offered fragment meets holds nothing new. -/
theorem keeps_of_offers (h : a.Offers s f t) :
    Keeps s t := by
  cases a with
  | insert env g => exact h.2 ▸ Keeps.refl s
  | applyRemote env g => exact h.2 ▸ Keeps.refl s
  | resolve env id strategy remote => exact h.2.2 ▸ keeps_delete s id

structure Stores (a : FragmentAction Extra) (s s' : FragmentStore Extra)
    (f : TextFragment Extra) : Prop where
  offered : ∃ t, a.Offers s f t ∧ Admits a.env t f ∧ ∃ g, g.core = f.core
    ∧ ∃ (hfits : t.Fits g) (hfresh : g.nonce ∉ t.nonces), s' = t.enter g a.env.nowMs hfits hfresh
  timely : ¬ a.IsRemote → f.timestamp ≤ a.env.nowMs + maxSkewMs

/-- A call stores one fragment, or it stores none and fails for those that it was offered. -/
theorem call_cases (a : FragmentAction Extra) (s : FragmentStore Extra) :
    (∃ f, Stores a s (a.call s).2 f ∧ (a.call s).1 = .ok ())
      ∨ Keeps s (a.call s).2 ∧ ∀ f t, a.Offers s f t → ∃ e, (a.call s).1 = .error e := by
  cases a with
  | insert env f =>
    rw [FragmentAction.call]
    rcases hcall : insertTextFragment env f s with ⟨e | id, s'⟩
    · right
      obtain rfl := insertTextFragment_error hcall
      exact ⟨Keeps.refl _, fun _ _ _ => ⟨e, rfl⟩⟩
    · left
      obtain ⟨-, htime, h, -, rfl⟩ := insertTextFragment_eq_ok.mp hcall
      exact ⟨f, ⟨⟨s, ⟨rfl, rfl⟩, h, f, rfl, h.fits, h.fresh, rfl⟩, fun _ => htime⟩, rfl⟩
  | applyRemote env f =>
    rw [FragmentAction.call]
    rcases hcall : applyRemoteFragment env f s with ⟨e | id, s'⟩
    · right
      obtain rfl := applyRemoteFragment_error hcall
      exact ⟨Keeps.refl _, fun _ _ _ => ⟨e, rfl⟩⟩
    · left
      obtain ⟨h, -, rfl⟩ := applyRemoteFragment_eq_ok.mp hcall
      exact ⟨f, ⟨⟨s, ⟨rfl, rfl⟩, h, f.markSynced, rfl, h.fits, h.fresh, rfl⟩,
        fun hlocal => absurd trivial hlocal⟩, rfl⟩
  | resolve env id strategy remote =>
    rw [FragmentAction.call]
    by_cases hdel : ∃ r, remote = some r ∧ Deletes env s id strategy r
    · obtain ⟨r, rfl, hdel⟩ := hdel
      rcases resolve_deleted hdel with ⟨h, hrun⟩ | ⟨-, e, hrun⟩
      · left
        rw [hrun]
        exact ⟨r, ⟨⟨s.delete id, ⟨rfl, hdel, rfl⟩, h, r.markSynced, rfl, h.fits, h.fresh, rfl⟩,
          fun hlocal => absurd trivial hlocal⟩, rfl⟩
      · right
        rw [hrun]
        exact ⟨keeps_delete s id, fun _ _ _ => ⟨e, rfl⟩⟩
    · right
      refine ⟨?_, fun f t hoffers => absurd ⟨f, hoffers.1, hoffers.2.1⟩ hdel⟩
      rcases resolve_of_not_deletes (fun r hr hd => hdel ⟨r, hr, hd⟩) with ⟨e, hrun⟩ | ⟨hrun, -⟩
      · rw [hrun]
        exact Keeps.refl s
      · rw [hrun]
        exact keeps_updateFragmentSyncState

theorem newRows_of_keeps (h : Keeps s s') : newRows s s' = [] := by
  rw [newRows, List.filter_eq_nil_iff]
  intro row' hrow'
  obtain ⟨row, hrow, hid, -⟩ := h.rows row' hrow'
  simpa [← hid] using s.fragments.bounded row hrow

theorem newRows_enter {g : TextFragment Extra} {nowMs : Int} (h : Keeps s t) (hfits : t.Fits g)
    (hfresh : g.nonce ∉ t.nonces) :
    newRows s (t.enter g nowMs hfits hfresh) = [⟨s.fragments.sequence + 1, g⟩] := by
  show List.filter _ (t.fragments.rows ++ [⟨t.fragments.sequence + 1, g⟩]) = _
  have hold : t.fragments.rows.filter (fun row => s.fragments.sequence < row.id) = [] :=
    newRows_of_keeps h
  rw [List.filter_append, hold, h.sequence]
  simp

theorem step_of_keeps (h : Keeps st.store (a.call st.store).2) :
    (a.step st).2 = ⟨(a.call st.store).2, st.admitted⟩ := by
  rw [FragmentAction.step, newRows_of_keeps h, List.map_nil, List.append_nil]

/-! ### What holds of every row -/

/-- Every row was admitted, as a fragment and at a time that satisfy `P`. -/
def Covers (P : Int → TextFragment Extra → Prop) (st : Audited Extra) : Prop :=
  ∀ row ∈ st.store.fragments.rows, ∃ a ∈ st.admitted, a.id = row.id
    ∧ a.fragment.core = row.record.core ∧ P a.nowMs row.record

def OfCore (P : Int → TextFragment Extra → Prop) : Prop :=
  ∀ nowMs f g, f.core = g.core → P nowMs f → P nowMs g

theorem ofCore_timely :
    OfCore fun nowMs (f : TextFragment Extra) => f.timestamp ≤ nowMs + maxSkewMs := by
  intro nowMs f g hcore h
  show g.core.timestamp ≤ _
  rw [← hcore]
  exact h

theorem ofCore_wellSized : OfCore fun _ (f : TextFragment Extra) => f.WellSized := by
  intro nowMs f g hcore h
  have hf : f.core.WellSized := ⟨h.1, h.2, h.3⟩
  rw [hcore] at hf
  exact ⟨hf.1, hf.2, hf.3⟩

/-- A call keeps what holds of every row when it holds of the fragment that the call stores. -/
theorem covers_step {P : Int → TextFragment Extra → Prop} (hP : OfCore P) (hst : Covers P st)
    (hstores : ∀ f, Stores a st.store (a.call st.store).2 f → P a.env.nowMs f) :
    Covers P (a.step st).2 := by
  -- The rows of a store that keeps what there was are covered by the same admissions.
  have hkept : ∀ {t}, Keeps st.store t → ∀ row ∈ t.fragments.rows, ∃ b ∈ st.admitted,
      b.id = row.id ∧ b.fragment.core = row.record.core ∧ P b.nowMs row.record := by
    intro t ht row hrow
    obtain ⟨old, hold, hid, hcore⟩ := ht.rows row hrow
    obtain ⟨b, hb, hbid, hbcore, hbP⟩ := hst old hold
    exact ⟨b, hb, hbid.trans hid, hbcore.trans hcore, hP _ _ _ hcore hbP⟩
  rcases call_cases a st.store with ⟨f, hf, -⟩ | ⟨hkeeps, -⟩
  · obtain ⟨t, hoffers, -, g, hcore, hfits, hfresh, hrun⟩ := hf.offered
    have hkeeps := keeps_of_offers hoffers
    intro row hrow
    rw [FragmentAction.step, hrun] at hrow ⊢
    rw [newRows_enter hkeeps]
    rcases List.mem_append.mp hrow with hold | hnew
    · obtain ⟨b, hb, hrest⟩ := hkept hkeeps row hold
      exact ⟨b, List.mem_append_left _ hb, hrest⟩
    · rw [List.mem_singleton.mp hnew]
      refine ⟨⟨st.store.fragments.sequence + 1, g, a.env.nowMs⟩,
        List.mem_append_right _ List.mem_cons_self, ?_, rfl, ?_⟩
      · exact congrArg (· + 1) hkeeps.sequence.symm
      · exact hP _ _ _ hcore.symm (hstores f hf)
  · rw [step_of_keeps hkeeps]
    exact hkept hkeeps

structure NoncesUsed (st : Audited Extra) : Prop where
  used : ∀ nonce ∈ st.nonces, nonce ∈ st.store.nonces
  nodup : st.nonces.Nodup

theorem noncesUsed_step (h : NoncesUsed st) : NoncesUsed (a.step st).2 := by
  rcases call_cases a st.store with ⟨f, hf, -⟩ | ⟨hkeeps, -⟩
  · obtain ⟨t, hoffers, -, g, -, hfits, hfresh, hrun⟩ := hf.offered
    have hkeeps := keeps_of_offers hoffers
    have hsame : t.nonces = st.store.nonces := congrArg (List.map Prod.fst) hkeeps.used
    have hnonces : (a.step st).2.nonces = st.nonces ++ [g.nonce] := by
      rw [FragmentAction.step, hrun, newRows_enter hkeeps]
      exact List.map_append
    have hstore : (a.step st).2.store.nonces = st.store.nonces ++ [g.nonce] := by
      rw [← hsame, FragmentAction.step, hrun]
      exact List.map_append
    have hnew : g.nonce ∉ st.nonces := fun hmem => hfresh (hsame ▸ h.used _ hmem)
    refine ⟨?_, ?_⟩
    · rw [hnonces, hstore]
      intro nonce hmem
      rcases List.mem_append.mp hmem with hold | hlast
      · exact List.mem_append_left _ (h.used nonce hold)
      · exact List.mem_append_right _ hlast
    · rw [hnonces]
      exact h.nodup.append (List.nodup_singleton _) (List.disjoint_singleton.mpr hnew)
  · rw [step_of_keeps hkeeps]
    refine ⟨?_, h.nodup⟩
    intro nonce hmem
    show nonce ∈ (a.call st.store).2.usedNonces.map Prod.fst
    rw [hkeeps.used]
    exact h.used nonce hmem

/-- What every run keeps: the lengths of what is stored, and the nonces. -/
structure Guarded (st : Audited Extra) : Prop where
  covered : Covers (fun _ f => f.WellSized) st
  nonces : NoncesUsed st

theorem guarded_empty : Guarded (⟨.empty, []⟩ : Audited Extra) :=
  ⟨nofun, nofun, List.nodup_nil⟩

/-- Every action keeps the invariant. -/
theorem Guarded.step (h : Guarded st) : Guarded (a.step st).2 := by
  refine ⟨covers_step ofCore_wellSized h.covered ?_, noncesUsed_step h.nonces⟩
  intro f hf
  obtain ⟨t, -, hadmits, -⟩ := hf.offered
  exact hadmits.sized

theorem Guarded.sized (h : Guarded st) : Sized st := by
  refine ⟨fun row hrow => ?_, h.nonces.nodup⟩
  obtain ⟨b, hb, hid, hcore, hsized⟩ := h.covered row hrow
  exact ⟨hsized, b, hb, hid, hcore⟩

theorem timely_of_stores (htimely : Timely a st) (h : Stores a st.store s' f) :
    f.timestamp ≤ a.env.nowMs + maxSkewMs := by
  by_cases hremote : a.IsRemote
  · obtain ⟨t, hoffers, hadmits, -⟩ := h.offered
    exact htimely f t hremote hoffers hadmits
  · exact h.timely hremote

theorem offers_unique {f g : TextFragment Extra} {t t' : FragmentStore Extra}
    (h : a.Offers s f t) (h' : a.Offers s g t') : f = g ∧ t = t' := by
  cases a with
  | insert env x => exact ⟨h.1.trans h'.1.symm, h.2.trans h'.2.symm⟩
  | applyRemote env x => exact ⟨h.1.trans h'.1.symm, h.2.trans h'.2.symm⟩
  | resolve env id strategy remote =>
    exact ⟨Option.some.inj (h.1.symm.trans h'.1), h.2.2.trans h'.2.2.symm⟩

/-- What a timely call is offered and must not store, it refuses. -/
theorem rejects_of_timely (hst : NoncesUsed st) (htimely : Timely a st) : Rejects a st := by
  intro f t hoffers hnot
  rcases call_cases a st.store with ⟨g, hg, -⟩ | ⟨hkeeps, herr⟩
  · obtain ⟨t', hoffers', hadmits, -⟩ := hg.offered
    obtain ⟨rfl, rfl⟩ := offers_unique hoffers hoffers'
    refine absurd ⟨hadmits.sized, timely_of_stores htimely hg, fun hmem => ?_⟩ hnot
    have hsame : t.nonces = st.store.nonces :=
      congrArg (List.map Prod.fst) (keeps_of_offers hoffers).used
    exact hadmits.fresh (hsame ▸ hst.used _ hmem)
  · refine ⟨herr f t hoffers, ?_⟩
    rw [step_of_keeps hkeeps]

/-- A remote fragment that nothing but its timestamp speaks against is stored. -/
theorem call_of_admits (hremote : a.IsRemote) (hoffers : a.Offers s f t)
    (hadmits : Admits a.env t f) : (a.call s).1 = .ok () := by
  cases a with
  | insert env g => exact hremote.elim
  | applyRemote env g =>
    obtain ⟨rfl, rfl⟩ := hoffers
    show (dropId (applyRemoteFragment env f t)).1 = .ok ()
    have hstored := applyRemoteFragment_eq_ok.mpr ⟨hadmits, rfl, rfl⟩
    exact congrArg (fun reply => (dropId reply).1) hstored
  | resolve env id strategy remote =>
    obtain ⟨rfl, hdel, rfl⟩ := hoffers
    show (resolveSyncConflict env id strategy (some f) s).1 = .ok ()
    have hstored := applyRemoteFragment_eq_ok.mpr ⟨hadmits, rfl, rfl⟩
    rw [resolve_of_deletes hdel]
    exact congrArg (fun reply => (dropId reply).1) hstored

theorem timely_of_rejects (h : Rejects a st) : Timely a st := by
  intro f t hremote hoffers hadmits
  by_contra hlate
  obtain ⟨⟨e, herr⟩, -⟩ := h f t hoffers fun hadmissible => hlate hadmissible.timely
  have hok : (a.step st).1 = .ok () := call_of_admits hremote hoffers hadmits
  rw [hok] at herr
  cases herr

end Step

/-! ### Runs -/

/-- Every run keeps the lengths and the nonces.  It keeps the timestamps as well, and refuses what
is not admissible, just when no remote fragment that the store would take in is from past the
skew. -/
theorem admission_iff (as : List (FragmentAction Extra)) :
    Machine.Along FragmentAction.step (fun a st => Sized (a.step st).2) as ⟨.empty, []⟩
      ∧ (Machine.Along FragmentAction.step
            (fun a st => WellAdmitted (a.step st).2 ∧ Rejects a st) as ⟨.empty, []⟩ ↔
          Machine.Along FragmentAction.step Timely as ⟨.empty, []⟩) := by
  refine ⟨?_, ?_, ?_⟩
  · exact Machine.along_of_invariant (P := fun _ _ => True)
      (fun a st hst _ => ⟨Guarded.step hst, hst.step.sized⟩) as _ guarded_empty
      (Machine.along_of_forall (fun _ _ => trivial) as _)
  · exact Machine.along_of_invariant (I := fun _ => True)
      (fun a st _ h => ⟨trivial, timely_of_rejects h.2⟩) as _ trivial
  · refine Machine.along_of_invariant
      (I := fun st => Guarded st ∧ Covers (fun nowMs f => f.timestamp ≤ nowMs + maxSkewMs) st)
      (fun a st hst htimely => ?_) as _ ⟨guarded_empty, nofun⟩
    have hcovers := covers_step (a := a) ofCore_timely hst.2 fun f hf => timely_of_stores htimely hf
    exact ⟨⟨hst.1.step, hcovers⟩, ⟨hst.1.step.sized, hcovers⟩,
      rejects_of_timely hst.1.nonces htimely⟩

/-- A remote fragment from an hour ahead is stored. -/
theorem admits_future_fragment :
    ¬ Machine.Along FragmentAction.step
        (fun a st => WellAdmitted (a.step st).2 ∧ Rejects a st)
        [.applyRemote (quietEnv 1000) (plainFragment 1 3601000)] ⟨.empty, []⟩ := by
  rintro ⟨⟨h, -⟩, -⟩
  obtain ⟨b, hb, -, -, htime⟩ := h.timely ⟨1, (plainFragment 1 3601000).markSynced⟩
    (by decide +kernel)
  have hnow : b.nowMs = 1000 := by
    have hall : ∀ b ∈ ((FragmentAction.applyRemote (quietEnv 1000)
        (plainFragment 1 3601000)).step ⟨.empty, []⟩).2.admitted, b.nowMs = 1000 := by
      decide +kernel
    exact hall b hb
  rw [hnow] at htime
  exact absurd htime (by decide)

end WritersProof.Fragments
