/-
  WritersProof.Store.Tampered

  Edits of the events table while no process has the store open.

  An open reads the rows above the last verified one, and trusts those up to it.  Of
  these it reads one hash, that of the last verified row, to resume the chain at.
-/
import WritersProof.Store.Chain

namespace WritersProof.Store

open Rust HashChain

variable {Extra : Type} {C : Crypto} {key : Bytes}

/-- The states of a database that is added to and reopened. -/
inductive Reached (C : Crypto) (key : Bytes) : Session Extra → Prop
  | start : Reached C key (Session.start C key)
  | add {s s' : Session Extra} (e : SecureEvent Extra) :
      Reached C key s → s.step C key (.add e) = .ok s' → Reached C key s'
  | reopen {s s' : Session Extra} :
      Reached C key s → s.step C key .reopen = .ok s' → Reached C key s'

/-- Every column that an event hash or an HMAC is about, and these two. -/
def Record.covered (r : Record Extra) : Record Unit := { r with extra := () }

def newCovered (db : Database Extra) (lastVerified : Int) : List (Record Unit) :=
  (newRows db lastVerified).map fun row => row.record.covered

def Database.withEvents (db : Database Extra) (t : Table Extra) : Database Extra :=
  { db with events := t }

def SameLast (t u : Table Extra) (lastVerified : Int) : Prop :=
  ∀ a ∈ t.rows, ∀ b ∈ u.rows, a.id = lastVerified → b.id = lastVerified →
    a.record.eventHash = b.record.eventHash

/-- The edits that an open looks for: the last verified row is gone, it is as it was but
    the rows above it are not, or they are as they were but its hash is not. -/
inductive Tampered (db : Database Extra) (t : Table Extra) (lastVerified : Int) : Prop
  | lastMissing : 0 < lastVerified → (∀ row ∈ t.rows, row.id ≠ lastVerified) →
      Tampered db t lastVerified
  | newChanged : SameLast t db.events lastVerified →
      newCovered (db.withEvents t) lastVerified ≠ newCovered db lastVerified →
      Tampered db t lastVerified
  | lastChanged : ¬SameLast t db.events lastVerified → newCovered db lastVerified ≠ [] →
      newCovered (db.withEvents t) lastVerified = newCovered db lastVerified →
      Tampered db t lastVerified

/-! ## Reachable states -/

variable {s : Session Extra} {datas : List EventData}

theorem Reached.run (h : Reached C key s) : Run C key s ∧ s.disk.archives = [] := by
  induction h with
  | start => exact ⟨Run.start, rfl⟩
  | add e _ hstep ih =>
    refine ⟨ih.1.step (.add e) (fun heq => nomatch heq) hstep, ?_⟩
    obtain ⟨integrity, -, -, rfl⟩ := step_add hstep
    exact ih.2
  | reopen _ hstep ih =>
    refine ⟨ih.1.step .reopen (fun _ _ _ _ => ih.2) hstep, ?_⟩
    obtain ⟨store, -, hstep⟩ := res_bind_eq_ok.mp hstep
    rw [← Except.ok.inj hstep]
    exact ih.2

variable {t : Table Extra} {rows : List (Row Extra)} {integrity : Integrity} {resume : Digest}

theorem Inv.unforged_of_subset (h : Inv C key s)
    (hsub : ∀ row ∈ t.rows, row ∈ s.disk.db.events.rows) :
    ∀ row ∈ t.rows, ∀ data, Stores C key row.record data → data ∈ s.added.map Prod.fst := by
  intro row hrow data hstores
  have hrecord : row.record ∈ s.records C key := by
    rw [← h.complete]
    exact List.mem_append_right _ (List.mem_map_of_mem (hsub row hrow))
  obtain ⟨event, hevent, heq⟩ := List.mem_map.mp hrecord
  have hevent' : Stores C key row.record event.1 := by
    rw [← heq]
    exact stores_record _ _
  rw [hstores.unique hevent']
  exact List.mem_map_of_mem hevent

theorem covered_record (data : EventData) (extra : Extra) :
    (data.record C key extra).covered = data.record C key () := rfl

theorem StoresAll.covered (h : StoresAll C key rows datas) :
    rows.map (fun row => row.record.covered) = datas.map fun data => data.record C key () := by
  induction h with
  | nil => rfl
  | cons hdata _ ih =>
    rw [List.map_cons, List.map_cons, ih, hdata, covered_record]

theorem StoresAll.eq_of_covered {rows' : List (Row Extra)} {datas datas' : List EventData}
    (h : StoresAll C key rows datas) (h' : StoresAll C key rows' datas')
    (heq : rows.map (fun row => row.record.covered) = rows'.map fun row => row.record.covered) :
    datas = datas' := by
  rw [h.covered, h'.covered] at heq
  refine List.map_injective_iff.mpr (fun d e hde => ?_) heq
  exact Stores.unique (stores_record d ()) (hde ▸ stores_record e ())

/-! ## Opening an edited table -/

/-- The data of the events, in the two parts that the last verified id makes. -/
theorem datas_split (h : Inv C key s) (hr : Recorded C key s integrity) (ho : s.Reopenable) :
    ∃ old new, s.added.map Prod.fst = old ++ new
      ∧ StoresAll C key (newRows s.disk.db integrity.lastVerifiedSequence) new
      ∧ resumeHash s.disk.db integrity.lastVerifiedSequence
        = .ok (tip (computeEventHash C) zeroHash old) := by
  obtain ⟨before, after, hadded, hbefore, hafter⟩ := added_split h integrity.lastVerifiedSequence
  refine ⟨before.map Prod.fst, after.map Prod.fst, ?_, storesAll_of_records hafter,
    resumeHash_of_reopenable h hr ho hbefore⟩
  rw [hadded, List.map_append]

theorem collisionFree_datas (h : NoCollision C datas) :
    CollisionFree EventData.previousHash (computeEventHash C) zeroHash datas :=
  ⟨fun d hd e he heq => previousHash_of_bytes (h.bytes_eq d hd e he heq), h.ne_zero⟩

/-- Both opens resume at one hash exactly when the last verified rows have one hash. -/
theorem sameLast_iff {db : Database Extra} {l : Int} {resume' : Digest}
    (hpos : ∀ row ∈ db.events.rows, 0 < row.id) (h : resumeHash (db.withEvents t) l = .ok resume')
    (h' : resumeHash db l = .ok resume) :
    SameLast t db.events l ↔ resume' = resume := by
  rcases resumeHash_eq_ok.mp h with ⟨hneg, hzero⟩ | ⟨hl, row, hfind, hhash⟩
  · rcases resumeHash_eq_ok.mp h' with ⟨-, hzero'⟩ | ⟨hl, -⟩
    · refine ⟨fun _ => hzero.trans hzero'.symm, fun _ a _ b hb _ hid => ?_⟩
      have := hpos b hb
      omega
    · omega
  · rcases resumeHash_eq_ok.mp h' with ⟨hneg, -⟩ | ⟨-, row', hfind', hhash'⟩
    · omega
    · have hid : row.id = l := by simpa using List.find?_some hfind
      have hid' : row'.id = l := by simpa using List.find?_some hfind'
      have hrow := List.mem_of_find?_eq_some hfind
      have hrow' := List.mem_of_find?_eq_some hfind'
      constructor
      · intro hsame
        apply FixedBytes.ext_val
        rw [← hhash, ← hhash']
        exact hsame row hrow row' hrow' hid hid'
      · rintro rfl a ha b hb hida hidb
        rw [Sql.eq_of_key_eq t.ascending ha hrow (hida.trans hid.symm),
          Sql.eq_of_key_eq db.events.ascending hb hrow' (hidb.trans hid'.symm), hhash, hhash']

/-- An edited table that opens has the last verified row, and with its hash unchanged it
    has the rows above it unchanged. -/
theorem not_tampered_of_accepted {chainHash : Digest} (h : Inv C key s)
    (hr : Recorded C key s integrity) (ho : s.Reopenable)
    (hfree : NoCollision C (s.added.map Prod.fst))
    (hunforged : ∀ row ∈ t.rows, ∀ data, Stores C key row.record data → data ∈ s.added.map Prod.fst)
    (hacc : Accepted C key (s.disk.db.withEvents t) integrity chainHash resume datas) :
    ¬Tampered s.disk.db t integrity.lastVerifiedSequence := by
  obtain ⟨old, new, hadded, hnew, hresume⟩ := datas_split h hr ho
  have hlinked := h.linked
  rw [hadded] at hlinked hfree hunforged
  have hnewlinked := (linked_append.mp hlinked).2
  -- the new rows of both tables are as many
  have hlength : datas.length = new.length := by
    have htotal := hacc.total_eq
    have hfresh := hr.fresh ho
    have hcount := hr.count ho
    have hleft := hacc.stored.length_eq
    have hright := hnew.length_eq
    omega
  rintro (⟨hpos, hmissing⟩ | ⟨hsame, hchanged⟩ | ⟨hlast, hne, hsame⟩)
  · rcases resumeHash_eq_ok.mp hacc.resume_eq with ⟨hneg, -⟩ | ⟨-, row, hfind, -⟩
    · omega
    · exact hmissing row (List.mem_of_find?_eq_some hfind) (by simpa using List.find?_some hfind)
  · refine hchanged ?_
    have htip := (sameLast_iff h.id_pos hacc.resume_eq hresume).mp hsame
    have hmem : ∀ data ∈ datas, data ∈ old ++ new := by
      intro data hdata
      obtain ⟨row, hrow, hstores⟩ := exists_of_mem_right hacc.stored hdata
      exact hunforged row (List.mem_filter.mp hrow).1 data hstores
    have hscan := hacc.linked
    have hprefix : (old ++ new).take old.length = old := List.take_left
    have hle : old.length ≤ (old ++ new).length := by
      rw [List.length_append]
      exact Nat.le_add_right _ _
    rw [htip, ← hprefix] at hscan
    have hpart := (hlinked.eq_take_drop (collisionFree_datas hfree) hle hmem hscan).1
    rw [List.drop_left, hlength, List.take_length] at hpart
    rw [newCovered, newCovered, hacc.stored.covered, hnew.covered, hpart]
  · refine hlast ((sameLast_iff h.id_pos hacc.resume_eq hresume).mpr ?_)
    have hscan := hacc.linked
    rw [hacc.stored.eq_of_covered hnew hsame] at hscan
    cases new with
    | nil =>
      rw [newCovered, hnew.covered] at hne
      exact absurd rfl hne
    | cons first rest => exact hscan.1.symm.trans hnewlinked.1

/-- Without the key and without hash collisions, no edit of the kinds above passes an
    open. -/
theorem open_fails_of_tampered {s : Session Extra} (h : Reached C key s)
    (hfree : NoCollision C (s.added.map Prod.fst)) {t : Table Extra}
    (hunforged : ∀ row ∈ t.rows, ∀ data, Stores C key row.record data → data ∈ s.added.map Prod.fst)
    {integrity : Integrity} (hintegrity : s.disk.db.integrity = some integrity)
    (htampered : Tampered s.disk.db t integrity.lastVerifiedSequence) :
    ∃ e, openStore C key (s.disk.db.withEvents t) = .error e := by
  obtain ⟨hinv, integrity', hrecorded⟩ := h.run.1.inv hfree
  obtain rfl : integrity = integrity' := Option.some.inj (hintegrity.symm.trans hrecorded.eq)
  have hreopen : s.Reopenable := fun _ _ _ => h.run.2
  cases hopen : openStore C key (s.disk.db.withEvents t) with
  | error e => exact ⟨e, rfl⟩
  | ok store =>
    obtain ⟨⟨db, lastHash⟩, hverify, -⟩ := res_bind_eq_ok.mp hopen
    have hkept : (s.disk.db.withEvents t).integrity = some integrity := hintegrity
    rw [verifyIntegrity, hkept] at hverify
    obtain ⟨chainHash, resume, datas, hacc, -, -⟩ := verifyRecord_eq_ok.mp hverify
    exact absurd htampered (not_tampered_of_accepted hinv hrecorded hreopen hfree hunforged hacc)

/-! ## Two deletions -/

def Action.isArchive : Action Extra → Bool
  | .archive .. => true
  | _ => false

theorem Reached.steps {actions : List (Action Extra)}
    (hno : ∀ action ∈ actions, action.isArchive = false) {s s' : Session Extra}
    (h : Reached C key s) (hok : s.steps C key actions = .ok s') : Reached C key s' := by
  induction actions generalizing s with
  | nil => exact Except.ok.inj hok ▸ h
  | cons action actions ih =>
    rw [Session.steps, List.foldlM_cons] at hok
    obtain ⟨s₁, hstep, hok⟩ := res_bind_eq_ok.mp hok
    rw [List.forall_mem_cons] at hno
    refine ih hno.2 ?_ hok
    cases action with
    | add e => exact h.add e hstep
    | archive ageDays cutoff date => exact absurd hno.1 (by simp [Action.isArchive])
    | reopen => exact h.reopen hstep

def without (timestampNs : Int) (s : Session Unit) : Table Unit :=
  s.disk.db.events.filter fun r => r.timestampNs ≠ timestampNs

theorem without_subset (timestampNs : Int) (s : Session Unit) :
    ∀ row ∈ (without timestampNs s).rows, row ∈ s.disk.db.events.rows :=
  fun _ hrow => (List.mem_filter.mp hrow).1

def twoAdded : List EventData :=
  [(savedAt 1).data zeroHash,
    (savedAt 9).data (computeEventHash sumHash ((savedAt 1).data zeroHash))]

/-- What a run of additions and openings that adds these two leads to. -/
theorem exists_reached {actions : List (Action Unit)} {α : Type} {f : Session Unit → α} {b : α}
    (hno : ∀ action ∈ actions, action.isArchive = false)
    (hrun : ((Session.start sumHash []).steps sumHash [] actions).toOption.map
      (fun s => (s.added.map Prod.fst, f s)) = some (twoAdded, b)) :
    ∃ s, Reached sumHash [] s ∧ NoCollision sumHash (s.added.map Prod.fst) ∧ f s = b := by
  obtain ⟨s, hok, hs⟩ := exists_ok_of_toOption hrun
  obtain ⟨hadded, hf⟩ := Prod.mk.inj hs
  refine ⟨s, Reached.start.steps hno hok, ?_, hf⟩
  rw [hadded]
  exact ⟨by decide +kernel, by decide +kernel⟩

/-- The only verified row is deleted, or the row above it. -/
theorem open_fails_of_tampered_deleted : ∃ s : Session Unit, Reached sumHash [] s
    ∧ s.disk.db.events.rows.length = 2
    ∧ (∃ e, openStore sumHash [] (s.disk.db.withEvents (without 1 s)) = .error e)
    ∧ ∃ e, openStore sumHash [] (s.disk.db.withEvents (without 9 s)) = .error e := by
  obtain ⟨s, hreached, hfree, hs⟩ := @exists_reached
    [.add (savedAt 1), .reopen, .add (savedAt 9)] _ (fun s =>
      (s.disk.db.integrity.map Integrity.lastVerifiedSequence, s.disk.db.events.rows.length,
        (without 1 s).rows.map Sql.Row.id,
        (newCovered (s.disk.db.withEvents (without 9 s)) 1).length,
        (newCovered s.disk.db 1).length)) (some 1, 2, [2], 0, 1) (by simp [Action.isArchive])
    (by decide +kernel)
  simp only [Prod.mk.injEq, Option.map_eq_some_iff] at hs
  obtain ⟨⟨integrity, hintegrity, hlast⟩, hlength, hids, hgone, hnew⟩ := hs
  have hunforged := fun timestampNs =>
    (hreached.run.1.inv hfree).1.unforged_of_subset (without_subset timestampNs s)
  refine ⟨s, hreached, hlength,
    open_fails_of_tampered hreached hfree (hunforged 1) hintegrity ?_,
    open_fails_of_tampered hreached hfree (hunforged 9) hintegrity ?_⟩
  · rw [hlast]
    refine .lastMissing (by decide) fun row hrow hid => ?_
    have hmem := List.mem_map_of_mem (f := Sql.Row.id) hrow
    rw [hids, hid] at hmem
    revert hmem
    decide
  · rw [hlast]
    refine .newChanged (fun a ha b hb hida hidb => ?_) fun heq => ?_
    · rw [Sql.eq_of_key_eq s.disk.db.events.ascending (without_subset 9 s a ha) hb
        (hida.trans hidb.symm)]
    · rw [← heq, hgone] at hnew
      cases hnew

/-- A verified row below the last one is deleted: the database opens. -/
theorem opens_without_verified_row : ∃ s : Session Unit, Reached sumHash [] s
    ∧ NoCollision sumHash (s.added.map Prod.fst)
    ∧ (∀ row ∈ (without 1 s).rows, ∀ data, Stores sumHash [] row.record data →
        data ∈ s.added.map Prod.fst)
    ∧ (without 1 s).records ≠ s.disk.db.events.records
    ∧ ∃ store, openStore sumHash [] (s.disk.db.withEvents (without 1 s)) = .ok store := by
  obtain ⟨s, hreached, hfree, hs⟩ := @exists_reached
    [.add (savedAt 1), .add (savedAt 9), .reopen] _ (fun s =>
      ((openStore sumHash [] (s.disk.db.withEvents (without 1 s))).toOption.isSome,
        s.disk.db.events.rows.length, (without 1 s).rows.length)) (true, 2, 1)
    (by simp [Action.isArchive]) (by decide +kernel)
  simp only [Prod.mk.injEq] at hs
  obtain ⟨hopen, hlength, hlength'⟩ := hs
  refine ⟨s, hreached, hfree,
    (hreached.run.1.inv hfree).1.unforged_of_subset (without_subset 1 s), fun heq => ?_, ?_⟩
  · have := congrArg List.length heq
    rw [Table.records, Table.records, List.length_map, List.length_map, hlength, hlength'] at this
    cases this
  · cases hstore : openStore sumHash [] (s.disk.db.withEvents (without 1 s)) with
    | ok store => exact ⟨store, rfl⟩
    | error e =>
      rw [hstore] at hopen
      cases hopen

end WritersProof.Store
