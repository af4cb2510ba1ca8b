/-
  The list of a document's snapshots over any run of `save` and `restore`
  (`SnapshotStore::list` of crates/cpoe/src/snapshot/store.rs).

  The list is made from the order of the timestamps alone.  It tells the history of a document
  (`Tells`) as long as each timestamp is above the one before and the difference of the two is an
  `i64`.
-/
import WritersProof.Lib.Machine
import WritersProof.Snapshot.Store

namespace WritersProof.Snapshot

open Rust

/-! ## The list -/

/-- 30-minute gap in nanoseconds defines a session boundary. -/
def sessionGapNs : Int := 30 * 60 * 1000000000

/-- A snapshot entry enriched with session grouping and word count delta. -/
structure SnapshotEntry extends SnapshotRecord where
  id : Int
  wordCountDelta : Int
  sessionGroup : UInt32

def SnapshotEntry.snapshot (e : SnapshotEntry) : SnapshotMeta := ⟨e.id, e.toSnapshotRecord⟩

def nextGroup (sessionGroup : UInt32) (prev : Option SnapshotMeta) (snap : SnapshotMeta) :
    Res String UInt32 :=
  match prev with
  | none => .ok sessionGroup
  | some prev => do
    let gap ← subI64 snap.record.timestampNs prev.record.timestampNs
    if sessionGapNs < gap then addU32 sessionGroup 1 else .ok sessionGroup

def wordCountDelta (prev : Option SnapshotMeta) (snap : SnapshotMeta) : Res String Int :=
  match prev with
  | some prev => subI32 snap.record.wordCount prev.record.wordCount
  | none => .ok snap.record.wordCount

def listLoop : UInt32 → Option SnapshotMeta → List SnapshotMeta → Res String (List SnapshotEntry)
  | _, _, [] => .ok []
  | sessionGroup, prev, snap :: rest => do
    let sessionGroup ← nextGroup sessionGroup prev snap
    let delta ← wordCountDelta prev snap
    let entries ← listLoop sessionGroup (some snap) rest
    .ok (⟨snap.record, snap.id, delta, sessionGroup⟩ :: entries)

/-- `ORDER BY timestamp_ns ASC` -/
abbrev ByTimestamp := Sql.OrderBy fun snap : SnapshotMeta => snap.record.timestampNs

/-- List snapshots for a document, reverse chronological, with session grouping
    and word count deltas. -/
def SnapshotStore.list (order : ByTimestamp) (documentPath : String) (s : SnapshotStore) :
    Res String (List SnapshotEntry) := do
  let entries ← listLoop 0 none (order.sort (s.history documentPath))
  .ok entries.reverse

/-! ## What a list tells -/

/-- The entries are those of the snapshots, newest first; the differences up to an entry add up to
its count; and sessions are numbered in order. -/
structure Tells (snaps : List SnapshotMeta) (entries : List SnapshotEntry) : Prop where
  newestFirst : entries.map SnapshotEntry.snapshot = snaps.reverse
  deltas : ∀ newer e older, entries = newer ++ e :: older →
    ((e :: older).map (·.wordCountDelta)).sum = e.wordCount
  groups : entries.Pairwise fun newer older => older.sessionGroup ≤ newer.sessionGroup

structure LoopTells (sessionGroup : UInt32) (prev : Option SnapshotMeta)
    (snaps : List SnapshotMeta) (entries : List SnapshotEntry) : Prop where
  snapshots : entries.map SnapshotEntry.snapshot = snaps
  deltas : ∀ older e newer, entries = older ++ e :: newer →
    ((older ++ [e]).map (·.wordCountDelta)).sum
      = e.wordCount - (prev.map (·.record.wordCount)).getD 0
  groups : entries.Pairwise fun older newer => older.sessionGroup ≤ newer.sessionGroup
  above : ∀ e ∈ entries, sessionGroup ≤ e.sessionGroup

variable {prev : Option SnapshotMeta} {snap : SnapshotMeta} {snaps : List SnapshotMeta}
  {entries : List SnapshotEntry} {documentPath : String} {s : SnapshotStore} {g : UInt32}

theorem nextGroup_le {g' : UInt32} (h : nextGroup g prev snap = .ok g') : g ≤ g' := by
  cases prev with
  | none =>
    cases h
    exact UInt32.le_refl g
  | some prev =>
    obtain ⟨gap, -, h⟩ := res_bind_eq_ok.mp h
    split at h
    · rw [addU32] at h
      split at h
      · rename_i hlt
        cases h
        rw [UInt32.le_iff_toNat_le, UInt32.toNat_add, Nat.mod_eq_of_lt hlt]
        exact Nat.le_add_right _ _
      · cases h
    · cases h
      exact UInt32.le_refl g

theorem wordCountDelta_eq {delta : Int} (h : wordCountDelta prev snap = .ok delta) :
    delta = snap.record.wordCount - (prev.map (·.record.wordCount)).getD 0 := by
  cases prev with
  | none =>
    cases h
    exact (Int.sub_zero _).symm
  | some prev =>
    unfold wordCountDelta subI32 at h
    dsimp only at h
    split at h
    · cases h
      rfl
    · cases h

/-- What a list that is returned says. -/
theorem listLoop_tells (h : listLoop g prev snaps = .ok entries) :
    LoopTells g prev snaps entries := by
  induction snaps generalizing g prev entries with
  | nil =>
    cases h
    refine ⟨rfl, fun older e newer hsplit => ?_, List.Pairwise.nil, fun _ h => nomatch h⟩
    exact absurd hsplit.symm (List.append_ne_nil_of_right_ne_nil _ (List.cons_ne_nil _ _))
  | cons snap rest ih =>
    obtain ⟨g', hg, h⟩ := res_bind_eq_ok.mp h
    obtain ⟨delta, hdelta, h⟩ := res_bind_eq_ok.mp h
    obtain ⟨entries, hentries, h⟩ := res_bind_eq_ok.mp h
    cases h
    have htells := ih hentries
    have hle := nextGroup_le hg
    refine ⟨congrArg _ htells.snapshots, fun older e newer hsplit => ?_, ?_, ?_⟩
    · have hfirst := wordCountDelta_eq hdelta
      cases older with
      | nil =>
        obtain ⟨rfl, -⟩ := List.cons.inj hsplit
        exact (Int.add_zero _).trans hfirst
      | cons first older =>
        obtain ⟨rfl, hrest⟩ := List.cons.inj hsplit
        have hsum := htells.deltas older e newer hrest
        rw [Option.map_some, Option.getD_some] at hsum
        rw [List.cons_append, List.map_cons, List.sum_cons, hsum]
        dsimp only
        omega
    · exact List.pairwise_cons.mpr ⟨htells.above, htells.groups⟩
    · intro e he
      rcases List.mem_cons.mp he with rfl | he
      · exact hle
      · exact UInt32.le_trans hle (htells.above e he)

theorem list_tells {order : ByTimestamp} (h : s.list order documentPath = .ok entries) :
    Tells (order.sort (s.history documentPath)) entries := by
  obtain ⟨oldestFirst, hloop, h⟩ := res_bind_eq_ok.mp h
  cases h
  have htells := listLoop_tells hloop
  refine ⟨?_, fun newer e older hsplit => ?_, List.pairwise_reverse.mpr htells.groups⟩
  · rw [List.map_reverse, htells.snapshots]
  · have hsplit' : oldestFirst = older.reverse ++ e :: newer.reverse := by
      rw [← List.reverse_reverse oldestFirst, hsplit]
      simp
    have hsum := htells.deltas _ e _ hsplit'
    rw [← List.reverse_cons, List.map_reverse, List.sum_reverse] at hsum
    exact hsum.trans (Int.sub_zero _)

/-! ## When the list is returned -/

/-- The numbers of a row that a call has written -/
structure SnapshotRecord.Sound (r : SnapshotRecord) : Prop where
  timestampNs : FitsI64 r.timestampNs
  wordCount : 0 ≤ r.wordCount ∧ r.wordCount < 2 ^ 31

/-- The timestamp is above the one before, and the difference is an `i64`. -/
def Follows (prev : Option SnapshotMeta) (snap : SnapshotMeta) : Prop :=
  ∀ p ∈ prev, p.record.timestampNs < snap.record.timestampNs
    ∧ snap.record.timestampNs - p.record.timestampNs ≤ i64Max

theorem follows_some {p snap : SnapshotMeta} :
    Follows (some p) snap ↔ p.record.timestampNs < snap.record.timestampNs
      ∧ snap.record.timestampNs - p.record.timestampNs ≤ i64Max :=
  ⟨fun h => h p rfl, fun h q hq => by cases hq; exact h⟩

/-- The number of a session is not above that of the half hours since the first `i64`. -/
def Numbered (sessionGroup : UInt32) (prev : Option SnapshotMeta) : Prop :=
  sessionGroup.toNat * sessionGapNs ≤ (prev.map (·.record.timestampNs)).getD i64Min - i64Min

theorem nextGroup_returns (hsnap : snap.record.Sound) (hnumbered : Numbered g prev)
    (hfollows : Follows prev snap) :
    ∃ g', nextGroup g prev snap = .ok g' ∧ Numbered g' (some snap) := by
  obtain ⟨hmin, hmax⟩ := hsnap.timestampNs
  unfold Numbered at hnumbered ⊢
  rw [Option.map_some, Option.getD_some]
  cases prev with
  | none =>
    refine ⟨g, rfl, ?_⟩
    rw [Option.map_none, Option.getD_none] at hnumbered
    omega
  | some p =>
    rw [Option.map_some, Option.getD_some] at hnumbered
    obtain ⟨hlt, hle⟩ := follows_some.mp hfollows
    have hfits : FitsI64 (snap.record.timestampNs - p.record.timestampNs) := by
      unfold FitsI64 i64Min
      omega
    unfold nextGroup
    dsimp only
    rw [subI64_eq_ok.mpr ⟨hfits, rfl⟩, res_ok_bind]
    by_cases hgap : sessionGapNs < snap.record.timestampNs - p.record.timestampNs
    · -- There are fewer half hours in the range of `i64` than numbers.
      have hroom : g < 4294967295 := by
        rw [UInt32.lt_iff_toNat_lt]
        unfold sessionGapNs i64Min i64Max at *
        show g.toNat < 4294967295
        omega
      refine ⟨g + 1, ?_, ?_⟩
      · rw [if_pos hgap, addU32_one hroom]
      · rw [toNat_add_one hroom]
        unfold sessionGapNs at *
        push_cast
        omega
    · refine ⟨g, if_neg hgap, ?_⟩
      omega

theorem listLoop_returns (hsnaps : ∀ snap ∈ snaps, snap.record.Sound)
    (hprev : ∀ p ∈ prev, p.record.Sound) (hnumbered : Numbered g prev)
    (hfollows : EachAfter Follows prev snaps) :
    ∃ entries, listLoop g prev snaps = .ok entries := by
  induction snaps generalizing g prev with
  | nil => exact ⟨[], rfl⟩
  | cons snap rest ih =>
    rw [List.forall_mem_cons] at hsnaps
    obtain ⟨g', hg, hnumbered'⟩ := nextGroup_returns hsnaps.1 hnumbered hfollows.1
    have hdelta : ∃ delta, wordCountDelta prev snap = .ok delta := by
      cases prev with
      | none => exact ⟨_, rfl⟩
      | some p =>
        obtain ⟨hlo, hhi⟩ := hsnaps.1.wordCount
        obtain ⟨hlo', hhi'⟩ := (hprev p rfl).wordCount
        refine ⟨_, if_pos ?_⟩
        unfold FitsI32
        omega
    obtain ⟨delta, hdelta⟩ := hdelta
    obtain ⟨entries, hentries⟩ := ih hsnaps.2 (fun p hp => by cases hp; exact hsnaps.1)
      hnumbered' hfollows.2
    exact ⟨_, by rw [listLoop, hg, res_ok_bind, hdelta, res_ok_bind, hentries, res_ok_bind]⟩

/-- A list that is returned has found no difference that is too large. -/
theorem follows_of_listLoop (h : listLoop g prev snaps = .ok entries)
    (hlater : EachAfter
      (fun prev snap => ∀ p ∈ prev, p.record.timestampNs < snap.record.timestampNs) prev snaps) :
    EachAfter Follows prev snaps := by
  induction snaps generalizing g prev entries with
  | nil => trivial
  | cons snap rest ih =>
    obtain ⟨g', hg, h⟩ := res_bind_eq_ok.mp h
    obtain ⟨delta, -, h⟩ := res_bind_eq_ok.mp h
    obtain ⟨entries, hentries, -⟩ := res_bind_eq_ok.mp h
    refine ⟨fun p hp => ⟨hlater.1 p hp, ?_⟩, ih hentries hlater.2⟩
    cases hp
    obtain ⟨gap, hgap, -⟩ := res_bind_eq_ok.mp hg
    exact (subI64_eq_ok.mp hgap).1.2

/-! ## What the timestamps keep -/

def Good (documentPath : String) (s : SnapshotStore) : Prop :=
  EachAfter Follows none (s.history documentPath)

/-- The timestamps of the document go up in the order of insertion, and every list of it tells its
history. -/
structure Kept (documentPath : String) (s : SnapshotStore) : Prop where
  increasing : (s.history documentPath).Pairwise fun a b =>
    a.record.timestampNs < b.record.timestampNs
  listed : ∀ order : ByTimestamp, ∃ entries, s.list order documentPath = .ok entries
    ∧ Tells (s.history documentPath) entries

theorem isChain_of_eachAfter {R : SnapshotMeta → SnapshotMeta → Prop} :
    EachAfter (fun prev next => ∀ p ∈ prev, R p next) (some snap) snaps ↔
      (snap :: snaps).IsChain R := by
  induction snaps generalizing snap with
  | nil => exact iff_of_true trivial (.singleton _)
  | cons next rest ih =>
    rw [EachAfter, ih, List.isChain_cons_cons]
    exact and_congr_left fun _ => ⟨fun h => h snap rfl, fun h p hp => by cases hp; exact h⟩

theorem later_iff_pairwise :
    EachAfter (fun prev snap => ∀ p ∈ prev, p.record.timestampNs < snap.record.timestampNs) none
        snaps ↔
      snaps.Pairwise fun a b => a.record.timestampNs < b.record.timestampNs := by
  have : IsTrans SnapshotMeta fun a b => a.record.timestampNs < b.record.timestampNs :=
    ⟨fun _ _ _ => Int.lt_trans⟩
  cases snaps with
  | nil => exact iff_of_true trivial List.Pairwise.nil
  | cons snap rest =>
    rw [EachAfter, isChain_of_eachAfter, List.isChain_iff_pairwise]
    exact and_iff_right fun p hp => absurd hp (Option.not_mem_none p)

theorem Good.increasing (h : Good documentPath s) :
    (s.history documentPath).Pairwise fun a b => a.record.timestampNs < b.record.timestampNs :=
  later_iff_pairwise.mp (EachAfter.mono (fun _ _ hfollows p hp => (hfollows p hp).1) h)

def SnapshotStore.Sound (s : SnapshotStore) : Prop := ∀ row ∈ s.metas.rows, row.record.Sound

theorem kept_iff (hs : s.Sound) : Kept documentPath s ↔ Good documentPath s := by
  constructor
  · intro h
    obtain ⟨entries, hlist, -⟩ := h.listed default
    obtain ⟨oldestFirst, hloop, -⟩ := res_bind_eq_ok.mp hlist
    rw [Sql.OrderBy.sort_eq _ h.increasing] at hloop
    exact follows_of_listLoop hloop (later_iff_pairwise.mpr h.increasing)
  · intro h
    refine ⟨h.increasing, fun order => ?_⟩
    have hsort := order.sort_eq h.increasing
    have hsound : ∀ snap ∈ s.history documentPath, snap.record.Sound :=
      fun snap hsnap => hs snap (List.mem_filter.mp hsnap).1
    have hzero : Numbered 0 none := Int.le_of_eq (Int.zero_mul _)
    have hnone : ∀ p ∈ (none : Option SnapshotMeta), p.record.Sound := fun _ h => nomatch h
    obtain ⟨oldestFirst, hloop⟩ := listLoop_returns hsound hnone hzero h
    have hlist : s.list order documentPath = .ok oldestFirst.reverse := by
      rw [SnapshotStore.list, hsort, hloop, res_ok_bind]
    have htells := list_tells hlist
    rw [hsort] at htells
    exact ⟨_, hlist, htells⟩

/-! ## One call -/

inductive Op where
  | save (call : SaveCall)
  | restore (call : RestoreCall)

section Step

variable (X : Crates)

def step : Op → SnapshotStore → Res String (Int ⊕ String) × SnapshotStore
  | .save c, s => ((c.run X s).1.map .inl, (c.run X s).2)
  | .restore c, s => ((c.run X s).1.map .inr, (c.run X s).2)

/-- A call that goes through finds the clock not too far past the document's last snapshot, and
`restore` finds it past that one. -/
def OnTime : Op → SnapshotStore → Prop
  | .save c, s => c.Completes X s → ∀ last ∈ (s.history c.documentPath).getLast?,
      c.env.nowNs - last.record.timestampNs ≤ i64Max
  | .restore c, s => ∀ restored, c.Completes X s restored →
      ∀ last ∈ (s.history c.documentPath).getLast?, last.record.timestampNs < c.env.nowNs
        ∧ c.env.nowNs - last.record.timestampNs ≤ i64Max

end Step

/-- The rows of a document after one more has been inserted -/
theorem history_insert {s s' : SnapshotStore} {record : SnapshotRecord}
    (h : s'.metas = s.metas.insert record) (documentPath : String) :
    s'.history documentPath = s.history documentPath
      ++ if record.documentPath = documentPath then [⟨s.metas.sequence + 1, record⟩] else [] := by
  rw [SnapshotStore.history, h]
  show (s.metas.rows ++ [_]).filter _ = _
  rw [List.filter_append, List.filter_singleton, Bool.cond_decide]
  rfl

section Steps

variable {X : Crates}

variable {c : SaveCall} {restored : String}

theorem save_completes (h : c.Completes X s) :
    (step X (.save c) s).2.metas = s.metas.insert (c.record X s) := by
  obtain ⟨id, s', hrun⟩ := SaveCall.run_of_completes h
  show (c.run X s).2.metas = _
  rw [hrun]
  exact (SaveCall.completes_of_run hrun).2.2

theorem save_history (h : c.Completes X s) (documentPath : String) :
    (step X (.save c) s).2.history documentPath = s.history documentPath
      ++ if c.documentPath = documentPath then [⟨s.metas.sequence + 1, c.record X s⟩] else [] :=
  history_insert (save_completes h) documentPath

theorem save_fails (h : ¬ c.Completes X s) : (step X (.save c) s).2 = s := by
  show (c.run X s).2 = s
  rcases hrun : c.run X s with ⟨e | id, s'⟩
  · exact SaveCall.run_error hrun
  · exact absurd (SaveCall.completes_of_run hrun).1 h

theorem restore_completes {c : RestoreCall} (h : c.Completes X s restored) :
    (step X (.restore c) s).2.metas = (s.metas.insert (c.preSave X)).insert
    (c.marker X restored) := by
  obtain ⟨s', hrun⟩ := RestoreCall.run_of_completes h
  show (c.run X s).2.metas = _
  rw [hrun]
  exact (RestoreCall.completes_of_run hrun).2

theorem restore_history {c : RestoreCall} (h : c.Completes X s restored) (documentPath : String) :
    (step X (.restore c) s).2.history documentPath = s.history documentPath
      ++ if c.documentPath = documentPath then
        [⟨s.metas.sequence + 1, c.preSave X⟩, ⟨s.metas.sequence + 2, c.marker X restored⟩]
      else [] := by
  have hsaved : { s with metas := s.metas.insert (c.preSave X) }.history documentPath
      = s.history documentPath ++ if c.documentPath = documentPath then
        [⟨s.metas.sequence + 1, c.preSave X⟩] else [] :=
    @history_insert s _ (c.preSave X) rfl documentPath
  have hmarked := @history_insert { s with metas := s.metas.insert (c.preSave X) } _ _
    (restore_completes h) documentPath
  rw [hmarked, hsaved, List.append_assoc]
  show _ ++ (_ ++ if c.documentPath = documentPath then _ else _) = _
  split
  · rw [Sql.Table.sequence_insert, Int.add_assoc]
    rfl
  · rfl

theorem restore_fails {c : RestoreCall} (h : ∀ restored, ¬ c.Completes X s restored) :
    (step X (.restore c) s).2 = s := by
  show (c.run X s).2 = s
  rcases hrun : c.run X s with ⟨e | restored, s'⟩
  · exact RestoreCall.run_error hrun
  · exact absurd (RestoreCall.completes_of_run hrun).1 (h restored)

theorem Good.lastTimestamp_eq {documentPath : String} (h : Good documentPath s)
    {last : SnapshotMeta} (hlast : last ∈ (s.history documentPath).getLast?) :
    s.lastTimestamp documentPath = last.record.timestampNs := by
  have hmax : ((s.history documentPath).map (·.record.timestampNs)).max?
      = some last.record.timestampNs := by
    rw [List.max?_eq_some_iff]
    refine ⟨List.mem_map_of_mem (List.mem_of_getLast? hlast), fun ts hts => ?_⟩
    obtain ⟨snap, hsnap, rfl⟩ := List.mem_map.mp hts
    have hincreasing := h.increasing
    obtain ⟨front, hsplit⟩ := List.getLast?_eq_some_iff.mp hlast
    rw [hsplit] at hsnap hincreasing
    rcases List.mem_append.mp hsnap with hfront | hself
    · exact Int.le_of_lt ((List.pairwise_append.mp hincreasing).2.2 snap hfront last
        (List.mem_singleton_self _))
    · rw [List.mem_singleton.mp hself]
  rw [SnapshotStore.lastTimestamp, hmax, Option.getD_some]

/-- The time of a new snapshot follows the last one if the clock is not too far past that. -/
theorem Good.follows_save {id : Int} (h : Good c.documentPath s) :
    Follows (s.history c.documentPath).getLast? ⟨id, c.record X s⟩ ↔
      ∀ last ∈ (s.history c.documentPath).getLast?,
        c.env.nowNs - last.record.timestampNs ≤ i64Max := by
  refine forall₂_congr fun last hlast => ?_
  have hts : (c.record X s).timestampNs = if c.env.nowNs ≤ last.record.timestampNs
      then last.record.timestampNs + 1 else c.env.nowNs := by
    show c.timestampNs s = _
    rw [SaveCall.timestampNs, h.lastTimestamp_eq hlast]
  dsimp only
  rw [hts]
  unfold i64Max
  split
  · omega
  · omega

theorem follows_restore {c : RestoreCall} {prev : Option SnapshotMeta} {id id' : Int} :
    EachAfter Follows prev [⟨id, c.preSave X⟩, ⟨id', c.marker X restored⟩] ↔
      ∀ last ∈ prev, last.record.timestampNs < c.env.nowNs
        ∧ c.env.nowNs - last.record.timestampNs ≤ i64Max := by
  have hmarker : Follows (some ⟨id, c.preSave X⟩) ⟨id', c.marker X restored⟩ := by
    rw [follows_some]
    show c.env.nowNs < c.env.nowNs + 1 ∧ c.env.nowNs + 1 - c.env.nowNs ≤ i64Max
    unfold i64Max
    omega
  exact and_iff_left ⟨hmarker, trivial⟩

theorem good_added {s' : SnapshotStore} {path : String} {added : List SnapshotMeta}
    (h : ∀ documentPath, s'.history documentPath
      = s.history documentPath ++ if path = documentPath then added else []) :
    (∀ documentPath, Good documentPath s') ↔
      (∀ documentPath, Good documentPath s)
        ∧ EachAfter Follows (s.history path).getLast? added := by
  have hgood : ∀ documentPath, Good documentPath s' ↔ Good documentPath s
      ∧ EachAfter Follows (s.history documentPath).getLast?
        (if path = documentPath then added else []) := by
    intro documentPath
    rw [Good, h, eachAfter_append, Option.or_none]
    rfl
  constructor
  · intro hall
    refine ⟨fun documentPath => ((hgood documentPath).mp (hall documentPath)).1, ?_⟩
    have hpath := ((hgood path).mp (hall path)).2
    rwa [if_pos rfl] at hpath
  · rintro ⟨hall, hadded⟩ documentPath
    refine (hgood documentPath).mpr ⟨hall documentPath, ?_⟩
    split
    · rename_i hpath
      rw [← hpath]
      exact hadded
    · trivial

/-- One call: the timestamps of all documents keep what they keep exactly if it is on time. -/
theorem good_step (op : Op) :
    (∀ documentPath, Good documentPath (step X op s).2) ↔
      (∀ documentPath, Good documentPath s) ∧ OnTime X op s := by
  cases op with
  | save c =>
    by_cases hcompletes : c.Completes X s
    · rw [good_added (save_history hcompletes)]
      refine and_congr_right fun hall => ?_
      refine (and_iff_left trivial).trans ((hall c.documentPath).follows_save.trans ?_)
      exact ⟨fun h _ => h, fun h => h hcompletes⟩
    · rw [save_fails hcompletes]
      exact (and_iff_left fun h => absurd h hcompletes).symm
  | restore c =>
    by_cases hcompletes : ∃ restored, c.Completes X s restored
    · obtain ⟨restored, hcompletes⟩ := hcompletes
      rw [good_added (restore_history hcompletes)]
      refine and_congr_right fun _ => follows_restore.trans ?_
      exact ⟨fun h _ _ => h, fun h => h restored hcompletes⟩
    · rw [not_exists] at hcompletes
      rw [restore_fails hcompletes]
      exact (and_iff_left fun restored h => absurd h (hcompletes restored)).symm

/-- A run ends well just when it starts well and all its calls are on time. -/
theorem good_run (ops : List Op) (s : SnapshotStore) :
    (∀ documentPath, Good documentPath (Machine.run (step X) ops s).2) ↔
      (∀ documentPath, Good documentPath s) ∧ Machine.Along (step X) (OnTime X) ops s := by
  induction ops generalizing s with
  | nil => exact (and_iff_left trivial).symm
  | cons op ops ih =>
    rw [Machine.run_cons, ih, good_step, and_assoc]
    rfl

theorem sound_insert {record : SnapshotRecord} {s' : SnapshotStore}
    (hmetas : s'.metas = s.metas.insert record) (hs : s.Sound) (hrecord : record.Sound) :
    s'.Sound := by
  intro row hrow
  rw [hmetas] at hrow
  rcases List.mem_append.mp hrow with hold | hnew
  · exact hs row hold
  · rw [List.mem_singleton.mp hnew]
    exact hrecord

/-- Every call keeps the store sound, -/
theorem sound_step (op : Op) (hs : s.Sound) : (step X op s).2.Sound := by
  cases op with
  | save c =>
    by_cases hcompletes : c.Completes X s
    · refine sound_insert (save_completes hcompletes) hs ⟨?_, countWords_range c.plaintext⟩
      show FitsI64 (c.timestampNs s)
      have hnow : FitsI64 c.env.nowNs := fitsI64_timestampNanosSafe _
      have hlater := hcompletes.later
      rw [SaveCall.timestampNs]
      unfold FitsI64 at hnow ⊢
      split
      · omega
      · exact hnow
    · rw [save_fails hcompletes]
      exact hs
  | restore c =>
    by_cases hcompletes : ∃ restored, c.Completes X s restored
    · obtain ⟨restored, hcompletes⟩ := hcompletes
      have hnow : FitsI64 c.env.nowNs := fitsI64_timestampNanosSafe _
      have hlater := hcompletes.later
      have hsaved : { s with metas := s.metas.insert (c.preSave X) }.Sound :=
        sound_insert rfl hs ⟨hnow, countWords_range c.currentText⟩
      refine sound_insert (restore_completes hcompletes) hsaved ⟨?_, countWords_range restored⟩
      show FitsI64 (c.env.nowNs + 1)
      unfold FitsI64 at hnow ⊢
      omega
    · rw [not_exists] at hcompletes
      rw [restore_fails hcompletes]
      exact hs

/-- and so does every run. -/
theorem sound_run (ops : List Op) (hs : s.Sound) : (Machine.run (step X) ops s).2.Sound := by
  induction ops generalizing s with
  | nil => exact hs
  | cons op ops ih => exact ih (sound_step op hs)

theorem history_prefix (ops : List Op) (s : SnapshotStore) (documentPath : String) :
    s.history documentPath <+: (Machine.run (step X) ops s).2.history documentPath := by
  induction ops generalizing s with
  | nil => exact List.prefix_rfl
  | cons op ops ih =>
    refine List.IsPrefix.trans ?_ (ih (step X op s).2)
    cases op with
    | save c =>
      by_cases hcompletes : c.Completes X s
      · rw [save_history hcompletes]
        exact List.prefix_append _ _
      · exact ⟨[], by rw [save_fails hcompletes, List.append_nil]⟩
    | restore c =>
      by_cases hcompletes : ∃ restored, c.Completes X s restored
      · obtain ⟨restored, hcompletes⟩ := hcompletes
        rw [restore_history hcompletes]
        exact List.prefix_append _ _
      · rw [not_exists] at hcompletes
        exact ⟨[], by rw [restore_fails hcompletes, List.append_nil]⟩

end Steps

/-! ## Runs -/

def SnapshotStore.opened (signingKeyBytes : Digest) : SnapshotStore := ⟨[], .empty, signingKeyBytes⟩

section Runs

variable (X : Crates) (ops : List Op) (signingKeyBytes : Digest)

def after : SnapshotStore := (Machine.run (step X) ops (.opened signingKeyBytes)).2

/-- In every list of the document, the marker of each `restore` of the run stands right before the
snapshot of the text that it replaced. -/
def MarkersFollow : Prop :=
  ∀ before c rest restored, ops = before ++ .restore c :: rest →
    c.Completes X (after X before signingKeyBytes) restored →
      ∀ order : ByTimestamp, ∃ newer marker preSave older,
        (after X ops signingKeyBytes).list order c.documentPath
            = .ok (newer ++ marker :: preSave :: older)
          ∧ marker.snapshot
            = ⟨(after X before signingKeyBytes).metas.sequence + 2, c.marker X restored⟩
          ∧ preSave.snapshot = ⟨(after X before signingKeyBytes).metas.sequence + 1, c.preSave X⟩

theorem sound_after : (after X ops signingKeyBytes).Sound :=
  sound_run ops fun _ h => nomatch h

theorem good_after :
    (∀ documentPath, Good documentPath (after X ops signingKeyBytes)) ↔
      Machine.Along (step X) (OnTime X) ops (.opened signingKeyBytes) :=
  (good_run ops _).trans (and_iff_right fun _ => trivial)

variable {X ops signingKeyBytes}

theorem markersFollow_of_kept
    (h : ∀ documentPath, Kept documentPath (after X ops signingKeyBytes)) :
    MarkersFollow X ops signingKeyBytes := by
  intro before c rest restored hops hcompletes order
  obtain ⟨entries, hlist, htells⟩ := (h c.documentPath).listed order
  -- What is there after the call is still there, and in front.
  have hprefix : (step X (.restore c) (after X before signingKeyBytes)).2.history c.documentPath
      <+: (after X ops signingKeyBytes).history c.documentPath := by
    rw [hops]
    unfold after
    rw [Machine.run_append, Machine.run_cons]
    exact history_prefix rest _ c.documentPath
  rw [restore_history hcompletes, if_pos rfl] at hprefix
  obtain ⟨later, hlater⟩ := hprefix
  have hnewest := htells.newestFirst
  rw [← hlater, List.reverse_append, List.reverse_append] at hnewest
  obtain ⟨newer, shown, rfl, -, hshown⟩ := List.map_eq_append_iff.mp hnewest
  obtain ⟨pair, older, rfl, hpair, -⟩ := List.map_eq_append_iff.mp hshown
  obtain ⟨marker, tail, rfl, hmarker, htail⟩ := List.map_eq_cons_iff.mp hpair
  obtain ⟨preSave, tail, rfl, hpreSave, htail⟩ := List.map_eq_cons_iff.mp htail
  cases List.map_eq_nil_iff.mp htail
  exact ⟨newer, marker, preSave, older, hlist, hmarker, hpreSave⟩

end Runs

/-- The lists of all documents tell their histories exactly if each call that goes through is on
time: `restore` finds the clock past the document's last snapshot, and no call finds it so far past
that one that `i64` does not hold the difference. -/
theorem history_kept_iff (X : Crates) (ops : List Op) (signingKeyBytes : Digest) :
    ((∀ documentPath, Kept documentPath (after X ops signingKeyBytes))
        ∧ MarkersFollow X ops signingKeyBytes) ↔
      Machine.Along (step X) (OnTime X) ops (.opened signingKeyBytes) := by
  rw [← good_after]
  have hsound := sound_after X ops signingKeyBytes
  constructor
  · intro h documentPath
    exact (kept_iff hsound).mp (h.1 documentPath)
  · intro h
    have hkept := fun documentPath => (kept_iff hsound).mpr (h documentPath)
    exact ⟨hkept, markersFollow_of_kept hkept⟩

/-! ## A clock that goes back -/

/-- Nothing is compressed or encrypted, and a hash adds up the bytes. -/
def plainCrates : Crates where
  sha256 bytes := FixedBytes.filled 32 bytes.sum
  hkdf _ _ _ length := FixedBytes.filled length 0
  compress bytes := .ok bytes
  newDecoder _ := .ok ()
  decompress _ bytes := .ok bytes
  encrypt _ _ bytes := .ok bytes
  decrypt _ _ bytes := .ok bytes

def plainEnv (clock : Int) : Env := ⟨clock, fun _ => none⟩

/-- A snapshot at one time, and its restoration at an earlier one -/
def backwards : List Op :=
  [.save ⟨plainEnv 2000, "draft", "a", false⟩, .restore ⟨plainEnv 1000, "draft", 1, "b"⟩]

/-- The restoration is dated before the snapshot that is already there. -/
theorem not_kept_backwards :
    ¬ Kept "draft" (after plainCrates backwards (FixedBytes.filled 32 0)) := by
  intro h
  have htimes : ((after plainCrates backwards (FixedBytes.filled 32 0)).history "draft").map
      (·.record.timestampNs) = [2000, 1000, 1001] := by
    decide +kernel
  have hincreasing := List.pairwise_map.mpr h.increasing
  rw [htimes] at hincreasing
  exact absurd hincreasing (by decide)

end WritersProof.Snapshot
