/-
  WritersProof.Offline.Schedule

  What becomes of queued entries (crates/cpoe/src/writersproof/queue.rs) when drains come at any
  times and find any answers.

  The wait after a failed attempt is counted from `created_at`, not from the attempt, so an old
  entry is tried again at once.
-/
import WritersProof.Lib.Machine
import WritersProof.Offline.Queue

namespace WritersProof.Offline

open Rust

variable {kind : Kind} {Data : Type} (X : Crates kind Data)

inductive Act (kind : Kind) where
  | enqueue (c : Enqueue kind)
  | drain (d : Drain)

inductive Reply where
  | queued (id : String)
  | drained (submitted discarded : Nat)

def step : Act kind → OfflineQueue kind Data → Res String Reply × OfflineQueue kind Data
  | .enqueue c, s => ((enqueue X c s).1.map .queued, (enqueue X c s).2)
  | .drain d, s => ((drain X d s).1.map fun counts => .drained counts.1 counts.2, (drain X d s).2)

/-! ## What the queue is for -/

def Holds (s : OfflineQueue kind Data) (e : Entry kind) : Prop :=
  ∃ name data, s.dir.lookup name = some data ∧ extension name = some "json"
    ∧ X.fromSlice data = some e

def failures (attempts : List (Attempt kind)) : Nat := attempts.countP (·.error.isSome)

/-- Submitted, or tried often enough -/
def Settled (attempts : List (Attempt kind)) : Prop :=
  (∃ a ∈ attempts, a.error = none) ∨ kind.maxRetries ≤ failures attempts

def seconds (n : Nat) : Int := n * 1000000000

/-- After `k` attempts, the last one is at least `2^k` seconds back. -/
def Rested (attempts : List (Attempt kind)) (now : Int) : Prop :=
  ∀ last ∈ attempts.getLast?, last.time + seconds (2 ^ attempts.length) ≤ now

/-- The attempts `k` and `k + 1` are at least `2^k` seconds apart; the first one has `k = 1`. -/
def Spaced (attempts : List (Attempt kind)) : Prop :=
  ∀ k a b, attempts[k]? = some a → attempts[k + 1]? = some b →
    a.time + seconds (2 ^ (k + 1)) ≤ b.time

theorem spaced_nil : Spaced ([] : List (Attempt kind)) := nofun

/-- Not out of retries, and rested -/
def Due (s : OfflineQueue kind Data) (now : Int) (e : Entry kind) : Prop :=
  e.retryCount < kind.maxRetries ∧ Rested (s.attempts e.id) now

/-- The entry as it was queued, whatever has been tried since -/
def SameEntry (e e' : Entry kind) : Prop :=
  e'.id = e.id ∧ e'.body = e.body ∧ e'.createdAt = e.createdAt

/-- No entry leaves before it is settled, attempts keep their distance, and those that are due are
made, whatever else is in the directory and becomes of it. -/
structure Orderly (a : Act kind) (s : OfflineQueue kind Data) : Prop where
  kept : ∀ e, Holds X s e →
    (∃ e', Holds X (step X a s).2 e' ∧ SameEntry e e')
      ∨ Settled (s.attempts e.id) ∨ Settled ((step X a s).2.attempts e.id)
  spaced : ∀ id, Spaced ((step X a s).2.attempts id)
  attempted : ∀ d, a = .drain d → ∀ e, Holds X s e → Due s d.now e →
    ∃ attempt, attempt.time = d.now ∧ (step X a s).2.attempts e.id = s.attempts e.id ++ [attempt]

/-! ## When it does so -/

/-- The entry has a turn in the drain: the directory can be listed, its file is one of the first
thousand, and the drain goes on behind the entries that are older. -/
def Reached (d : Drain) (s : OfflineQueue kind Data) (n : Nat) (e : Entry kind) : Prop :=
  d.openDir = true ∧ ∃ order, d.readDir = .ok order ∧ HasTurn X d 0 (listed X d order s.dir) n e

/-- Waiting since `created_at` comes to the same as waiting since the last attempt, and what is due
has a turn. -/
structure Ready (d : Drain) (s : OfflineQueue kind Data) : Prop where
  due : ∀ e, Holds X s e → Due s d.now e → (∃ n, Reached X d s n e) ∧ backingOff X d.now e = false
  rested : ∀ n e, Reached X d s n e → e.retryCount < kind.maxRetries →
    backingOff X d.now e = false → Rested (s.attempts e.id) d.now

def Stores (c : Enqueue kind) : Prop := c.openDir = none ∧ ∀ e, c.write ≠ .lost e

/-- A new file takes no place of an entry that is still to be submitted. -/
def Fresh (c : Enqueue kind) (s : OfflineQueue kind Data) : Prop :=
  Stores c → ∀ e, Holds X s e → e.id = (newEntry X c).id →
    Settled (s.attempts e.id) ∨ SameEntry e (newEntry X c)

def Admissible : Act kind → OfflineQueue kind Data → Prop
  | .enqueue c, s => Fresh X c s
  | .drain d, s => Ready X d s

/-- Entries are in files of their own names and do not count more retries than there were
failures. -/
structure Sound (s : OfflineQueue kind Data) : Prop where
  named : ∀ name data e, s.dir.lookup name = some data → extension name = some "json" →
    X.fromSlice data = some e → name = fileName e.id
  counted : ∀ e, Holds X s e → e.retryCount ≤ failures (s.attempts e.id)
  spaced : ∀ id, Spaced (s.attempts id)

variable {X} {s : OfflineQueue kind Data} {d : Drain} {e : Entry kind}

theorem Sound.lookup (hs : Sound X s) (h : Holds X s e) :
    ∃ data, s.dir.lookup (fileName e.id) = some data ∧ extension (fileName e.id) = some "json"
      ∧ X.fromSlice data = some e := by
  obtain ⟨name, data, hlookup, hext, hread⟩ := h
  obtain rfl := hs.named name data e hlookup hext hread
  exact ⟨data, hlookup, hext, hread⟩

theorem Sound.eq_of_id (hs : Sound X s) {e' : Entry kind} (h : Holds X s e) (h' : Holds X s e')
    (hid : e'.id = e.id) : e' = e := by
  obtain ⟨data, hlookup, -, hread⟩ := hs.lookup h
  obtain ⟨data', hlookup', -, hread'⟩ := hs.lookup h'
  rw [hid, hlookup] at hlookup'
  cases hlookup'
  exact Option.some.inj (hread'.symm.trans hread)

/-! ## A drain -/

theorem holds_of_mem_listed {order : ReadDir} (h : e ∈ listed X d order s.dir) :
    Holds X s e := by
  rw [listed, sortByCreatedAt, List.mem_insertionSort] at h
  obtain ⟨name, -, hread⟩ := List.mem_filterMap.mp (List.mem_of_mem_take h)
  rw [readEntry] at hread
  split_ifs at hread with hname
  obtain ⟨data, hlookup, hdata⟩ := Option.bind_eq_some_iff.mp hread
  exact ⟨name, data, hlookup, hname.1, hdata⟩

theorem map_filterMap_sublist {α β : Type} {f : α → Option β} {g : β → α} {xs : List α}
    (h : ∀ x ∈ xs, ∀ y, f x = some y → g y = x) : ((xs.filterMap f).map g).Sublist xs := by
  induction xs with
  | nil => exact .slnil
  | cons x xs ih =>
    have hrest := ih fun x' hx' => h x' (List.mem_cons_of_mem _ hx')
    cases hx : f x with
    | none =>
      rw [List.filterMap_cons_none hx]
      exact hrest.cons x
    | some y =>
      rw [List.filterMap_cons_some hx, List.map_cons, h x List.mem_cons_self y hx]
      exact hrest.cons_cons x

theorem nodup_listed (order : ReadDir) (hs : Sound X s) :
    ((listed X d order s.dir).map Entry.id).Nodup := by
  have hnames : ((readable X d order s.dir).map fun e => fileName e.id).Nodup := by
    have hsub : ((readable X d order s.dir).map fun e => fileName e.id).Sublist
        (order.list s.dir.keys) := by
      apply map_filterMap_sublist
      intro name _ entry hread
      rw [readEntry] at hread
      split_ifs at hread with hname
      obtain ⟨data, hlookup, hdata⟩ := Option.bind_eq_some_iff.mp hread
      exact (hs.named name data entry hlookup hname.1 hdata).symm
    exact hsub.nodup ((order.perm _).nodup_iff.mpr s.dir.keys_nodup)
  have hids : ((readable X d order s.dir).map Entry.id).Nodup := by
    apply List.Nodup.of_map fileName
    rw [List.map_map]
    exact hnames
  have hperm : ((listed X d order s.dir).map Entry.id).Perm
      (((readable X d order s.dir).take maxListEntries).map Entry.id) :=
    (List.perm_insertionSort _ _).map _
  exact hperm.nodup_iff.mpr (hids.sublist ((List.take_sublist _ _).map _))

theorem Reached.holds {n : Nat} (h : Reached X d s n e) : Holds X s e := by
  obtain ⟨-, order, -, hturn⟩ := h
  exact holds_of_mem_listed hturn.mem

/-- What a drain has changed: entries that had a turn, as the turn makes them -/
structure Drains (X : Crates kind Data) (d : Drain) (s s' : OfflineQueue kind Data) : Prop where
  files : ∀ name, (∀ e, Holds X s e → name ≠ fileName e.id) → s'.dir.lookup name = s.dir.lookup name
  attempts : ∀ id, (∀ e, Holds X s e → id ≠ e.id) → s'.attempts id = s.attempts id
  treated : ∀ n e, Reached X d s n e →
    Treated X d.now (d.turn n) e (s.dir.lookup (fileName e.id)) (s.attempts e.id)
      (s'.dir.lookup (fileName e.id)) (s'.attempts e.id)
  unreached : ∀ e, Holds X s e → (∀ n, ¬ Reached X d s n e) →
    s'.dir.lookup (fileName e.id) = s.dir.lookup (fileName e.id)
      ∧ s'.attempts e.id = s.attempts e.id

theorem drains_self (h : ∀ n e, ¬ Reached X d s n e) : Drains X d s s :=
  ⟨fun _ _ => rfl, fun _ _ => rfl, fun n e hreached => absurd hreached (h n e),
    fun _ _ _ => ⟨rfl, rfl⟩⟩

/-- A drain changes the entries that have a turn, and no others. -/
theorem drain_spec (hs : Sound X s) : Drains X d s (drain X d s).2 := by
  rw [drain, Call.asks_bind]
  cases hopen : d.openDir with
  | false =>
    have hlist : listEntries X d s.dir = .ok [] := listEntries_eq_ok.mpr (.inl ⟨hopen, rfl⟩)
    rw [hlist, Call.lift_ok_bind]
    exact drains_self fun n e h => absurd (hopen.symm.trans h.1) Bool.false_ne_true
  | true =>
    cases hread : d.readDir with
    | error e =>
      have hlist : listEntries X d s.dir = fail e := by
        rw [listEntries, hopen, hread]
        rfl
      rw [hlist]
      refine drains_self ?_
      rintro n e ⟨-, order, horder, -⟩
      cases hread.symm.trans horder
    | ok order =>
      have hlist : listEntries X d s.dir = .ok (listed X d order s.dir) :=
        listEntries_eq_ok.mpr (.inr ⟨hopen, order, hread, rfl⟩)
      have hfiles : ∀ e ∈ listed X d order s.dir, (s.dir.lookup (fileName e.id)).isSome := by
        intro e he
        obtain ⟨data, hlookup, -⟩ := hs.lookup (holds_of_mem_listed he)
        rw [hlookup]
        rfl
      obtain ⟨hother, hattempts, htreated, hunreached⟩ :=
        drainFrom_spec (X := X) (d := d) 0 (0, 0) s (nodup_listed order hs) hfiles
      rw [hlist, Call.lift_ok_bind]
      refine ⟨fun name h => ?_, fun id h => ?_, ?_, fun e he hno => ?_⟩
      · exact hother name fun e he => h e (holds_of_mem_listed he)
      · exact hattempts id fun e he => h e (holds_of_mem_listed he)
      · rintro n e ⟨-, order', horder', hturn⟩
        cases hread.symm.trans horder'
        exact htreated n e hturn
      · by_cases hlisted : e ∈ listed X d order s.dir
        · exact hunreached e hlisted fun n hturn => hno n ⟨hopen, order, hread, hturn⟩
        · -- its file is none of those that were listed
          have hid : ∀ e' ∈ listed X d order s.dir, e.id ≠ e'.id := by
            intro e' he' heq
            exact hlisted (hs.eq_of_id he (holds_of_mem_listed he') heq.symm ▸ he')
          exact ⟨hother _ fun e' he' hname => hid e' he' (fileName_injective hname),
            hattempts _ hid⟩

theorem failures_concat (attempts : List (Attempt kind)) (a : Attempt kind) :
    failures (attempts ++ [a]) = failures attempts + if a.error.isSome then 1 else 0 := by
  rw [failures, List.countP_append, List.countP_singleton]
  rfl

theorem Treated.leaves {turn : Turn} {now : Int} {data : Data} {file' : Option Data}
    {attempts attempts' : List (Attempt kind)}
    (h : Treated X now turn e (some data) attempts file' attempts')
    (hread : X.fromSlice data = some e) (hcounted : e.retryCount ≤ failures attempts) :
    file' = none ∧ Settled attempts'
      ∨ ∃ data' e', file' = some data' ∧ X.fromSlice data' = some e' ∧ SameEntry e e'
        ∧ e'.retryCount ≤ failures attempts' := by
  have hsame : SameEntry e e := ⟨rfl, rfl, rfl⟩
  have hmore : ∀ a : Attempt kind, e.retryCount ≤ failures (attempts ++ [a]) := fun a => by
    rw [failures_concat]
    exact Nat.le_add_right_of_le hcounted
  cases h with
  | discarded hretries hfile =>
    rcases hfile with rfl | rfl
    · exact .inr ⟨data, e, rfl, hread, hsame, hcounted⟩
    · exact .inl ⟨rfl, .inr (Nat.le_trans hretries hcounted)⟩
  | waiting => exact .inr ⟨data, e, rfl, hread, hsame, hcounted⟩
  | submitted hretries hback hresponse hfile =>
    rcases hfile with rfl | rfl
    · exact .inr ⟨data, e, rfl, hread, hsame, hmore _⟩
    · exact .inl ⟨rfl, .inl ⟨_, List.mem_append_right _ (List.mem_singleton_self _), rfl⟩⟩
  | refused m hretries hback hresponse hfile =>
    rcases hfile with rfl | rfl
    · exact .inr ⟨data, e, rfl, hread, hsame, hmore _⟩
    · have hfew : (e.refused m).retryCount < 2 ^ 32 := by
        have hmax := kind.maxRetries_le
        show e.retryCount + 1 < 2 ^ 32
        omega
      refine .inr ⟨_, _, rfl, X.fromSlice_toVecPretty _ hfew, hsame, ?_⟩
      rw [failures_concat]
      exact Nat.succ_le_succ hcounted

/-- An entry is submitted in its turn exactly if it has retries left and is not backing off. -/
theorem Treated.attempts {turn : Turn} {now : Int} {file file' : Option Data}
    {attempts attempts' : List (Attempt kind)}
    (h : Treated X now turn e file attempts file' attempts') :
    attempts' = attempts ∧ (kind.maxRetries ≤ e.retryCount ∨ backingOff X now e = true)
      ∨ (e.retryCount < kind.maxRetries ∧ backingOff X now e = false)
        ∧ ∃ attempt, attempt.time = now ∧ attempts' = attempts ++ [attempt] := by
  cases h with
  | discarded hretries => exact .inl ⟨rfl, .inl hretries⟩
  | waiting _ hback => exact .inl ⟨rfl, .inr hback⟩
  | submitted hretries hback => exact .inr ⟨⟨hretries, hback⟩, _, rfl, rfl⟩
  | refused _ hretries hback => exact .inr ⟨⟨hretries, hback⟩, _, rfl, rfl⟩

section Drains

variable {s' : OfflineQueue kind Data}

section

variable (hd : Drains X d s s') (hs : Sound X s)

include hd hs

/-- What has become of an entry -/
theorem Drains.leaves (h : Holds X s e) :
    s'.dir.lookup (fileName e.id) = none ∧ Settled (s'.attempts e.id)
      ∨ ∃ data' e', s'.dir.lookup (fileName e.id) = some data' ∧ X.fromSlice data' = some e'
        ∧ SameEntry e e' ∧ e'.retryCount ≤ failures (s'.attempts e.id) := by
  obtain ⟨data, hlookup, -, hread⟩ := hs.lookup h
  by_cases hturn : ∃ n, Reached X d s n e
  · obtain ⟨n, hn⟩ := hturn
    have htreated := hd.treated n e hn
    rw [hlookup] at htreated
    exact htreated.leaves hread (hs.counted e h)
  · obtain ⟨hfile, hattempts⟩ := hd.unreached e h (not_exists.mp hturn)
    rw [hfile, hattempts]
    exact .inr ⟨data, e, hlookup, hread, ⟨rfl, rfl, rfl⟩, hs.counted e h⟩

/-- A file with an entry has one of before. -/
theorem Drains.before {name : String} {data : Data} (hlookup : s'.dir.lookup name = some data)
    (hext : extension name = some "json") (hread : X.fromSlice data = some e) :
    name = fileName e.id ∧ e.retryCount ≤ failures (s'.attempts e.id) := by
  by_cases hold : ∃ e₀, Holds X s e₀ ∧ name = fileName e₀.id
  · obtain ⟨e₀, he₀, rfl⟩ := hold
    rcases hd.leaves hs he₀ with ⟨hnone, -⟩ | ⟨data', e', hdata', hread', hsame, hcounted⟩
    · cases hnone.symm.trans hlookup
    · cases hdata'.symm.trans hlookup
      cases hread'.symm.trans hread
      rw [hsame.1]
      exact ⟨rfl, hcounted⟩
  · -- no entry of before has this file, so it has not changed
    rw [hd.files name fun e₀ he₀ hname => hold ⟨e₀, he₀, hname⟩] at hlookup
    have hholds : Holds X s e := ⟨name, data, hlookup, hext, hread⟩
    exact absurd ⟨e, hholds, hs.named name data e hlookup hext hread⟩ hold

theorem Drains.sound (hspaced : ∀ id, Spaced (s'.attempts id)) : Sound X s' := by
  refine ⟨fun name data e hlookup hext hread => (hd.before hs hlookup hext hread).1, ?_, hspaced⟩
  rintro e ⟨name, data, hlookup, hext, hread⟩
  exact (hd.before hs hlookup hext hread).2

end

end Drains

/-! ## A new entry -/

section Enqueued

variable {c : Enqueue kind}

variable (X) in
def stored (c : Enqueue kind) (s : OfflineQueue kind Data) : OfflineQueue kind Data :=
  let entry := newEntry X c
  { dir := s.dir.insert (fileName entry.id) (X.toVecPretty entry)
    attempts := Function.update s.attempts entry.id [] }

theorem step_enqueue_of_stores (h : Stores c) : (step X (.enqueue c) s).2 = stored X c s := by
  obtain ⟨hopen, hwrite⟩ := h
  show (enqueue X c s).2 = _
  rw [enqueue, hopen]
  cases hw : c.write with
  | done => rfl
  | lost e => exact absurd hw (hwrite e)
  | kept e => rfl

theorem step_enqueue_of_not (h : ¬ Stores c) : (step X (.enqueue c) s).2 = s := by
  show (enqueue X c s).2 = _
  rw [enqueue]
  cases hopen : c.openDir with
  | some e => rfl
  | none =>
    cases hw : c.write with
    | lost e => rfl
    | done => exact absurd ⟨hopen, fun e he => nomatch hw.symm.trans he⟩ h
    | kept m => exact absurd ⟨hopen, fun e he => nomatch hw.symm.trans he⟩ h

theorem read_newEntry : X.fromSlice (X.toVecPretty (newEntry X c)) = some (newEntry X c) :=
  X.fromSlice_toVecPretty _ (Nat.two_pow_pos 32)

theorem attempts_stored : (stored X c s).attempts (newEntry X c).id = [] :=
  Function.update_self _ _ _

theorem lookup_stored {name : String} {data : Data}
    (h : (stored X c s).dir.lookup name = some data) :
    name = fileName (newEntry X c).id ∧ data = X.toVecPretty (newEntry X c)
      ∨ name ≠ fileName (newEntry X c).id ∧ s.dir.lookup name = some data := by
  by_cases hname : name = fileName (newEntry X c).id
  · subst hname
    have hnew := AList.lookup_insert (a := fileName (newEntry X c).id)
      (b := X.toVecPretty (newEntry X c)) s.dir
    exact .inl ⟨rfl, Option.some.inj (h.symm.trans hnew)⟩
  · exact .inr ⟨hname, (AList.lookup_insert_ne hname).symm.trans h⟩

theorem sound_stored (hs : Sound X s) : Sound X (stored X c s) := by
  have hread := @read_newEntry kind Data X c
  have hother : ∀ id, id ≠ (newEntry X c).id → (stored X c s).attempts id = s.attempts id :=
    fun id hid => Function.update_of_ne hid _ _
  refine ⟨fun name data e hlookup hext hdata => ?_, ?_, fun id => ?_⟩
  · rcases lookup_stored hlookup with ⟨rfl, rfl⟩ | ⟨-, hold⟩
    · cases hread.symm.trans hdata
      rfl
    · exact hs.named name data e hold hext hdata
  · rintro e ⟨name, data, hlookup, hext, hdata⟩
    rcases lookup_stored hlookup with ⟨rfl, rfl⟩ | ⟨hname, hold⟩
    · cases hread.symm.trans hdata
      exact Nat.zero_le _
    · obtain rfl := hs.named name data e hold hext hdata
      rw [hother e.id fun hid => hname (congrArg fileName hid)]
      exact hs.counted e ⟨_, data, hold, hext, hdata⟩
  · by_cases hid : id = (newEntry X c).id
    · rw [hid, attempts_stored]
      exact spaced_nil
    · rw [hother id hid]
      exact hs.spaced id

end Enqueued

/-! ## Runs -/

theorem Orderly.sound {a : Act kind} (hs : Sound X s) (h : Orderly X a s) :
    Sound X (step X a s).2 := by
  cases a with
  | enqueue c =>
    by_cases hstores : Stores c
    · rw [step_enqueue_of_stores hstores]
      exact sound_stored hs
    · rw [step_enqueue_of_not hstores]
      exact hs
  | drain d =>
    have hd : Drains X d s (step X (.drain d) s).2 := drain_spec hs
    exact hd.sound hs h.spaced

def newYear : Int := 1767225600000000000

/-- As the crates are at the new year of 2026; a file without an entry is malformed. -/
def plainCrates : Crates .text (Option (Entry .text)) where
  format _ := "20260101000000"
  toRfc3339 _ := "2026-01-01T00:00:00+00:00"
  parseFromRfc3339 text := if text = "2026-01-01T00:00:00+00:00" then some newYear else none
  toVecPretty := some
  fromSlice := id
  fromSlice_toVecPretty _ _ := rfl

end WritersProof.Offline
