/-
  WritersProof.Store.Verification

  What `verify_integrity` accepts.

  A row passes when it stores the data of some event under the right hash and HMAC,
  and a scan passes when the data of its rows are linked from the hash it resumes
  at.  The rows below that point are not read.
-/
import WritersProof.Lib.HashChain
import WritersProof.Store.Database

namespace WritersProof.Store

open Rust HashChain FixedBytes

variable {Extra : Type} {C : Crypto} {key : Bytes}

/-! ## Rows -/

def LinkedFrom (C : Crypto) (h₀ : Digest) (datas : List EventData) : Prop :=
  Linked EventData.previousHash (computeEventHash C) h₀ datas

def Stores (C : Crypto) (key : Bytes) (record : Record Extra) (data : EventData) : Prop :=
  record = data.record C key record.extra

theorem stores_record (data : EventData) (extra : Extra) :
    Stores C key (data.record C key extra) data := rfl

theorem Stores.unique {record : Record Extra} {d e : EventData} (hd : Stores C key record d)
    (he : Stores C key record e) : d = e := by
  unfold Stores at hd he
  rw [hd] at he
  simp only [EventData.record, Record.mk.injEq] at he
  obtain ⟨hdevice, htime, hpath, hcontent, hsize, hdelta, hprevious, -⟩ := he
  cases d
  cases e
  congr 1
  · exact ext_val hdevice
  · exact ext_val hcontent
  · exact Subtype.ext hdelta
  · exact ext_val hprevious

/-- The hash that a row has to name: the sentinel in the first row ever. -/
def expectedPrevious (first : Bool) (lastHash : Digest) : Digest :=
  if first then zeroHash else lastHash

variable {first : Bool} {lastHash h : Digest} {lastVerified : Int} {db : Database Extra}

theorem checkLink_eq_ok {previousHash : Digest} {id : Int} :
    checkLink first lastHash previousHash id = .ok () ↔
      previousHash = expectedPrevious first lastHash := by
  unfold checkLink expectedPrevious
  cases first <;> simp

theorem verifyRow_eq_ok {row : Row Extra} :
    verifyRow C key first lastHash row = .ok h ↔
      ∃ data, Stores C key row.record data ∧ data.previousHash = expectedPrevious first lastHash
        ∧ computeEventHash C data = h := by
  unfold verifyRow
  constructor
  · intro hok
    obtain ⟨sizeDelta, hdelta, hok⟩ := res_bind_eq_ok.mp hok
    obtain ⟨deviceId, hdevice, hok⟩ := res_bind_eq_ok.mp hok
    obtain ⟨contentHash, hcontent, hok⟩ := res_bind_eq_ok.mp hok
    obtain ⟨previousHash, hprevious, hok⟩ := res_bind_eq_ok.mp hok
    obtain ⟨hlink, hok⟩ := unit_bind_eq_ok.mp hok
    obtain ⟨hhash, hok⟩ := reject_bind_eq_ok.mp hok
    obtain ⟨hhmac, hok⟩ := reject_bind_eq_ok.mp hok
    rw [okOr_eq_ok, I32.tryFrom_eq_some] at hdelta
    rw [okOr_eq_ok, tryFrom_eq_some] at hdevice hcontent hprevious
    refine ⟨_, ?_, checkLink_eq_ok.mp hlink, Except.ok.inj hok⟩
    unfold Stores EventData.record
    cases hr : row.record
    rw [hr] at hdelta hdevice hcontent hprevious hhash hhmac
    congr 1
    · exact not_not.mp hhash
    · exact not_not.mp hhmac
  · rintro ⟨data, hstores, hlink, hh⟩
    rw [hstores]
    have hdelta := I32.tryFrom_eq_some.mpr (rfl : data.sizeDelta.val = data.sizeDelta.val)
    simp only [EventData.record, tryFrom_val, hdelta, okOr_some, res_ok_bind]
    refine unit_bind_eq_ok.mpr ⟨checkLink_eq_ok.mpr hlink, ?_⟩
    refine reject_bind_eq_ok.mpr ⟨not_not.mpr rfl, ?_⟩
    exact reject_bind_eq_ok.mpr ⟨not_not.mpr rfl, congrArg _ hh⟩

/-! ## Scans -/

def StoresAll (C : Crypto) (key : Bytes) (rows : List (Row Extra))
    (datas : List EventData) : Prop :=
  List.Forall₂ (fun row data => Stores C key row.record data) rows datas

def lastSeq (seq : Int) (rows : List (Row Extra)) : Int := (rows.getLast?.map Sql.Row.id).getD seq

@[simp] theorem lastSeq_cons (seq : Int) (row : Row Extra) (rows : List (Row Extra)) :
    lastSeq seq (row :: rows) = lastSeq row.id rows := by
  unfold lastSeq
  rw [List.getLast?_cons]
  cases rows.getLast? with
  | none => rfl
  | some last => rfl

theorem checkedAddI64_eq_some {a b c : Int} :
    checkedAddI64 a b = some c ↔ (i64Min ≤ a + b ∧ a + b ≤ i64Max) ∧ a + b = c := by
  unfold checkedAddI64
  split
  next h => simp [h]
  next h => simp [h]

/-- A scan that has counted `scan.count` rows so far.  Before the first row of all the
    hash it carries is the zero sentinel, so the two link checks are one. -/
theorem scanRows_eq_ok {scan scan' : Scan} {rows : List (Row Extra)} (hcount : 0 ≤ scan.count)
    (hzero : lastVerified = 0 → scan.count = 0 → scan.lastHash = zeroHash) :
    scanRows C key lastVerified scan rows = .ok scan' ↔
      ∃ datas, StoresAll C key rows datas ∧ LinkedFrom C scan.lastHash datas
        ∧ (rows = [] ∨ scan.count + rows.length ≤ i64Max)
        ∧ scan' = { lastHash := tip (computeEventHash C) scan.lastHash datas
                    count := scan.count + rows.length
                    lastSeq := lastSeq scan.lastSeq rows } := by
  induction rows generalizing scan with
  | nil =>
    rw [scanRows]
    constructor
    · intro h
      refine ⟨[], List.Forall₂.nil, linked_nil _, .inl rfl, ?_⟩
      rw [← Except.ok.inj h]
      simp [lastSeq]
    · rintro ⟨datas, hstores, -, -, rfl⟩
      cases hstores
      simp [lastSeq]
  | cons row rows ih =>
    have hexpected : expectedPrevious (decide (lastVerified = 0 ∧ scan.count = 0)) scan.lastHash
        = scan.lastHash := by
      unfold expectedPrevious
      by_cases h : lastVerified = 0 ∧ scan.count = 0
      · rw [decide_eq_true h, if_pos rfl, hzero h.1 h.2]
      · rw [decide_eq_false h, if_neg Bool.false_ne_true]
    constructor
    · intro h
      obtain ⟨lastHash, hrow, h⟩ := res_bind_eq_ok.mp h
      obtain ⟨count, hadd, h⟩ := res_bind_eq_ok.mp h
      obtain ⟨data, hstores, hprevious, rfl⟩ := verifyRow_eq_ok.mp hrow
      rw [okOr_eq_ok, checkedAddI64_eq_some] at hadd
      obtain ⟨⟨-, hmax⟩, rfl⟩ := hadd
      obtain ⟨datas, hall, hlinked, hbound, rfl⟩ :=
        (ih (by dsimp only; omega) (fun _ h => by dsimp only at h; omega)).mp h
      refine ⟨data :: datas, List.Forall₂.cons hstores hall, ⟨hprevious.trans hexpected, hlinked⟩,
        .inr ?_, ?_⟩
      · rcases hbound with rfl | hbound
        · simpa using hmax
        · rw [List.length_cons]
          dsimp only at hbound
          omega
      · rw [tip_cons, lastSeq_cons, List.length_cons]
        congr 1
        dsimp only
        omega
    · rintro ⟨datas, hstores, hlinked, hbound, rfl⟩
      obtain ⟨data, datas, hdata, hall, rfl⟩ := List.forall₂_cons_left_iff.mp hstores
      have hbound := hbound.resolve_left (List.cons_ne_nil _ _)
      rw [List.length_cons] at hbound
      have hadd : checkedAddI64 scan.count 1 = some (scan.count + 1) :=
        checkedAddI64_eq_some.mpr ⟨by unfold i64Min; omega, rfl⟩
      refine res_bind_eq_ok.mpr ⟨_, verifyRow_eq_ok.mpr
        ⟨data, hdata, hlinked.1.trans hexpected.symm, rfl⟩, ?_⟩
      refine res_bind_eq_ok.mpr ⟨_, okOr_eq_ok.mpr hadd, ?_⟩
      refine (ih (by dsimp only; omega) (fun _ h => by dsimp only at h; omega)).mpr
        ⟨datas, hall, hlinked.2, .inr (by dsimp only; omega), ?_⟩
      rw [tip_cons, lastSeq_cons, List.length_cons]
      congr 1
      dsimp only
      omega

/-! ## Opening -/

def newRows (db : Database Extra) (lastVerified : Int) : List (Row Extra) :=
  db.events.rows.filter fun row => lastVerified < row.id

theorem resumeHash_eq_ok :
    resumeHash db lastVerified = .ok h ↔
      (lastVerified ≤ 0 ∧ h = zeroHash) ∨
        0 < lastVerified ∧ ∃ row, (db.events.rows.find? fun row => row.id = lastVerified) = some row
          ∧ row.record.eventHash = h.val := by
  unfold resumeHash
  split
  next hpos =>
    rw [res_bind_eq_ok]
    simp only [okOr_eq_ok, tryFrom_eq_some]
    constructor
    · exact fun hrow => .inr ⟨hpos, hrow⟩
    · rintro (⟨hneg, -⟩ | ⟨-, hrow⟩)
      · omega
      · exact hrow
  next hneg =>
    constructor
    · intro h
      exact .inl ⟨by omega, (Except.ok.inj h).symm⟩
    · rintro (⟨-, rfl⟩ | ⟨hpos, -⟩)
      · rfl
      · omega

/-- What `verify_integrity` finds in a database it accepts: the record is authentic, the
    data of the new rows are linked from the hash it resumes at, and their number adds
    up. -/
structure Accepted (C : Crypto) (key : Bytes) (db : Database Extra) (integrity : Integrity)
    (chainHash resume : Digest) (datas : List EventData) : Prop where
  chainHash_eq : integrity.chainHash = chainHash.val
  hmac_eq : integrity.hmac = (computeIntegrityHmac C key chainHash integrity.eventCount
    integrity.lastVerifiedSequence).val
  resume_eq : resumeHash db integrity.lastVerifiedSequence = .ok resume
  stored : StoresAll C key (newRows db integrity.lastVerifiedSequence) datas
  linked : LinkedFrom C resume datas
  length_le : ((newRows db integrity.lastVerifiedSequence).length : Int) ≤ i64Max
  total_ge : i64Min ≤ integrity.eventCount
  total_le : integrity.eventCount ≤ i64Max
  total_eq : integrity.lastVerifiedSequence + (newRows db integrity.lastVerifiedSequence).length
    = integrity.eventCount

theorem verifyRecord_eq_ok {db' : Database Extra} {integrity : Integrity} :
    verifyRecord C key db integrity = .ok (db', h) ↔
      ∃ chainHash resume datas, Accepted C key db integrity chainHash resume datas
        ∧ db' = markVerified C key db integrity chainHash (lastSeq integrity.lastVerifiedSequence
            (newRows db integrity.lastVerifiedSequence))
        ∧ h = tip (computeEventHash C) resume datas := by
  have hstart : ∀ resume, resumeHash db integrity.lastVerifiedSequence = .ok resume →
      integrity.lastVerifiedSequence = 0 → (0 : Int) = 0 → resume = zeroHash := by
    intro resume hresume hlast _
    rcases resumeHash_eq_ok.mp hresume with ⟨-, hzero⟩ | ⟨hpos, -⟩
    · exact hzero
    · omega
  unfold verifyRecord
  constructor
  · intro hok
    obtain ⟨chainHash, hchain, hok⟩ := res_bind_eq_ok.mp hok
    obtain ⟨hhmac, hok⟩ := reject_bind_eq_ok.mp hok
    obtain ⟨resume, hresume, hok⟩ := res_bind_eq_ok.mp hok
    obtain ⟨scan, hscan, hok⟩ := res_bind_eq_ok.mp hok
    obtain ⟨total, htotal, hok⟩ := res_bind_eq_ok.mp hok
    obtain ⟨hcount, hend⟩ := reject_bind_eq_ok.mp hok
    obtain ⟨datas, hstored, hlinked, hbound, rfl⟩ :=
      (scanRows_eq_ok (Int.le_refl 0) (hstart resume hresume)).mp hscan
    rw [okOr_eq_ok, tryFrom_eq_some] at hchain
    rw [okOr_eq_ok, checkedAddI64_eq_some] at htotal
    obtain ⟨⟨hge, hle⟩, rfl⟩ := htotal
    have hcount := not_not.mp hcount
    dsimp only at hbound hge hle hcount hend
    rw [Int.zero_add] at hbound hge hle hcount
    have hlength : ((newRows db integrity.lastVerifiedSequence).length : Int) ≤ i64Max := by
      rcases hbound with hnil | hbound
      · rw [newRows, hnil, List.length_nil]
        decide
      · exact hbound
    have hend := Except.ok.inj hend
    rw [Prod.mk.injEq] at hend
    exact ⟨chainHash, resume, datas, ⟨hchain, not_not.mp hhmac, hresume, hstored, hlinked, hlength,
      hcount ▸ hge, hcount ▸ hle, hcount⟩, hend.1.symm, hend.2.symm⟩
  · rintro ⟨chainHash, resume, datas, hacc, rfl, rfl⟩
    refine res_bind_eq_ok.mpr ⟨chainHash,
      okOr_eq_ok.mpr (tryFrom_eq_some.mpr hacc.chainHash_eq), ?_⟩
    refine reject_bind_eq_ok.mpr ⟨not_not.mpr hacc.hmac_eq, ?_⟩
    refine res_bind_eq_ok.mpr ⟨resume, hacc.resume_eq, ?_⟩
    refine res_bind_eq_ok.mpr ⟨_, (scanRows_eq_ok (Int.le_refl 0)
      (hstart resume hacc.resume_eq)).mpr ⟨datas, hacc.stored, hacc.linked, .inr ?_, rfl⟩, ?_⟩
    · rw [Int.zero_add]
      exact hacc.length_le
    have htotal := hacc.total_eq
    unfold newRows at htotal
    dsimp only
    rw [Int.zero_add]
    refine res_bind_eq_ok.mpr ⟨integrity.eventCount, okOr_eq_ok.mpr
      (checkedAddI64_eq_some.mpr ⟨?_, htotal⟩), ?_⟩
    · rw [htotal]
      exact ⟨hacc.total_ge, hacc.total_le⟩
    · exact reject_bind_eq_ok.mpr ⟨not_not.mpr rfl, rfl⟩

end WritersProof.Store
