/-
  WritersProof.Anchors.Upgrade

  OpenTimestamps proofs and the calendars that upgrade them (crates/cpoe/src/anchors/ots.rs).
-/
import WritersProof.Anchors.Walkers
import WritersProof.Lib.Machine

namespace WritersProof.Anchors.Ots

open Rust

structure Request where
  url : String
  commitment : Bytes

/-- What comes of a request, with what `read_response_bounded` makes of the answer -/
inductive Reply where
  | failed
  | answered (status : Nat) (body : Except AnchorError Bytes)

/-- The time of a call, and the reply to the last of its requests so far -/
structure Calendars where
  now : Int
  reply : List Request → Reply

inductive ProofStatus where
  | pending
  | confirmed
  | failed
  | expired
  deriving DecidableEq

structure Proof where
  status : ProofStatus
  anchoredHash : FixedBytes 32
  confirmedAt : Option Int
  proofData : Bytes
  attestationPath : Option (List AttestationStep)

def Proof.upgraded (p : Proof) (now : Int) (data : Bytes) : Except AnchorError Proof := do
  let path ← parseAttestationPath data
  let hasBitcoin := path.any (·.operation = .verify)
  return { p with
    proofData := data, attestationPath := some path
    status := if hasBitcoin then .confirmed else p.status
    confirmedAt := if hasBitcoin then some now else p.confirmedAt }

inductive Call where
  | checkStatus
  | upgrade

section Provider

variable (P : Crates) (calendarUrls : List String)

/-- `/`, `?` or `#` ends the URL of the calendar, or stands behind it, if anything does. -/
def isAllowed (url : String) : Bool :=
  calendarUrls.any fun a => (Bytes.utf8 a).isPrefixOf (Bytes.utf8 url) &&
    ((Bytes.utf8 a).getLast? == some 0x2F ||
      (Bytes.utf8 url)[(Bytes.utf8 a).length]?.all [0x2F, 0x3F, 0x23].contains)

/-- The loop of `upgrade_proof`, with the requests sent -/
def upgradeLoop (reply : List Request → Reply) (p : Proof) :
    List String → (allServerErrors : Bool) → List Request →
      List Request × Except AnchorError (Option Bytes)
  | [], true, sent =>
    (sent, .error (.network "All calendar servers returned errors during upgrade"))
  | [], false, sent => (sent, .ok none)
  | url :: urls, allServerErrors, sent =>
    if isAllowed calendarUrls url then
      match extractCommitment P p.proofData url p.anchoredHash with
      | .error e => (sent, .error e)
      | .ok commitment =>
        let sent := sent ++ [⟨url, commitment⟩]
        match reply sent with
        | .failed => upgradeLoop reply p urls allServerErrors sent
        | .answered status body =>
          if 200 ≤ status ∧ status < 300 then
            (sent, do return some (← mergeProofs P p.proofData (← body) url))
          else
            upgradeLoop reply p urls (allServerErrors && 500 ≤ status && status < 600) sent
    else
      upgradeLoop reply p urls false sent

def upgradeProof (reply : List Request → Reply) (p : Proof) :
    List Request × Except AnchorError (Option Bytes) :=
  match findPendingCalendars P p.proofData with
  | .error e => ([], .error e)
  | .ok [] => ([], .ok none)
  | .ok (url :: urls) => upgradeLoop P calendarUrls reply p (url :: urls) true []

/-- What both calls make of upgraded data -/
def upgradedProof (c : Calendars) (p : Proof) : List Request × Except AnchorError (Option Proof) :=
  let (sent, data) := upgradeProof P calendarUrls c.reply p
  (sent, do
    match ← data with
    | some data => return some (← p.upgraded c.now data)
    | none => return none)

def checkStatus (c : Calendars) (p : Proof) : List Request × Except AnchorError Proof :=
  let (sent, updated) := upgradedProof P calendarUrls c p
  (sent, updated.map (·.getD p))

def upgrade (c : Calendars) (p : Proof) : List Request × Except AnchorError (Option Proof) :=
  if p.status = .confirmed then ([], .ok none) else upgradedProof P calendarUrls c p

/-- What a call sends, and the proof behind it.  It stays where the call fails. -/
def visit (v : Call × Calendars) (p : Proof) : List Request × Proof :=
  match v.1 with
  | .checkStatus =>
    let (sent, updated) := checkStatus P calendarUrls v.2 p
    (sent, updated.toOption.getD p)
  | .upgrade =>
    let (sent, upgraded) := upgrade P calendarUrls v.2 p
    (sent, upgraded.toOption.join.getD p)

def Asks (p : Proof) (q : Request) : Prop :=
  isAllowed calendarUrls q.url ∧
    extractCommitment P p.proofData q.url p.anchoredHash = .ok q.commitment

/-- Behind operations there is an attestation, for a calendar or a block. -/
def Marked (data : Bytes) : Prop :=
  ∃ (ops : List Op) (rest : Bytes), data = otsMagic ++ (ops.flatMap Op.bytes ++ 0x00 :: rest)

/-- What all calls keep of a proof -/
structure Keeps (p q : Proof) : Prop where
  anchoredHash : q.anchoredHash = p.anchoredHash
  confirmed : p.status = .confirmed → q.status = .confirmed
  operations : ∀ ops : List Op, otsMagic ++ ops.flatMap Op.bytes <+: p.proofData →
    otsMagic ++ ops.flatMap Op.bytes <+: q.proofData

variable {P calendarUrls}

theorem Op.step_ne_verify (o : Op) : o.step.operation ≠ .verify := by
  rw [Op.step]
  split
  · dsimp only
    split <;> decide
  · dsimp only
    split <;> decide

theorem parse_marked {data : Bytes} {path : List AttestationStep}
    (h : parseAttestationPath data = .ok path) :
    path.any (·.operation = .verify) = true ↔ Marked data := by
  obtain ⟨body, rfl⟩ : ∃ body, data = otsMagic ++ body := by
    rw [parseAttestationPath] at h
    split at h
    · cases h
    split at h
    · cases h
    · rename_i hmagic
      have hsplit := List.take_append_drop otsMagic.length data
      rw [not_not.mp hmagic] at hsplit
      exact ⟨_, hsplit.symm⟩
  rw [parseAttestationPath_eq] at h
  constructor
  · intro hverify
    obtain ⟨ops, ⟨⟨rest, rfl⟩, -⟩ | ⟨-, rfl⟩⟩ := pathWalker_eq_ok.mp h
    · exact ⟨ops, rest, rfl⟩
    · obtain ⟨_, hmem, hstep⟩ := List.any_eq_true.mp hverify
      obtain ⟨o, -, rfl⟩ := List.mem_map.mp hmem
      exact absurd (of_decide_eq_true hstep) o.step_ne_verify
  · rintro ⟨ops, rest, hbody⟩
    cases
      (pathWalker_eq_ok.mpr ⟨ops, .inl ⟨⟨rest, List.append_cancel_left hbody⟩, rfl⟩⟩).symm.trans h
    simp

theorem upgradeLoop_spec {reply : List Request → Reply} {p : Proof} {urls : List String} :
    ∀ {errors : Bool} {sent : List Request}, (∀ q ∈ sent, Asks P calendarUrls p q) →
      let result := upgradeLoop P calendarUrls reply p urls errors sent
      (∀ q ∈ result.1, Asks P calendarUrls p q) ∧ ∀ data, result.2 = .ok (some data) →
        ∃ upgrade url, mergeProofs P p.proofData upgrade url = .ok data := by
  induction urls with
  | nil =>
    intro errors sent hsent
    cases errors with
    | true => exact ⟨hsent, fun data h => by cases h⟩
    | false => exact ⟨hsent, fun data h => by cases h⟩
  | cons url urls ih =>
    intro errors sent hsent
    rw [upgradeLoop]
    split
    · rename_i hallowed
      cases hcommitment : extractCommitment P p.proofData url p.anchoredHash with
      | error e => exact ⟨hsent, fun data h => by cases h⟩
      | ok commitment =>
        have hsent' : ∀ q ∈ sent ++ [⟨url, commitment⟩], Asks P calendarUrls p q := by
          rw [List.forall_mem_append, List.forall_mem_singleton]
          exact ⟨hsent, hallowed, hcommitment⟩
        dsimp only
        cases reply (sent ++ [⟨url, commitment⟩]) with
        | failed => exact ih hsent'
        | answered status body =>
          dsimp only
          split
          · refine ⟨hsent', fun data h => ?_⟩
            obtain ⟨upgrade, -, h⟩ := res_bind_eq_ok.mp h
            obtain ⟨merged, hmerged, h⟩ := res_bind_eq_ok.mp h
            cases h
            exact ⟨upgrade, url, hmerged⟩
          · exact ih hsent'
    · exact ih hsent

theorem upgradedProof_spec (c : Calendars) (p : Proof) :
    (∀ q ∈ (upgradedProof P calendarUrls c p).1, Asks P calendarUrls p q) ∧
      ∀ q, (upgradedProof P calendarUrls c p).2 = .ok (some q) → ∃ upgrade url data,
        mergeProofs P p.proofData upgrade url = .ok data ∧ p.upgraded c.now data = .ok q := by
  have hproof : (∀ q ∈ (upgradeProof P calendarUrls c.reply p).1, Asks P calendarUrls p q) ∧
      ∀ data, (upgradeProof P calendarUrls c.reply p).2 = .ok (some data) →
        ∃ upgrade url, mergeProofs P p.proofData upgrade url = .ok data := by
    rw [upgradeProof]
    split
    · exact ⟨List.forall_mem_nil _, fun data h => by cases h⟩
    · exact ⟨List.forall_mem_nil _, fun data h => by cases h⟩
    · exact upgradeLoop_spec (List.forall_mem_nil _)
  refine ⟨hproof.1, fun q h => ?_⟩
  obtain ⟨data, hdata, h⟩ := res_bind_eq_ok.mp h
  cases data with
  | none => cases h
  | some data =>
    obtain ⟨q', hq, h⟩ := res_bind_eq_ok.mp h
    cases h
    obtain ⟨upgrade, url, hmerge⟩ := hproof.2 data hdata
    exact ⟨upgrade, url, data, hmerge, hq⟩

/-- A call sends what `upgrade_proof` does, and leaves the proof or one with merged data. -/
theorem visit_cases (v : Call × Calendars) (p : Proof) :
    (∀ q ∈ (visit P calendarUrls v p).1, Asks P calendarUrls p q) ∧
      ((visit P calendarUrls v p).2 = p ∨ ∃ upgrade url data,
        mergeProofs P p.proofData upgrade url = .ok data ∧
          p.upgraded v.2.now data = .ok (visit P calendarUrls v p).2) := by
  obtain ⟨call, c⟩ := v
  obtain ⟨hasks, hspec⟩ := @upgradedProof_spec P calendarUrls c p
  cases call with
  | checkStatus =>
    refine ⟨hasks, ?_⟩
    simp only [visit, checkStatus]
    rcases h : (upgradedProof P calendarUrls c p).2 with e | _ | q
    · exact .inl rfl
    · exact .inl rfl
    · exact .inr (hspec q h)
  | upgrade =>
    simp only [visit, upgrade]
    split
    · exact ⟨List.forall_mem_nil _, .inl rfl⟩
    · refine ⟨hasks, ?_⟩
      rcases h : (upgradedProof P calendarUrls c p).2 with e | _ | q
      · exact .inl rfl
      · exact .inl rfl
      · exact .inr (hspec q h)

theorem keeps_visit {p s : Proof} (v : Call × Calendars) (h : Keeps p s) :
    Keeps p (visit P calendarUrls v s).2 := by
  rcases (visit_cases v s).2 with hsame | ⟨upgrade, url, data, hmerge, hq⟩
  · rw [hsame]
    exact h
  · obtain ⟨path, -, hq⟩ := res_bind_eq_ok.mp hq
    rw [← Except.ok.inj hq]
    refine ⟨h.anchoredHash, fun hp => ?_, fun ops hops => ?_⟩
    · dsimp only
      rw [h.confirmed hp, ite_self]
    · obtain ⟨rest, hrest⟩ := h.operations ops hops
      obtain ⟨pos, hloop⟩ :=
        @loop_ops _ _ (mergeWalker P upgrade url) mergeWalker_advances ops rest
          otsMagic.length otsMagic
      rw [← hrest, List.append_assoc, mergeProofs_eq, hloop, mergeWalker_ops] at hmerge
      exact (mergeWalker_eq_ok hmerge).2

/-- Whatever the calendars answer, a proof keeps its digest, its confirmation and its first
operations; only the provider's calendars are asked, with the commitments of the data; and a
changed proof is confirmed just when it was or has an attestation, of any kind, behind them. -/
theorem visits_keep (P : Crates) (calendarUrls : List String) (visits : List (Call × Calendars))
    (p : Proof) :
    Keeps p (Machine.run (visit P calendarUrls) visits p).2 ∧
      Machine.Along (visit P calendarUrls) (fun v s =>
        (∀ q ∈ (visit P calendarUrls v s).1, Asks P calendarUrls s q) ∧
        ((visit P calendarUrls v s).2 = s ∨ ((visit P calendarUrls v s).2.status = .confirmed ↔
          s.status = .confirmed ∨ Marked (visit P calendarUrls v s).2.proofData))) visits p := by
  constructor
  · refine Machine.run_invariant (P := fun _ _ => True) (fun v s h _ => keeps_visit v h) visits p
      ⟨rfl, id, fun _ => id⟩ (Machine.along_of_forall (fun _ _ => trivial) visits p)
  · refine Machine.along_of_forall (fun v s => ⟨(visit_cases v s).1, ?_⟩) visits p
    refine (visit_cases v s).2.imp_right ?_
    rintro ⟨_, _, data, -, hq⟩
    obtain ⟨path, hpath, hq⟩ := res_bind_eq_ok.mp hq
    rw [← Except.ok.inj hq, ← parse_marked hpath]
    dsimp only
    split
    · rename_i hverify
      exact iff_of_true rfl (.inr hverify)
    · rename_i hverify
      exact (or_iff_left hverify).symm

end Provider

end WritersProof.Anchors.Ots
