/-
  WritersProof.Anchors.Walkers

  Whether the walkers of OpenTimestamps proofs agree (crates/cpoe/src/anchors/ots.rs).

  `Laid` is the layout of a proof: behind the URL of a pending attestation stand its tag and its
  payload, if there is room for them.  `find_pending_calendars` reads it so; `extract_commitment`
  and `merge_proofs` take the tag for operations.  A merge also puts the upgrade in front of what
  the proof has for the other calendars.
-/
import WritersProof.Anchors.Ots

namespace WritersProof.Anchors.Ots

open Rust Walker Bytes

/-! ## The loop, part by part -/

/-- A hash operation, or one with its operand -/
structure Op where
  code : UInt8
  raw : Bytes
  data : Bytes
  wellFormed : (code = 0x08 ∨ code = 0x02) ∧ raw = [] ∨ (code = 0xF0 ∨ code = 0xF1) ∧ Datum raw data

namespace Op

def bytes (o : Op) : Bytes := o.code :: o.raw

end Op

/-- An operation that the walkers do not know -/
def Unknown (op : UInt8) : Prop := ¬ (op = 0x08 ∨ op = 0x02) ∧ ¬ (op = 0xF0 ∨ op = 0xF1) ∧ op ≠ 0x00

def Walker.apply {σ ρ : Type} (w : Walker σ ρ) (s : σ) (o : Op) : σ :=
  if o.code = 0x08 ∨ o.code = 0x02 then w.hash o.code s else w.operand o.code o.raw o.data s

/-- Behind a marker a walker goes on at the same place or further on. -/
def Walker.Advances {σ ρ : Type} (w : Walker σ ρ) : Prop :=
  ∀ pos rest s s' behind, w.marker pos rest s = .ok (.go s' behind) → behind.length ≤ rest.length

section Loop

variable {σ ρ : Type} {w : Walker σ ρ} {pos : Nat} {s : σ}

variable {rest : Bytes}

/-- An operation takes its first byte, so a round for each byte is enough. -/
theorem walk_eq_loop (hw : w.Advances) {fuel : Nat} (h : rest.length ≤ fuel) :
    w.walk fuel pos rest s = w.loop pos rest s := by
  induction hn : rest.length using Nat.strongRecOn generalizing fuel pos rest s with
  | ind n ih =>
    match fuel, rest, h with
    | 0, [], _ => rfl
    | _ + 1, [], _ => rfl
    | fuel + 1, op :: rest, h =>
      rw [List.length_cons] at h hn
      have hfuel : rest.length ≤ fuel := by omega
      rw [loop, List.length_cons, walk, walk]
      split
      · rw [ih _ (by omega) hfuel rfl]
        rfl
      split
      · match hdata : readData (pos + 1) rest with
        | .error e => rfl
        | .ok (data, behind) =>
          obtain ⟨raw, rfl, -⟩ := readData_eq_ok hdata
          rw [List.length_append] at hfuel hn
          rw [ok_bind, ok_bind]
          simp only
          rw [ih behind.length (by omega) (by omega) rfl,
            ih behind.length (by omega) (by rw [List.length_append]; omega) rfl]
      split
      · match hmarker : w.marker (pos + 1) rest s with
        | .error e => rfl
        | .ok (.stop result) => rfl
        | .ok (.go s' behind) =>
          have hbehind := hw _ _ _ _ _ hmarker
          rw [ok_bind, ok_bind]
          simp only
          rw [ih behind.length (by omega) (by omega) rfl, ih behind.length (by omega) hbehind rfl]
      · rfl

theorem loop_op (hw : w.Advances) (o : Op) (tail : Bytes) :
    w.loop pos (o.bytes ++ tail) s = w.loop (pos + o.bytes.length) tail (w.apply s o) := by
  rw [apply, Op.bytes, List.cons_append, loop, List.length_cons, walk]
  rcases o.wellFormed with ⟨hcode, hraw⟩ | ⟨hcode, hdatum⟩
  · rw [if_pos hcode, if_pos hcode, hraw]
    rfl
  · have hhash : ¬ (o.code = 0x08 ∨ o.code = 0x02) := by
      rcases hcode with h | h
      · rw [h]
        decide
      · rw [h]
        decide
    rw [if_neg hhash, if_pos hcode, if_neg hhash, hdatum, ok_bind]
    simp only
    rw [consumed_append, walk_eq_loop hw (by rw [List.length_append]; omega), List.length_cons,
      Nat.add_assoc, Nat.add_comm 1]

/-- A walker takes operations as they come. -/
theorem loop_ops (hw : w.Advances) (ops : List Op) (tail : Bytes) (pos : Nat) (s : σ) :
    ∃ pos', w.loop pos (ops.flatMap Op.bytes ++ tail) s
      = w.loop pos' tail (ops.foldl w.apply s) := by
  induction ops generalizing pos s with
  | nil => exact ⟨pos, rfl⟩
  | cons o ops ih =>
    obtain ⟨pos', h⟩ := ih (pos + o.bytes.length) (w.apply s o)
    refine ⟨pos', ?_⟩
    rw [List.flatMap_cons, List.append_assoc, loop_op hw, h]
    rfl

theorem loop_other {op : UInt8} (h : Unknown op) :
    w.loop pos (op :: rest) s = w.other op rest s := by
  rw [loop, List.length_cons, walk, if_neg h.1, if_neg h.2.1, if_neg h.2.2]

theorem loop_stop {result : ρ} (h : w.marker (pos + 1) rest s = .ok (.stop result)) :
    w.loop pos (0x00 :: rest) s = .ok result := by
  rw [loop, List.length_cons, walk, if_neg (by decide), if_neg (by decide),
    if_pos rfl, h]
  rfl

theorem loop_go (hw : w.Advances) {rest behind : Bytes} {s' : σ}
    (h : w.marker (pos + 1) rest s = .ok (.go s' behind)) :
    w.loop pos (0x00 :: rest) s = w.loop (pos + 1 + (consumed rest behind).length) behind s' := by
  rw [loop, List.length_cons, walk, if_neg (by decide), if_neg (by decide),
    if_pos rfl, h, ok_bind]
  simp only
  rw [walk_eq_loop hw (hw _ _ _ _ _ h)]

theorem marker_of_loop {result : ρ} (h : w.loop pos (0x00 :: rest) s = .ok result) :
    ∃ next, w.marker (pos + 1) rest s = .ok next := by
  rw [loop, List.length_cons, walk, if_neg (by decide), if_neg (by decide),
    if_pos rfl] at h
  obtain ⟨next, hnext, -⟩ := res_bind_eq_ok.mp h
  exact ⟨next, hnext⟩

/-- How a position can go on: with an operation, a marker, another byte or a truncated operand -/
theorem position_induct {motive : Bytes → Prop} (nil : motive [])
    (op : ∀ (o : Op) tail, motive tail → motive (o.bytes ++ tail))
    (marker : ∀ tail, (∀ behind, behind.length ≤ tail.length → motive behind) →
      motive (0x00 :: tail))
    (other : ∀ op tail, Unknown op → motive (op :: tail))
    (truncated : ∀ op tail, (op = 0xF0 ∨ op = 0xF1) →
      (∀ pos, ∃ e, readData pos tail = .error e) → motive (op :: tail))
    (rest : Bytes) : motive rest := by
  induction hn : rest.length using Nat.strongRecOn generalizing rest with
  | ind n ih =>
    match rest with
    | [] => exact nil
    | code :: tail =>
      rw [List.length_cons] at hn
      by_cases hhash : code = 0x08 ∨ code = 0x02
      · exact op ⟨code, [], [], .inl ⟨hhash, rfl⟩⟩ tail (ih tail.length (by omega) _ rfl)
      by_cases hoperand : code = 0xF0 ∨ code = 0xF1
      · by_cases hread : ∃ pos data behind, readData pos tail = .ok (data, behind)
        · obtain ⟨pos, data, behind, h⟩ := hread
          obtain ⟨raw, rfl, hdatum⟩ := readData_eq_ok h
          rw [List.length_append] at hn
          exact op ⟨code, raw, data, .inr ⟨hoperand, hdatum⟩⟩ behind
            (ih behind.length (by omega) _ rfl)
        · refine truncated code tail hoperand fun pos => ?_
          match h : readData pos tail with
          | .error e => exact ⟨e, rfl⟩
          | .ok (data, behind) => exact absurd ⟨pos, data, behind, h⟩ hread
      by_cases hmarker : code = 0x00
      · subst hmarker
        exact marker tail fun behind h => ih behind.length (by omega) _ rfl
      · exact other code tail ⟨hhash, hoperand, hmarker⟩

theorem loop_truncated (w : Walker σ ρ) (pos : Nat) (s : σ) {op : UInt8} (h : op = 0xF0 ∨ op = 0xF1)
    (hread : ∀ pos, ∃ e, readData pos rest = .error e) :
    ∃ e, w.loop pos (op :: rest) s = .error e := by
  obtain ⟨e, he⟩ := hread (pos + 1)
  refine ⟨e, ?_⟩
  have hhash : ¬ (op = 0x08 ∨ op = 0x02) := by
    rcases h with rfl | rfl
    · decide
    · decide
  rw [loop, List.length_cons, walk, if_neg hhash, if_pos h, he]
  rfl

end Loop

/-! ## The layout of a proof -/

/-- A part of a proof -/
inductive Element where
  | op (o : Op)
  | pending (url : String)

/-- The parts of a proof behind its magic, up to an operation that is not known -/
inductive Laid : Bytes → List Element → Prop where
  | nil : Laid [] []
  | op (o : Op) {rest : Bytes} {es : List Element} (h : Laid rest es) :
      Laid (o.bytes ++ rest) (.op o :: es)
  /-- A URL with no room for a tag behind it -/
  | bare {raw rest : Bytes} {url : String} {es : List Element} (hurl : Datum raw (utf8 url))
      (hroom : rest.length < 8) (h : Laid rest es) :
      Laid (0x00 :: (raw ++ rest)) (.pending url :: es)
  | tagged {raw tag payload data rest : Bytes} {url : String} {es : List Element}
      (hurl : Datum raw (utf8 url)) (htag : tag.length = 8) (hpayload : Datum payload data)
      (h : Laid rest es) :
      Laid (0x00 :: (raw ++ (tag ++ (payload ++ rest)))) (.pending url :: es)
  | other {op : UInt8} {rest : Bytes} (h : Unknown op) : Laid (op :: rest) []

def pendings : List Element → List String
  | [] => []
  | .op _ :: es => pendings es
  | .pending url :: es => url :: pendings es

def Op.digest (P : Crates) (current : Bytes) (o : Op) : Bytes :=
  if o.code = 0x08 ∨ o.code = 0x02 then hashOp P o.code current else operandOp o.code o.data current

/-- The digest that the operations in front of a pending attestation come to -/
def replayTo (P : Crates) (url : String) : Bytes → List Element → Option Bytes
  | _, [] => none
  | current, .op o :: es => replayTo P url (o.digest P current) es
  | current, .pending found :: es => if found = url then some current else replayTo P url current es

section Pending

variable {P : Crates}

theorem pendingWalker_advances : (pendingWalker P).Advances := by
  intro pos rest s s' behind h
  rw [pendingWalker] at h
  obtain ⟨⟨url, behind₁⟩, hurl, h⟩ := res_bind_eq_ok.mp h
  obtain ⟨raw, rfl, -⟩ := readString_eq_ok hurl
  simp only at h
  split at h
  · rename_i hroom
    obtain ⟨⟨data, behind₂⟩, hdata, h⟩ := res_bind_eq_ok.mp h
    obtain ⟨payload, hpayload, -⟩ := readData_eq_ok hdata
    cases h
    have hlen := congrArg List.length hpayload
    rw [List.length_append, List.length_drop] at hlen
    show behind₂.length ≤ _
    rw [List.length_append]
    omega
  · cases h
    rw [List.length_append]
    omega

variable {raw rest : Bytes} {url : String}

theorem pending_marker_bare (hurl : Datum raw (utf8 url)) (hroom : rest.length < 8)
    (pos : Nat) (urls : List String) :
    (pendingWalker P).marker pos (raw ++ rest) urls = .ok (.go (urls ++ [url]) rest) := by
  show (readString P pos (raw ++ rest) >>= _) = _
  rw [readString_of_datum hurl, ok_bind]
  simp only
  rw [if_neg (Nat.not_le.mpr hroom)]
  rfl

theorem pending_marker_tagged {tag payload data : Bytes} (hurl : Datum raw (utf8 url))
    (htag : tag.length = 8) (hpayload : Datum payload data) (pos : Nat) (urls : List String) :
    (pendingWalker P).marker pos (raw ++ (tag ++ (payload ++ rest))) urls =
      .ok (.go (urls ++ [url]) rest) := by
  have hroom : 8 ≤ (tag ++ (payload ++ rest)).length := by
    rw [List.length_append]
    omega
  have hdrop : (tag ++ (payload ++ rest)).drop 8 = payload ++ rest := List.drop_left' htag
  show (readString P pos (raw ++ (tag ++ (payload ++ rest))) >>= _) = _
  rw [readString_of_datum hurl, ok_bind]
  simp only
  rw [if_pos hroom, hdrop, hpayload, ok_bind]
  rfl

/-- The walker reads the layout. -/
theorem pendingWalker_of_laid {es : List Element} (h : Laid rest es) (pos : Nat)
    (urls : List String) : (pendingWalker P).loop pos rest urls = .ok (urls ++ pendings es) := by
  induction h generalizing pos urls with
  | nil =>
    rw [pendings, List.append_nil]
    rfl
  | op o h ih =>
    rw [loop_op pendingWalker_advances, ih, pendings, apply]
    split
    · rfl
    · rfl
  | bare hurl hroom h ih =>
    rw [loop_go pendingWalker_advances (pending_marker_bare hurl hroom _ _), ih, pendings,
      List.append_assoc]
    rfl
  | tagged hurl htag hpayload h ih =>
    rw [loop_go pendingWalker_advances (pending_marker_tagged hurl htag hpayload _ _), ih, pendings,
      List.append_assoc]
    rfl
  | other h =>
    rw [loop_other h, pendings, List.append_nil]
    rfl

/-- It reads nothing else. -/
theorem laid_of_pendingWalker {pos : Nat} {urls result : List String}
    (h : (pendingWalker P).loop pos rest urls = .ok result) : ∃ es, Laid rest es := by
  induction rest using position_induct generalizing pos urls with
  | nil => exact ⟨[], .nil⟩
  | op o tail ih =>
    rw [loop_op pendingWalker_advances] at h
    obtain ⟨es, hes⟩ := ih h
    exact ⟨.op o :: es, .op o hes⟩
  | marker tail ih =>
    obtain ⟨_, hmarker⟩ := marker_of_loop h
    obtain ⟨⟨url, behind⟩, hurl, hmarker⟩ := res_bind_eq_ok.mp hmarker
    obtain ⟨raw, rfl, hdatum⟩ := readString_eq_ok hurl
    by_cases hroom : 8 ≤ behind.length
    · -- the tag is there, so a payload has to be
      obtain ⟨tag, behind, rfl, htag⟩ : ∃ tag after, behind = tag ++ after ∧ tag.length = 8 :=
        ⟨behind.take 8, behind.drop 8, (List.take_append_drop 8 behind).symm, by
          rw [List.length_take, Nat.min_eq_left hroom]⟩
      simp only [if_pos hroom, List.drop_left' htag] at hmarker
      obtain ⟨⟨data, after⟩, hdata, -⟩ := res_bind_eq_ok.mp hmarker
      obtain ⟨payload, rfl, hpayload⟩ := readData_eq_ok hdata
      rw [loop_go pendingWalker_advances (pending_marker_tagged hdatum htag hpayload _ _)] at h
      obtain ⟨es, hes⟩ := ih after (by simp only [List.length_append]; omega) h
      exact ⟨.pending url :: es, .tagged hdatum htag hpayload hes⟩
    · have hroom : behind.length < 8 := Nat.not_le.mp hroom
      rw [loop_go pendingWalker_advances (pending_marker_bare hdatum hroom _ _)] at h
      obtain ⟨es, hes⟩ := ih behind (by rw [List.length_append]; omega) h
      exact ⟨.pending url :: es, .bare hdatum hroom hes⟩
  | other op tail hop => exact ⟨[], .other hop⟩
  | truncated op tail hop hread =>
    obtain ⟨e, he⟩ := loop_truncated (pendingWalker P) pos urls hop hread
    rw [he] at h
    cases h

end Pending

/-! ## Behind the magic -/

section Magic

variable {σ ρ : Type} {body : Bytes}

theorem run_magic (w : Walker σ ρ) (s : σ) :
    w.run (otsMagic ++ body) s = w.loop otsMagic.length body s := by
  rw [run, List.drop_left]

theorem not_short : ¬ (otsMagic ++ body).length < otsMagic.length := by
  rw [List.length_append]
  omega

theorem take_magic : (otsMagic ++ body).take otsMagic.length = otsMagic := List.take_left

/-- The URLs that are reported are those of the layout. -/
theorem findPendingCalendars_iff {P : Crates} {urls : List String} :
    findPendingCalendars P (otsMagic ++ body) = .ok urls
      ↔ ∃ es, Laid body es ∧ pendings es = urls := by
  rw [findPendingCalendars, if_neg not_short, if_neg (not_not.mpr take_magic), run_magic]
  constructor
  · intro h
    obtain ⟨es, hes⟩ := laid_of_pendingWalker h
    rw [pendingWalker_of_laid hes, List.nil_append] at h
    exact ⟨es, hes, Except.ok.inj h⟩
  · rintro ⟨es, hes, rfl⟩
    exact pendingWalker_of_laid hes _ _

end Magic

/-! ## The first attestation -/

/-- In front of the first pending attestation there are only operations. -/
theorem Laid.first {body : Bytes} {es : List Element} (h : Laid body es) (hes : pendings es ≠ []) :
    ∃ (ops : List Op) (url : String) (raw rest : Bytes) (later : List Element),
      body = ops.flatMap Op.bytes ++ 0x00 :: (raw ++ rest) ∧ Datum raw (utf8 url) ∧
        es = ops.map .op ++ .pending url :: later := by
  induction h with
  | nil => exact absurd rfl hes
  | op o h ih =>
    obtain ⟨ops, url, raw, rest, later, hbody, hurl, hlater⟩ := ih hes
    refine ⟨o :: ops, url, raw, rest, later, ?_, hurl, ?_⟩
    · rw [hbody, List.flatMap_cons, List.append_assoc]
    · rw [hlater]
      rfl
  | bare hurl hroom h ih => exact ⟨[], _, _, _, _, rfl, hurl, rfl⟩
  | tagged hurl htag hpayload h ih => exact ⟨[], _, _, _, _, rfl, hurl, rfl⟩
  | other h => exact absurd rfl hes

theorem replayTo_first {P : Crates} {url : String} {later : List Element} (ops : List Op)
    (current : Bytes) :
    replayTo P url current (ops.map .op ++ .pending url :: later) =
      some (ops.foldl (Op.digest P) current) := by
  induction ops generalizing current with
  | nil =>
    show (if url = url then some current else _) = _
    rw [if_pos rfl]
    rfl
  | cons o ops ih => exact ih (o.digest P current)

section Commitment

variable {P : Crates} {url : String} {ops : List Op} {hash : FixedBytes 32}

theorem commitmentWalker_advances : (commitmentWalker P url).Advances := by
  intro pos rest s s' behind h
  rw [commitmentWalker] at h
  obtain ⟨⟨found, behind'⟩, hurl, hgo⟩ := res_bind_eq_ok.mp h
  obtain ⟨raw, rfl, -⟩ := readString_eq_ok hurl
  simp only at hgo
  split at hgo
  · cases hgo
  · cases hgo
    rw [List.length_append]
    omega

theorem commitmentWalker_apply : (commitmentWalker P url).apply = Op.digest P := rfl

/-- The commitment to the first calendar is the digest in front of it. -/
theorem extractCommitment_first {raw rest : Bytes} (hurl : Datum raw (utf8 url)) :
    extractCommitment P (otsMagic ++ (ops.flatMap Op.bytes ++ 0x00 :: (raw ++ rest))) url hash =
      .ok (ops.foldl (Op.digest P) hash.val) := by
  rw [extractCommitment, if_neg not_short, run_magic]
  obtain ⟨pos, h⟩ := loop_ops commitmentWalker_advances ops (0x00 :: (raw ++ rest)) otsMagic.length
    hash.val
  rw [h, commitmentWalker_apply]
  apply loop_stop
  show (readString P (pos + 1) (raw ++ rest) >>= _) = _
  rw [readString_of_datum hurl, ok_bind]
  show (if url = url then _ else _ : Except AnchorError (Next Bytes Bytes)) = _
  rw [if_pos rfl]
  rfl

/-- An operation that is not known ends the search. -/
theorem extractCommitment_other {op : UInt8} {rest : Bytes} (hop : Unknown op) :
    extractCommitment P (otsMagic ++ (ops.flatMap Op.bytes ++ op :: rest)) url hash =
      .error (.unavailable s!"URL {url} not found in proof") := by
  rw [extractCommitment, if_neg not_short, run_magic]
  obtain ⟨pos, h⟩ := loop_ops commitmentWalker_advances ops (op :: rest) otsMagic.length hash.val
  rw [h, loop_other hop]
  rfl

end Commitment

def Op.step (o : Op) : AttestationStep :=
  if o.code = 0x08 ∨ o.code = 0x02 then ⟨if o.code = 0x08 then .sha256 else .ripemd160, []⟩
  else ⟨if o.code = 0xF0 then .append else .prepend, o.data⟩

theorem pathWalker_advances : pathWalker.Advances := by
  intro pos rest s s' behind h
  cases h

theorem pathWalker_ops (ops : List Op) (steps : List AttestationStep) :
    ops.foldl pathWalker.apply steps = steps ++ ops.map Op.step := by
  induction ops generalizing steps with
  | nil => exact (List.append_nil _).symm
  | cons o ops ih =>
    have happly : pathWalker.apply steps o = steps ++ [o.step] := by
      rw [apply, Op.step]
      split
      · rfl
      · rfl
    rw [List.foldl_cons, happly, ih, List.append_assoc]
    rfl

/-- A path ends at the first marker, whatever it is for, or at the end. -/
theorem pathWalker_eq_ok {pos : Nat} {rest : Bytes} {steps path : List AttestationStep} :
    pathWalker.loop pos rest steps = .ok path ↔ ∃ ops : List Op,
      (∃ tail, rest = ops.flatMap Op.bytes ++ 0x00 :: tail) ∧
          path = steps ++ ops.map Op.step ++ [⟨.verify, []⟩] ∨
        rest = ops.flatMap Op.bytes ∧ path = steps ++ ops.map Op.step := by
  constructor
  · intro h
    induction rest using position_induct generalizing pos steps with
    | nil =>
      cases h
      exact ⟨[], .inr ⟨rfl, (List.append_nil _).symm⟩⟩
    | op o tail ih =>
      rw [loop_op pathWalker_advances] at h
      have happly : pathWalker.apply steps o = steps ++ [o.step] := pathWalker_ops [o] steps
      obtain ⟨ops, ⟨⟨tail, rfl⟩, rfl⟩ | ⟨rfl, rfl⟩⟩ := ih h
      · exact ⟨o :: ops, .inl ⟨⟨tail, by simp⟩, by simp [happly]⟩⟩
      · exact ⟨o :: ops, .inr ⟨rfl, by simp [happly]⟩⟩
    | marker tail ih =>
      rw [loop_stop rfl] at h
      cases h
      exact ⟨[], .inl ⟨⟨tail, rfl⟩, by simp⟩⟩
    | other op tail hop =>
      rw [loop_other hop, pathWalker] at h
      simp only at h
      split at h
      · cases h
      · cases h
    | truncated op tail hop hread =>
      obtain ⟨e, he⟩ := loop_truncated pathWalker pos steps hop hread
      rw [he] at h
      cases h
  · rintro ⟨ops, ⟨⟨tail, rfl⟩, rfl⟩ | ⟨rfl, rfl⟩⟩
    · obtain ⟨pos, h⟩ := loop_ops pathWalker_advances ops (0x00 :: tail) pos steps
      rw [h, pathWalker_ops]
      exact loop_stop rfl
    · obtain ⟨pos, h⟩ := loop_ops pathWalker_advances ops [] pos steps
      rw [List.append_nil] at h
      rw [h, pathWalker_ops]
      rfl

theorem parseAttestationPath_eq {body : Bytes} :
    parseAttestationPath (otsMagic ++ body) = pathWalker.loop otsMagic.length body [] := by
  rw [parseAttestationPath, if_neg not_short, if_neg (not_not.mpr take_magic), run_magic]

theorem verifyAttestationPath_steps {P : Crates} {ops : List Op} {hash : FixedBytes 32} :
    verifyAttestationPath P hash (ops.map Op.step) = ops.foldl (Op.digest P) hash.val := by
  rw [verifyAttestationPath, List.foldl_map]
  congr 1
  funext current o
  rw [Op.step, Op.digest, hashOp, operandOp]
  by_cases hhash : o.code = 0x08 ∨ o.code = 0x02
  · rw [if_pos hhash, if_pos hhash]
    by_cases hsha : o.code = 0x08
    · rw [if_pos hsha, if_pos hsha]
    · rw [if_neg hsha, if_neg hsha]
  · rw [if_neg hhash, if_neg hhash]
    by_cases happend : o.code = 0xF0
    · rw [if_pos happend, if_pos happend]
    · rw [if_neg happend, if_neg happend]

/-- The paths of proofs are their operations, up to the first marker if there is one, and lead to
the digest that these come to. -/
theorem parseAttestationPath_iff (P : Crates) (hash : FixedBytes 32) (body : Bytes)
    (path : List AttestationStep) :
    parseAttestationPath (otsMagic ++ body) = .ok path ↔ ∃ ops : List Op,
      ((∃ rest, body = ops.flatMap Op.bytes ++ 0x00 :: rest) ∧
          path = ops.map Op.step ++ [⟨.verify, []⟩] ∨
        body = ops.flatMap Op.bytes ∧ path = ops.map Op.step) ∧
      verifyAttestationPath P hash path = ops.foldl (Op.digest P) hash.val := by
  rw [parseAttestationPath_eq, pathWalker_eq_ok]
  refine exists_congr fun ops => (and_iff_left_of_imp ?_).symm
  rintro (⟨-, rfl⟩ | ⟨-, rfl⟩)
  · rw [verifyAttestationPath, List.foldl_append]
    exact verifyAttestationPath_steps
  · exact verifyAttestationPath_steps

/-! ## Merging -/

/-- Nothing that `merge_proofs` reads is truncated.  It takes what stands behind a URL for
operations. -/
inductive Complete : Bytes → Prop where
  | nil : Complete []
  | op (o : Op) {rest : Bytes} (h : Complete rest) : Complete (o.bytes ++ rest)
  | url {raw rest : Bytes} {url : String} (hurl : Datum raw (utf8 url)) (h : Complete rest) :
      Complete (0x00 :: (raw ++ rest))
  | other {op : UInt8} {rest : Bytes} (h : Unknown op) : Complete (op :: rest)

section Merge

variable {P : Crates} {upgrade : Bytes} {url : String} {raw rest merged : Bytes}

theorem merge_marker {found : String} (hurl : Datum raw (utf8 found)) (pos : Nat)
    (result : Bytes) :
    (mergeWalker P upgrade url).marker pos (raw ++ rest) result =
      .ok (.go (result ++ if found = url then stripMagic upgrade else 0x00 :: raw) rest) := by
  show (readString P pos (raw ++ rest) >>= _) = _
  rw [readString_of_datum hurl, ok_bind]
  simp only
  split
  · rfl
  · rw [consumed_append]
    rfl

theorem mergeWalker_advances : (mergeWalker P upgrade url).Advances := by
  intro pos rest s s' behind h
  obtain ⟨⟨found, behind'⟩, hurl, -⟩ := res_bind_eq_ok.mp h
  obtain ⟨raw, rfl, hdatum⟩ := readString_eq_ok hurl
  rw [merge_marker hdatum] at h
  cases h
  rw [List.length_append]
  omega

theorem mergeWalker_apply (result : Bytes) (o : Op) :
    (mergeWalker P upgrade url).apply result o = result ++ o.bytes := by
  rw [apply, Op.bytes]
  rcases o.wellFormed with ⟨hcode, hraw⟩ | ⟨hcode, -⟩
  · rw [if_pos hcode, hraw]
    rfl
  · rw [if_neg]
    · rfl
    · rcases hcode with h | h
      · rw [h]
        decide
      · rw [h]
        decide

theorem mergeWalker_ops (ops : List Op) (result : Bytes) :
    ops.foldl (mergeWalker P upgrade url).apply result = result ++ ops.flatMap Op.bytes := by
  induction ops generalizing result with
  | nil => exact (List.append_nil _).symm
  | cons o ops ih =>
    rw [List.foldl_cons, mergeWalker_apply, ih, List.flatMap_cons, List.append_assoc]

/-- A merge reads to the end, and what it has copied stays. -/
theorem mergeWalker_eq_ok {pos : Nat} {result : Bytes}
    (h : (mergeWalker P upgrade url).loop pos rest result = .ok merged) :
    Complete rest ∧ result <+: merged := by
  induction rest using position_induct generalizing pos result with
  | nil =>
    cases h
    exact ⟨.nil, List.prefix_rfl⟩
  | op o tail ih =>
    rw [loop_op mergeWalker_advances, mergeWalker_apply] at h
    obtain ⟨hcomplete, hprevious⟩ := ih h
    exact ⟨.op o hcomplete, (List.prefix_append _ _).trans hprevious⟩
  | marker tail ih =>
    obtain ⟨_, hmarker⟩ := marker_of_loop h
    obtain ⟨⟨found, behind⟩, hurl, -⟩ := res_bind_eq_ok.mp hmarker
    obtain ⟨raw, rfl, hdatum⟩ := readString_eq_ok hurl
    rw [loop_go mergeWalker_advances (merge_marker hdatum _ _)] at h
    obtain ⟨hcomplete, hprevious⟩ := ih behind (by rw [List.length_append]; omega) h
    exact ⟨.url hdatum hcomplete, (List.prefix_append _ _).trans hprevious⟩
  | other op tail hop =>
    rw [loop_other hop] at h
    cases h
    exact ⟨.other hop, List.prefix_append _ _⟩
  | truncated op tail hop hread =>
    obtain ⟨e, he⟩ := loop_truncated (mergeWalker P upgrade url) pos result hop hread
    rw [he] at h
    cases h

theorem mergeWalker_of_complete (h : Complete rest) (pos : Nat) (result : Bytes) :
    ∃ merged, (mergeWalker P upgrade url).loop pos rest result = .ok merged := by
  induction h generalizing pos result with
  | nil => exact ⟨result, rfl⟩
  | op o h ih =>
    rw [loop_op mergeWalker_advances]
    exact ih _ _
  | url hurl h ih =>
    rw [loop_go mergeWalker_advances (merge_marker hurl _ _)]
    exact ih _ _
  | other h =>
    rw [loop_other h]
    exact ⟨_, rfl⟩

theorem mergeProofs_eq {body : Bytes} :
    mergeProofs P (otsMagic ++ body) upgrade url =
      (mergeWalker P upgrade url).loop otsMagic.length body otsMagic := by
  rw [mergeProofs, if_neg not_short, run_magic, take_magic]

/-- The upgrade for the first calendar stands in front of everything that the others have. -/
theorem mergeProofs_first {ops : List Op} (hurl : Datum raw (utf8 url))
    (h : mergeProofs P (otsMagic ++ (ops.flatMap Op.bytes ++ 0x00 :: (raw ++ rest))) upgrade url
      = .ok merged) :
    ∃ tail, merged = otsMagic ++ (ops.flatMap Op.bytes ++ (stripMagic upgrade ++ tail)) := by
  have hadvances : (mergeWalker P upgrade url).Advances := mergeWalker_advances
  obtain ⟨pos, hops⟩ := loop_ops hadvances ops (0x00 :: (raw ++ rest)) otsMagic.length otsMagic
  rw [mergeProofs_eq, hops, loop_go mergeWalker_advances (merge_marker hurl _ _), if_pos rfl,
    mergeWalker_ops] at h
  obtain ⟨tail, rfl⟩ := (mergeWalker_eq_ok h).2
  refine ⟨tail, ?_⟩
  rw [List.append_assoc, List.append_assoc]

end Merge

section Height

theorem heightWalker_advances : heightWalker.Advances := by
  intro pos rest s s' behind h
  rw [heightWalker] at h
  simp only at h
  split at h
  · cases h
  · obtain ⟨⟨payload, behind'⟩, hdata, h⟩ := res_bind_eq_ok.mp h
    obtain ⟨raw, hraw, -⟩ := readData_eq_ok hdata
    simp only at h
    have hlen := congrArg List.length hraw
    rw [List.length_append, List.length_drop] at hlen
    split at h
    · split at h
      · cases h
      · cases h
    · cases h
      omega

/-- An operation that is not known ends this search too. -/
theorem extractBitcoinBlockHeight_other {ops : List Op} {op : UInt8} {rest : Bytes}
    (hop : Unknown op) :
    extractBitcoinBlockHeight (otsMagic ++ (ops.flatMap Op.bytes ++ op :: rest)) = .ok none := by
  rw [extractBitcoinBlockHeight, if_neg not_short, if_neg (not_not.mpr take_magic), run_magic]
  obtain ⟨pos, h⟩ := loop_ops heightWalker_advances ops (op :: rest) otsMagic.length ()
  rw [h, loop_other hop]
  rfl

end Height

/-! ## Whether the walkers agree -/

/-- What is claimed of the proof with these bytes behind its magic, for every calendar that is
reported: the commitment is the digest that is replayed up to it, and an upgrade is merged
without a change to the other commitments and to a Bitcoin attestation. -/
structure Agrees (P : Crates) (body : Bytes) (hash : FixedBytes 32) : Prop where
  commitment : ∀ urls, findPendingCalendars P (otsMagic ++ body) = .ok urls → ∀ url ∈ urls,
    ∃ es digest, Laid body es ∧ replayTo P url hash.val es = some digest ∧
      extractCommitment P (otsMagic ++ body) url hash = .ok digest
  merged : ∀ urls, findPendingCalendars P (otsMagic ++ body) = .ok urls → ∀ url ∈ urls,
    ∀ upgrade, ∃ proof, mergeProofs P (otsMagic ++ body) upgrade url = .ok proof ∧
      (∀ other ∈ urls, other ≠ url → extractCommitment P proof other hash =
        extractCommitment P (otsMagic ++ body) other hash) ∧
      ∀ height, extractBitcoinBlockHeight (otsMagic ++ body) = .ok (some height) →
        extractBitcoinBlockHeight proof = .ok (some height)

def OneCalendar (es : List Element) : Prop := ∀ a ∈ pendings es, ∀ b ∈ pendings es, a = b

theorem pendings_ops (ops : List Op) (es : List Element) :
    pendings (ops.map .op ++ es) = pendings es := by
  induction ops with
  | nil => rfl
  | cons o ops ih => exact ih

section Agreement

variable {P : Crates} {body : Bytes} {hash : FixedBytes 32} {es : List Element}

/-- An upgrade that is one unknown operation hides all that is behind it. -/
theorem Agrees.merged_first (h : Agrees P body hash) (hes : Laid body es) (hne : pendings es ≠ []) :
    OneCalendar es ∧ (∀ height, extractBitcoinBlockHeight (otsMagic ++ body) ≠ .ok (some height)) ∧
      Complete body := by
  have hurls : findPendingCalendars P (otsMagic ++ body) = .ok (pendings es) :=
    findPendingCalendars_iff.mpr ⟨es, hes, rfl⟩
  obtain ⟨ops, url, raw, rest, later, rfl, hurl, rfl⟩ := hes.first hne
  have hunknown : Unknown 0x01 := ⟨by decide, by decide, by decide⟩
  have hmem : url ∈ pendings (ops.map .op ++ .pending url :: later) := by
    rw [pendings_ops]
    exact List.mem_cons_self
  obtain ⟨proof, hproof, hothers, hbitcoin⟩ := h.merged _ hurls url hmem [0x01]
  obtain ⟨tail, rfl⟩ := mergeProofs_first hurl hproof
  refine ⟨?_, ?_, ?_⟩
  · have hfirst : ∀ other ∈ pendings (ops.map .op ++ .pending url :: later), other = url := by
      intro other hother
      by_contra hdiff
      obtain ⟨_, digest, -, -, hdigest⟩ := h.commitment _ hurls other hother
      have hsame := hothers other hother hdiff
      rw [hdigest] at hsame
      have hhidden : extractCommitment P (otsMagic ++ (ops.flatMap Op.bytes ++ 0x01 :: tail)) other
          hash = _ := extractCommitment_other hunknown
      rw [show stripMagic [0x01] ++ tail = 0x01 :: tail from rfl, hhidden] at hsame
      cases hsame
    intro a ha b hb
    rw [hfirst a ha, hfirst b hb]
  · intro height hheight
    have hkept := hbitcoin height hheight
    have hhidden : extractBitcoinBlockHeight (otsMagic ++ (ops.flatMap Op.bytes ++ 0x01 :: tail)) =
        _ := extractBitcoinBlockHeight_other hunknown
    rw [show stripMagic [0x01] ++ tail = 0x01 :: tail from rfl, hhidden] at hkept
    cases hkept
  · rw [mergeProofs_eq] at hproof
    exact (mergeWalker_eq_ok hproof).1

/-- The walkers agree on a proof just when its pending attestations, if it has any, are for one
calendar, it has no Bitcoin attestation yet, and nothing that a merge reads is truncated. -/
theorem walkers_agree_iff (P : Crates) (body : Bytes) (hash : FixedBytes 32) :
    Agrees P body hash ↔ ∀ es, Laid body es → pendings es ≠ [] →
      OneCalendar es
        ∧ (∀ height, extractBitcoinBlockHeight (otsMagic ++ body) ≠ .ok (some height)) ∧
        Complete body := by
  constructor
  · intro h es hes hne
    exact h.merged_first hes hne
  · intro h
    refine ⟨?_, ?_⟩
    · intro urls hurls url hmem
      obtain ⟨es, hes, rfl⟩ := findPendingCalendars_iff.mp hurls
      have hne := List.ne_nil_of_mem hmem
      have hone := (h es hes hne).1
      obtain ⟨ops, first, raw, rest, later, rfl, hurl, rfl⟩ := hes.first hne
      have hfirst : url = first := hone url hmem first (by
        rw [pendings_ops]
        exact List.mem_cons_self)
      subst hfirst
      exact ⟨_, _, hes, replayTo_first ops hash.val, extractCommitment_first hurl⟩
    · intro urls hurls url hmem upgrade
      obtain ⟨es, hes, rfl⟩ := findPendingCalendars_iff.mp hurls
      obtain ⟨hone, hheight, hcomplete⟩ := h es hes (List.ne_nil_of_mem hmem)
      obtain ⟨proof, hproof⟩ := mergeWalker_of_complete hcomplete otsMagic.length otsMagic
      refine ⟨proof, mergeProofs_eq.trans hproof, ?_, ?_⟩
      · intro other hother hdiff
        exact absurd (hone other hother url hmem) hdiff
      · intro height h
        exact absurd h (hheight height)

end Agreement

/-! ## Two calendars -/

theorem datum_short (data : Bytes) (h : data.length ≤ 0xFC) :
    Datum (UInt8.ofNat data.length :: data) data := by
  intro pos tail
  have htoNat : (UInt8.ofNat data.length).toNat = data.length := by
    rw [UInt8.toNat_ofNat', Nat.mod_eq_of_lt (by omega)]
  have hshort : UInt8.ofNat data.length ≤ 0xFC := by
    rw [UInt8.le_iff_toNat_le, htoNat]
    exact h
  rw [readData, List.cons_append, readVarint, if_pos hshort, htoNat, ok_bind]
  simp only
  rw [if_neg, if_neg, List.take_left, List.drop_left]
  · rfl
  · rw [List.length_append]
    omega
  · rw [maxDataLen]
    omega

/-- Two pending attestations behind a hash, with tags and empty payloads -/
def twoCalendars : Bytes :=
  [0x08] ++ [0x00, 0x01, 0x61, 0x83, 0xDF, 0xE3, 0x0D, 0x2E, 0xF9, 0x0C, 0x8E, 0x00] ++
    [0x00, 0x01, 0x62, 0x83, 0xDF, 0xE3, 0x0D, 0x2E, 0xF9, 0x0C, 0x8E, 0x00]

def sha256Op : Op := ⟨0x08, [], [], .inl ⟨.inl rfl, rfl⟩⟩

theorem laid_twoCalendars : Laid twoCalendars [.op sha256Op, .pending "a", .pending "b"] := by
  have hfirst : Datum [0x01, 0x61] (utf8 "a") := datum_short [0x61] (by decide)
  have hsecond : Datum [0x01, 0x62] (utf8 "b") := datum_short [0x62] (by decide)
  have hempty : Datum [0x00] [] := datum_short [] (by decide)
  have htag : ([0x83, 0xDF, 0xE3, 0x0D, 0x2E, 0xF9, 0x0C, 0x8E] : Bytes).length = 8 := rfl
  exact .op sha256Op (.tagged hfirst htag hempty (.tagged hsecond htag hempty .nil))

/-- Every upgrade of the first calendar stands in the way of the second one. -/
theorem not_agrees_twoCalendars (P : Crates) (hash : FixedBytes 32) :
    ¬ Agrees P twoCalendars hash := by
  intro h
  have hone := (h.merged_first laid_twoCalendars (List.cons_ne_nil _ _)).1
  have hsame := hone "a" List.mem_cons_self "b" (List.mem_cons_of_mem _ List.mem_cons_self)
  exact absurd hsame (by decide)

/-- The digests make no difference here. -/
def zeroCrates : Crates where
  sha256 _ := ⟨List.replicate 32 0, List.length_replicate⟩
  ripemd160 _ := ⟨List.replicate 20 0, List.length_replicate⟩
  utf8Error _ := "invalid utf-8 sequence"

/-- The walkers disagree on a proof of two calendars. -/
theorem twoCalendars_disagree :
    ¬ Agrees zeroCrates twoCalendars ⟨List.replicate 32 0, List.length_replicate⟩ :=
  not_agrees_twoCalendars zeroCrates _

end WritersProof.Anchors.Ots
