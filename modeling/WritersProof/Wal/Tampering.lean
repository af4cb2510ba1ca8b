/-
  What `verify` accepts in place of a log that was only appended to.

  A cumulative hash binds every entry before it, and the writer signs one for
  each entry.  So the i-th entry that `verify` accepts is the i-th that the
  writer signed, whatever else was put into the file.  The bytes that are not
  part of an entry are not bound: `verify` takes up to three bytes at the end of
  the file for its end, and `deserialize_entry` passes over the bytes behind the
  signature in a frame.  `Exact` excludes both.
-/
import WritersProof.Wal.Agreement

namespace WritersProof.Wal

set_option linter.dupNamespace false

open Rust Replay Wal.Frame Bytes

variable {Key : Type}

/-! ## What is hashed and signed -/

/-- What `compute_hash` hashes. -/
def Entry.preimage (e : Entry) : Bytes :=
  toLE 8 e.sequence ++ toLE 8 (ofInt 8 e.timestamp)
    ++ [e.entryType.toByte] ++ e.payload ++ e.prevHash.val

variable (cr : Crypto Key)

def hashes (es : List Entry) : Bytes := es.flatMap fun e => (e.computeHash cr).val

def signed (cr : Crypto Key) : List Attempt → Wal Key → List (Chain × Entry)
  | [], _ => []
  | a :: attempts, w =>
    if w.closed = true ∨ w.inconsistent = true ∨ maxWalSize ≤ w.byteCount then
      signed cr attempts (a.run cr w).2
    else (w.chain, Wal.entryFor cr w a) :: signed cr attempts (a.run cr w).2

def appended (cr : Crypto Key) : List Attempt → Wal Key → List Entry
  | [], _ => []
  | a :: attempts, w =>
    if (a.run cr w).1 = .ok () then Wal.entryFor cr w a :: appended cr attempts (a.run cr w).2
    else appended cr attempts (a.run cr w).2

def written (es : List Entry) : Bytes := es.flatMap fun e => Wal.frame (entryBytes e)

/-- `verify` on the file of `w` hashes `entry` behind `chain`. -/
def Verified (w : Wal Key) (chain : Chain) (entry : Entry) : Prop :=
  ∃ header fs f tail, w.HasHeader header ∧ w.body = framesBytes fs ++ (bytes f ++ tail)
    ∧ AcceptsAll cr w.signingKey Wal.verifyChecks (.start header.lastCheckpointSeq) fs
    ∧ f.Readable ∧ chain = (Wal.readerAt cr header fs).chain ∧ entry = f.entry

/-- Only the cumulative hashes that the writer signed verify. -/
def Unforgeable (attempts : List Attempt) (w : Wal Key) : Prop :=
  ∀ message signature, cr.verify w.signingKey message signature = true →
    ∃ p ∈ signed cr attempts w, message = p.2.cumulativeHash

/-- BLAKE3 has no collision between what the writer hashed and what `verify` hashes in `w'`. -/
structure CollisionFree (cr : Crypto Key) (attempts : List Attempt) (w w' : Wal Key) : Prop where
  entries : ∀ p ∈ signed cr attempts w, ∀ chain entry, Verified cr w' chain entry →
    cr.blake3 p.2.preimage = cr.blake3 entry.preimage → p.2.preimage = entry.preimage
  chains : ∀ p ∈ signed cr attempts w, ∀ chain entry, Verified cr w' chain entry →
    cr.blake3 (p.1.hasherAfter cr p.2) = cr.blake3 (chain.hasherAfter cr entry) →
    p.1.hasherAfter cr p.2 = chain.hasherAfter cr entry

/-- The bytes behind the header of `w'` are a prefix of those of the log after `attempts`, and
    end between two frames. -/
def FramePrefix (attempts : List Attempt) (w w' : Wal Key) : Prop :=
  w'.body <+: (appendAll cr attempts w).2.body
    ∧ ∃ es, es <+: appended cr attempts w ∧ w'.body = written es

/-- The file consists of whole frames, none has bytes behind its entry, and the signatures are
    those that the key makes. -/
def Exact (w : Wal Key) : Prop :=
  ∃ fs : List Frame, w.body = framesBytes fs ∧ ∀ f ∈ fs, f.Readable
    ∧ f.body.length = entryOverhead + f.entry.payload.length
    ∧ f.entry.signature = cr.sign w.signingKey f.entry.cumulativeHash

variable {cr : Crypto Key} {key : Key} {checks : Checks} {r : Replay} {fs gs : List Frame}
  {tail : Bytes} {w : Wal Key} {header : Header} {attempts : List Attempt}

/-- The hashed bytes determine the fields, since only the payload has no fixed length. -/
theorem Entry.preimage_inj {e e' : Entry} (he : e.Fits) (he' : e'.Fits)
    (h : e.preimage = e'.preimage) :
    e.sequence = e'.sequence ∧ e.timestamp = e'.timestamp ∧ e.entryType = e'.entryType
      ∧ e.payload = e'.payload ∧ e.prevHash = e'.prevHash := by
  unfold preimage at h
  obtain ⟨h, hprev⟩ := List.append_inj' h (by simp)
  simp only [List.append_assoc] at h
  obtain ⟨hseq, h⟩ := List.append_inj h (by simp)
  obtain ⟨htime, h⟩ := List.append_inj h (by simp)
  obtain ⟨htype, hpayload⟩ := List.append_inj h rfl
  refine ⟨?_, ?_, ?_, hpayload, FixedBytes.ext_val hprev⟩
  · exact toBE_injective he.sequence he'.sequence (List.reverse_injective hseq)
  · have hbits := toBE_injective (ofInt_lt 8 _) (ofInt_lt 8 _)
      (List.reverse_injective htime)
    have hge := he.timestamp_ge
    have hlt := he.timestamp_lt
    have hge' := he'.timestamp_ge
    have hlt' := he'.timestamp_lt
    rw [← toInt_ofInt (w := 8) (t := e.timestamp) (by omega) (by omega), hbits,
      toInt_ofInt (by omega) (by omega)]
  · have hbyte : e.entryType.toByte = e'.entryType.toByte := List.singleton_inj.mp htype
    have := EntryType.tryFrom_toByte e.entryType
    rw [hbyte, EntryType.tryFrom_toByte] at this
    exact (Except.ok.inj this).symm

@[simp] theorem length_hashes (es : List Entry) : (hashes cr es).length = 32 * es.length := by
  induction es with
  | nil => rfl
  | cons e es ih =>
    rw [hashes, List.flatMap_cons, List.length_append, FixedBytes.length_val]
    change 32 + (hashes cr es).length = _
    rw [ih, List.length_cons]
    omega

theorem written_append (es es' : List Entry) : written (es ++ es') = written es ++ written es' :=
  List.flatMap_append

theorem afterAll_hasher (fs : List Frame) :
    (r.afterAll cr fs).chain.hasher = r.chain.hasher ++ hashes cr (fs.map entry) := by
  induction fs generalizing r with
  | nil => exact (List.append_nil _).symm
  | cons f fs ih =>
    rw [afterAll_cons, ih]
    exact List.append_assoc _ _ _

/-! ## The run of the writer -/

namespace Wal

/-- A steady log whose sequence numbers count its entries. -/
structure Counting (w : Wal Key) : Prop where
  steady : w.Steady
  sequence : w.nextSequence = w.entryCount

namespace Counting

theorem room (h : w.Counting) : w.nextSequence + 1 < 2 ^ 64 := by
  have hlimit := h.steady.limit
  rw [h.sequence]
  unfold maxWalEntries at hlimit
  omega

theorem hashed (h : w.Counting) (e : Entry) : (Wal.hashed cr w e).Counting :=
  ⟨h.steady.hashed e, h.sequence⟩

theorem grown (h : w.Counting) (hfull : w.byteCount < maxWalSize) {e : Entry}
    (hfits : e.payload.length < 2 ^ 32) {pendingSyncs : Nat}
    (hsyncs : pendingSyncs < w.syncInterval) : (Wal.grown cr w e pendingSyncs).Counting :=
  ⟨h.steady.grown hfull hfits hsyncs, congrArg (· + 1) h.sequence⟩

/-- On such a log nothing but the size of the file keeps an append from signing its entry. -/
theorem signed_cons (h : w.Counting) (a : Attempt) :
    signed cr (a :: attempts) w
      = if maxWalSize ≤ w.byteCount then signed cr attempts (a.run cr w).2
        else (w.chain, entryFor cr w a) :: signed cr attempts (a.run cr w).2 := by
  rw [signed, h.steady.open_, h.steady.consistent]
  simp only [Bool.false_eq_true, false_or]

end Counting

/-- The entries of acknowledged appends are those signed ones that can be encoded. -/
theorem appended_eq : ∀ {attempts : List Attempt} {w : Wal Key}, w.Counting →
    appended cr attempts w
      = ((signed cr attempts w).map Prod.snd).filter fun e => e.payload.length < 2 ^ 32 := by
  intro attempts
  induction attempts with
  | nil => exact fun _ => rfl
  | cons a attempts ih =>
    intro w h
    rw [h.signed_cons, appended]
    obtain ⟨hfull, hrun⟩ | ⟨hfull, ⟨hhuge, text, hrun⟩ | ⟨hfits, n, hsyncs, hrun⟩⟩ :=
      append_cases cr a h.steady h.room
    · rw [if_pos hfull, hrun, if_neg (fail_ne_ok _ _), ih h]
    · have hpayload : ¬ (entryFor cr w a).payload.length < 2 ^ 32 := Nat.not_lt_of_le hhuge
      rw [if_neg (Nat.not_le_of_lt hfull), hrun, if_neg (fail_ne_ok _ _), ih (h.hashed _),
        List.map_cons, List.filter_cons, if_neg (by simpa using hpayload)]
    · have hpayload : (entryFor cr w a).payload.length < 2 ^ 32 := hfits
      rw [if_neg (Nat.not_le_of_lt hfull), hrun, if_pos rfl, ih (h.grown hfull hfits hsyncs),
        List.map_cons, List.filter_cons, if_pos (by simpa using hpayload)]

/-- The file grows by the frames of the acknowledged entries. -/
theorem content_appendAll : ∀ {attempts : List Attempt} {w : Wal Key}, w.Counting →
    (appendAll cr attempts w).2.disk.file.content
      = w.disk.file.content ++ written (appended cr attempts w) := by
  intro attempts
  induction attempts with
  | nil => exact fun _ => (List.append_nil _).symm
  | cons a attempts ih =>
    intro w h
    obtain ⟨hfull, hrun⟩ | ⟨hfull, ⟨hhuge, text, hrun⟩ | ⟨hfits, n, hsyncs, hrun⟩⟩ :=
      append_cases cr a h.steady h.room
    · rw [appendAll_cons hrun, appended, hrun, if_neg (fail_ne_ok _ _)]
      exact ih h
    · rw [appendAll_cons hrun, appended, hrun, if_neg (fail_ne_ok _ _)]
      exact ih (h.hashed _)
    · rw [appendAll_cons hrun, appended, hrun, if_pos rfl]
      dsimp only
      rw [ih (h.grown hfull hfits hsyncs)]
      change (w.disk.file.write _).content ++ _ = _
      rw [OpenFile.write_atEnd h.steady.atEnd, List.append_assoc]
      rfl

theorem signed_hasher : ∀ {attempts : List Attempt} {w : Wal Key} {i : Nat} {p : Chain × Entry},
    w.Counting → (signed cr attempts w)[i]? = some p →
    p.1.hasher
      = w.cumulativeHasher ++ hashes cr (((signed cr attempts w).take i).map Prod.snd) := by
  intro attempts
  induction attempts with
  | nil =>
    intro w i p _ hp
    cases hp
  | cons a attempts ih =>
    intro w i p h hp
    rw [h.signed_cons] at hp ⊢
    obtain ⟨hfull, hrun⟩ | ⟨hfull, hcase⟩ := append_cases cr a h.steady h.room
    · rw [if_pos hfull, hrun] at hp ⊢
      exact ih h hp
    · -- whether it is written or not, its hash goes into the hasher
      have hnext : (a.run cr w).2.Counting
          ∧ (a.run cr w).2.cumulativeHasher
            = w.cumulativeHasher ++ ((entryFor cr w a).computeHash cr).val := by
        obtain ⟨hhuge, text, hrun⟩ | ⟨hfits, n, hsyncs, hrun⟩ := hcase
        · rw [hrun]
          exact ⟨h.hashed _, rfl⟩
        · rw [hrun]
          exact ⟨h.grown hfull hfits hsyncs, rfl⟩
      rw [if_neg (Nat.not_le_of_lt hfull)] at hp ⊢
      cases i with
      | zero =>
        cases hp
        exact (List.append_nil _).symm
      | succ i =>
        rw [ih hnext.1 hp, hnext.2, List.append_assoc]
        rfl

/-- What is signed: the cumulative hash, with the key of the log. -/
theorem mem_signed : ∀ {attempts : List Attempt} {w : Wal Key} {p : Chain × Entry}, w.Counting →
    p ∈ signed cr attempts w →
    p.2.cumulativeHash = cr.blake3 (p.1.hasherAfter cr p.2)
      ∧ p.2.signature = cr.sign w.signingKey p.2.cumulativeHash
      ∧ (p.2.payload.length < 2 ^ 32 → p.2.Fits) := by
  intro attempts
  induction attempts with
  | nil =>
    intro w p _ hp
    exact (List.not_mem_nil hp).elim
  | cons a attempts ih =>
    intro w p h hp
    rw [h.signed_cons] at hp
    obtain ⟨hfull, hrun⟩ | ⟨hfull, hcase⟩ := append_cases cr a h.steady h.room
    · rw [if_pos hfull, hrun] at hp
      exact ih h hp
    · rw [if_neg (Nat.not_le_of_lt hfull)] at hp
      obtain rfl | hp := List.mem_cons.mp hp
      · have hroom := h.room
        exact ⟨rfl, rfl, fits_nextEntry (show w.nextSequence < 2 ^ 64 by omega)⟩
      · obtain ⟨hhuge, text, hrun⟩ | ⟨hfits, n, hsyncs, hrun⟩ := hcase
        · rw [hrun] at hp
          have hsigned := ih (h.hashed (entryFor cr w a)) hp
          exact hsigned
        · rw [hrun] at hp
          have hsigned := ih (h.grown hfull (e := entryFor cr w a) hfits hsyncs) hp
          exact hsigned

end Wal

/-! ## The run of the reader -/

variable {f : Frame} {v : WalVerification}

theorem acceptsAll_at (h : AcceptsAll cr key checks r fs) {i : Nat} (hf : fs[i]? = some f) :
    f.Readable ∧ Accepts cr key checks (r.afterAll cr (fs.take i)) f := by
  obtain ⟨hlt, rfl⟩ := List.getElem?_eq_some_iff.mp hf
  have hsplit : fs = fs.take i ++ fs[i] :: fs.drop (i + 1) := by
    rw [List.getElem_cons_drop, List.take_append_drop]
  rw [hsplit] at h
  obtain ⟨-, hread, haccept, -⟩ := acceptsAll_append.mp h
  exact ⟨hread, haccept⟩

/-- Only the end of the file makes a log valid. -/
theorem verifyOutcome_valid {stop : Stop} (hok : Wal.verifyOutcome stop r = .ok v)
    (hvalid : v.valid = true) : stop = .eof := by
  cases stop with
  | eof => rfl
  | tooManyEntries | oversize | sequenceGap | timestampRegression | brokenChain
  | cumulativeMismatch | invalidSignature =>
    cases hok
    cases hvalid
  | zeroLength | io | shortFrame | undecodable | overflow | outOfFuel => cases hok

/-- A file that verifies is made of accepted frames, and up to three bytes. -/
theorem exists_frames_of_valid {w : Wal Key} (hq : w.disk.Quiet) (h : w.HasHeader header)
    (hok : (Wal.verify cr w).1 = .ok v) (hvalid : v.valid = true) :
    ∃ fs tail, w.body = framesBytes fs ++ tail ∧ tail.length < 4
      ∧ AcceptsAll cr w.signingKey Wal.verifyChecks (.start header.lastCheckpointSeq) fs := by
  obtain ⟨s⟩ := Split.exists_split cr w.signingKey Wal.verifyChecks w.body
    (.start header.lastCheckpointSeq)
  rw [Wal.verify_quiet hq h s] at hok
  exact ⟨s.frames, s.tail, s.eq, ((stop_eof_iff rfl s).mp (verifyOutcome_valid hok hvalid)).2,
    s.accepts⟩

theorem framesBytes_short (hf : ∀ f ∈ fs, Frame.Readable f) (hg : ∀ g ∈ gs, Frame.Readable g)
    (hshort : tail.length < 4) (h : framesBytes fs ++ tail = framesBytes gs) :
    fs = gs ∧ tail = [] := by
  induction fs generalizing gs with
  | nil =>
    cases gs with
    | nil => exact ⟨rfl, h⟩
    | cons g gs =>
      have hlen := congrArg List.length h
      rw [framesBytes_nil, List.nil_append, framesBytes_cons, List.length_append,
        length_bytes] at hlen
      omega
  | cons f fs ih =>
    cases gs with
    | nil =>
      have hlen := congrArg List.length h
      rw [framesBytes_cons, List.append_assoc, List.length_append, length_bytes] at hlen
      have : (framesBytes ([] : List Frame)).length = 0 := rfl
      omega
    | cons g gs =>
      rw [framesBytes_cons, framesBytes_cons, List.append_assoc] at h
      obtain ⟨rfl, hrest⟩ := bytes_inj (hf f List.mem_cons_self) (hg g List.mem_cons_self) h
      obtain ⟨rfl, htail⟩ := ih (fun f' hf' => hf f' (List.mem_cons_of_mem _ hf'))
        (fun g' hg' => hg g' (List.mem_cons_of_mem _ hg')) hrest
      exact ⟨rfl, htail⟩

section

variable (hread : f.Readable) (hexact : f.body.length = entryOverhead + f.entry.payload.length)

include hread hexact

theorem frame_eq_ofEntry : f = .ofEntry f.entry := by
  obtain ⟨hfits, hbytes⟩ := entryBytes_of_deserialize hread.decode
  rw [← hexact, List.take_length] at hbytes
  have hdecode := deserializeEntry_entryBytes hfits
  rw [hbytes] at hdecode
  have hentry := Except.ok.inj (hread.decode.symm.trans hdecode)
  rw [ofEntry, hbytes, ← hentry]

/-- The same for an entry with the same hash and the same cumulative hash. -/
theorem frame_eq_of_preimage {e : Entry} (hfits : e.payload.length < 2 ^ 32 → e.Fits)
    (hpreimage : e.preimage = f.entry.preimage) (hcum : e.cumulativeHash = f.entry.cumulativeHash)
    (hsig : e.signature = f.entry.signature) :
    f = .ofEntry e ∧ e.payload.length < 2 ^ 32 := by
  obtain ⟨hfits', -⟩ := entryBytes_of_deserialize hread.decode
  have hlen : e.payload.length = f.entry.payload.length := by
    have := congrArg List.length hpreimage
    simp only [Entry.preimage, List.length_append, FixedBytes.length_val, length_toLE,
      List.length_singleton] at this
    omega
  have hsmall : e.payload.length < 2 ^ 32 := hlen ▸ hfits'.payload
  obtain ⟨hseq, htime, htype, hpayload, hprev⟩ :=
    Entry.preimage_inj (hfits hsmall) hfits' hpreimage
  refine ⟨?_, hsmall⟩
  rw [frame_eq_ofEntry hread hexact]
  simp only [ofEntry, entryBytes, hseq, htime, htype, hpayload, hprev, hcum, hsig]

end

/-! ## Both runs -/

section BothRuns

variable {w' : Wal Key} (h : w.Counting) (hempty : w.cumulativeHasher = [])
  (hkey : w'.signingKey = w.signingKey) (hunforgeable : Unforgeable cr attempts w)
  (hcollision : CollisionFree cr attempts w w') (hheader : w'.HasHeader header)
  (hbody : w'.body = framesBytes fs ++ tail)
  (haccepts : AcceptsAll cr w'.signingKey Wal.verifyChecks (.start header.lastCheckpointSeq) fs)

include h hempty hkey hunforgeable hcollision hheader hbody haccepts

theorem entry_of_signed {i : Nat} {f : Frame} (hf : fs[i]? = some f) :
    ∃ p, (signed cr attempts w)[i]? = some p ∧ p.2.preimage = f.entry.preimage
      ∧ p.2.cumulativeHash = f.entry.cumulativeHash := by
  obtain ⟨hlt, hget⟩ := List.getElem?_eq_some_iff.mp hf
  obtain ⟨hread, haccept⟩ := acceptsAll_at haccepts hf
  have hsplit : fs = fs.take i ++ f :: fs.drop (i + 1) := by
    rw [← hget, List.getElem_cons_drop, List.take_append_drop]
  have hverified : Verified cr w' (Wal.readerAt cr header (fs.take i)).chain f.entry := by
    refine ⟨header, fs.take i, f, framesBytes (fs.drop (i + 1)) ++ tail, hheader, ?_,
      (acceptsAll_append.mp (hsplit ▸ haccepts)).1, hread, rfl, rfl⟩
    rw [hbody]
    conv_lhs => rw [hsplit]
    rw [framesBytes_append, framesBytes_cons, List.append_assoc, List.append_assoc]
  obtain ⟨p, hp, hcum⟩ := hunforgeable _ _ (hkey ▸ haccept.signature)
  obtain ⟨j, hj⟩ := List.getElem?_of_mem hp
  obtain ⟨hpcum, -, -⟩ := Wal.mem_signed h hp
  -- the same hash was made from the same hashes, so from the same number of them
  have hchain := hcollision.chains p hp _ _ hverified
    (hpcum.symm.trans (hcum.symm.trans haccept.cumulative))
  unfold Chain.hasherAfter at hchain
  obtain ⟨hhashers, hhash⟩ := List.append_inj' hchain
    (by rw [FixedBytes.length_val, FixedBytes.length_val])
  have hsame := congrArg List.length hhashers
  have hreader : (Wal.readerAt cr header (fs.take i)).chain.hasher
      = hashes cr ((fs.take i).map entry) := afterAll_hasher (fs.take i)
  obtain ⟨hjlt, -⟩ := List.getElem?_eq_some_iff.mp hj
  rw [Wal.signed_hasher h hj, hempty, hreader, List.nil_append, length_hashes, length_hashes,
    List.length_map, List.length_map, List.length_take, List.length_take] at hsame
  obtain rfl : j = i := by omega
  exact ⟨p, hj, hcollision.entries p hp _ _ hverified (FixedBytes.ext_val hhash), hcum.symm⟩

theorem frames_eq_signed (hexact : ∀ f ∈ fs, f.body.length = entryOverhead + f.entry.payload.length
      ∧ f.entry.signature = cr.sign w'.signingKey f.entry.cumulativeHash) :
    ∃ es, es <+: appended cr attempts w ∧ fs = es.map ofEntry := by
  generalize hsigned : signed cr attempts w = ps
  have hall : ∀ (i : Nat) (f : Frame), fs[i]? = some f →
      ∃ p : Chain × Entry, ps[i]? = some p ∧ f = .ofEntry p.2 ∧ p.2.payload.length < 2 ^ 32 := by
    intro i f hf
    obtain ⟨p, hp, hpreimage, hcum⟩ := entry_of_signed h hempty hkey hunforgeable hcollision
      hheader hbody haccepts hf
    obtain ⟨-, hsig, hfits⟩ := Wal.mem_signed h (List.mem_of_getElem? hp)
    obtain ⟨hlength, hsig'⟩ := hexact f (List.mem_of_getElem? hf)
    obtain ⟨hframe, hsmall⟩ := frame_eq_of_preimage (acceptsAll_at haccepts hf).1 hlength hfits
      hpreimage hcum (by rw [hsig, hsig', hkey, hcum])
    exact ⟨p, hsigned ▸ hp, hframe, hsmall⟩
  have hfs : fs = ((ps.take fs.length).map Prod.snd).map ofEntry := by
    apply List.ext_getElem?
    intro i
    rw [List.getElem?_map, List.getElem?_map, List.getElem?_take]
    by_cases hi : i < fs.length
    · obtain ⟨p, hp, hframe, -⟩ := hall i fs[i] (List.getElem?_eq_getElem hi)
      rw [if_pos hi, hp, List.getElem?_eq_getElem hi, hframe]
      rfl
    · rw [if_neg hi, List.getElem?_eq_none (Nat.le_of_not_lt hi)]
      rfl
  refine ⟨(ps.take fs.length).map Prod.snd, ?_, hfs⟩
  -- none of these was too long to be encoded, so all of them were written
  have hsmall : ∀ e ∈ (ps.take fs.length).map Prod.snd, e.payload.length < 2 ^ 32 := by
    intro e he
    obtain ⟨i, hi⟩ := List.getElem?_of_mem he
    obtain ⟨f, hf⟩ : ∃ f, fs[i]? = some f := by
      rw [hfs, List.getElem?_map, hi]
      exact ⟨_, rfl⟩
    obtain ⟨p, hp, -, hsmall⟩ := hall i f hf
    obtain ⟨hlt, -⟩ := List.getElem?_eq_some_iff.mp hf
    rw [List.getElem?_map, List.getElem?_take, if_pos hlt, hp] at hi
    exact Option.some.inj hi ▸ hsmall
  rw [Wal.appended_eq h, hsigned]
  have hfilter : (ps.take fs.length).map Prod.snd
      = ((ps.take fs.length).map Prod.snd).filter fun e => e.payload.length < 2 ^ 32 :=
    (List.filter_eq_self.mpr fun e he => by simpa using hsmall e he).symm
  rw [hfilter, List.map_take]
  exact (List.take_prefix _ _).filter _

end BothRuns

/-- What was written can be read, where it verifies. -/
theorem sizes_of_accepted : ∀ {es : List Entry} {fs : List Frame},
    (∀ e ∈ es, e.Fits) → (∀ f ∈ fs, Frame.Readable f) → tail.length < 4 →
    written es = framesBytes fs ++ tail →
    ∀ e ∈ es, entryOverhead + e.payload.length ≤ maxEntrySize := by
  intro es
  induction es with
  | nil => exact fun _ _ _ _ e he => (List.not_mem_nil he).elim
  | cons e es ih =>
    intro fs hfits hread hshort hbytes
    have hfitsE := hfits e List.mem_cons_self
    cases fs with
    | nil =>
      have hlen := congrArg List.length hbytes
      rw [written, List.flatMap_cons, List.length_append, Wal.length_frame, framesBytes_nil,
        List.nil_append] at hlen
      omega
    | cons f fs =>
      rw [written, List.flatMap_cons, framesBytes_cons, List.append_assoc] at hbytes
      by_cases hsize : entryOverhead + e.payload.length ≤ maxEntrySize
      · rw [frame_entryBytes hsize] at hbytes
        obtain ⟨-, hrest⟩ := bytes_inj (readable_ofEntry hfitsE hsize)
          (hread f List.mem_cons_self) hbytes
        intro e' he'
        obtain rfl | he' := List.mem_cons.mp he'
        · exact hsize
        · exact ih (fun e hmem => hfits e (List.mem_cons_of_mem _ hmem))
            (fun f hmem => hread f (List.mem_cons_of_mem _ hmem)) hshort hrest e' he'
      · exact absurd hbytes
          (frame_oversize_ne (Nat.lt_of_not_le hsize) hfitsE.payload
            (hread f List.mem_cons_self))

theorem written_eq_framesBytes {es : List Entry}
    (h : ∀ e ∈ es, entryOverhead + e.payload.length ≤ maxEntrySize) :
    written es = framesBytes (es.map ofEntry) := by
  rw [written, framesBytes, List.flatMap_map]
  exact List.flatMap_congr fun e he => frame_entryBytes (h e he)

/-- A file that verifies is a prefix of the log whose header it has, up to a frame, exactly when
    all its bytes belong to entries. -/
theorem tamper_evident_iff {d : Disk} (hfresh : Wal.Fresh d) {sessionId : FixedBytes 32}
    {syncInterval : Nat} {clock : Option Nat} (hinterval : syncInterval < 2 ^ 64)
    (hopen : (Wal.openWithSyncInterval cr sessionId key syncInterval clock d).1 = .ok w)
    (attempts : List Attempt) {w' : Wal Key} (hq : w'.disk.Quiet) (hkey : w'.signingKey = key)
    (hheader : w'.disk.file.content.take headerSize
      = (appendAll cr attempts w).2.disk.file.content.take headerSize)
    (hunforgeable : Unforgeable cr attempts w) (hcollision : CollisionFree cr attempts w w')
    {v : WalVerification} (hok : (Wal.verify cr w').1 = .ok v) (hvalid : v.valid = true) :
    FramePrefix cr attempts w w' ↔ Exact cr w' := by
  obtain ⟨w₁, hopen', hrecords, hclean, hkey', -⟩ := @Wal.open_fresh _ cr key sessionId syncInterval
    clock d hfresh hinterval
  obtain rfl := Except.ok.inj (hopen'.symm.trans hopen)
  have h : w₁.Counting := ⟨hrecords.steady, hrecords.sequence.trans hrecords.count.symm⟩
  have hkey : w'.signingKey = w₁.signingKey := hkey.trans hkey'.symm
  have hcontent : (appendAll cr attempts w₁).2.disk.file.content
      = serializeHeader (Wal.header sessionId clock 0) ++ written (appended cr attempts w₁) := by
    rw [Wal.content_appendAll h, hrecords.content, framesBytes_nil, List.append_nil]
  have hbodyWriter := Wal.body_of_content hcontent
  have hhas : w'.HasHeader (Wal.header sessionId clock 0) := by
    rw [Wal.HasHeader, hheader]
    exact Wal.hasHeader_of_content hrecords.fits hcontent
  -- frames that the verifier accepted, and less than a length field
  obtain ⟨fs, tail, hbody, hshort, haccepts⟩ := exists_frames_of_valid hq hhas hok hvalid
  have hfits : ∀ e ∈ appended cr attempts w₁, ∃ p ∈ signed cr attempts w₁, p.2 = e ∧ e.Fits := by
    intro e he
    rw [Wal.appended_eq h, List.mem_filter, List.mem_map] at he
    obtain ⟨⟨p, hp, rfl⟩, hsmall⟩ := he
    exact ⟨p, hp, rfl, (Wal.mem_signed h hp).2.2 (by simpa using hsmall)⟩
  constructor
  · rintro ⟨-, es, hes, hwritten⟩
    have hsizes := sizes_of_accepted (fun e he => (hfits e (hes.subset he)).choose_spec.2.2)
      haccepts.readable hshort (hwritten.symm.trans hbody)
    refine ⟨es.map ofEntry, hwritten.trans (written_eq_framesBytes hsizes), ?_⟩
    intro f hf
    obtain ⟨e, he, rfl⟩ := List.mem_map.mp hf
    obtain ⟨p, hp, rfl, hfitsE⟩ := hfits e (hes.subset he)
    refine ⟨readable_ofEntry hfitsE (hsizes _ he), length_entryBytes _, ?_⟩
    rw [hkey]
    exact (Wal.mem_signed h hp).2.1
  · rintro ⟨gs, hgs, hexact⟩
    obtain ⟨rfl, -⟩ := framesBytes_short haccepts.readable (fun g hg => (hexact g hg).1) hshort
      (hbody.symm.trans hgs)
    -- accepted and signed frames are the first ones that were written
    obtain ⟨es, hes, rfl⟩ := frames_eq_signed h hclean hkey hunforgeable hcollision hhas hbody
      haccepts fun f hf => (hexact f hf).2
    have hwritten : w'.body = written es := by
      rw [hgs, written_eq_framesBytes]
      intro e he
      have hsize := (hexact _ (List.mem_map_of_mem he)).1.size
      rwa [ofEntry, length_entryBytes] at hsize
    refine ⟨?_, es, hes, hwritten⟩
    obtain ⟨rest, hrest⟩ := hes
    rw [hwritten, hbodyWriter, ← hrest, written_append]
    exact List.prefix_append _ _

/-! ## A file cut behind its first entry -/

/-- The sum of the bytes for a hash, and the message twice for a signature, but only signatures of
    `messages` verify. -/
def Crypto.signing (messages : List (FixedBytes 32)) : Crypto Unit where
  blake3 data := ofNat 32 (data.map UInt8.toNat).sum
  sign := Crypto.sample.sign
  verify _ message signature :=
    messages.contains message && signature.val == message.val ++ message.val

/-- On a file with the first frame alone `verify` hashes nothing but its entry. -/
theorem collisionFree_first {w w' : Wal Key} {p : Chain × Entry} {ps : List (Chain × Entry)}
    (hsigned : signed cr attempts w = p :: ps) (hchain : p.1.hasher = [])
    (hread : (ofEntry p.2).Readable) (hbody : w'.body = (ofEntry p.2).bytes ++ tail)
    (hshort : tail.length < 4)
    (hentries : ∀ q ∈ ps, cr.blake3 q.2.preimage ≠ cr.blake3 p.2.preimage)
    (hchains : ∀ q ∈ ps, cr.blake3 (q.1.hasherAfter cr q.2) ≠ cr.blake3 (p.1.hasherAfter cr p.2)) :
    CollisionFree cr attempts w w' := by
  have hverified : ∀ chain entry, Verified cr w' chain entry →
      entry.preimage = p.2.preimage ∧ chain.hasherAfter cr entry = p.1.hasherAfter cr p.2 := by
    rintro chain entry ⟨header, fs, f, rest, -, hbody', haccepts, hf, rfl, rfl⟩
    rw [hbody] at hbody'
    cases fs with
    | nil =>
      obtain ⟨rfl, -⟩ := bytes_inj hread hf hbody'
      refine ⟨rfl, ?_⟩
      rw [Chain.hasherAfter, Chain.hasherAfter, hchain]
      rfl
    | cons g fs =>
      rw [framesBytes_cons, List.append_assoc] at hbody'
      obtain ⟨-, htail⟩ := bytes_inj hread haccepts.1 hbody'
      rw [htail, List.length_append, List.length_append, length_bytes] at hshort
      omega
  constructor
  · intro q hq chain entry hentry heq
    rw [(hverified chain entry hentry).1] at heq ⊢
    obtain rfl | hq := List.mem_cons.mp (hsigned ▸ hq)
    · rfl
    · exact absurd heq (hentries q hq)
  · intro q hq chain entry hentry heq
    rw [(hverified chain entry hentry).2] at heq ⊢
    obtain rfl | hq := List.mem_cons.mp (hsigned ▸ hq)
    · rfl
    · exact absurd heq (hchains q hq)

def signingTwo : Crypto Unit := .signing [ofNat 32 16, ofNat 32 48]

def twoAttempts : List Attempt := [⟨.heartbeat, [7], some 5⟩, ⟨.checkpoint, [], some 8⟩]

/-- The log after both appends. -/
def twoEntries (w : Wal Unit) : Wal Unit := (appendAll signingTwo twoAttempts w).2

/-- The same, cut behind its first frame, with `tail` in place of the second one. -/
def cutLog (tail : Bytes) (w : Wal Unit) : Wal Unit :=
  (twoEntries w).setFile ⟨(twoEntries w).disk.file.content.take (headerSize + 154) ++ tail, 0⟩

/-- What `verify` finds in the cut log, with up to three bytes behind it: the frame of the first
    signed entry. -/
theorem exists_twoEntries : ∃ w, ∃ p : Chain × Entry, ∃ v v' : WalVerification,
    sampleLog signingTwo = .ok w
      ∧ p.2.signature = signingTwo.sign () p.2.cumulativeHash
      ∧ (ofEntry p.2).Readable ∧ (twoEntries w).disk.Quiet
      ∧ Unforgeable signingTwo twoAttempts w
      ∧ (∀ tail : Bytes, tail.length < 4 →
        CollisionFree signingTwo twoAttempts w (cutLog tail w)
          ∧ (cutLog tail w).body = (ofEntry p.2).bytes ++ tail
          ∧ (cutLog tail w).disk.file.content.take headerSize
            = (twoEntries w).disk.file.content.take headerSize)
      ∧ (ofEntry p.2).bytes.length < (twoEntries w).body.length
      ∧ ¬ [1] <+: (twoEntries w).body.drop (ofEntry p.2).bytes.length
      ∧ (Wal.verify signingTwo (cutLog [] w)).1 = .ok v ∧ v.valid = true
      ∧ (Wal.verify signingTwo (cutLog [1] w)).1 = .ok v' ∧ v'.valid = true := by
  have hrun : (sampleLog signingTwo).toOption.map (fun w =>
      ((signed signingTwo twoAttempts w).map fun p =>
          (signingTwo.blake3 p.2.preimage, p.2.cumulativeHash, p.2.payload.length),
        (signed signingTwo twoAttempts w).map fun p =>
          decide (p.1.hasher = [] ∧ (cutLog [] w).body = (ofEntry p.2).bytes),
        decide ((twoEntries w).disk.Quiet ∧ 154 < (twoEntries w).body.length
          ∧ ¬ [1] <+: (twoEntries w).body.drop 154))) =
      some ([(ofNat 32 16, ofNat 32 16, 1), (ofNat 32 32, ofNat 32 48, 0)],
        [true, false], true) := by
    decide +kernel
  have hverify : (sampleLog signingTwo).toOption.map (fun w =>
      ((Wal.verify signingTwo (cutLog [] w)).1.toOption.map WalVerification.valid,
        (Wal.verify signingTwo (cutLog [1] w)).1.toOption.map WalVerification.valid)) =
      some (some true, some true) := by
    decide +kernel
  obtain ⟨w, hopen, h, hclean⟩ := Wal.sampleLog_fresh signingTwo
  obtain ⟨w', hopen', hrun⟩ := exists_ok_of_toOption hrun
  obtain rfl := Except.ok.inj (hopen.symm.trans hopen')
  obtain ⟨w', hopen', hverify⟩ := exists_ok_of_toOption hverify
  obtain rfl := Except.ok.inj (hopen.symm.trans hopen')
  simp only [Prod.mk.injEq] at hrun hverify
  obtain ⟨hsigned, hfirst, hdecided⟩ := hrun
  obtain ⟨hquiet, hlonger, hsecond⟩ := of_decide_eq_true hdecided
  obtain ⟨v, hok, hvalid⟩ := exists_ok_of_toOption hverify.1
  obtain ⟨v', hok', hvalid'⟩ := exists_ok_of_toOption hverify.2
  obtain ⟨p, ps, hps, hp, hrest⟩ := List.map_eq_cons_iff.mp hsigned
  obtain ⟨q, rfl, hq⟩ := List.map_eq_singleton_iff.mp hrest
  simp only [Prod.mk.injEq] at hp hq
  have hcounting : w.Counting := ⟨h.steady, h.sequence.trans h.count.symm⟩
  obtain ⟨hcum, hsig, hfits⟩ := Wal.mem_signed hcounting (hps ▸ List.mem_cons_self : p ∈ _)
  obtain ⟨hcum', -, -⟩ :=
    Wal.mem_signed hcounting (hps ▸ List.mem_cons_of_mem p (List.mem_singleton_self q))
  have hread := readable_ofEntry (hfits (by omega)) (by rw [hp.2.2]; decide)
  have hlen : (ofEntry p.2).bytes.length = 154 := by
    rw [length_bytes, ofEntry, length_entryBytes, hp.2.2]
    rfl
  rw [hps] at hfirst
  obtain ⟨hchain, hcut⟩ := of_decide_eq_true (List.cons.inj hfirst).1
  have hlong : headerSize ≤ ((twoEntries w).disk.file.content.take (headerSize + 154)).length := by
    have hlen' := congrArg List.length hcut
    rw [hlen, Wal.body, List.length_drop] at hlen'
    change (_ ++ []).length - _ = _ at hlen'
    rw [List.append_nil] at hlen'
    omega
  have hbody : ∀ tail, (cutLog tail w).body = (ofEntry p.2).bytes ++ tail := by
    intro tail
    rw [← hcut]
    change (_ ++ tail).drop _ = (_ ++ []).drop _ ++ tail
    rw [List.append_nil, List.drop_append_of_le_length hlong]
  refine ⟨w, p, v, v', hopen, hsig, hread, hquiet, ?_, ?_, hlen ▸ hlonger,
    hlen ▸ hsecond, hok, hvalid, hok', hvalid'⟩
  · intro message signature hverify
    have hmessage := List.mem_of_elem_eq_true (Bool.and_eq_true _ _ ▸ hverify : _ ∧ _).1
    rw [hps]
    obtain rfl | hmessage := List.mem_cons.mp hmessage
    · exact ⟨p, List.mem_cons_self, hp.2.1.symm⟩
    · exact ⟨q, List.mem_cons_of_mem _ (List.mem_singleton_self q),
        (List.mem_singleton.mp hmessage).trans hq.2.1.symm⟩
  · intro tail hshort
    refine ⟨collisionFree_first hps hchain hread (hbody tail) hshort ?_ ?_, hbody tail, ?_⟩
    · intro r hr
      obtain rfl := List.mem_singleton.mp hr
      rw [hp.1, hq.1]
      decide
    · intro r hr
      obtain rfl := List.mem_singleton.mp hr
      rw [← hcum, ← hcum', hp.2.1, hq.2.1]
      decide
    · change (_ ++ tail).take _ = _
      rw [List.take_append_of_le_length hlong, List.take_take, Nat.min_eq_left (by omega)]

/-- The log that is cut behind its first entry is a prefix of it. -/
theorem tamper_evident_cut : ∃ w, sampleLog signingTwo = .ok w
    ∧ FramePrefix signingTwo twoAttempts w (cutLog [] w)
    ∧ (cutLog [] w).body ≠ (twoEntries w).body := by
  obtain ⟨w, p, v, -, hopen, hsig, hread, hq, hunforgeable, hcut, hlong, -, hok, hvalid, -⟩ :=
    exists_twoEntries
  obtain ⟨hcollision, hbody, hheader⟩ := hcut [] (by decide)
  have hq : (cutLog [] w).disk.Quiet := hq
  refine ⟨w, hopen, (tamper_evident_iff Wal.fresh_empty (by decide) hopen twoAttempts hq rfl hheader
    hunforgeable hcollision hok hvalid).mpr ⟨[.ofEntry p.2], ?_, ?_⟩, ?_⟩
  · rw [hbody, framesBytes_cons, framesBytes_nil]
  · intro f hf
    obtain rfl := List.mem_singleton.mp hf
    exact ⟨hread, length_entryBytes _, hsig⟩
  · rw [hbody, List.append_nil]
    intro heq
    rw [heq] at hlong
    exact absurd hlong (Nat.lt_irrefl _)

/-- With a byte behind the cut it verifies as well, and is not a prefix. -/
theorem stray_byte_undetected : ∃ w v, sampleLog signingTwo = .ok w
    ∧ Unforgeable signingTwo twoAttempts w
    ∧ CollisionFree signingTwo twoAttempts w (cutLog [1] w)
    ∧ (cutLog [1] w).disk.file.content.take headerSize
      = (twoEntries w).disk.file.content.take headerSize
    ∧ (Wal.verify signingTwo (cutLog [1] w)).1 = .ok v ∧ v.valid = true
    ∧ ¬ FramePrefix signingTwo twoAttempts w (cutLog [1] w) := by
  obtain ⟨w, p, -, v, hopen, -, -, -, hunforgeable, hcut, -, hsecond, -, -, hok, hvalid⟩ :=
    exists_twoEntries
  obtain ⟨hcollision, hbody, hheader⟩ := hcut [1] (by decide)
  refine ⟨w, v, hopen, hunforgeable, hcollision, hheader, hok, hvalid, ?_⟩
  rintro ⟨⟨rest, hlead⟩, -⟩
  refine hsecond ⟨rest, ?_⟩
  change _ = List.drop _ (appendAll signingTwo twoAttempts w).2.body
  rw [← hlead, hbody, List.append_assoc, List.drop_left]

end WritersProof.Wal
