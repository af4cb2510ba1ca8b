/-
  The replay loop on the bytes of a file.

  Without I/O errors a turn of the loop is a function of the bytes at the cursor
  (`scan`), and the loop splits them into the frames it accepts and a tail at
  which it stops (`exists_split`).  `run_clear` runs it along such a split.
-/
import WritersProof.Wal.Io

namespace WritersProof.Wal

open Rust Bytes Disk

/-- The body of a frame, and the entry that it decodes to. -/
structure Frame where
  body : Bytes
  entry : Entry

namespace Frame

def bytes (f : Frame) : Bytes := toBE 4 f.body.length ++ f.body

structure Readable (f : Frame) : Prop where
  size : f.body.length ≤ maxEntrySize
  decode : deserializeEntry f.body = .ok f.entry

@[simp] theorem length_bytes (f : Frame) : f.bytes.length = 4 + f.body.length := by
  simp [bytes]

/-- What a reader sees of an entry that was written. -/
def ofEntry (e : Entry) : Frame :=
  ⟨entryBytes e, { e with length := entryOverhead + e.payload.length }⟩

theorem readable_ofEntry {e : Entry} (h : e.Fits)
    (hsize : entryOverhead + e.payload.length ≤ maxEntrySize) : (ofEntry e).Readable where
  size := by
    rw [ofEntry, length_entryBytes]
    exact hsize
  decode := deserializeEntry_entryBytes h

/-- A decoded entry has at least the fixed fields. -/
theorem Readable.overhead_le {f : Frame} (h : f.Readable) : entryOverhead ≤ f.body.length := by
  by_contra hlt
  have hdecode := h.decode
  rw [deserializeEntry, if_pos (by omega)] at hdecode
  cases hdecode

end Frame

def framesBytes (fs : List Frame) : Bytes := fs.flatMap Frame.bytes

@[simp] theorem framesBytes_nil : framesBytes [] = [] := rfl

@[simp] theorem framesBytes_cons (f : Frame) (fs : List Frame) :
    framesBytes (f :: fs) = f.bytes ++ framesBytes fs := rfl

@[simp] theorem framesBytes_append (fs gs : List Frame) :
    framesBytes (fs ++ gs) = framesBytes fs ++ framesBytes gs := List.flatMap_append

def Stop.OfEntry : Stop → Prop
  | .sequenceGap | .timestampRegression | .brokenChain | .cumulativeMismatch => True
  | .invalidSignature | .overflow => True
  | _ => False

namespace Replay

section

variable {Key : Type} (cr : Crypto Key) (key : Key)

def after (r : Replay) (f : Frame) : Replay :=
  ⟨r.chain.after cr f.entry, f.entry.timestamp, r.count + 1, r.offset + (4 + f.body.length)⟩

def afterAll (r : Replay) (fs : List Frame) : Replay := fs.foldl (after cr) r

structure Accepts (checks : Checks) (r : Replay) (f : Frame) : Prop where
  limit : checks.limit = true → r.count < maxWalEntries
  sequence : f.entry.sequence = r.chain.nextSequence
  timestamp : checks.timestamp = true → r.lastTimestamp ≤ f.entry.timestamp
  prevHash : f.entry.prevHash = r.chain.lastHash
  cumulative : f.entry.cumulativeHash = cr.blake3 (r.chain.hasherAfter cr f.entry)
  signature : cr.verify key f.entry.cumulativeHash f.entry.signature = true
  room : r.chain.nextSequence + 1 < 2 ^ 64

def AcceptsAll (checks : Checks) : Replay → List Frame → Prop
  | _, [] => True
  | r, f :: fs => f.Readable ∧ Accepts cr key checks r f ∧ AcceptsAll checks (r.after cr f) fs

structure Turn where
  outcome : Except Stop Replay
  bytes : Nat
  calls : Nat

def scanBody (checks : Checks) (r : Replay) (entryLen : Nat) (bytes : Bytes) : Turn :=
  if bytes.length < entryLen then ⟨.error .shortFrame, bytes.length, 1⟩
  else
    ⟨match deserializeEntry (bytes.take entryLen) with
      | .error e => .error (.undecodable e)
      | .ok entry => r.accept cr key checks entry entryLen,
      entryLen, readCalls entryLen⟩

def scan (checks : Checks) (r : Replay) (bytes : Bytes) : Turn :=
  if checks.limit = true ∧ maxWalEntries ≤ r.count then ⟨.error .tooManyEntries, 0, 0⟩
  else if bytes.length < 4 then ⟨.error .eof, bytes.length, 1⟩
  else if checks.zeroLength = true ∧ ofBE (bytes.take 4) = 0 then ⟨.error .zeroLength, 4, 1⟩
  else if maxEntrySize < ofBE (bytes.take 4) then ⟨.error .oversize, 4, 1⟩
  else
    let body := scanBody cr key checks r (ofBE (bytes.take 4)) (bytes.drop 4)
    ⟨body.outcome, 4 + body.bytes, 1 + body.calls⟩

end

variable {Key : Type} {cr : Crypto Key} {key : Key} {checks : Checks} {r r' : Replay} {d : Disk}
  {entryLen n : Nat} {entry : Entry} {bytes : Bytes} {stop : Stop}

/-- The loop from `r` splits `bytes` into the frames that it accepts and a tail at which it
    stops. -/
structure Split {Key : Type} (cr : Crypto Key) (key : Key) (checks : Checks) (r : Replay)
    (bytes : Bytes) where
  frames : List Frame
  tail : Bytes
  stop : Stop
  /-- what the last turn reads of the tail -/
  tailBytes : Nat
  tailCalls : Nat
  eq : bytes = framesBytes frames ++ tail
  accepts : AcceptsAll cr key checks r frames
  stops : scan cr key checks (r.afterAll cr frames) tail = ⟨.error stop, tailBytes, tailCalls⟩

/-! ## A turn on a disk -/

theorem readBody_clear (hclear : d.Clear (scanBody cr key checks r entryLen d.file.rest).calls) :
    r.readBody cr key checks entryLen d
      = ((scanBody cr key checks r entryLen d.file.rest).outcome,
        (d.tick (scanBody cr key checks r entryLen d.file.rest).calls).setFile
          (d.file.advance (scanBody cr key checks r entryLen d.file.rest).bytes)) := by
  rw [readBody]
  unfold scanBody at hclear ⊢
  by_cases hlt : d.file.rest.length < entryLen
  · rw [if_pos hlt] at hclear
    rw [if_pos hlt, readExact_of_lt hclear hlt]
    rfl
  · rw [if_neg hlt] at hclear
    rw [if_neg hlt, readExact_of_le hclear (Nat.le_of_not_lt hlt)]
    dsimp only
    cases deserializeEntry (d.file.rest.take entryLen) with
    | error e => rfl
    | ok entry => rfl

theorem step_clear (hclear : d.Clear (scan cr key checks r d.file.rest).calls) :
    r.step cr key checks d = ((scan cr key checks r d.file.rest).outcome,
      (d.tick (scan cr key checks r d.file.rest).calls).setFile
        (d.file.advance (scan cr key checks r d.file.rest).bytes)) := by
  rw [step]
  unfold scan at hclear ⊢
  by_cases hlimit : checks.limit = true ∧ maxWalEntries ≤ r.count
  · rw [if_pos hlimit, if_pos hlimit]
    rfl
  · rw [if_neg hlimit] at hclear
    rw [if_neg hlimit, if_neg hlimit]
    by_cases hshort : d.file.rest.length < 4
    · rw [if_pos hshort] at hclear
      rw [if_pos hshort, readExact_of_lt hclear hshort]
      rfl
    · rw [if_neg hshort] at hclear
      -- all other branches have read the length
      have hread : d.Clear 1 → d.readExact 4
          = (.ok (d.file.rest.take 4), (d.tick 1).setFile (d.file.advance 4)) := fun h =>
        readExact_of_le (n := 4) h (Nat.le_of_not_lt hshort)
      rw [if_neg hshort]
      by_cases hzero : checks.zeroLength = true ∧ ofBE (d.file.rest.take 4) = 0
      · rw [if_pos hzero] at hclear
        rw [if_pos hzero, hread hclear]
        exact if_pos hzero
      · rw [if_neg hzero] at hclear
        rw [if_neg hzero]
        by_cases hsize : maxEntrySize < ofBE (d.file.rest.take 4)
        · rw [if_pos hsize] at hclear
          rw [if_pos hsize, hread hclear]
          exact (if_neg hzero).trans (if_pos hsize)
        · rw [if_neg hsize] at hclear
          obtain ⟨hfirst, hbody⟩ := (d.clear_add 1 _).mp hclear
          rw [if_neg hsize, hread hfirst]
          refine ((if_neg hzero).trans (if_neg hsize)).trans ?_
          have hrest : d.file.rest.drop 4 = ((d.tick 1).setFile (d.file.advance 4)).file.rest :=
            (OpenFile.rest_advance _ _).symm
          rw [hrest] at hbody
          rw [readBody_clear (by exact hbody), ← hrest]
          simp only [setFile_file, setFile_setFile, tick_setFile, tick_tick,
            OpenFile.advance_advance]

theorem readBody_fault (hfault : ¬ d.Clear (scanBody cr key checks r entryLen d.file.rest).calls) :
    ∃ d' : Disk, r.readBody cr key checks entryLen d = (.error .io, d')
      ∧ d'.file.content = d.file.content := by
  have hcalls : (scanBody cr key checks r entryLen d.file.rest).calls
      = readCalls entryLen := by
    unfold scanBody
    by_cases hlt : d.file.rest.length < entryLen
    · rw [if_pos hlt, readCalls, if_neg (by omega)]
    · rw [if_neg hlt]
  rw [hcalls] at hfault
  obtain ⟨d', hread, hcontent⟩ := readExact_fault hfault
  refine ⟨d', ?_, hcontent⟩
  rw [readBody, hread]
  rfl

/-- A turn that meets an I/O error. -/
theorem step_fault (hfault : ¬ d.Clear (scan cr key checks r d.file.rest).calls) :
    ∃ d' : Disk, r.step cr key checks d = (.error .io, d') ∧ d'.file.content = d.file.content := by
  by_cases hlimit : checks.limit = true ∧ maxWalEntries ≤ r.count
  · rw [scan, if_pos hlimit] at hfault
    exact absurd (clear_zero d) hfault
  · rw [step, if_neg hlimit]
    by_cases hfirst : d.Clear (readCalls 4)
    · -- the length is read, so it is the body that fails
      rw [scan, if_neg hlimit] at hfault
      by_cases hshort : d.file.rest.length < 4
      · rw [if_pos hshort] at hfault
        exact absurd hfirst hfault
      · rw [if_neg hshort] at hfault
        rw [readExact_of_le hfirst (Nat.le_of_not_lt hshort)]
        by_cases hzero : checks.zeroLength = true ∧ ofBE (d.file.rest.take 4) = 0
        · rw [if_pos hzero] at hfault
          exact absurd hfirst hfault
        · rw [if_neg hzero] at hfault
          by_cases hsize : maxEntrySize < ofBE (d.file.rest.take 4)
          · rw [if_pos hsize] at hfault
            exact absurd hfirst hfault
          · rw [if_neg hsize, clear_add] at hfault
            have hrest : d.file.rest.drop 4 = ((d.tick 1).setFile (d.file.advance 4)).file.rest :=
              (OpenFile.rest_advance _ _).symm
            rw [hrest] at hfault
            have hbody := readBody_fault
              (d := (d.tick 1).setFile (d.file.advance 4)) fun h => hfault ⟨hfirst, h⟩
            obtain ⟨d', hread, hcontent⟩ := hbody
            exact ⟨d', ((if_neg hzero).trans (if_neg hsize)).trans hread, hcontent⟩
    · obtain ⟨d', hread, hcontent⟩ := readExact_fault hfirst
      refine ⟨d', ?_, hcontent⟩
      rw [hread]
      rfl

/-! ## One frame -/

theorem accept_eq_ok {body : Bytes} (hn : n = body.length)
    (hlimit : checks.limit = true → r.count < maxWalEntries) :
    r.accept cr key checks entry n = .ok r' ↔
      Accepts cr key checks r ⟨body, entry⟩ ∧ r' = r.after cr ⟨body, entry⟩ := by
  subst hn
  unfold accept
  constructor
  · intro h
    split at h
    · cases h
    · split at h
      · cases h
      · split at h
        · cases h
        · split at h
          · cases h
          · split at h
            · cases h
            · split at h
              · cases h
              · rename_i hseq htime hprev hcum hsig hroom
                refine ⟨⟨hlimit, ?_, ?_, ?_, ?_, ?_, ?_⟩, (Except.ok.inj h).symm⟩
                · exact Decidable.not_not.mp hseq
                · exact fun hcheck => Int.not_lt.mp fun hlt => htime ⟨hcheck, hlt⟩
                · exact Decidable.not_not.mp hprev
                · exact Decidable.not_not.mp hcum
                · exact Bool.not_eq_false _ ▸ hsig
                · exact Nat.lt_of_not_le hroom
  · rintro ⟨h, rfl⟩
    have hroom := h.room
    rw [if_neg (not_not_intro h.sequence), if_neg, if_neg (not_not_intro h.prevHash),
      if_neg (not_not_intro h.cumulative), if_neg, if_neg (by omega)]
    · rfl
    · rw [h.signature]
      decide
    · rintro ⟨hcheck, hlt⟩
      exact Int.not_lt.mpr (h.timestamp hcheck) hlt

theorem scan_frame {f : Frame} (hf : f.Readable) (haccept : Accepts cr key checks r f)
    (tail : Bytes) :
    scan cr key checks r (f.bytes ++ tail) = ⟨.ok (r.after cr f), f.bytes.length, 2⟩ := by
  have hover := hf.overhead_le
  have hsize := hf.size
  have hlen : ofBE ((f.bytes ++ tail).take 4) = f.body.length := by
    rw [Frame.bytes, List.append_assoc, List.take_left' (length_toBE 4 _),
      ofBE_toBE_of_lt (by unfold maxEntrySize at hsize; omega)]
  have hbody : ((f.bytes ++ tail).drop 4).take f.body.length = f.body := by
    rw [Frame.bytes, List.append_assoc, List.drop_left' (length_toBE 4 _),
      List.take_left' rfl]
  have hdrop : ((f.bytes ++ tail).drop 4).length = f.body.length + tail.length := by
    rw [List.length_drop, List.length_append, Frame.length_bytes]
    omega
  have hcount := haccept.limit
  unfold entryOverhead at hover
  rw [scan, if_neg (fun h => Nat.not_le_of_lt (hcount h.1) h.2), if_neg (by simp; omega), hlen,
    if_neg (by omega), if_neg (by omega), scanBody, if_neg (by omega), hbody, hf.decode,
    Frame.length_bytes]
  dsimp only
  rw [(accept_eq_ok rfl haccept.limit).mpr ⟨haccept, rfl⟩, readCalls, if_neg (by omega)]

theorem scan_eq_ok (h : (scan cr key checks r bytes).outcome = .ok r') :
    ∃ f tail, bytes = f.bytes ++ tail ∧ f.Readable ∧ Accepts cr key checks r f
      ∧ r' = r.after cr f := by
  unfold scan at h
  -- check by check, down to the entry
  by_cases hlimit : checks.limit = true ∧ maxWalEntries ≤ r.count
  · rw [if_pos hlimit] at h
    cases h
  · rw [if_neg hlimit] at h
    by_cases hshort : bytes.length < 4
    · rw [if_pos hshort] at h
      cases h
    · rw [if_neg hshort] at h
      by_cases hzero : checks.zeroLength = true ∧ ofBE (bytes.take 4) = 0
      · rw [if_pos hzero] at h
        cases h
      · rw [if_neg hzero] at h
        by_cases hsize : maxEntrySize < ofBE (bytes.take 4)
        · rw [if_pos hsize] at h
          cases h
        · rw [if_neg hsize, scanBody] at h
          dsimp only at h
          by_cases hbody : (bytes.drop 4).length < ofBE (bytes.take 4)
          · rw [if_pos hbody] at h
            cases h
          · rw [if_neg hbody] at h
            dsimp only at h
            cases hdecode : deserializeEntry ((bytes.drop 4).take (ofBE (bytes.take 4))) with
            | error e =>
              rw [hdecode] at h
              cases h
            | ok entry =>
              rw [hdecode] at h
              have hlead : (bytes.take 4).length = 4 := by
                rw [List.length_take]
                omega
              have htake : ((bytes.drop 4).take (ofBE (bytes.take 4))).length
                  = ofBE (bytes.take 4) := by
                rw [List.length_take]
                omega
              obtain ⟨haccepts, hr⟩ := (accept_eq_ok htake.symm (fun hcheck =>
                Nat.lt_of_not_le fun hle => hlimit ⟨hcheck, hle⟩)).mp h
              refine ⟨⟨_, entry⟩, (bytes.drop 4).drop (ofBE (bytes.take 4)), ?_, ?_,
                haccepts, hr⟩
              · have hlenBytes : toBE 4 (ofBE (bytes.take 4)) = bytes.take 4 := by
                  have := toBE_ofBE (bytes.take 4)
                  rwa [hlead] at this
                rw [Frame.bytes, htake, hlenBytes, List.append_assoc, List.take_append_drop,
                  List.take_append_drop]
              · exact ⟨by rw [htake]; omega, hdecode⟩

theorem accept_stop (h : r.accept cr key checks entry n = .error stop) : stop.OfEntry := by
  unfold accept at h
  iterate 6 (split at h; · cases h; trivial)
  cases h

theorem scan_stop (h : (scan cr key checks r bytes).outcome = .error stop) :
    (stop = .tooManyEntries ∧ checks.limit = true ∧ maxWalEntries ≤ r.count)
      ∨ ¬ (checks.limit = true ∧ maxWalEntries ≤ r.count)
        ∧ (stop = .eof ∧ bytes.length < 4
          ∨ 4 ≤ bytes.length ∧ (stop = .zeroLength ∨ stop = .oversize ∨ stop = .shortFrame
            ∨ (∃ text, stop = .undecodable (.err (.serialization text)))
            ∨ (∃ value, stop = .undecodable (.err (.invalidEntryType value)))
            ∨ stop.OfEntry)) := by
  unfold scan at h
  by_cases hlimit : checks.limit = true ∧ maxWalEntries ≤ r.count
  · rw [if_pos hlimit] at h
    cases h
    exact .inl ⟨rfl, hlimit⟩
  · rw [if_neg hlimit] at h
    refine .inr ⟨hlimit, ?_⟩
    by_cases hshort : bytes.length < 4
    · rw [if_pos hshort] at h
      cases h
      exact .inl ⟨rfl, hshort⟩
    · rw [if_neg hshort] at h
      refine .inr ⟨Nat.le_of_not_lt hshort, ?_⟩
      split at h
      · cases h
        exact .inl rfl
      · split at h
        · cases h
          exact .inr (.inl rfl)
        · unfold scanBody at h
          dsimp only at h
          split at h
          · cases h
            exact .inr (.inr (.inl rfl))
          · dsimp only at h
            refine .inr (.inr (.inr ?_))
            obtain ⟨text, hdecode⟩ | ⟨value, hdecode⟩ | ⟨entry, hdecode, -⟩ :=
              deserializeEntry_cases ((bytes.drop 4).take (ofBE (bytes.take 4)))
            · rw [hdecode] at h
              cases h
              exact .inl ⟨text, rfl⟩
            · rw [hdecode] at h
              cases h
              exact .inr (.inl ⟨value, rfl⟩)
            · rw [hdecode] at h
              exact .inr (.inr (accept_stop h))

/-- Only the end of the file in front of the length of a frame counts as the end of the log. -/
theorem scan_eof :
    (scan cr key checks r bytes).outcome = .error .eof
      ↔ ¬ (checks.limit = true ∧ maxWalEntries ≤ r.count) ∧ bytes.length < 4 := by
  constructor
  · intro h
    obtain ⟨hstop, -⟩ | ⟨hlimit, ⟨-, hshort⟩ | ⟨-, hstop⟩⟩ := scan_stop h
    · cases hstop
    · exact ⟨hlimit, hshort⟩
    · simp [Stop.OfEntry] at hstop
  · rintro ⟨hlimit, hshort⟩
    rw [scan, if_neg hlimit, if_pos hshort]

/-! ## All frames -/

@[simp] theorem afterAll_nil (r : Replay) : r.afterAll cr [] = r := rfl

@[simp] theorem afterAll_cons (r : Replay) (f : Frame) (fs : List Frame) :
    r.afterAll cr (f :: fs) = (r.after cr f).afterAll cr fs := rfl

theorem afterAll_count (fs : List Frame) : (r.afterAll cr fs).count = r.count + fs.length := by
  induction fs generalizing r with
  | nil => rfl
  | cons f fs ih =>
    rw [afterAll_cons, ih, after, List.length_cons]
    dsimp only
    omega

theorem afterAll_offset (fs : List Frame) :
    (r.afterAll cr fs).offset = r.offset + (framesBytes fs).length := by
  induction fs generalizing r with
  | nil => rfl
  | cons f fs ih =>
    rw [afterAll_cons, ih, after, framesBytes_cons, List.length_append, Frame.length_bytes]
    dsimp only
    omega

theorem length_le_framesBytes (fs : List Frame) : fs.length ≤ (framesBytes fs).length := by
  induction fs with
  | nil => exact Nat.le_refl _
  | cons f fs ih =>
    rw [framesBytes_cons, List.length_append, Frame.length_bytes, List.length_cons]
    omega

namespace Split

variable (s : Split cr key checks r bytes)

/-- The variables of the loop when it stops. -/
def final : Replay := r.afterAll cr s.frames

def read : Nat := (framesBytes s.frames).length + s.tailBytes

def calls : Nat := 2 * s.frames.length + s.tailCalls

theorem length_eq : bytes.length = (framesBytes s.frames).length + s.tail.length := by
  rw [← List.length_append, ← s.eq]

theorem exists_split (cr : Crypto Key) (key : Key) (checks : Checks) (bytes : Bytes) :
    ∀ r : Replay, Nonempty (Split cr key checks r bytes) := by
  induction h : bytes.length using Nat.strong_induction_on generalizing bytes with
  | _ len ih =>
    intro r
    cases hscan : scan cr key checks r bytes with
    | mk outcome n k =>
      cases outcome with
      | error stop => exact ⟨⟨[], bytes, stop, n, k, rfl, trivial, hscan⟩⟩
      | ok r' =>
        obtain ⟨f, tail, rfl, hread, haccept, rfl⟩ := scan_eq_ok (by rw [hscan])
        have hshorter : tail.length < len := by
          rw [← h, List.length_append, Frame.length_bytes]
          omega
        obtain ⟨s⟩ := ih _ hshorter tail rfl (r.after cr f)
        refine ⟨⟨f :: s.frames, s.tail, s.stop, s.tailBytes, s.tailCalls, ?_,
          ⟨hread, haccept, s.accepts⟩, s.stops⟩⟩
        rw [framesBytes_cons, List.append_assoc, ← s.eq]

/-- A turn of the loop that takes a frame. -/
theorem loop_frame {f : Frame} {rest : Bytes} {d : Disk} (fuel : Nat) (hread : f.Readable)
    (haccept : Accepts cr key checks r f) (hrest : d.file.rest = f.bytes ++ rest)
    (hclear : d.Clear 2) :
    ∃ d', d' = (d.tick 2).setFile (d.file.advance f.bytes.length) ∧ d'.file.rest = rest
      ∧ loop cr key checks (fuel + 1) r d = loop cr key checks fuel (r.after cr f) d' := by
  have hscan := scan_frame hread haccept rest
  rw [← hrest] at hscan
  refine ⟨_, rfl, ?_, ?_⟩
  · rw [setFile_file, OpenFile.rest_advance, hrest, List.drop_left' rfl]
  · rw [loop, step_clear (by rw [hscan]; exact hclear), hscan]

theorem loop_eq {fs : List Frame} {tail : Bytes} {stop : Stop} {n k : Nat} :
    ∀ {r : Replay} {d : Disk} {fuel : Nat}, AcceptsAll cr key checks r fs →
      scan cr key checks (r.afterAll cr fs) tail = ⟨.error stop, n, k⟩ →
      d.file.rest = framesBytes fs ++ tail → d.Clear (2 * fs.length + k) → fs.length < fuel →
      loop cr key checks fuel r d = (stop, r.afterAll cr fs,
        (d.tick (2 * fs.length + k)).setFile (d.file.advance ((framesBytes fs).length + n))) := by
  induction fs with
  | nil =>
    intro r d fuel _ hstop hrest hclear hfuel
    obtain ⟨fuel, rfl⟩ := Nat.exists_eq_succ_of_ne_zero (Nat.ne_of_gt hfuel)
    rw [framesBytes_nil, List.nil_append] at hrest
    rw [afterAll_nil, ← hrest] at hstop
    rw [List.length_nil, Nat.mul_zero, Nat.zero_add] at hclear
    rw [loop, step_clear (by rw [hstop]; exact hclear), hstop]
    simp
  | cons f fs ih =>
    intro r d fuel haccept hstop hrest hclear hfuel
    obtain ⟨hread, haccept, haccepts⟩ := haccept
    obtain ⟨fuel, rfl⟩ := Nat.exists_eq_succ_of_ne_zero (Nat.ne_zero_of_lt hfuel)
    rw [framesBytes_cons, List.append_assoc] at hrest
    have hcalls : 2 * (f :: fs).length + k = 2 + (2 * fs.length + k) := by
      rw [List.length_cons]
      omega
    rw [hcalls, clear_add] at hclear
    obtain ⟨d', rfl, hnext, hloop⟩ := loop_frame fuel hread haccept hrest hclear.1
    rw [hloop, ih haccepts hstop hnext (by exact hclear.2) (by simpa using hfuel), hcalls]
    simp [OpenFile.advance_advance, Nat.add_assoc]

theorem frames_lt {d : Disk} (s : Split cr key checks r d.file.rest) :
    s.frames.length < d.file.len + 1 := by
  have hle := length_le_framesBytes s.frames
  have hlen := s.length_eq
  have hrest := d.file.length_rest_le
  omega

/-- Without faults in its calls, the replay of a file is the split of its bytes. -/
theorem run_clear {d : Disk} (s : Split cr key checks r d.file.rest) (hclear : d.Clear s.calls) :
    run cr key checks r d = (s.stop, s.final, (d.tick s.calls).setFile (d.file.advance s.read)) :=
  loop_eq s.accepts s.stops s.eq hclear s.frames_lt

theorem run_quiet {d : Disk} (hq : d.Quiet) (s : Split cr key checks r d.file.rest) :
    run cr key checks r d = (s.stop, s.final, d.setFile (d.file.advance s.read)) := by
  rw [s.run_clear (hq.clear _), hq.tick_eq]

theorem final_count : s.final.count = r.count + s.frames.length := afterAll_count s.frames

theorem final_offset :
    s.final.offset = r.offset + (framesBytes s.frames).length := afterAll_offset s.frames

end Split

end Replay

end WritersProof.Wal
