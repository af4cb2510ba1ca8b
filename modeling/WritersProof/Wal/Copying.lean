/-
  The loop of `truncate` on the bytes of a file.

  Like the replay loop it takes the file frame by frame, but it checks less: the
  link of each entry to the one before it, and that the retained entries are
  numbered without a gap.  What it writes for a frame is a function of its
  variables (`output`), and `loop_clear` runs it along the frames of a file.
-/
import WritersProof.Wal.Durability

namespace WritersProof.Wal

set_option linter.dupNamespace false

open Rust Disk Wal.Frame Call OpenFile

namespace Disk

/-- `n` I/O calls later, with `bytes` written to the new file. -/
def copied (n : Nat) (bytes : Bytes) (d : Disk) : Disk :=
  { d.tick n with walNew := d.walNew.map (· ++ bytes) }

variable {d : Disk}

theorem copied_copied (m n : Nat) (bytes bytes' : Bytes) :
    (d.copied m bytes).copied n bytes' = d.copied (m + n) (bytes ++ bytes') := by
  obtain ⟨file, wal, walNew, archives, faults⟩ := d
  cases walNew with
  | none => simp [copied, tick]
  | some content => simp [copied, tick]

theorem copied_nil (n : Nat) : d.copied n [] = d.tick n := by
  obtain ⟨file, wal, walNew, archives, faults⟩ := d
  cases walNew with
  | none => rfl
  | some content => simp [copied, tick]

theorem tick_copied (m n : Nat) (bytes : Bytes) :
    (d.tick m).copied n bytes = d.copied (m + n) bytes := by
  rw [copied, copied, tick_tick]
  rfl

theorem writeNew_clear (h : d.Clear 1) (bytes : Bytes) :
    orErr (writeNew bytes) d = (.ok (), d.copied 1 bytes) := orErr_of_ok (io_clear h _ _)

end Disk

def Frame.data (f : Frame) : Nat × Int × EntryType × Bytes :=
  (f.entry.sequence, f.entry.timestamp, f.entry.entryType, f.entry.payload)

namespace Wal

namespace Copy

section

variable {Key : Type} (cr : Crypto Key) (key : Key) (beforeSeq : Nat)

structure Accepts (c : Copy) (f : Frame) : Prop where
  limit : c.entryCount < maxWalEntries
  prevHash : f.entry.prevHash = c.expectedPrev
  follows : beforeSeq ≤ f.entry.sequence → ∀ prev ∈ c.prevRetainedSeq, f.entry.sequence = prev + 1

def after (c : Copy) (f : Frame) : Copy :=
  if beforeSeq ≤ f.entry.sequence then
    { expectedPrev := f.entry.computeHash cr
      entryCount := c.entryCount + 1
      lastHash := (c.relink cr key f.entry).computeHash cr
      hasher := c.hasher ++ ((c.relink cr key f.entry).computeHash cr).val
      prevRetainedSeq := some f.entry.sequence
      retainedCount := c.retainedCount + 1 }
  else { c with expectedPrev := f.entry.computeHash cr, entryCount := c.entryCount + 1 }

def output (c : Copy) (f : Frame) : Bytes :=
  if beforeSeq ≤ f.entry.sequence then frame (entryBytes (c.relink cr key f.entry)) else []

def writeCalls (f : Frame) : Nat := if beforeSeq ≤ f.entry.sequence then 2 else 0

def afterAll (c : Copy) (fs : List Frame) : Copy := fs.foldl (after cr key beforeSeq) c

def AcceptsAll : Copy → List Frame → Prop
  | _, [] => True
  | c, f :: fs =>
    f.Readable ∧ c.Accepts beforeSeq f ∧ AcceptsAll (c.after cr key beforeSeq f) fs

def outputAll : Copy → List Frame → Bytes
  | _, [] => []
  | c, f :: fs => c.output cr key beforeSeq f ++ outputAll (c.after cr key beforeSeq f) fs

/-- The I/O calls for frames: two reads for each, and what writes it. -/
def callsAll (fs : List Frame) : Nat := (fs.map fun f => 2 + writeCalls beforeSeq f).sum

end

variable {Key : Type} {cr : Crypto Key} {key : Key} {beforeSeq : Nat} {c : Copy} {d : Disk}

/-! ## One frame -/

theorem checkContinuity_ok {prev : Option Nat} {sequence : Nat} (hlt : sequence < 2 ^ 64)
    (h : ∀ p ∈ prev, sequence = p + 1) : checkContinuity prev sequence = .ok () := by
  cases prev with
  | none => rfl
  | some p =>
    have hnext := h p rfl
    rw [checkContinuity, bump, checkedAdd_eq_some (by omega), unwrap_some, res_ok_bind,
      if_neg (not_not_intro hnext)]

variable {f : Frame} {tail : Bytes} {fs : List Frame}

/-- An entry that was read fits into a frame when it is linked to another one. -/
theorem serialize_relink (hf : f.Readable) :
    serializeEntry (c.relink cr key f.entry) = .ok (entryBytes (c.relink cr key f.entry)) :=
  serializeEntry_eq (entryBytes_of_deserialize hf.decode).1.payload

theorem visit_frame (hf : f.Readable) (h : c.Accepts beforeSeq f)
    (hclear : d.Clear (writeCalls beforeSeq f)) :
    c.visit cr key beforeSeq f.entry d
      = (.ok (c.after cr key beforeSeq f),
        d.copied (writeCalls beforeSeq f) (c.output cr key beforeSeq f)) := by
  rw [visit, reject_bind_neg (not_not_intro h.prevHash)]
  unfold writeCalls at hclear ⊢
  unfold after output
  by_cases hretain : beforeSeq ≤ f.entry.sequence
  · rw [if_pos hretain] at hclear ⊢
    obtain ⟨hfirst, hsecond⟩ := (d.clear_add 1 1).mp hclear
    have hsequence := (entryBytes_of_deserialize hf.decode).1.sequence
    have hlink : ∀ c' : Copy, c'.lastHash = c.lastHash → c'.hasher = c.hasher →
        c'.relink cr key f.entry = c.relink cr key f.entry := by
      intro c' hlast hhasher
      rw [relink, relink, hlast, hhasher]
    rw [if_pos hretain, if_pos hretain, if_pos hretain, retain,
      checkContinuity_ok hsequence (h.follows hretain), lift_ok_bind,
      hlink _ rfl rfl, serialize_relink hf, lift_ok_bind,
      bind_of_ok (writeNew_clear hfirst _),
      bind_of_ok (writeNew_clear (by exact hsecond) _), copied_copied]
    rfl
  · rw [if_neg hretain, if_neg hretain, if_neg hretain, if_neg hretain, copied_nil]
    rfl

/-- One round of the copying loop -/
theorem step_frame (hf : f.Readable) (h : c.Accepts beforeSeq f)
    (hrest : d.file.rest = f.bytes ++ tail) (hclear : d.Clear (2 + writeCalls beforeSeq f)) :
    c.step cr key beforeSeq d
      = (.ok (some (c.after cr key beforeSeq f)),
        (d.copied (2 + writeCalls beforeSeq f) (c.output cr key beforeSeq f)).setFile
          (d.file.advance f.bytes.length)) := by
  obtain ⟨hreads, hvisit⟩ := (d.clear_add 2 _).mp hclear
  obtain ⟨hfirst, hsecond⟩ := (d.clear_add 1 1).mp hreads
  have hover := hf.overhead_le
  have hsize := hf.size
  unfold entryOverhead at hover
  have hpos : f.body.length ≠ 0 := by omega
  -- the length, the body and the entry of the frame
  have hlen : Bytes.ofBE (d.file.rest.take 4) = f.body.length := by
    rw [hrest, bytes, List.append_assoc, List.take_left' (Bytes.length_toBE 4 _),
      Bytes.ofBE_toBE_of_lt (by unfold maxEntrySize at hsize; omega)]
  have hbehind : d.file.rest.drop 4 = f.body ++ tail := by
    rw [hrest, bytes, List.append_assoc, List.drop_left' (Bytes.length_toBE 4 _)]
  have hfour : 4 ≤ d.file.rest.length := by
    rw [hrest, List.length_append, length_bytes]
    omega
  have hread : readOrEof 4 d
      = (.ok (some (d.file.rest.take 4)), (d.tick 1).setFile (d.file.advance 4)) := by
    rw [readOrEof, readExact_of_le (n := 4) hfirst hfour]
    rfl
  have hrest' : ((d.tick 1).setFile (d.file.advance 4)).file.rest = f.body ++ tail :=
    (rest_advance _ _).trans hbehind
  have hreadCalls : readCalls f.body.length = 1 := if_neg hpos
  have hbody : orErr (readExact f.body.length) ((d.tick 1).setFile (d.file.advance 4))
      = (.ok f.body, (d.tick 2).setFile (d.file.advance f.bytes.length)) := by
    apply orErr_of_ok
    rw [readExact_of_le (by rw [hreadCalls]; exact hsecond)
      (by rw [hrest', List.length_append]; omega), hrest', List.take_left' rfl, hreadCalls,
      length_bytes, ← advance_advance, ← d.tick_tick 1 1]
    rfl
  rw [step, reject_bind_neg (Nat.not_le_of_lt h.limit), bind_of_ok hread]
  dsimp only
  rw [hlen, reject_bind_neg (Nat.not_lt_of_le hsize), bind_of_ok hbody, hf.decode,
    lift_ok_bind, bind_of_ok (visit_frame hf h (by exact hvisit)), ← tick_copied]
  rfl

/-- and its last one, at the end of the file -/
theorem step_end (hlimit : c.entryCount < maxWalEntries) (hshort : d.file.rest.length < 4)
    (hclear : d.Clear 1) :
    c.step cr key beforeSeq d
      = (.ok none, (d.tick 1).setFile (d.file.advance d.file.rest.length)) := by
  have hread : readOrEof 4 d
      = (.ok none, (d.tick 1).setFile (d.file.advance d.file.rest.length)) := by
    rw [readOrEof, readExact_of_lt hclear hshort]
    rfl
  rw [step, reject_bind_neg (Nat.not_le_of_lt hlimit), bind_of_ok hread]
  rfl

/-! ## All frames -/

theorem afterAll_entryCount (fs : List Frame) :
    (c.afterAll cr key beforeSeq fs).entryCount = c.entryCount + fs.length := by
  induction fs generalizing c with
  | nil => rfl
  | cons f fs ih =>
    have hone : (c.after cr key beforeSeq f).entryCount = c.entryCount + 1 := by
      unfold after
      split <;> rfl
    rw [List.length_cons, afterAll, List.foldl_cons]
    exact ih.trans (by rw [hone]; omega)

theorem loop_clear (hshort : tail.length < 4) :
    ∀ {c : Copy} {d : Disk} {fuel : Nat}, AcceptsAll cr key beforeSeq c fs →
      (c.afterAll cr key beforeSeq fs).entryCount < maxWalEntries →
      d.file.rest = framesBytes fs ++ tail → d.Clear (callsAll beforeSeq fs + 1) →
      fs.length < fuel →
      loop cr key beforeSeq fuel c d = (.ok (c.afterAll cr key beforeSeq fs),
        (d.copied (callsAll beforeSeq fs + 1) (c.outputAll cr key beforeSeq fs)).setFile
          (d.file.advance d.file.rest.length)) := by
  induction fs with
  | nil =>
    intro c d fuel _ hlimit hrest hclear hfuel
    obtain ⟨fuel, rfl⟩ := Nat.exists_eq_succ_of_ne_zero (Nat.ne_of_gt hfuel)
    rw [framesBytes_nil, List.nil_append] at hrest
    have hend : c.step cr key beforeSeq d
        = (.ok none, (d.tick 1).setFile (d.file.advance d.file.rest.length)) :=
      step_end hlimit (by rw [hrest]; exact hshort) hclear
    rw [loop, bind_of_ok hend, outputAll, copied_nil]
    rfl
  | cons f fs ih =>
    intro c d fuel haccept hlimit hrest hclear hfuel
    obtain ⟨hread, haccept, haccepts⟩ := haccept
    obtain ⟨fuel, rfl⟩ := Nat.exists_eq_succ_of_ne_zero (Nat.ne_zero_of_lt hfuel)
    rw [framesBytes_cons, List.append_assoc] at hrest
    have hcalls : callsAll beforeSeq (f :: fs) + 1
        = 2 + writeCalls beforeSeq f + (callsAll beforeSeq fs + 1) := by
      rw [callsAll, List.map_cons, List.sum_cons, Nat.add_assoc]
      rfl
    rw [hcalls] at hclear ⊢
    obtain ⟨hfirst, hnext⟩ := (d.clear_add _ _).mp hclear
    have hrest' : (d.file.advance f.bytes.length).rest = framesBytes fs ++ tail := by
      rw [rest_advance, hrest, List.drop_left' rfl]
    rw [loop, bind_of_ok (step_frame hread haccept hrest hfirst)]
    dsimp only
    rw [ih haccepts hlimit (by exact hrest') (by exact hnext) (by simpa using hfuel)]
    have hlen : d.file.rest.length = f.bytes.length + (framesBytes fs ++ tail).length := by
      rw [hrest, List.length_append]
    rw [setFile_file, hrest', hlen, advance_advance, outputAll,
      ← copied_copied _ (callsAll beforeSeq fs + 1)]
    rfl

/-- The loop on a file, behind its header -/
theorem loop_body (hcursor : d.file.cursor = headerSize) (hle : headerSize ≤ d.file.len)
    (hbody : d.file.content.drop headerSize = framesBytes fs ++ tail) (hshort : tail.length < 4)
    (haccept : AcceptsAll cr key beforeSeq start fs) (hlimit : fs.length < maxWalEntries)
    (hclear : d.Clear (callsAll beforeSeq fs + 1)) :
    loop cr key beforeSeq (d.file.len + 1) start d = (.ok (start.afterAll cr key beforeSeq fs),
      (d.copied (callsAll beforeSeq fs + 1) (start.outputAll cr key beforeSeq fs)).setFile
        ⟨d.file.content, d.file.len⟩) := by
  have hrest : d.file.rest = framesBytes fs ++ tail := by
    rw [rest, hcursor]
    exact hbody
  have hlen : d.file.cursor + d.file.rest.length = d.file.len := by
    rw [rest, hcursor, List.length_drop]
    exact Nat.add_sub_of_le hle
  have hfuel : fs.length < d.file.len + 1 := by
    have hframes := Replay.length_le_framesBytes fs
    have hsplit := congrArg List.length hrest
    rw [List.length_append] at hsplit
    omega
  have hcount : (start.afterAll cr key beforeSeq fs).entryCount < maxWalEntries := by
    rw [afterAll_entryCount]
    exact (Nat.zero_add fs.length).symm ▸ hlimit
  rw [loop_clear hshort haccept hcount hrest hclear hfuel, ← hlen]
  rfl

/-! ## What is copied -/

variable {checks : Checks} {r r' : Replay}

/-- The loop has copied what `r` has read of the old file, and `r'` reads that in the new one. -/
structure Copied (beforeSeq : Nat) (checks : Checks) (c : Copy) (r r' : Replay) : Prop where
  expectedPrev : c.expectedPrev = r.chain.lastHash
  entryCount : c.entryCount = r.count
  lastHash : c.lastHash = r'.chain.lastHash
  hasher : c.hasher = r'.chain.hasher
  sequence : r'.chain.nextSequence = max beforeSeq r.chain.nextSequence
  timestamp : checks.timestamp = true → r'.lastTimestamp ≤ r.lastTimestamp
  retained : ∀ prev ∈ c.prevRetainedSeq,
    beforeSeq ≤ prev ∧ r.chain.nextSequence = prev + 1 ∧ prev + 1 < 2 ^ 64
  none : c.prevRetainedSeq = none ↔ r'.count = 0
  count : c.retainedCount = r'.count ∧ r'.count ≤ r.count

theorem readable_relink {f : Frame} (hf : f.Readable) :
    (ofEntry (c.relink cr key f.entry)).Readable ∧
      entryOverhead + f.entry.payload.length ≤ f.body.length := by
  obtain ⟨hfits, hbytes⟩ := entryBytes_of_deserialize hf.decode
  have hlen := congrArg List.length hbytes
  rw [length_entryBytes, List.length_take] at hlen
  have hle := hlen.trans_le (Nat.min_le_right _ _)
  exact ⟨readable_ofEntry ⟨hfits.sequence, hfits.timestamp_ge, hfits.timestamp_lt,
    hfits.payload⟩ (hle.trans hf.size), hle⟩

theorem copied_after (hcr : cr.Correct) (h : Copied beforeSeq checks c r r')
    (haccepts : Replay.Accepts cr key checks r f) (hretain : beforeSeq ≤ f.entry.sequence) :
    Replay.Accepts cr key checks r' (.ofEntry (c.relink cr key f.entry)) ∧
      Copied beforeSeq checks (c.after cr key beforeSeq f) (r.after cr f)
        (r'.after cr (.ofEntry (c.relink cr key f.entry))) := by
  have hsequence := haccepts.sequence
  have hroom := haccepts.room
  have hnext : r'.chain.nextSequence = r.chain.nextSequence := by
    rw [h.sequence]
    omega
  have hcum : (c.relink cr key f.entry).cumulativeHash = cr.blake3
      (r'.chain.hasherAfter cr (c.relink cr key f.entry)) := by
    rw [Chain.hasherAfter, ← h.hasher]
    rfl
  refine ⟨⟨fun hlimit => h.count.2.trans_lt (haccepts.limit hlimit), hsequence.trans hnext.symm,
    fun hcheck => (h.timestamp hcheck).trans (haccepts.timestamp hcheck), h.lastHash, hcum,
    hcr _ _, hnext ▸ hroom⟩, ?_⟩
  rw [after, if_pos hretain]
  have hhasher := congrArg (· ++ ((c.relink cr key f.entry).computeHash cr).val) h.hasher
  refine ⟨rfl, congrArg (· + 1) h.entryCount, rfl, hhasher, ?_, fun _ => le_refl _, ?_, ?_,
    congrArg (· + 1) h.count.1, Nat.succ_le_succ h.count.2⟩
  · show r'.chain.nextSequence + 1 = max beforeSeq (r.chain.nextSequence + 1)
    omega
  · rintro _ ⟨⟩
    exact ⟨hretain, congrArg (· + 1) hsequence.symm, hsequence ▸ hroom⟩
  · exact iff_of_false (Option.some_ne_none _) (Nat.succ_ne_zero _)

theorem copied_skipped (h : Copied beforeSeq checks c r r')
    (haccepts : Replay.Accepts cr key checks r f) (hskip : ¬ beforeSeq ≤ f.entry.sequence) :
    Copied beforeSeq checks (c.after cr key beforeSeq f) (r.after cr f) r' := by
  have hsequence := haccepts.sequence
  rw [after, if_neg hskip]
  refine ⟨rfl, congrArg (· + 1) h.entryCount, h.lastHash, h.hasher, ?_,
    fun hcheck => (h.timestamp hcheck).trans (haccepts.timestamp hcheck), ?_, h.none, h.count.1,
    h.count.2.trans (Nat.le_succ _)⟩
  · show r'.chain.nextSequence = max beforeSeq (r.chain.nextSequence + 1)
    have hnext := h.sequence
    omega
  · intro prev hprev
    obtain ⟨hle, hprev, -⟩ := h.retained prev hprev
    omega

/-- What the loop writes for the entries of a log is a log of the retained ones: their data is
what it was, and a reader accepts them. -/
theorem copied_all (hcr : cr.Correct) :
    ∀ {c : Copy} {r r' : Replay}, Copied beforeSeq checks c r r' →
      Replay.AcceptsAll cr key checks r fs → r.count + fs.length ≤ maxWalEntries →
      AcceptsAll cr key beforeSeq c fs ∧ ∃ gs, c.outputAll cr key beforeSeq fs = framesBytes gs ∧
        gs.map data = (fs.map data).filter (beforeSeq ≤ ·.1) ∧
        Replay.AcceptsAll cr key checks r' gs ∧
        (framesBytes gs).length ≤ (framesBytes fs).length ∧
        Copied beforeSeq checks (c.afterAll cr key beforeSeq fs) (r.afterAll cr fs)
          (r'.afterAll cr gs) := by
  induction fs with
  | nil => exact fun h _ _ => ⟨trivial, [], rfl, rfl, trivial, le_refl _, h⟩
  | cons f fs ih =>
    intro c r r' h ⟨hread, haccepts, hrest⟩ hcount
    rw [List.length_cons] at hcount
    have haccept : c.Accepts beforeSeq f := ⟨by rw [h.entryCount]; omega,
      haccepts.prevHash.trans h.expectedPrev.symm,
      fun _ prev hprev => haccepts.sequence.trans (h.retained prev hprev).2.1⟩
    have hcount' : (r.after cr f).count + fs.length ≤ maxWalEntries := by
      show r.count + 1 + fs.length ≤ maxWalEntries
      omega
    by_cases hretain : beforeSeq ≤ f.entry.sequence
    · obtain ⟨haccepts', h'⟩ := copied_after hcr h haccepts hretain
      obtain ⟨hread', hsize⟩ := @readable_relink _ cr key c _ hread
      obtain ⟨hall, gs, hbytes, hdata, hgs, hlen, hend⟩ := ih h' hrest hcount'
      refine ⟨⟨hread, haccept, hall⟩, .ofEntry (c.relink cr key f.entry) :: gs, ?_, ?_,
        ⟨hread', haccepts', hgs⟩, ?_, hend⟩
      · rw [outputAll, output, if_pos hretain, hbytes,
          frame_entryBytes (e := c.relink cr key f.entry) (hsize.trans hread.size)]
        rfl
      · rw [List.map_cons, List.map_cons,
          List.filter_cons_of_pos (by exact decide_eq_true hretain), hdata]
        rfl
      · rw [framesBytes_cons, framesBytes_cons, List.length_append, List.length_append,
          length_bytes, length_bytes, ofEntry, length_entryBytes]
        exact Nat.add_le_add (Nat.add_le_add_left hsize 4) hlen
    · obtain ⟨hall, gs, hbytes, hdata, hgs, hlen, hend⟩ :=
        ih (copied_skipped h haccepts hretain) hrest hcount'
      refine ⟨⟨hread, haccept, hall⟩, gs, ?_, ?_, hgs, ?_, hend⟩
      · rw [outputAll, output, if_neg hretain, hbytes]
        rfl
      · rw [List.map_cons,
          List.filter_cons_of_neg (by exact fun h => hretain (of_decide_eq_true h)), hdata]
      · rw [framesBytes_cons, List.length_append]
        omega

/-- A reader that starts at `beforeSeq` ends where the copy does. -/
theorem Copied.reader {start next : Nat} {gs : List Frame}
    (h : Copied beforeSeq checks c r ((Replay.start (max beforeSeq start)).afterAll cr gs))
    (hgs : Replay.AcceptsAll cr key checks (.start (max beforeSeq start)) gs)
    (hnone : gs.length = 0 → next = beforeSeq)
    (hnext : gs.length ≠ 0 →
      next = ((Replay.start (max beforeSeq start)).afterAll cr gs).chain.nextSequence)
    (hkept : gs = [] ∨ start ≤ beforeSeq) :
    Replay.AcceptsAll cr key checks (.start beforeSeq) gs ∧
      ⟨next, c.lastHash, c.hasher⟩ = ((Replay.start beforeSeq).afterAll cr gs).chain := by
  rw [h.lastHash, h.hasher]
  rcases hkept with rfl | hle
  · exact ⟨trivial, by rw [hnone rfl]; rfl⟩
  · rw [max_eq_left hle] at hgs hnext ⊢
    refine ⟨hgs, ?_⟩
    by_cases hzero : gs.length = 0
    · obtain rfl := List.length_eq_zero_iff.mp hzero
      rw [hnone rfl]
      rfl
    · rw [hnext hzero]

end Copy

variable {Key : Type} {cr : Crypto Key} {key : Key} {beforeSeq : Nat} {checks : Checks}
  {r r' : Replay} {fs : List Frame} {w : Wal Key} {header : Header} {clock : Option Nat}

/-- A copy that no I/O error disturbs -/
theorem copyRetained_quiet (sessionId : FixedBytes 32) (clock : Option Nat) {d : Disk}
    (hq : d.faults = []) (hcursor : d.file.cursor = headerSize)
    (hcontent : d.file.content = serializeHeader header ++ framesBytes fs)
    (haccept : Copy.AcceptsAll cr key beforeSeq .start fs) (hlimit : fs.length < maxWalEntries)
    {c : Copy} (hc : Copy.start.afterAll cr key beforeSeq fs = c)
    (hcopied : Copy.Copied beforeSeq checks c r r') :
    ∃ next, (r'.count = 0 → next = beforeSeq) ∧ (r'.count ≠ 0 → next = r'.chain.nextSequence) ∧
      copyRetained cr key sessionId beforeSeq clock d =
        (.ok ⟨⟨next, c.lastHash, c.hasher⟩, c.retainedCount⟩,
          ⟨⟨d.file.content, d.file.len⟩, d.wal,
            some (serializeHeader (Wal.header sessionId clock beforeSeq) ++
              Copy.start.outputAll cr key beforeSeq fs), d.archives, []⟩) := by
  obtain ⟨file, wal, walNew, archives, faults⟩ := d
  obtain rfl : faults = [] := hq
  have hbody : file.content.drop headerSize = framesBytes fs ++ [] := by
    rw [hcontent, List.drop_left' (length_serializeHeader header), List.append_nil]
  have hle : headerSize ≤ file.len := by
    rw [len, hcontent, List.length_append, length_serializeHeader]
    exact Nat.le_add_right _ _
  generalize hbytes : serializeHeader (Wal.header sessionId clock beforeSeq) = bytes
  have hwritten : Disk.Quiet ⟨file, wal, some bytes, archives, []⟩ := rfl
  have hloop : Copy.loop cr key beforeSeq (file.len + 1) .start
      ⟨file, wal, some bytes, archives, []⟩ =
      (.ok c, ⟨⟨file.content, file.len⟩, wal,
        some (bytes ++ Copy.start.outputAll cr key beforeSeq fs), archives, []⟩) := by
    rw [Copy.loop_body (d := ⟨file, wal, some bytes, archives, []⟩) hcursor hle hbody (by decide)
      haccept hlimit (hwritten.clear _), hc, copied, hwritten.tick_eq]
    rfl
  have hnew : orErr createNew ⟨file, wal, walNew, archives, []⟩ =
      (.ok (), ⟨file, wal, some [], archives, []⟩) := rfl
  have haccess (file : OpenFile) (walNew : Option Bytes) :
      orErr access ⟨file, wal, walNew, archives, []⟩ =
        (.ok (), ⟨file, wal, walNew, archives, []⟩) := rfl
  have hheader : orErr (writeNew bytes) ⟨file, wal, some [], archives, []⟩ =
      (.ok (), ⟨file, wal, some bytes, archives, []⟩) := rfl
  rw [copyRetained, hbytes, bind_of_ok hnew, bind_of_ok (haccess _ _),
    bind_of_ok hheader, asks_bind, bind_of_ok hloop, bind_of_ok (haccess _ _)]
  cases hprev : c.prevRetainedSeq with
  | none => exact ⟨beforeSeq, fun _ => rfl, fun h => absurd (hcopied.none.mp hprev) h, rfl⟩
  | some prev =>
    obtain ⟨hle, hnext, hroom⟩ := hcopied.retained prev hprev
    have hsequence := hcopied.sequence
    refine ⟨prev + 1, fun h => ?_, fun _ => by omega, ?_⟩
    · rw [hcopied.none.mpr h] at hprev
      cases hprev
    · show (lift (bump prev 1) >>= _) _ = _
      rw [bump, checkedAdd_eq_some hroom]
      rfl

/-- The log behind the rename, on the copy -/
def replaced (r : Retained) (bytes : Bytes) (w : Wal Key) : Wal Key :=
  { adopt r w with
    disk := (attachWal ⟨⟨w.disk.file.content, w.disk.file.len⟩, some (.own bytes), none,
      w.disk.archives, []⟩).setFile ⟨bytes, bytes.length⟩
    byteCount := bytes.length }

theorem Steady.replaced (h : w.Steady) {r : Retained} {bytes : Bytes}
    (hcount : r.count ≤ w.entryCount) (hentries : headerSize + 153 * r.count ≤ bytes.length)
    (hbytes : bytes.length ≤ w.byteCount) : (w.replaced r bytes).Steady :=
  ⟨rfl, rfl, h.open_, h.consistent, rfl, rfl, hentries, hcount.trans_lt h.limit,
    hbytes.trans_lt h.bytes, h.syncs, h.interval⟩

/-- The entries of a file that a reader accepts, from `beforeSeq` on, in the file of a new header.
A reader accepts them there, and the state is where it ends, unless the old file starts behind
`beforeSeq` and has an entry to retain: then the new header names a number that no entry has. -/
theorem truncate_kept (hcr : cr.Correct) (hq : w.disk.Quiet)
    (hcontent : w.disk.file.content = serializeHeader header ++ framesBytes fs)
    (haccepts : Replay.AcceptsAll cr w.signingKey checks (.start header.lastCheckpointSeq) fs)
    (hlimit : fs.length < maxWalEntries) (beforeSeq : Nat) (clock : Option Nat) :
    ∃ gs r, truncate cr beforeSeq clock w = (.ok (), w.replaced r
        (serializeHeader (Wal.header w.sessionId clock beforeSeq) ++ framesBytes gs)) ∧
      gs.map data = (fs.map data).filter (beforeSeq ≤ ·.1) ∧
      r.count = gs.length ∧ gs.length ≤ fs.length ∧
      (framesBytes gs).length ≤ (framesBytes fs).length ∧
      (gs = [] ∨ header.lastCheckpointSeq ≤ beforeSeq →
        Replay.AcceptsAll cr w.signingKey checks (.start beforeSeq) gs ∧
          r.chain = (readerAt cr (Wal.header w.sessionId clock beforeSeq) gs).chain) ∧
      (Replay.AcceptsAll cr w.signingKey checks (.start beforeSeq) gs →
        gs = [] ∨ header.lastCheckpointSeq ≤ beforeSeq) := by
  have hstart : Copy.Copied beforeSeq checks .start (.start header.lastCheckpointSeq)
      (.start (max beforeSeq header.lastCheckpointSeq)) :=
    ⟨rfl, rfl, rfl, rfl, rfl, fun _ => le_refl _, fun _ h => (by cases h), iff_of_true rfl rfl, rfl,
      le_refl _⟩
  obtain ⟨haccept, gs, hbytes, hdata, hgs, hlen, hcopied⟩ := Copy.copied_all hcr hstart haccepts
    ((Nat.zero_add fs.length).trans_le hlimit.le)
  obtain ⟨next, hnone, hnext, hcopy⟩ := copyRetained_quiet w.sessionId clock
    (d := (w.setFile (w.disk.file.seek headerSize)).disk) hq rfl hcontent haccept hlimit rfl hcopied
  rw [hbytes] at hcopy
  generalize Copy.start.afterAll cr w.signingKey beforeSeq fs = c at hcopied hcopy
  have hgsCount : ((Replay.start (max beforeSeq header.lastCheckpointSeq)).afterAll cr gs).count =
      gs.length := (Replay.afterAll_count gs).trans (Nat.zero_add _)
  have hfsCount : ((Replay.start header.lastCheckpointSeq).afterAll cr fs).count = fs.length :=
    (Replay.afterAll_count fs).trans (Nat.zero_add _)
  refine ⟨gs, ⟨⟨next, c.lastHash, c.hasher⟩, c.retainedCount⟩, ?_, hdata,
    hcopied.count.1.trans hgsCount, hgsCount ▸ hfsCount ▸ hcopied.count.2, hlen, ?_, ?_⟩
  · rw [truncate, asks_id_bind, bind_of_ok (io_access hq),
      bind_of_ok (io_seek hq headerSize),
      bind_of_ok (onError_of_ok (onDisk_of_eq hcopy))]
    rfl
  · rw [hgsCount] at hnone hnext
    exact hcopied.reader hgs hnone hnext
  · intro haccepts'
    cases gs with
    | nil => exact .inl rfl
    | cons g gs =>
      have hsequence := hgs.2.1.sequence.symm.trans haccepts'.2.1.sequence
      exact .inr (max_eq_left_iff.mp hsequence)

/-- Truncation retains the entries from `beforeSeq` on with their data, and what it leaves is a log
that goes on from them, unless the old one starts behind `beforeSeq`, where the new header names a
sequence number that no entry has. -/
theorem truncate_records (hcr : cr.Correct) (h : w.Records cr header fs)
    (hbefore : beforeSeq < 2 ^ 64) :
    ∃ gs w', truncate cr beforeSeq clock w = (.ok (), w') ∧
      w'.disk.file.content =
        serializeHeader (Wal.header w.sessionId clock beforeSeq) ++ framesBytes gs ∧
      gs.map data = (fs.map data).filter (beforeSeq ≤ ·.1) ∧
      (w'.Records cr (Wal.header w.sessionId clock beforeSeq) gs ∧
          w'.Clean cr (Wal.header w.sessionId clock beforeSeq) gs ↔
        gs = [] ∨ header.lastCheckpointSeq ≤ beforeSeq) := by
  obtain ⟨gs, r, htruncate, hdata, hcount, hle, hlen, hkept, hneeded⟩ :=
    truncate_kept hcr h.steady.quiet h.content h.accepts (h.count ▸ h.steady.limit) beforeSeq clock
  refine ⟨gs, _, htruncate, rfl, hdata, fun h' => hneeded h'.1.accepts, fun hstart => ?_⟩
  obtain ⟨haccepts, hchain⟩ := hkept hstart
  have hframes := haccepts.length_le
  generalize hnew : serializeHeader (Wal.header w.sessionId clock beforeSeq) ++ framesBytes gs
    = bytes
  have hnewLen : bytes.length = headerSize + (framesBytes gs).length := by
    rw [← hnew, List.length_append, length_serializeHeader]
  have holdLen : w.byteCount = headerSize + (framesBytes fs).length := by
    rw [h.steady.byteCount, len, h.content, List.length_append, length_serializeHeader]
  have hsteady : (w.replaced r bytes).Steady :=
    h.steady.replaced (by rw [hcount, h.count]; exact hle) (by omega) (by omega)
  exact ⟨⟨hsteady, valid_header _ _ _, fits_header hbefore, hnew.symm, haccepts,
    congrArg Chain.nextSequence hchain, congrArg Chain.lastHash hchain, hcount⟩,
    congrArg Chain.hasher hchain⟩

/-- Entries that a caller appends, of which the last two are retained below -/
def threeAttempts : List Attempt :=
  [⟨.heartbeat, [1], some 5⟩, ⟨.heartbeat, [2], some 6⟩, ⟨.checkpoint, [], some 8⟩]

theorem data_eq (fs : List Frame) :
    fs.map data = ((fs.map entry).map Entry.sequence).zip (fs.map recorded) := by
  rw [List.map_map, List.zip_map']
  rfl

/-- The first of three entries is dropped, and the other two are chained anew. -/
theorem truncate_records_three : ∃ w w' : Wal Unit, ∃ fs gs,
    w.Records .sample (Wal.header (.filled 32 1) (some 3) 0) fs ∧
      fs.map data
        = [(0, 5, .heartbeat, [1]), (1, 6, .heartbeat, [2]), (2, 8, .checkpoint, [])] ∧
      truncate .sample 1 none w = (.ok (), w') ∧
      gs.map data = [(1, 6, .heartbeat, [2]), (2, 8, .checkpoint, [])] ∧
      w'.Records .sample (Wal.header w.sessionId none 1) gs := by
  have hreplies : (sampleLog .sample).toOption.map
      (fun w => (appendAll .sample threeAttempts w).1) = some [.ok (), .ok (), .ok ()] := by
    decide +kernel
  obtain ⟨w, hopen, hreplies⟩ := exists_ok_of_toOption hreplies
  obtain ⟨w', hopen', hrecords, hclean⟩ := sampleLog_fresh .sample
  obtain rfl := Except.ok.inj (hopen'.symm.trans hopen)
  have hbytes : w'.byteCount = headerSize := hrecords.byteCount_nil
  have hsurvives : Survives w'.byteCount false threeAttempts := by
    rw [hbytes]
    decide
  obtain ⟨fs, hthree, hrecorded⟩ :=
    records_appendAll Crypto.sample_correct rfl hrecords (fun _ => hclean) hsurvives
  rw [List.nil_append] at hthree
  rw [hreplies] at hrecorded
  have hdata := data_eq fs
  rw [hthree.accepts.sequences, hrecorded, ← List.length_map, hrecorded] at hdata
  obtain ⟨gs, w'', htruncate, -, hretained, hiff⟩ :=
    @truncate_records _ .sample 1 _ _ _ none Crypto.sample_correct hthree (by decide)
  rw [hdata] at hretained
  exact ⟨_, w'', fs, gs, hthree, hdata, htruncate, hretained, (hiff.mpr (.inr (Nat.zero_le 1))).1⟩

end Wal

end WritersProof.Wal
