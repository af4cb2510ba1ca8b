/-
  WritersProof.Jitter.Current

  Whether the document hash of a sample is that of the document while the sample was taken
  (crates/cpoe/src/jitter/session.rs, crates/cpoe/src/crypto.rs).

  The disk has a history of its own: at each moment the path leads to a file, and each file has a
  content and a time of its last change, which may be anything.  A call looks at the metadata at
  one moment and reads the content in pieces at later ones.  The hash is remembered under the time
  of the metadata and the number of bytes that were read.

  The document is a regular file throughout.
-/
import WritersProof.Jitter.Recorded

namespace WritersProof.Jitter

open Rust Session

/-! ## The disk over time -/

structure FileState where
  content : Bytes
  /-- `metadata.modified()`, where the system knows it -/
  modified : Option Int

/-- The file that the path of the document leads to, and all files -/
structure Disk where
  target : Except String Nat
  file : Nat → FileState

abbrev History := Nat → Disk

def History.document (h : History) (t : Nat) : Except String FileState :=
  (h t).target.map (h t).file

/-- The accesses to the file system other than the reads -/
inductive Access where
  | metadata
  | open
  | handleMetadata
  | seek

/-- A `read` with the buffer of 65536 bytes: it gives one byte more than `limit` at most, or
fails. -/
inductive ReadIo where
  | failed (e : String)
  | upTo (moment : Nat) (limit : Fin 65536)

def ReadIo.moment? : ReadIo → Option Nat
  | failed _ => none
  | upTo moment _ => some moment

/-- A call of `record_keystroke`: when it starts and ends, when it looks at the document, and what
fails for reasons of its own -/
structure Look where
  now : Int
  start : Nat
  metadataAt : Nat
  openAt : Nat
  lenAt : Nat
  reads : List ReadIo
  finish : Nat
  failure : Access → Option String
  ordered : ([start, metadataAt, openAt, lenAt] ++ reads.filterMap ReadIo.moment?
    ++ [finish]).Pairwise (· ≤ ·)

/-! ## Hashing a file -/

def maxFileSize : Nat := 500000000

def Look.access (k : Look) (a : Access) : Except String Unit :=
  match k.failure a with
  | some e => .error e
  | none => .ok ()

/-- The loop of `hash_file_handle`: all bytes read, where `sofar` have been.  A file that grows as
it is read can keep the loop going for ever; there are then too few reads. -/
def readLoop (file : Nat → FileState) : List ReadIo → Bytes → Except String Bytes
  | [], _ => .error "no end of file"
  | .failed e :: _, _ => .error e
  | .upTo moment limit :: reads, sofar =>
    let chunk := ((file moment).content.drop sofar.length).take (limit.val + 1)
    if chunk = [] then .ok sofar else readLoop file reads (sofar ++ chunk)

/-- The bytes that `hash_file_with_size` gives to the hasher -/
def Look.bytesRead (h : History) (k : Look) : Except String Bytes := do
  k.access .open
  let file ← (h k.openAt).target
  k.access .handleMetadata
  -- The open file stays the same where the path leads to another one.
  let len := ((h k.lenAt).file file).content.length
  if len > maxFileSize then .error s!"file size {len} exceeds MAX_FILE_SIZE ({maxFileSize})"
  else do
    k.access .seek
    readLoop (fun t => (h t).file file) k.reads []

def hashFileWithSize (C : Crates) (h : History) (k : Look) : Except String (Hash32 × Nat) :=
  (k.bytesRead h).map fun bytes => (C.sha256 bytes, bytes.length)

/-- `fs::metadata` of the path -/
def Look.metadata (h : History) (k : Look) : Except String (Option Int × Nat) := do
  k.access .metadata
  let file ← h.document k.metadataAt
  pure (file.modified, file.content.length)

/-- What the call finds -/
def Look.keystroke (C : Crates) (h : History) (k : Look) : Keystroke where
  now := k.now
  metadata := k.metadata h
  content := hashFileWithSize C h k

/-! ## Runs -/

/-- A session, and the bytes that its remembered hash was taken of -/
structure Watched where
  session : Session
  read : Option Bytes

/-- The remembered hash is that of a document with this metadata. -/
def Hit (metadata : Except String (Option Int × Nat)) (s : Session) : Prop :=
  match metadata with
  | .error _ => False
  | .ok (modified, size) => s.lastDocHash.isSome ∧ s.lastMtime = some (modified.getD 0)
    ∧ s.lastSize = some size

instance : ∀ metadata s, Decidable (Hit metadata s)
  | .error _, _ => inferInstanceAs (Decidable False)
  | .ok _, _ => inferInstanceAs (Decidable (_ ∧ _))

/-- The bytes that a sample gets the hash of -/
def Look.source (h : History) (k : Look) (st : Watched) : Option Bytes :=
  if Hit (k.metadata h) st.session then st.read else (k.bytesRead h).toOption

def tookSample : Res String (Nat × Bool) → Bool
  | .ok (_, took) => took
  | .error _ => false

section Runs

variable (C : Crates) (h : History)

/-- A call that reads the document remembers what it has read. -/
def Look.step (k : Look) (st : Watched) : Res String (Nat × Bool) × Watched :=
  let reply := recordKeystroke C (k.keystroke C h) st.session
  (reply.1, {
    session := reply.2
    read := if tookSample reply.1 then k.source h st else st.read })

/-- The document had this content at some moment of the call. -/
def Seen (k : Look) (bytes : Bytes) : Prop :=
  ∃ t, k.start ≤ t ∧ t ≤ k.finish ∧ ∃ file, h.document t = .ok file ∧ file.content = bytes

/-- The sample of the call, if it takes one, has the hash of a content that the document had at
some moment of the call. -/
def Current (k : Look) (st : Watched) : Prop :=
  ∀ sample, (k.step C h st).2.session.samples = st.session.samples ++ [sample] →
    ∃ bytes, Seen h k bytes ∧ sample.documentHash = C.sha256 bytes

end Runs

/-! ## One call -/

section Call

variable {C : Crates} {h : History} {k : Look} {st : Watched} {s : Session}

/-- The remembered hash is taken, or the document is read. -/
theorem hashDocument_cases (k : Keystroke) (s : Session) :
    (∃ e, hashDocument k s = (fail e, s))
      ∨ (Hit k.metadata s ∧ ∃ hash, s.lastDocHash = some hash
        ∧ hashDocument k s = (.ok hash, s))
      ∨ (¬ Hit k.metadata s ∧ ∃ modified len hash size, k.metadata = .ok (modified, len)
        ∧ k.content = .ok (hash, size) ∧ hashDocument k s = (.ok hash,
            { s with lastMtime := some (modified.getD 0), lastSize := some size
                     lastDocHash := some hash })) := by
  rw [hashDocument]
  rcases k.metadata with e | ⟨modified, size⟩
  · exact .inl ⟨e, rfl⟩
  by_cases hhit : Hit (.ok (modified, size)) s
  · obtain ⟨hsome, hkey⟩ := hhit
    obtain ⟨hash, hhash⟩ := Option.isSome_iff_exists.mp hsome
    refine .inr (.inl ⟨⟨hsome, hkey⟩, hash, hhash, ?_⟩)
    simp only [hhash, Option.filter_some, hkey, and_self, decide_true, if_true]
  · have hcached : s.lastDocHash.filter
        (fun _ => decide (s.lastMtime = some (modified.getD 0) ∧ s.lastSize = some size))
          = none := by
      rw [Option.filter_eq_none_iff]
      intro hash hhash hkey
      exact hhit ⟨Option.isSome_iff_exists.mpr ⟨hash, hhash⟩, of_decide_eq_true hkey⟩
    dsimp only
    rw [hcached]
    rcases k.content with e | ⟨hash, actualSize⟩
    · exact .inl ⟨e, rfl⟩
    · exact .inr (.inr ⟨hhit, _, _, hash, actualSize, rfl, rfl, rfl⟩)

/-- The remembered hash is that of the bytes that were read for it. -/
def Remembers (C : Crates) (st : Watched) : Prop :=
  ∀ hash ∈ st.session.lastDocHash, ∃ bytes ∈ st.read, hash = C.sha256 bytes

/-- A call either takes a sample of the bytes at its source, and remembers these, or takes none and
remembers what it did. -/
theorem step_cases (hst : Remembers C st) :
    (tookSample (k.step C h st).1 = true ∧ ∃ bytes ∈ k.source h st,
        (k.step C h st).2.read = some bytes
          ∧ (k.step C h st).2.session.lastDocHash = some (C.sha256 bytes)
          ∧ ∃ sample, (k.step C h st).2.session.samples = st.session.samples ++ [sample]
            ∧ sample.documentHash = C.sha256 bytes)
      ∨ (tookSample (k.step C h st).1 = false ∧ (k.step C h st).2.read = st.read
          ∧ (k.step C h st).2.session.lastDocHash = st.session.lastDocHash
          ∧ (k.step C h st).2.session.samples = st.session.samples) := by
  by_cases hdue : st.session.bumpCount.Due
  · have hrecord := recordKeystroke_of_due (C := C) (k.keystroke C h) hdue
    rcases hashDocument_cases (k.keystroke C h) st.session.bumpCount with
      ⟨e, hdoc⟩ | ⟨hhit, hash, hhash, hdoc⟩ | ⟨hhit, _, _, hash, size, -, hcontent, hdoc⟩
    · right
      rw [hdoc] at hrecord
      simp only [Look.step, hrecord]
      exact ⟨rfl, rfl, rfl, rfl⟩
    · left
      obtain ⟨bytes, hbytes, rfl⟩ := hst hash hhash
      have hsource : k.source h st = some bytes := (if_pos hhit).trans hbytes
      rw [hdoc] at hrecord
      simp only [Look.step, hrecord, hsource]
      exact ⟨rfl, bytes, rfl, rfl, hhash, _, rfl, rfl⟩
    · left
      -- What was hashed is what was read.
      obtain ⟨bytes, hbytes, hpair⟩ : ∃ bytes, k.bytesRead h = .ok bytes
          ∧ (C.sha256 bytes, bytes.length) = (hash, size) := by
        rw [Look.keystroke, hashFileWithSize] at hcontent
        rcases hread : k.bytesRead h with e | bytes
        · rw [hread] at hcontent
          cases hcontent
        · rw [hread] at hcontent
          exact ⟨bytes, rfl, Except.ok.inj hcontent⟩
      cases hpair
      have hsource : k.source h st = some bytes :=
        (if_neg hhit).trans (congrArg Except.toOption hbytes)
      rw [hdoc] at hrecord
      simp only [Look.step, hrecord, hsource]
      exact ⟨rfl, bytes, rfl, rfl, rfl, _, rfl, rfl⟩
  · right
    have hrecord := recordKeystroke_of_not_due (C := C) (k.keystroke C h) hdue
    simp only [Look.step, hrecord]
    exact ⟨rfl, rfl, rfl, rfl⟩

theorem remembers_step (hst : Remembers C st) : Remembers C (k.step C h st).2 := by
  intro hash hhash
  rcases step_cases (k := k) (h := h) hst with
    ⟨-, bytes, -, hread, hdoc, -⟩ | ⟨-, hread, hdoc, -⟩
  · rw [hdoc] at hhash
    exact ⟨bytes, hread, (Option.some.inj hhash).symm⟩
  · rw [hdoc] at hhash
    rw [hread]
    exact hst hash hhash

/-- A sample is current if the bytes at its source are. -/
theorem current_of_seen (hst : Remembers C st) (hseen : ∀ bytes ∈ k.source h st, Seen h k bytes) :
    Current C h k st := by
  intro sample hsample
  rcases step_cases (k := k) (h := h) hst with
    ⟨-, bytes, hsource, -, -, sample', hsample', hhash⟩ | ⟨-, -, -, hsame⟩
  · obtain rfl : sample = sample' := by
      have heq := hsample.symm.trans hsample'
      exact List.singleton_injective (List.append_cancel_left heq)
    exact ⟨bytes, hseen bytes hsource, hhash⟩
  · rw [hsame] at hsample
    have hlen := congrArg List.length hsample
    rw [List.length_append, List.length_singleton] at hlen
    omega

end Call

/-! ## Readings that nothing disturbs -/

section Reading

variable {h : History} {k : Look}

/-- The document is not changed or replaced behind the look at its metadata. -/
def Quiet (h : History) (k : Look) : Prop :=
  ∀ t, k.metadataAt ≤ t → t ≤ k.finish →
    (h t).target = (h k.metadataAt).target ∧ h.document t = h.document k.metadataAt

/-- The pieces of one content make up its beginning, and at the end of the file all of it. -/
theorem readLoop_eq_ok {file : Nat → FileState} {content : Bytes} :
    ∀ {reads : List ReadIo} {sofar bytes : Bytes},
      (∀ t ∈ reads.filterMap ReadIo.moment?, (file t).content = content) →
      sofar <+: content → readLoop file reads sofar = .ok bytes → bytes = content := by
  intro reads
  induction reads with
  | nil =>
    intro sofar bytes _ _ hread
    cases hread
  | cons io reads ih =>
    intro sofar bytes hsame hpre hread
    cases io with
    | failed e => cases hread
    | upTo moment limit =>
      have hmoment : ReadIo.moment? (.upTo moment limit) = some moment := rfl
      rw [List.filterMap_cons_some hmoment, List.forall_mem_cons] at hsame
      obtain ⟨rest, hrest⟩ := hpre
      have hdrop : content.drop sofar.length = rest := by
        rw [← hrest, List.drop_left' rfl]
      rw [readLoop, hsame.1, hdrop] at hread
      by_cases hend : rest.take (limit.val + 1) = []
      · rw [if_pos hend] at hread
        have hempty : rest = [] := by
          rcases List.take_eq_nil_iff.mp hend with h | h
          · exact absurd h (Nat.succ_ne_zero _)
          · exact h
        rw [← Except.ok.inj hread, ← hrest, hempty, List.append_nil]
      · rw [if_neg hend] at hread
        refine ih hsame.2 ?_ hread
        refine ⟨rest.drop (limit.val + 1), ?_⟩
        rw [List.append_assoc, List.take_append_drop, hrest]

theorem Look.within (k : Look) {t : Nat}
    (ht : t ∈ [k.openAt, k.lenAt] ++ k.reads.filterMap ReadIo.moment?) :
    k.start ≤ k.metadataAt ∧ k.metadataAt ≤ t ∧ t ≤ k.finish := by
  obtain ⟨hordered, -, hfinish⟩ := List.pairwise_append.mp k.ordered
  obtain ⟨hstart, hlooks⟩ := List.pairwise_cons.mp hordered
  exact ⟨hstart _ List.mem_cons_self, (List.pairwise_cons.mp hlooks).1 t ht,
    hfinish t (List.mem_cons_of_mem _ (List.mem_cons_of_mem _ ht)) _ List.mem_cons_self⟩

/-- What an undisturbed call reads is the document as its metadata was. -/
theorem document_of_quiet (hquiet : Quiet h k) {bytes : Bytes} (hread : k.bytesRead h = .ok bytes) :
    ∃ file, h.document k.metadataAt = .ok file ∧ file.content = bytes
      ∧ bytes.length ≤ maxFileSize := by
  rw [Look.bytesRead] at hread
  obtain ⟨-, -, hread⟩ := res_bind_eq_ok.mp hread
  obtain ⟨file, htarget, hread⟩ := res_bind_eq_ok.mp hread
  obtain ⟨-, -, hread⟩ := res_bind_eq_ok.mp hread
  have htarget : (h k.metadataAt).target = .ok file := by
    obtain ⟨-, hopen⟩ := k.within (t := k.openAt) (by simp)
    rw [← (hquiet _ hopen.1 hopen.2).1]
    exact htarget
  have hsame : ∀ t ∈ [k.openAt, k.lenAt] ++ k.reads.filterMap ReadIo.moment?,
      (h t).file file = (h k.metadataAt).file file := by
    intro t ht
    obtain ⟨-, hstart, hfinish⟩ := k.within ht
    obtain ⟨htarget', hdocument⟩ := hquiet t hstart hfinish
    rw [History.document, History.document, htarget', htarget] at hdocument
    exact Except.ok.inj hdocument
  rw [hsame k.lenAt (by simp)] at hread
  simp only at hread
  split at hread
  · cases hread
  · obtain ⟨-, -, hread⟩ := res_bind_eq_ok.mp hread
    have hcontent : bytes = ((h k.metadataAt).file file).content :=
      readLoop_eq_ok (fun t ht => congrArg _ (hsame t (List.mem_append_right _ ht)))
        List.nil_prefix hread
    refine ⟨(h k.metadataAt).file file, ?_, hcontent.symm, ?_⟩
    · rw [History.document, htarget]
      rfl
    · rw [hcontent]
      exact not_lt.mp ‹_›

end Reading

/-! ## Contents that size and time tell apart -/

/-- No change of the document keeps both its size and its time. -/
def Stamped (h : History) : Prop :=
  ∀ t t' file file', h.document t = .ok file → h.document t' = .ok file' →
    file.modified.getD 0 = file'.modified.getD 0 → file.content.length = file'.content.length →
      file.content = file'.content

/-- Size and time tell apart what the document is at these moments, as far as it is hashed. -/
def StampedAt (h : History) (moments : Set Nat) : Prop :=
  ∀ t ∈ moments, ∀ t' ∈ moments, ∀ file file', h.document t = .ok file →
    h.document t' = .ok file' → file.modified.getD 0 = file'.modified.getD 0 →
      file.content.length = file'.content.length → file.content.length ≤ maxFileSize →
        file.content = file'.content

theorem Stamped.at {h : History} (hstamped : Stamped h) (moments : Set Nat) :
    StampedAt h moments :=
  fun t _ t' _ file file' hfile hfile' hmodified hsize _ =>
    hstamped t t' file file' hfile hfile' hmodified hsize

section Stamped

variable {C : Crates} {h : History} {moments : Set Nat} {k : Look} {st : Watched}

/-- What is remembered is a document as it was found at one of the moments. -/
def Recalls (C : Crates) (h : History) (moments : Set Nat) (st : Watched) : Prop :=
  ∀ hash ∈ st.session.lastDocHash, ∃ t ∈ moments, ∃ file, h.document t = .ok file
    ∧ st.read = some file.content ∧ hash = C.sha256 file.content
    ∧ st.session.lastMtime = some (file.modified.getD 0)
    ∧ st.session.lastSize = some file.content.length ∧ file.content.length ≤ maxFileSize

theorem recalls_of_none {s : Session} (hnew : s.lastDocHash = none) :
    Recalls C h moments ⟨s, none⟩ := by
  intro hash hhash
  rw [hnew] at hhash
  cases hhash

theorem Recalls.remembers (hst : Recalls C h moments st) : Remembers C st := by
  intro hash hhash
  obtain ⟨_, -, file, -, hread, rfl, -⟩ := hst hash hhash
  exact ⟨file.content, hread, rfl⟩

theorem metadata_eq_ok {modified : Option Int} {len : Nat}
    (hmeta : k.metadata h = .ok (modified, len)) : ∃ file, h.document k.metadataAt = .ok file
      ∧ modified = file.modified ∧ len = file.content.length := by
  obtain ⟨-, -, hmeta⟩ := res_bind_eq_ok.mp hmeta
  obtain ⟨file, hfile, hmeta⟩ := res_bind_eq_ok.mp hmeta
  cases hmeta
  exact ⟨file, hfile, rfl, rfl⟩

/-- The bytes that an undisturbed call hashes, now or before, are the document. -/
theorem seen_of_recalls (hstamped : StampedAt h moments) (hmoment : k.metadataAt ∈ moments)
    (hquiet : Quiet h k) (hst : Recalls C h moments st) :
    ∀ bytes ∈ k.source h st, Seen h k bytes := by
  intro bytes hbytes
  obtain ⟨hstart, hopen, hfinish⟩ := k.within (t := k.openAt) (by simp)
  by_cases hit : Hit (k.metadata h) st.session
  · rw [Look.source, if_pos hit] at hbytes
    rcases hmeta : k.metadata h with e | ⟨modified, len⟩
    · rw [hmeta] at hit
      exact hit.elim
    rw [hmeta] at hit
    obtain ⟨hsome, hmtime, hsize⟩ := hit
    obtain ⟨hash, hhash⟩ := Option.isSome_iff_exists.mp hsome
    obtain ⟨t, ht, file, hfile, hread, -, hmtime', hsize', hmax⟩ := hst hash hhash
    obtain ⟨file', hfile', rfl, rfl⟩ := metadata_eq_ok hmeta
    obtain rfl : bytes = file.content := Option.some.inj (hbytes.symm.trans hread)
    have hsame : file.content = file'.content :=
      hstamped t ht _ hmoment file file' hfile hfile' (Option.some.inj (hmtime'.symm.trans hmtime))
        (Option.some.inj (hsize'.symm.trans hsize)) hmax
    exact ⟨k.metadataAt, hstart, hopen.trans hfinish, file', hfile', hsame.symm⟩
  · rw [Look.source, if_neg hit] at hbytes
    rcases hread : k.bytesRead h with e | bytes'
    · rw [hread] at hbytes
      cases hbytes
    · rw [hread] at hbytes
      cases hbytes
      obtain ⟨file, hfile, hcontent, -⟩ := document_of_quiet hquiet hread
      exact ⟨k.metadataAt, hstart, hopen.trans hfinish, file, hfile, hcontent⟩

/-- A quiet call at one of the moments keeps it so. -/
theorem recalls_step (hmoment : k.metadataAt ∈ moments) (hquiet : Quiet h k)
    (hst : Recalls C h moments st) : Recalls C h moments (k.step C h st).2 := by
  by_cases hdue : st.session.bumpCount.Due
  · have hrecord := recordKeystroke_of_due (C := C) (k.keystroke C h) hdue
    rcases hashDocument_cases (k.keystroke C h) st.session.bumpCount with
      ⟨e, hdoc⟩ | ⟨hhit, hash, -, hdoc⟩ | ⟨hhit, modified, len, hash, size, hmeta, hcontent, hdoc⟩
    · rw [hdoc] at hrecord
      simp only [Look.step, hrecord]
      exact hst
    · have hsource : k.source h st = st.read := if_pos hhit
      rw [hdoc] at hrecord
      simp only [Look.step, hrecord, hsource, ite_self]
      exact hst
    · obtain ⟨file, hfile, rfl, -⟩ := metadata_eq_ok hmeta
      rcases hread : k.bytesRead h with e | bytes
      · rw [Look.keystroke, hashFileWithSize, hread] at hcontent
        cases hcontent
      rw [Look.keystroke, hashFileWithSize, hread] at hcontent
      cases hcontent
      have hsource : k.source h st = some bytes :=
        (if_neg hhit).trans (congrArg Except.toOption hread)
      obtain ⟨file', hfile', rfl, hmax⟩ := document_of_quiet hquiet hread
      obtain rfl : file = file' := Except.ok.inj (hfile.symm.trans hfile')
      rw [hdoc] at hrecord
      simp only [Look.step, hrecord, hsource]
      intro hash hhash
      cases hhash
      exact ⟨k.metadataAt, hmoment, file, hfile, rfl, rfl, rfl, rfl, hmax⟩
  · have hrecord := recordKeystroke_of_not_due (C := C) (k.keystroke C h) hdue
    simp only [Look.step, hrecord]
    exact hst

/-- A run of undisturbed calls at moments that are told apart -/
theorem along_current (C : Crates) (hstamped : StampedAt h moments) {looks : List Look}
    {s : Session} (hnew : s.lastDocHash = none)
    (hlooks : ∀ k ∈ looks, k.metadataAt ∈ moments ∧ Quiet h k) :
    Machine.Along (Look.step C h) (Current C h) looks ⟨s, none⟩ := by
  refine Machine.along_of_invariant (I := Recalls C h moments) (fun k st hst hk => ?_) looks _
    (recalls_of_none hnew)
    (Machine.along_and_of_forall hlooks (Machine.along_of_forall (fun _ _ => trivial) looks _))
  obtain ⟨⟨hmoment, hquiet⟩, -⟩ := hk
  exact ⟨recalls_step hmoment hquiet hst,
    current_of_seen hst.remembers (seen_of_recalls hstamped hmoment hquiet hst)⟩

end Stamped

/-! ## A look at one moment -/

/-- A call that takes no time, with so many reads -/
def Look.still (moment reads : Nat) : Look where
  now := 1000 + moment
  start := moment
  metadataAt := moment
  openAt := moment
  lenAt := moment
  reads := List.replicate reads (.upTo moment 65535)
  finish := moment
  failure _ := none
  ordered := by
    have hall : ∀ t ∈ [moment, moment, moment, moment]
        ++ (List.replicate reads (ReadIo.upTo moment 65535)).filterMap ReadIo.moment?
        ++ [moment], t = moment := by
      rw [List.filterMap_replicate_of_some (show (ReadIo.upTo moment 65535).moment? = some moment
        from rfl)]
      simp [or_imp]
    exact List.pairwise_of_forall_mem_list fun t ht t' ht' => (hall t ht).trans_le (hall t' ht').ge

section Still

variable {C : Crates} {h : History} {t reads : Nat} {file : FileState} {st : Watched}

theorem quiet_still : Quiet h (.still t reads) := by
  intro t' hstart hfinish
  obtain rfl : t' = t := Nat.le_antisymm hfinish hstart
  exact ⟨rfl, rfl⟩

theorem seen_still {bytes : Bytes} (hfile : h.document t = .ok file) :
    Seen h (.still t reads) bytes ↔ bytes = file.content := by
  refine ⟨?_, ?_⟩
  · rintro ⟨t', hstart, hfinish, file', hfile', rfl⟩
    obtain rfl : t' = t := Nat.le_antisymm hfinish hstart
    rw [Except.ok.inj (hfile.symm.trans hfile')]
  · rintro rfl
    exact ⟨t, le_refl _, le_refl _, file, hfile, rfl⟩

theorem metadata_still (hfile : h.document t = .ok file) :
    (Look.still t reads).metadata h = .ok (file.modified, file.content.length) := by
  show (h.document t).bind _ = _
  rw [hfile]
  rfl

/-- Each read but the last gives another piece of the content. -/
theorem readLoop_replicate {file : Nat → FileState} {t : Nat} :
    ∀ {reads : Nat} {sofar : Bytes}, sofar <+: (file t).content →
      (file t).content.length < sofar.length + reads →
      readLoop file (List.replicate reads (.upTo t 65535)) sofar = .ok (file t).content := by
  intro reads
  induction reads with
  | zero =>
    intro sofar hpre hlen
    exact absurd hpre.length_le (not_le.mpr hlen)
  | succ reads ih =>
    rintro sofar ⟨rest, hrest⟩ hlen
    have hdrop : (file t).content.drop sofar.length = rest := by
      rw [← hrest, List.drop_left' rfl]
    have htake := List.take_append_drop 65536 rest
    show (if ((file t).content.drop sofar.length).take 65536 = [] then .ok sofar
      else readLoop file (List.replicate reads (.upTo t 65535))
        (sofar ++ ((file t).content.drop sofar.length).take 65536)) = _
    rw [hdrop]
    by_cases hend : rest.take 65536 = []
    · rw [if_pos hend]
      have hempty : rest = [] := (List.take_eq_nil_iff.mp hend).resolve_left (by decide)
      rw [← hrest, hempty, List.append_nil]
    · rw [if_neg hend]
      apply ih
      · exact ⟨rest.drop 65536, by rw [List.append_assoc, htake, hrest]⟩
      · have hpos := List.length_pos_iff.mpr hend
        rw [List.length_append]
        omega

theorem bytesRead_still (hfile : h.document t = .ok file) (hmax : file.content.length ≤ maxFileSize)
    (hreads : file.content.length < reads) :
    (Look.still t reads).bytesRead h = .ok file.content := by
  rw [History.document] at hfile
  rcases htarget : (h t).target with e | id
  · rw [htarget] at hfile
    cases hfile
  rw [htarget] at hfile
  obtain rfl : (h t).file id = file := Except.ok.inj hfile
  show (h t).target.bind _ = _
  rw [htarget]
  show (if ((h t).file id).content.length > maxFileSize then _ else _) = _
  rw [if_neg (not_lt.mpr hmax)]
  exact @readLoop_replicate (fun t => (h t).file id) _ _ _ List.nil_prefix (by simpa using hreads)

end Still

/-! ## Runs of calls -/

/-- No two contents of the document have one hash. -/
def Separated (C : Crates) (h : History) : Prop :=
  ∀ t t' file file', h.document t = .ok file → h.document t' = .ok file' →
    C.sha256 file.content = C.sha256 file'.content → file.content = file'.content

/-- In every run of undisturbed calls of a new or a loaded session that look at the document at
these moments, each sample has the hash of a content that the document had during its call. -/
def AllCurrent (C : Crates) (h : History) (moments : Set Nat) : Prop :=
  ∀ (looks : List Look) (s : Session), s.lastDocHash = none →
    looks.Pairwise (fun k k' => k.finish ≤ k'.start) →
    (∀ k ∈ looks, k.metadataAt ∈ moments ∧ Quiet h k) →
    Machine.Along (Look.step C h) (Current C h) looks ⟨s, none⟩

section Necessary

variable {C : Crates} {h : History} {moments : Set Nat} {t t' reads : Nat}
  {file file' : FileState} {st : Watched}

theorem due_of_interval_one {s : Session} (h : s.params.sampleInterval = 1) : s.bumpCount.Due := by
  have hinterval : s.bumpCount.params.sampleInterval = 1 := h
  rw [Session.Due, hinterval]
  exact ⟨one_ne_zero, Nat.mod_one _⟩

/-- The first look remembers the document as it is. -/
theorem step_still (hinterval : st.session.params.sampleInterval = 1)
    (hnone : st.session.lastDocHash = none) (hfile : h.document t = .ok file)
    (hmax : file.content.length ≤ maxFileSize) (hreads : file.content.length < reads) :
    let s := ((Look.still t reads).step C h st).2.session
    s.params = st.session.params ∧ s.lastDocHash = some (C.sha256 file.content)
      ∧ s.lastMtime = some (file.modified.getD 0) ∧ s.lastSize = some file.content.length := by
  have hdue := due_of_interval_one hinterval
  have hdoc : hashDocument ((Look.still t reads).keystroke C h) st.session.bumpCount
      = (.ok (C.sha256 file.content), { st.session.bumpCount with
          lastMtime := some (file.modified.getD 0), lastSize := some file.content.length
          lastDocHash := some (C.sha256 file.content) }) := by
    simp only [hashDocument, Look.keystroke, metadata_still hfile, hashFileWithSize,
      bytesRead_still hfile hmax hreads, bumpCount, hnone]
    rfl
  have hrecord := recordKeystroke_of_due (C := C) ((Look.still t reads).keystroke C h) hdue
  rw [hdoc] at hrecord
  intro s
  have hs : s = (recordKeystroke C ((Look.still t reads).keystroke C h) st.session).2 := rfl
  rw [hs, hrecord]
  exact ⟨rfl, rfl, rfl, rfl⟩

/-- A look at the remembered size and time takes the remembered hash. -/
theorem sample_still {hash : Hash32} (hinterval : st.session.params.sampleInterval = 1)
    (hhash : st.session.lastDocHash = some hash) (hfile : h.document t = .ok file)
    (hmtime : st.session.lastMtime = some (file.modified.getD 0))
    (hsize : st.session.lastSize = some file.content.length) :
    ∃ sample, ((Look.still t reads).step C h st).2.session.samples
        = st.session.samples ++ [sample] ∧ sample.documentHash = hash := by
  have hdue := due_of_interval_one hinterval
  have hdoc : hashDocument ((Look.still t reads).keystroke C h) st.session.bumpCount
      = (.ok hash, st.session.bumpCount) := by
    simp only [hashDocument, Look.keystroke, metadata_still hfile, bumpCount, hhash,
      hmtime, hsize, Option.filter_some, and_self, decide_true, if_true]
  have hrecord := recordKeystroke_of_due (C := C) ((Look.still t reads).keystroke C h) hdue
  rw [hdoc] at hrecord
  simp only [Look.step, hrecord]
  exact ⟨_, rfl, rfl⟩

/-- A content that keeps the size and time of an earlier one has its hash. -/
theorem content_eq_of_allCurrent (hseparated : Separated C h) (hall : AllCurrent C h moments)
    (ht : t ∈ moments) (ht' : t' ∈ moments) (hle : t ≤ t') (hfile : h.document t = .ok file)
    (hfile' : h.document t' = .ok file')
    (hmodified : file.modified.getD 0 = file'.modified.getD 0)
    (hsize : file.content.length = file'.content.length)
    (hmax : file.content.length ≤ maxFileSize) : file.content = file'.content := by
  -- a session that samples every keystroke, called once at each of the two moments
  have hlooks : ∀ k ∈ [Look.still t (file.content.length + 1), .still t' 0],
      k.metadataAt ∈ moments ∧ Quiet h k := by
    intro k hk
    rcases List.mem_pair.mp hk with rfl | rfl
    · exact ⟨ht, quiet_still⟩
    · exact ⟨ht', quiet_still⟩
  obtain ⟨-, hcurrent, -⟩ := hall _ plainSession rfl (List.pairwise_pair.mpr hle) hlooks
  obtain ⟨hparams, hhash, hmtime, hlastSize⟩ := @step_still C _ _ _ _ ⟨plainSession, none⟩
    rfl rfl hfile hmax (Nat.lt_succ_self _)
  obtain ⟨sample, hsample, hdocumentHash⟩ := @sample_still C _ _ 0 _ _ _
    (congrArg _ hparams) hhash hfile' (hmtime.trans (congrArg some hmodified))
    (hlastSize.trans (congrArg some hsize))
  obtain ⟨bytes, hseen, hsame⟩ := hcurrent sample hsample
  rw [(seen_still hfile').mp hseen, hdocumentHash] at hsame
  exact hseparated t t' file file' hfile hfile' hsame

end Necessary

/-- The samples of all runs of undisturbed calls that look at the document at given moments are
current if its size and time at these moments tell its contents apart, and only then where no two
contents have one hash. -/
theorem current_iff (C : Crates) (h : History) (moments : Set Nat) :
    (StampedAt h moments → AllCurrent C h moments)
      ∧ (Separated C h → AllCurrent C h moments → StampedAt h moments) := by
  refine ⟨fun hstamped looks s hnew _ hlooks => along_current C hstamped hnew hlooks, ?_⟩
  intro hseparated hall t ht t' ht' file file' hfile hfile' hmodified hsize hmax
  rcases Nat.le_total t t' with hle | hle
  · exact content_eq_of_allCurrent hseparated hall ht ht' hle hfile hfile' hmodified hsize hmax
  · exact (content_eq_of_allCurrent hseparated hall ht' ht hle hfile' hfile hmodified.symm
      hsize.symm
      (hsize ▸ hmax)).symm

/-- Where size and time tell the contents of the document apart, and no call is disturbed, all
samples of a run are current, of remembered hashes too. -/
theorem current_of_stamped (C : Crates) {h : History} {looks : List Look} {s : Session}
    (hnew : s.lastDocHash = none) (hstamped : Stamped h) (hquiet : ∀ k ∈ looks, Quiet h k) :
    Machine.Along (Look.step C h) (Current C h) looks ⟨s, none⟩ :=
  along_current C (hstamped.at Set.univ) hnew fun k hk => ⟨Set.mem_univ _, hquiet k hk⟩

/-! ### An edit within one tick of the clock -/

/-- A file of two bytes that is changed at the moment 10, and has the time 900 both times -/
def sameTick : History := fun t =>
  { target := .ok 0
    file := fun _ => ⟨if t < 10 then [1, 1] else [2, 2], some 900⟩ }

def lookAt (moment : Nat) : Look := .still moment 2

noncomputable def afterFirst : Watched :=
  ((lookAt 0).step plainCrates sameTick ⟨plainSession, none⟩).2

theorem document_sameTick (t : Nat) :
    sameTick.document t = .ok ⟨if t < 10 then [1, 1] else [2, 2], some 900⟩ := rfl

theorem content_of_sameTick {t : Nat} {file : FileState} (h : sameTick.document t = .ok file) :
    file.content = if t < 10 then [1, 1] else [2, 2] := by
  rw [← Except.ok.inj h]
  rfl

/-- The same edit, where the clock of the disk has moved on -/
def nextTick : History := fun t =>
  { target := .ok 0
    file := fun _ => if t < 10 then ⟨[1, 1], some 900⟩ else ⟨[2, 2], some 901⟩ }

theorem current_next_tick : Machine.Along (Look.step plainCrates nextTick)
    (Current plainCrates nextTick) [lookAt 0, lookAt 20] ⟨plainSession, none⟩ := by
  refine current_of_stamped plainCrates rfl ?_ (fun k hk t hstart hfinish => ?_)
  · intro t t' _ _ hfile hfile' hmodified _
    cases hfile
    cases hfile'
    by_cases ht : t < 10
    · by_cases ht' : t' < 10
      · simp [nextTick, ht, ht']
      · simp [nextTick, ht, ht'] at hmodified
    · by_cases ht' : t' < 10
      · simp [nextTick, ht, ht'] at hmodified
      · simp [nextTick, ht, ht']
  · rcases List.mem_pair.mp hk with rfl | rfl
    · exact quiet_still t hstart hfinish
    · exact quiet_still t hstart hfinish

/-- Size and time tell the contents of the first ten moments apart, and not those of all. -/
theorem current_iff_sameTick : AllCurrent plainCrates sameTick {t | t < 10}
    ∧ ¬ AllCurrent plainCrates sameTick Set.univ := by
  refine ⟨(current_iff plainCrates sameTick {t | t < 10}).1 ?_, fun hall => ?_⟩
  · intro t ht t' ht' _ _ hfile hfile' _ _ _
    rw [content_of_sameTick hfile, content_of_sameTick hfile', if_pos (show t < 10 from ht),
      if_pos (show t' < 10 from ht')]
  · have hseparated : Separated plainCrates sameTick := by
      intro t t' _ _ hfile hfile' hsame
      rw [content_of_sameTick hfile, content_of_sameTick hfile'] at hsame ⊢
      revert hsame
      split <;> split <;> decide +kernel
    have hstamped := (current_iff plainCrates sameTick Set.univ).2 hseparated hall
    have hsame := hstamped 0 trivial 10 trivial _ _ (document_sameTick 0) (document_sameTick 10) rfl
      rfl (by decide)
    exact absurd hsame (by decide)

/-- The second call comes after an edit that has kept size and time: its sample has the hash of
the old content. -/
theorem not_current_same_tick : ¬ Machine.Along (Look.step plainCrates sameTick)
    (Current plainCrates sameTick) [lookAt 0, lookAt 20] ⟨plainSession, none⟩ := by
  rintro ⟨-, hcurrent, -⟩
  have hcurrent : Current plainCrates sameTick (lookAt 20) afterFirst := hcurrent
  have hinit : Remembers plainCrates ⟨plainSession, none⟩ := fun hash hhash => by cases hhash
  have hfirst : Remembers plainCrates afterFirst := remembers_step hinit
  rcases step_cases (k := lookAt 20) (h := sameTick) hfirst with
    ⟨-, bytes, hbytes, -, -, sample, hsample, hhash⟩ | ⟨hnone, -⟩
  · have hsource : (lookAt 20).source sameTick afterFirst = some [1, 1] := by decide +kernel
    obtain rfl : bytes = [1, 1] := Option.some.inj (hbytes.symm.trans hsource)
    obtain ⟨seen, hseen, hseenHash⟩ := hcurrent sample hsample
    rw [(seen_still (document_sameTick 20)).mp hseen, hhash] at hseenHash
    exact absurd hseenHash (by decide +kernel)
  · exact absurd hnone (by decide +kernel)

end WritersProof.Jitter
