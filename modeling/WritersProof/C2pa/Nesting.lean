/-
  WritersProof.C2pa.Nesting

  Where the boxes are that `decode_jumbf` reads
  (crates/authorproof-protocol/src/c2pa/jumbf.rs).

  The reader bounds a box by the end of the data, not by the end of the box that it is in,
  and takes the content of every superbox to begin 8 bytes behind its start.
-/
import WritersProof.C2pa.Structure
import WritersProof.C2pa.Signed

namespace WritersProof.C2pa

open Rust Protocol

/-! ## One box -/

def boxAt (data : Bytes) (offset : Nat) : JumbfBox where
  len := boxLength data offset
  boxType := (data.drop (offset + 4)).take 4
  body := (data.take (offset + boxLength data offset)).drop (offset + headerLength data offset)

/-- A box fits, or its length overflows, or it is refused. -/
theorem readBox_cases (data : Bytes) (offset : Nat) :
    (Fits data data.length offset ∧ readBox data offset = .ok (boxAt data offset))
      ∨ (Overflows data data.length offset ∧ readBox data offset = abort)
      ∨ (¬ Fits data data.length offset ∧ ¬ Overflows data data.length offset
        ∧ ∃ e, readBox data offset = fail e) := by
  by_cases hshort : data.length < offset + 8
  · have hnot : ¬ Headed data data.length offset := fun h => absurd h.short (Nat.not_le.mpr hshort)
    refine .inr (.inr ⟨fun h => hnot h.1, fun h => hnot h.1, ?_⟩)
    rw [readBox]
    dsimp only
    rw [reject, if_pos hshort]
    exact ⟨_, rfl⟩
  · rw [readBox]
    dsimp only
    rw [reject, if_neg hshort, res_ok_bind]
    exact checked_cases data (Nat.not_lt.mp hshort) _ _ _
      (fun boxEnd => .ok { boxAt data offset with
      body := (data.take boxEnd).drop (offset + headerLength data offset) }) rfl

variable {data : Bytes} {offset : Nat} {C : Crates}

theorem readBox_eq_ok {b : JumbfBox} :
    readBox data offset = .ok b ↔ Fits data data.length offset ∧ b = boxAt data offset := by
  rcases readBox_cases data offset with ⟨hfits, heq⟩ | ⟨hover, heq⟩ | ⟨hfits, -, e, heq⟩
  · rw [heq, Except.ok.injEq, eq_comm]
    exact (and_iff_right hfits).symm
  · rw [heq]
    exact ⟨nofun, fun h => absurd h.1.2.1 (Nat.not_lt.mpr hover.2)⟩
  · rw [heq]
    exact ⟨nofun, fun h => absurd h.1 hfits⟩

theorem readBox_eq_abort : readBox data offset = abort ↔ Overflows data data.length offset := by
  rcases readBox_cases data offset with ⟨hfits, heq⟩ | ⟨hover, heq⟩ | ⟨-, hover, e, heq⟩
  · rw [heq]
    exact ⟨nofun, fun h => absurd hfits.2.1 (Nat.not_lt.mpr h.2)⟩
  · exact ⟨fun _ => hover, fun _ => heq⟩
  · rw [heq]
    exact ⟨nofun, fun h => absurd h hover⟩

/-! ## The boxes that are read -/

def HasBox (data boxType : Bytes) (offset : Nat) : Prop :=
  Fits data data.length offset ∧ (boxAt data offset).boxType = boxType

def manifestOffset (data : Bytes) : Nat := 8 + boxLength data 8

def manifestEnd (data : Bytes) : Nat := manifestOffset data + boxLength data (manifestOffset data)

def firstChild (data : Bytes) : Nat :=
  manifestOffset data + 8 + boxLength data (manifestOffset data + 8)

/-- The store and the manifest are there, with their descriptions. -/
structure Opened (data : Bytes) : Prop where
  store : HasBox data JUMB 0
  storeDescription : HasBox data JUMD 8
  manifest : HasBox data JUMB (manifestOffset data)
  manifestDescription : HasBox data JUMD (manifestOffset data + 8)

/-- A superbox with room for a description -/
def Describes (data : Bytes) (offset : Nat) : Prop :=
  HasBox data JUMB offset ∧ 8 ≤ (boxAt data offset).body.length

/-- A child of the manifest is read, and its description if it has one. -/
def ChildOk (data : Bytes) (offset : Nat) : Prop :=
  Fits data data.length offset ∧ (Describes data offset → Fits data data.length (offset + 8))

/-- The reader comes to child `n` of the manifest. -/
def Visits (data : Bytes) (stop first n : Nat) : Prop :=
  (∀ i < n, childOffset data first i + 8 ≤ stop ∧ ChildOk data (childOffset data first i))
    ∧ childOffset data first n + 8 ≤ stop

def child (data : Bytes) (n : Nat) : Nat := childOffset data (firstChild data) n

def VisitsChild (data : Bytes) (n : Nat) : Prop :=
  Visits data (manifestEnd data) (firstChild data) n

/-- What `read_box` is called on: an offset, in a box with this content -/
inductive Reads (data : Bytes) : Span → Nat → Prop
  | store : Reads data ⟨0, data.length⟩ 0
  | storeDescription : HasBox data JUMB 0 → Reads data (contentSpan data 0) 8
  | manifest : HasBox data JUMB 0 → HasBox data JUMD 8 →
      Reads data (contentSpan data 0) (manifestOffset data)
  | manifestDescription : HasBox data JUMB 0 → HasBox data JUMD 8 →
      HasBox data JUMB (manifestOffset data) →
      Reads data (contentSpan data (manifestOffset data)) (manifestOffset data + 8)
  | child {n : Nat} : Opened data → VisitsChild data n →
      Reads data (contentSpan data (manifestOffset data)) (child data n)
  | childDescription {n : Nat} : Opened data → VisitsChild data n → Describes data (child data n) →
      Reads data (contentSpan data (child data n)) (child data n + 8)

/-- The boxes that are looked for in a child by their compact lengths: its content, or, behind the
    description, its assertions -/
inductive Walks (data : Bytes) : Span → Span → Prop
  | inside {n skip : Nat} {before after : List Bytes} {b : Bytes} : Opened data →
      VisitsChild data n → Describes data (child data n) →
      skip = 0 ∨ skip = boxLength data (child data n + 8) →
      boxesIn (boxAt data (child data n)).body.length ((boxAt data (child data n)).body.drop skip)
        = before ++ b :: after →
      Walks data (contentSpan data (child data n))
        ⟨child data n + headerLength data (child data n) + skip + before.flatten.length,
          child data n + headerLength data (child data n) + skip + before.flatten.length + b.length⟩

/-! ## Where the reader aborts -/

variable {stop first n mpos rounds : Nat} {found : Found} {m : C2paManifest}

theorem visits_zero : Visits data stop first 0 ↔ first + 8 ≤ stop :=
  ⟨And.right, fun h => ⟨fun _ hi => absurd hi (Nat.not_lt_zero _), h⟩⟩

theorem visits_succ :
    Visits data stop first (n + 1) ↔
      (first + 8 ≤ stop ∧ ChildOk data first)
        ∧ Visits data stop (first + boxLength data first) n := by
  unfold Visits
  simp only [childOffset_next]
  constructor
  · rintro ⟨hok, hstop⟩
    exact ⟨hok 0 (Nat.succ_pos n), fun i hi => hok (i + 1) (Nat.succ_lt_succ hi), hstop⟩
  · rintro ⟨hfirst, hok, hstop⟩
    refine ⟨fun i hi => ?_, hstop⟩
    cases i with
    | zero => exact hfirst
    | succ i => exact hok i (Nat.lt_of_succ_lt_succ hi)

def ChildBreaks (data : Bytes) (offset : Nat) : Prop :=
  Overflows data data.length offset
    ∨ Describes data offset ∧ Overflows data data.length (offset + 8)

theorem readChildren_succ (data : Bytes) (hinside : mpos + 8 ≤ stop) (rounds : Nat)
    (found : Found) :
    (ChildOk data mpos ∧ ∃ found', readChildren data stop (rounds + 1) mpos found
        = readChildren data stop rounds (mpos + boxLength data mpos) found')
      ∨ (ChildBreaks data mpos ∧ readChildren data stop (rounds + 1) mpos found = abort)
      ∨ (¬ ChildOk data mpos ∧ ¬ ChildBreaks data mpos
        ∧ ∃ e, readChildren data stop (rounds + 1) mpos found = fail e) := by
  rw [readChildren, if_neg (Nat.not_lt.mpr hinside)]
  rcases readBox_cases data mpos with ⟨hfits, heq⟩ | ⟨hover, heq⟩ | ⟨hfits, hover, e, heq⟩
  · rw [heq, res_ok_bind]
    by_cases hdesc : (boxAt data mpos).boxType = JUMB ∧ 8 ≤ (boxAt data mpos).body.length
    · have hdescribes : Describes data mpos := ⟨⟨hfits, hdesc.1⟩, hdesc.2⟩
      have hnot : ¬ Overflows data data.length mpos := fun h =>
        absurd hfits.2.1 (Nat.not_lt.mpr h.2)
      rw [if_pos hdesc]
      rcases readBox_cases data (mpos + 8) with ⟨hfits', heq'⟩ | ⟨hover', heq'⟩
        | ⟨hfits', hover', e, heq'⟩
      · rw [heq', res_ok_bind]
        exact .inl ⟨⟨hfits, fun _ => hfits'⟩, _, rfl⟩
      · rw [heq']
        exact .inr (.inl ⟨.inr ⟨hdescribes, hover'⟩, rfl⟩)
      · rw [heq']
        refine .inr (.inr ⟨fun h => hfits' (h.2 hdescribes), ?_, _, rfl⟩)
        rintro (h | ⟨-, h⟩)
        · exact hnot h
        · exact hover' h
    · rw [if_neg hdesc]
      exact .inl ⟨⟨hfits, fun h => absurd ⟨h.1.2, h.2⟩ hdesc⟩, _, rfl⟩
  · rw [heq]
    exact .inr (.inl ⟨.inl hover, rfl⟩)
  · rw [heq]
    refine .inr (.inr ⟨fun h => hfits h.1, ?_, _, rfl⟩)
    rintro (h | ⟨h, -⟩)
    · exact hover h
    · exact hfits h.1.1

theorem ChildBreaks.not_ok (h : ChildBreaks data offset) : ¬ ChildOk data offset := by
  rintro ⟨hfits, hdesc⟩
  rcases h with h | ⟨hd, h⟩
  · exact absurd hfits.2.1 (Nat.not_lt.mpr h.2)
  · exact absurd (hdesc hd).2.1 (Nat.not_lt.mpr h.2)

theorem readChildren_eq_abort (hrounds : stop ≤ mpos + rounds) :
    readChildren data stop rounds mpos found = abort ↔
      ∃ n, Visits data stop mpos n ∧ ChildBreaks data (childOffset data mpos n) := by
  induction rounds generalizing mpos found with
  | zero =>
    rw [readChildren]
    refine ⟨by rintro ⟨⟩, ?_⟩
    rintro ⟨n, ⟨hok, hstop⟩, -⟩
    have := le_childOffset data mpos n
    omega
  | succ rounds ih =>
    by_cases hinside : mpos + 8 ≤ stop
    · rcases readChildren_succ data hinside rounds found with ⟨hok, found', heq⟩ | ⟨hbreaks, heq⟩
        | ⟨hok, hbreaks, e, heq⟩
      · have hlength := hok.1.1.length
        have hheader := headerLength_pos data mpos
        rw [heq, ih (by omega)]
        constructor
        · rintro ⟨n, hn, hbreaks⟩
          exact ⟨n + 1, visits_succ.mpr ⟨⟨hinside, hok⟩, hn⟩,
            childOffset_next data mpos n ▸ hbreaks⟩
        · rintro ⟨n, hn, hbreaks⟩
          cases n with
          | zero => exact absurd hok hbreaks.not_ok
          | succ n =>
            refine ⟨n, (visits_succ.mp hn).2, ?_⟩
            rwa [childOffset_next]
      · exact ⟨fun _ => ⟨0, visits_zero.mpr hinside, hbreaks⟩, fun _ => heq⟩
      · rw [heq]
        refine ⟨by rintro ⟨⟩, ?_⟩
        rintro ⟨n, hn, hn'⟩
        cases n with
        | zero => exact absurd hn' hbreaks
        | succ n => exact absurd (visits_succ.mp hn).1.2 hok
    · rw [readChildren, if_pos (Nat.not_le.mp hinside)]
      refine ⟨by rintro ⟨⟩, ?_⟩
      rintro ⟨n, hn, -⟩
      have := le_childOffset data mpos n
      have := hn.2
      omega

theorem childOk_of_readChildren {result : Found} (hrounds : stop ≤ mpos + rounds)
    (h : readChildren data stop rounds mpos found = .ok result) (hn : Visits data stop mpos n) :
    ChildOk data (childOffset data mpos n) := by
  induction n generalizing rounds mpos found with
  | zero =>
    have hinside := visits_zero.mp hn
    cases rounds with
    | zero => omega
    | succ rounds =>
      rcases readChildren_succ data hinside rounds found with ⟨hok, -⟩ | ⟨-, heq⟩ | ⟨-, -, e, heq⟩
      · exact hok
      · exact absurd (heq.symm.trans h) (abort_ne_ok _)
      · exact absurd (heq.symm.trans h) (fail_ne_ok _ _)
  | succ n ih =>
    obtain ⟨⟨hinside, hok⟩, hrest⟩ := visits_succ.mp hn
    have hheader := headerLength_pos data mpos
    have hlength := hok.1.1.length
    cases rounds with
    | zero => omega
    | succ rounds =>
      rcases readChildren_succ data hinside rounds found
          with ⟨-, found', heq⟩ | ⟨hbreaks, -⟩ | ⟨hnot, -⟩
      · rw [heq] at h
        rw [← childOffset_next]
        exact ih (by omega) h hrest
      · exact absurd hok hbreaks.not_ok
      · exact absurd hok hnot

theorem readTyped_eq_abort {α : Type} {data boxType : Bytes} {e : Error}
    {f : JumbfBox → Res Error α} :
    (readBox data offset >>= fun b => reject (b.boxType ≠ boxType) e >>= fun _ => f b) = abort ↔
      Overflows data data.length offset
        ∨ HasBox data boxType offset ∧ f (boxAt data offset) = abort := by
  rw [res_bind_eq_abort, readBox_eq_abort]
  refine or_congr_right ⟨?_, ?_⟩
  · rintro ⟨b, hb, h⟩
    obtain ⟨hfits, rfl⟩ := readBox_eq_ok.mp hb
    obtain ⟨htype, h⟩ := reject_bind_eq_abort.mp h
    exact ⟨⟨hfits, not_not.mp htype⟩, h⟩
  · rintro ⟨⟨hfits, htype⟩, h⟩
    exact ⟨_, readBox_eq_ok.mpr ⟨hfits, rfl⟩, reject_bind_eq_abort.mpr ⟨not_not.mpr htype, h⟩⟩

theorem finish_eq_abort {x : Res Error Found} {label : String} :
    (x >>= fun found => okOr found.claimCbor (.validation "Missing claim box") >>= fun claimCbor =>
        okOr found.signature (.validation "Missing signature box") >>= fun signature =>
          mapErr (C.claimReader claimCbor)
              (fun e => Error.serialization ("Failed to decode claim CBOR: " ++ e)) >>= fun claim =>
            (.ok { claim, claimCbor, manifestLabel := label
                   assertionBoxes := found.assertionBoxes, signature } : Res Error C2paManifest))
        = abort ↔ x = abort := by
  rw [res_bind_eq_abort]
  refine or_iff_left ?_
  rintro ⟨found, -, h⟩
  revert h
  refine okOr_bind_ne_abort fun claimCbor => ?_
  refine okOr_bind_ne_abort fun signature => ?_
  refine res_bind_ne_abort ?_ fun _ _ => nofun
  cases C.claimReader claimCbor <;> exact nofun

/-- It aborts where the length of a box overflows. -/
theorem decodeJumbf_eq_abort :
    decodeJumbf C data = abort ↔
      ∃ parent offset, Reads data parent offset ∧ Overflows data data.length offset := by
  unfold decodeJumbf
  dsimp only
  rw [readTyped_eq_abort, readTyped_eq_abort, readTyped_eq_abort, readTyped_eq_abort]
  have hchildren : HasBox data JUMB (manifestOffset data) →
      (readChildren data (manifestEnd data) data.length (firstChild data)
          { claimCbor := none, assertionBoxes := [], signature := none } = abort ↔
        ∃ n, VisitsChild data n ∧ ChildBreaks data (child data n)) := fun hmanifest =>
    readChildren_eq_abort (by
      have : manifestEnd data ≤ data.length := hmanifest.1.2.2
      omega)
  constructor
  · rintro (h | ⟨hstore, h | ⟨hjumd, h | ⟨hmanifest, h | ⟨hmjumd, h⟩⟩⟩⟩)
    · exact ⟨_, _, .store, h⟩
    · exact ⟨_, _, .storeDescription hstore, h⟩
    · exact ⟨_, _, .manifest hstore hjumd, h⟩
    · exact ⟨_, _, .manifestDescription hstore hjumd hmanifest, h⟩
    · have hopened : Opened data := ⟨hstore, hjumd, hmanifest, hmjumd⟩
      obtain ⟨n, hn, hbreaks | ⟨hdesc, hbreaks⟩⟩ := (hchildren hmanifest).mp (finish_eq_abort.mp h)
      · exact ⟨_, _, .child hopened hn, hbreaks⟩
      · exact ⟨_, _, .childDescription hopened hn hdesc, hbreaks⟩
  · rintro ⟨parent, offset, hreads, hover⟩
    cases hreads with
    | store => exact .inl hover
    | storeDescription hstore => exact .inr ⟨hstore, .inl hover⟩
    | manifest hstore hjumd => exact .inr ⟨hstore, .inr ⟨hjumd, .inl hover⟩⟩
    | manifestDescription hstore hjumd hmanifest =>
      exact .inr ⟨hstore, .inr ⟨hjumd, .inr ⟨hmanifest, .inl hover⟩⟩⟩
    | child hopened hn =>
      obtain ⟨hstore, hjumd, hmanifest, hmjumd⟩ := hopened
      exact .inr ⟨hstore, .inr ⟨hjumd, .inr ⟨hmanifest, .inr ⟨hmjumd,
        finish_eq_abort.mpr ((hchildren hmanifest).mpr ⟨_, hn, .inl hover⟩)⟩⟩⟩⟩
    | childDescription hopened hn hdesc =>
      obtain ⟨hstore, hjumd, hmanifest, hmjumd⟩ := hopened
      exact .inr ⟨hstore, .inr ⟨hjumd, .inr ⟨hmanifest, .inr ⟨hmjumd,
        finish_eq_abort.mpr ((hchildren hmanifest).mpr ⟨_, hn, .inr ⟨hdesc, hover⟩⟩)⟩⟩⟩⟩

/-! ## Where the boxes are -/

theorem opened_of_decode (h : decodeJumbf C data = .ok m) :
    Opened data ∧ ∀ n, VisitsChild data n → ChildOk data (child data n) := by
  unfold decodeJumbf at h
  obtain ⟨store, hstore, h⟩ := res_bind_eq_ok.mp h
  obtain ⟨hstoreType, h⟩ := reject_bind_eq_ok.mp h
  obtain ⟨jumd, hjumd, h⟩ := res_bind_eq_ok.mp h
  obtain ⟨hjumdType, h⟩ := reject_bind_eq_ok.mp h
  obtain ⟨manifest, hmanifest, h⟩ := res_bind_eq_ok.mp h
  obtain ⟨hmanifestType, h⟩ := reject_bind_eq_ok.mp h
  obtain ⟨mjumd, hmjumd, h⟩ := res_bind_eq_ok.mp h
  obtain ⟨hmjumdType, h⟩ := reject_bind_eq_ok.mp h
  obtain ⟨found, hfound, -⟩ := res_bind_eq_ok.mp h
  obtain ⟨fits0, rfl⟩ := readBox_eq_ok.mp hstore
  obtain ⟨fits1, rfl⟩ := readBox_eq_ok.mp hjumd
  obtain ⟨fits2, rfl⟩ := readBox_eq_ok.mp hmanifest
  obtain ⟨fits3, rfl⟩ := readBox_eq_ok.mp hmjumd
  refine ⟨⟨⟨fits0, not_not.mp hstoreType⟩, ⟨fits1, not_not.mp hjumdType⟩,
    ⟨fits2, not_not.mp hmanifestType⟩, ⟨fits3, not_not.mp hmjumdType⟩⟩, fun n hn => ?_⟩
  have hstop : manifestEnd data ≤ data.length := fits2.2.2
  exact childOk_of_readChildren (Nat.le_add_left_of_le hstop) hfound hn

/-- Every box that is visited is inside of the content of its parent. -/
def Contained (data : Bytes) : Prop :=
  (∀ parent offset, Reads data parent offset → (boxSpan data offset).Within parent)
    ∧ ∀ parent walked, Walks data parent walked → walked.Within parent

/-- The length of a box has 32 bits. -/
def Compact (data : Bytes) (offset : Nat) : Prop := beInt 4 (data.drop offset) ≠ 1

structure LengthsNest (data : Bytes) : Prop where
  storeCompact : Compact data 0
  manifestCompact : Compact data (manifestOffset data)
  manifest : manifestEnd data ≤ boxLength data 0
  manifestDescription : firstChild data ≤ manifestEnd data
  children : ∀ n, VisitsChild data n → child data (n + 1) ≤ manifestEnd data
  descriptions : ∀ n, VisitsChild data n → Describes data (child data n) →
    Compact data (child data n)
      ∧ 8 + boxLength data (child data n + 8) ≤ boxLength data (child data n)

theorem headerLength_eq_iff : headerLength data offset ≤ 8 ↔ Compact data offset := by
  unfold headerLength Compact
  split
  next h => exact ⟨fun hle => absurd hle (by decide), fun hne => absurd h hne⟩
  next h => exact ⟨fun _ => h, fun _ => Nat.le_refl 8⟩

theorem flatten_boxesIn (fuel : Nat) (body : Bytes) : (boxesIn fuel body).flatten <+: body := by
  induction fuel generalizing body with
  | zero => exact List.nil_prefix
  | succ fuel ih =>
    rw [boxesIn]
    split
    next => exact List.nil_prefix
    next =>
      rw [List.flatten_cons]
      have h := ih (body.drop (beInt 4 body))
      have := (List.prefix_append_right_inj (body.take (beInt 4 body))).mpr h
      rwa [List.take_append_drop] at this

theorem within_of_walks {parent walked : Span} (h : Walks data parent walked) :
    walked.Within parent := by
  obtain @⟨n, skip, before, after, b, -, -, hdesc, -, hboxes⟩ := h
  have hfits := hdesc.1.1
  have hlength := hfits.1.length
  have hbody : (boxAt data (child data n)).body.length
      = boxLength data (child data n) - headerLength data (child data n) := by
    show ((data.take (child data n + boxLength data (child data n))).drop _).length = _
    have := hfits.2.2
    rw [List.length_drop, List.length_take]
    omega
  have hprefix := (flatten_boxesIn (boxAt data (child data n)).body.length
    ((boxAt data (child data n)).body.drop skip)).length_le
  have hmem : b ∈ boxesIn (boxAt data (child data n)).body.length
      ((boxAt data (child data n)).body.drop skip) := by
    rw [hboxes]
    simp
  have hmin := (framed_of_mem_boxesIn hmem).1
  rw [hboxes, List.flatten_append, List.flatten_cons, List.length_append, List.length_append,
    List.length_drop, hbody] at hprefix
  refine ⟨?_, ?_⟩
  · show child data n + headerLength data (child data n) ≤ _ + skip + _
    omega
  · show _ + skip + _ + b.length ≤ child data n + boxLength data (child data n)
    omega

/-- The boxes that were visited are nested just when their lengths are. -/
theorem contained_iff (h : decodeJumbf C data = .ok m) : Contained data ↔ LengthsNest data := by
  obtain ⟨hopened, hchildren⟩ := opened_of_decode h
  obtain ⟨hstore, hjumd, hmanifest, hmjumd⟩ := hopened
  have hopened : Opened data := ⟨hstore, hjumd, hmanifest, hmjumd⟩
  constructor
  · rintro ⟨hreads, -⟩
    -- each length is read off where its box is
    have hdescription := hreads _ _ (.storeDescription hstore)
    have hinner := hreads _ _ (.manifest hstore hjumd)
    have hinnerDescription := hreads _ _ (.manifestDescription hstore hjumd hmanifest)
    refine
      { storeCompact := headerLength_eq_iff.mp ?_
        manifestCompact := headerLength_eq_iff.mp ?_
        manifest := ?_
        manifestDescription := hinnerDescription.2
        children := fun n hn => (hreads _ _ (.child hopened hn)).2
        descriptions := fun n hn hdesc => ?_ }
    · have := hdescription.1
      rwa [contentSpan, Nat.zero_add] at this
    · exact Nat.le_of_add_le_add_left hinnerDescription.1
    · have : manifestEnd data ≤ 0 + boxLength data 0 := hinner.2
      rwa [Nat.zero_add] at this
    · have hwithin := hreads _ _ (.childDescription hopened hn hdesc)
      refine ⟨headerLength_eq_iff.mp (Nat.le_of_add_le_add_left hwithin.1), ?_⟩
      have hstop : child data n + 8 + boxLength data (child data n + 8)
        ≤ child data n + boxLength data (child data n) := hwithin.2
      omega
  · intro hnest
    have hstoreHeader := headerLength_eq_iff.mpr hnest.storeCompact
    have hmanifestHeader := headerLength_eq_iff.mpr hnest.manifestCompact
    have hend := hnest.manifest
    have hfirst := hnest.manifestDescription
    refine ⟨fun parent offset hreads => ?_, fun _ _ => within_of_walks⟩
    -- every box that is read, within the one that it was found in
    cases hreads with
    | store =>
      refine ⟨Nat.le_refl 0, ?_⟩
      have := hstore.1.2.2
      exact this
    | storeDescription =>
      refine ⟨?_, ?_⟩
      · show 0 + headerLength data 0 ≤ 8
        omega
      · show 8 + boxLength data 8 ≤ 0 + boxLength data 0
        unfold manifestEnd manifestOffset at hend
        omega
    | manifest =>
      refine ⟨?_, ?_⟩
      · show 0 + headerLength data 0 ≤ 8 + boxLength data 8
        omega
      · show manifestEnd data ≤ 0 + boxLength data 0
        omega
    | manifestDescription =>
      exact ⟨Nat.add_le_add_left hmanifestHeader _, hfirst⟩
    | @child n _ hn =>
      refine ⟨?_, hnest.children n hn⟩
      have hle := le_childOffset data (firstChild data) n
      show manifestOffset data + headerLength data (manifestOffset data) ≤ child data n
      unfold child
      unfold firstChild at hle ⊢
      omega
    | @childDescription n _ hn hdesc =>
      obtain ⟨hcompact, hlength⟩ := hnest.descriptions n hn hdesc
      refine ⟨Nat.add_le_add_left (headerLength_eq_iff.mpr hcompact) _, ?_⟩
      show child data n + 8 + boxLength data (child data n + 8)
        ≤ child data n + boxLength data (child data n)
      omega

/-! ## What is read back -/

/-- One complete box: its length, in one form or the other, is that of the bytes, or it is 0, which
    stands for all of them. -/
def SingleBox (b : Bytes) : Prop :=
  Headed b b.length 0 ∧ boxLength b 0 = b.length ∨ 8 ≤ b.length ∧ beInt 4 b = 0

/-- A manifest is written, and its parts are read back. -/
def RoundTrips (C : Crates) (m : C2paManifest) : Prop :=
  ∃ data read, encodeJumbf m = .ok data ∧ decodeJumbf C data = .ok read
    ∧ read.claimCbor = m.claimCbor ∧ read.manifestLabel = m.manifestLabel
    ∧ read.assertionBoxes = m.assertionBoxes ∧ read.signature = m.signature

theorem roundTrips_iff {claim : C2paClaim} (hclaim : C.claimReader m.claimCbor = .ok claim)
    (hne : Bytes.utf8 m.manifestLabel ≠ []) (hnul : (0 : UInt8) ∉ Bytes.utf8 m.manifestLabel) :
    RoundTrips C m ↔ (storeBox m).length < 2 ^ 32 ∧ ∀ b ∈ m.assertionBoxes, Framed b := by
  constructor
  · rintro ⟨data, read, hencode, hdecode, -, -, hboxes, -⟩
    refine ⟨(encodeJumbf_eq_ok.mp hencode).1, ?_⟩
    rw [← hboxes]
    exact (decodeJumbf_eq_ok hdecode).2
  · rintro ⟨hsize, hboxes⟩
    -- what the manifest says of its claim is not written
    have hread := decodeJumbf_storeBox (m := { m with claim := claim }) hsize hclaim hboxes hne hnul
    exact ⟨_, _, encodeJumbf_eq_ok.mpr ⟨hsize, rfl⟩, hread, rfl, rfl, rfl, rfl⟩

/-- Both readers return unless a box that they come to overflows; the boxes that the check looks
    at are nested, those that are read are when their lengths nest; and a manifest is read back
    when it is short and its assertion boxes have compact lengths. -/
theorem jumbf_faithful_iff (C : Crates) (debug : Bytes → String) :
    (∀ data, decodeJumbf C data ≠ abort ↔
        ∀ parent offset, Reads data parent offset → ¬ Overflows data data.length offset)
      ∧ (∀ data, verifyJumbfStructure debug data ≠ abort ↔
        (ChecksChildren data → ∀ n, Inspects data (boxLength data 0) (headerLength data 0) n →
          ¬ Breaks data (boxLength data 0) (childOffset data (headerLength data 0) n) n))
      ∧ (∀ data m, decodeJumbf C data = .ok m → (Contained data ↔ LengthsNest data))
      ∧ (∀ data info, verifyJumbfStructure debug data = .ok info →
        (boxSpan data 0).Within ⟨0, data.length⟩
          ∧ ∀ n, Inspects data (boxLength data 0) (headerLength data 0) n →
            (boxSpan data (childOffset data (headerLength data 0) n)).Within (contentSpan data 0))
      ∧ ∀ m claim, C.claimReader m.claimCbor = .ok claim → Bytes.utf8 m.manifestLabel ≠ [] →
        (0 : UInt8) ∉ Bytes.utf8 m.manifestLabel → (∀ b ∈ m.assertionBoxes, SingleBox b) →
        (RoundTrips C m ↔ (storeBox m).length < 2 ^ 32 ∧ ∀ b ∈ m.assertionBoxes, Framed b) := by
  refine ⟨fun data => ?_, fun data => ?_, fun _ _ => contained_iff, fun _ _ => within_of_verify,
    fun m claim hclaim hne hnul _ => roundTrips_iff hclaim hne hnul⟩
  · rw [Ne, decodeJumbf_eq_abort]
    push Not
    rfl
  · rw [Ne, verifyJumbfStructure_eq_abort]
    push Not
    rfl

def plainClaim : C2paClaim :=
  { claimGeneratorInfo := { name := "", version := none, specVersion := none }
    instanceId := "", signature := "", alg := none, createdAssertions := [] }

def plainManifest : C2paManifest :=
  { claim := plainClaim, claimCbor := plainClaim.toCbor.encode, manifestLabel := "m"
    assertionBoxes := [Bytes.toBE 4 8 ++ JUMB], signature := [] }

theorem plainClaim_read : readingCrates.claimReader plainManifest.claimCbor = .ok plainClaim :=
  readingCrates_faithful.claim plainClaim (by decide +kernel)

/-- A store with one assertion box is read back, and its boxes are within each other. -/
theorem jumbf_faithful_plain : RoundTrips readingCrates plainManifest
    ∧ (Contained (storeBox plainManifest) ↔ LengthsNest (storeBox plainManifest))
    ∧ ∀ n, Inspects (storeBox plainManifest) (boxLength (storeBox plainManifest) 0)
        (headerLength (storeBox plainManifest) 0) n →
      (boxSpan (storeBox plainManifest) (childOffset (storeBox plainManifest)
        (headerLength (storeBox plainManifest) 0) n)).Within
          (contentSpan (storeBox plainManifest) 0) := by
  obtain ⟨-, -, hread, hchecked, hmanifests⟩ := jumbf_faithful_iff readingCrates fun _ => ""
  have hbox : Framed (Bytes.toBE 4 8 ++ JUMB) := by decide
  have hround : RoundTrips readingCrates plainManifest := by
    refine (hmanifests plainManifest plainClaim plainClaim_read (by decide) (by decide) ?_).mpr
      ⟨?_, List.forall_mem_singleton.mpr hbox⟩
    · exact List.forall_mem_singleton.mpr (.inl ⟨⟨by decide, by decide, by decide⟩, by decide⟩)
    · rw [length_storeBox]
      decide +kernel
  obtain ⟨data, read, hencode, hdecode, -⟩ := id hround
  obtain ⟨-, rfl⟩ := encodeJumbf_eq_ok.mp hencode
  refine ⟨hround, hread _ _ hdecode, ?_⟩
  have hok : (verifyJumbfStructure (fun _ => "") (storeBox plainManifest)).toOption.map
      (fun _ => ())
      = some () := by
    decide +kernel
  obtain ⟨info, hinfo, -⟩ := exists_ok_of_toOption hok
  exact (hchecked _ _ hinfo).2

/-- A store whose description has the greatest length there is -/
def lengthOverflow : Bytes :=
  Bytes.toBE 4 24 ++ JUMB ++ Bytes.toBE 4 1 ++ JUMD ++ List.replicate 8 255

def longBox : Bytes := Bytes.toBE 4 1 ++ JUMB ++ Bytes.toBE 8 16

theorem lengths_lengthOverflow :
    headerLength lengthOverflow 0 = 8 ∧ boxLength lengthOverflow 0 = 24
      ∧ boxLength lengthOverflow 8 = 2 ^ 64 - 1 := by
  decide +kernel

/-- Both readers abort on that length, and a box with a long length field does not come back. -/
theorem jumbf_not_faithful :
    decodeJumbf readingCrates lengthOverflow = abort
      ∧ verifyJumbfStructure (fun _ => "") lengthOverflow = abort
      ∧ SingleBox longBox
      ∧ ¬ RoundTrips readingCrates { plainManifest with assertionBoxes := [longBox] } := by
  have hstore : HasBox lengthOverflow JUMB 0 :=
    ⟨⟨⟨by decide, by decide, by decide⟩, by decide, by decide⟩, by decide⟩
  -- the description's length added to its offset is past the greatest `u64`
  have hoverflows : Overflows lengthOverflow 24 8 := by
    refine ⟨⟨by decide, by decide, by decide⟩, ?_⟩
    rw [lengths_lengthOverflow.2.2]
    omega
  have hchild : Overflows lengthOverflow (boxLength lengthOverflow 0)
      (childOffset lengthOverflow (headerLength lengthOverflow 0) 0) := by
    rw [childOffset, lengths_lengthOverflow.1, lengths_lengthOverflow.2.1]
    exact hoverflows
  refine ⟨decodeJumbf_eq_abort.mpr ⟨_, 8, .storeDescription hstore, hoverflows⟩,
    (verifyJumbfStructure_eq_abort _ _).mpr ⟨by unfold ChecksChildren; decide, 0,
      inspects_zero.mpr (by decide), .inl hchild⟩,
    .inl ⟨⟨by decide, by decide, by decide⟩, by decide⟩, fun h => ?_⟩
  have hframed := ((roundTrips_iff (m := { plainManifest with assertionBoxes := [longBox] })
    plainClaim_read (by decide) (by decide)).mp h).2
  exact absurd (hframed longBox (List.mem_singleton.mpr rfl)) (by decide)

end WritersProof.C2pa
