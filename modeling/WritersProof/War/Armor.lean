/-
  WritersProof.War.Armor

  The text form of blocks (crates/authorproof-protocol/src/war/encoding.rs,
  crates/cpoe/src/war/encoding.rs): headers, a statement and a seal between markers.

  Both crates have a decoder of their own.  What the two do alike is here, with the
  differences as fields of `Armor`: which lines count as markers, which headers there are,
  and whether the place of the seal is checked.
-/
import WritersProof.War.Block
import WritersProof.Lib.Lines

namespace WritersProof.War

open Rust

/-! ## Word wrap -/

/-- `str::len` -/
def byteLength (text : List Char) : Nat := (Bytes.utf8 (String.ofList text)).length

/-- The lines from the open one on -/
def wrapFrom (width : Nat) : List Char → List (List Char) → List (List Char)
  | current, [] => if current = [] then [] else [current]
  | current, word :: ws =>
    if current = [] then wrapFrom width word ws
    else if byteLength current + 1 + byteLength word ≤ width then
      wrapFrom width (current ++ ' ' :: word) ws
    else current :: wrapFrom width word ws

def wordWrap (text : List Char) (width : Nat) : List (List Char) :=
  wrapFrom width [] (Text.words text)

theorem unwords_merge (current word : List Char) (ws : List (List Char)) :
    Text.unwords ((current ++ ' ' :: word) :: ws) = Text.unwords (current :: word :: ws) := by
  rw [Text.unwords_cons current (List.cons_ne_nil _ _)]
  cases ws with
  | nil => rw [Text.unwords, Text.unwords, List.intercalate_singleton, List.intercalate_singleton]
  | cons w ws =>
    rw [Text.unwords_cons _ (List.cons_ne_nil _ _), Text.unwords_cons _ (List.cons_ne_nil _ _),
      List.append_assoc, List.cons_append]

variable {width : Nat} {current : List Char}

theorem wrapFrom_ne_nil (h : current ≠ []) (ws : List (List Char)) :
    wrapFrom width current ws ≠ [] := by
  induction ws generalizing current with
  | nil =>
    rw [wrapFrom, if_neg h]
    exact List.cons_ne_nil _ _
  | cons word ws ih =>
    rw [wrapFrom, if_neg h]
    split
    next => exact ih (List.append_ne_nil_of_right_ne_nil _ (List.cons_ne_nil _ _))
    next => exact List.cons_ne_nil _ _

theorem unwords_wrapFrom {ws : List (List Char)} (hws : ∀ word ∈ ws, word ≠ []) :
    Text.unwords (wrapFrom width current ws)
      = Text.unwords (if current = [] then ws else current :: ws) := by
  induction ws generalizing current with
  | nil => rw [wrapFrom]
  | cons word ws ih =>
    obtain ⟨hword, hws'⟩ := List.forall_mem_cons.mp hws
    rw [wrapFrom]
    by_cases hcurrent : current = []
    · rw [if_pos hcurrent, if_pos hcurrent, ih hws', if_neg hword]
    · rw [if_neg hcurrent, if_neg hcurrent]
      split
      next =>
        rw [ih hws', if_neg (List.append_ne_nil_of_right_ne_nil _ (List.cons_ne_nil _ _)),
          unwords_merge]
      next =>
        rw [Text.unwords_cons _ (wrapFrom_ne_nil hword ws), ih hws', if_neg hword,
          Text.unwords_cons current (List.cons_ne_nil _ _)]

theorem unwords_wordWrap (text : List Char) (width : Nat) :
    Text.unwords (wordWrap text width) = Text.unwords (Text.words text) := by
  rw [wordWrap, unwords_wrapFrom fun word hword => (Text.isWord_of_mem_words hword).ne_nil,
    if_pos rfl]

/-- A line of words with single blanks between them -/
structure IsWrapped (line : List Char) : Prop where
  ne_nil : line ≠ []
  blank : ∀ c ∈ line, Text.isWhitespace c = true → c = ' '

theorem isWrapped_of_mem_wrapFrom {ws : List (List Char)}
    (hcurrent : ∀ c ∈ current, Text.isWhitespace c = true → c = ' ')
    (hws : ∀ word ∈ ws, Text.IsWord word) :
    ∀ line ∈ wrapFrom width current ws, IsWrapped line := by
  have hblank : ∀ {word : List Char}, Text.IsWord word →
      ∀ c ∈ word, Text.isWhitespace c = true → c = ' ' := by
    intro word hword c hc hspace
    rw [hword.noWhitespace c hc] at hspace
    cases hspace
  induction ws generalizing current with
  | nil =>
    rw [wrapFrom]
    split
    next => exact List.forall_mem_nil _
    next hne => exact List.forall_mem_singleton.mpr ⟨hne, hcurrent⟩
  | cons word ws ih =>
    obtain ⟨hword, hws'⟩ := List.forall_mem_cons.mp hws
    rw [wrapFrom]
    split
    next => exact ih (hblank hword) hws'
    next hne =>
      split
      next =>
        refine ih (fun c hc => ?_) hws'
        rcases List.mem_append.mp hc with hc | hc
        · exact hcurrent c hc
        · rcases List.mem_cons.mp hc with rfl | hc
          · exact fun _ => rfl
          · exact hblank hword c hc
      next => exact List.forall_mem_cons.mpr ⟨⟨hne, hcurrent⟩, ih (hblank hword) hws'⟩

theorem isWrapped_of_mem_wordWrap {text line : List Char} (h : line ∈ wordWrap text width) :
    IsWrapped line :=
  isWrapped_of_mem_wrapFrom (List.forall_mem_nil _) (fun _ => Text.isWord_of_mem_words) line h

theorem IsWrapped.isLine {line : List Char} (h : IsWrapped line) : Text.IsLine line where
  newline hmem := absurd (h.blank _ hmem (by decide)) (by decide)
  cr hlast := absurd (h.blank _ (List.mem_of_getLast? hlast) (by decide)) (by decide)

/-! ## Decoders -/

structure Armor (σ τ ρ : Type) where
  isBegin : List Char → Bool
  isEnd : List Char → Bool
  isSealBegin : List Char → Bool
  isSealEnd : List Char → Bool
  /-- The line that ends the headers -/
  isBlank : List Char → Bool
  /-- The headers before any is read -/
  unread : σ
  readHeader : σ → List Char → Res String σ
  required : σ → Res String τ
  /-- The seal is checked to come after the line that ends the headers. -/
  checksOrder : Bool
  decodeSeal : List Char → Res String ρ

def sliceLines (ls : List (List Char)) (a b : Nat) : Res String (List (List Char)) :=
  if a ≤ b ∧ b ≤ ls.length then .ok ((ls.take b).drop a) else abort

namespace Armor

variable {σ τ ρ : Type}

section Defs

variable (A : Armor σ τ ρ)

/-- The headers as far as the line that ends them, if there is one, and its number -/
def readHeaders : σ → Nat → List (List Char) → Res String (σ × Option Nat)
  | headers, _, [] => .ok (headers, none)
  | headers, i, line :: rest =>
    if A.isBlank line then .ok (headers, some i)
    else do
      let headers ← A.readHeader headers line
      readHeaders headers (i + 1) rest

def readSealed (ls : List (List Char)) (start end_ headerEnd : Nat) (headers : σ) :
    Res String (τ × List Char × ρ) := do
  let headers ← A.required headers
  let within ← sliceLines ls start end_
  let sealStart ← okOr ((within.findIdx? A.isSealBegin).map (start + ·)) "missing seal header"
  let sealEnd ← okOr ((within.findIdx? A.isSealEnd).map (start + ·)) "missing seal footer"
  reject (A.checksOrder = true ∧ sealStart < headerEnd + 1)
    "malformed WAR block: no separator between headers and seal"
  let statement ← sliceLines ls (headerEnd + 1) sealStart
  let digits ← sliceLines ls (sealStart + 1) sealEnd
  let decoded ← A.decodeSeal (digits.map Text.trim).flatten
  .ok (headers, Text.unwords (statement.filter (· ≠ [])), decoded)

def decode (text : List Char) : Res String (τ × List Char × ρ) := do
  let ls := Text.lines text
  let start ← okOr (ls.findIdx? A.isBegin) "missing WAR block header"
  let end_ ← okOr (ls.findIdx? A.isEnd) "missing WAR block footer"
  reject (end_ ≤ start) "invalid block structure"
  let body ← sliceLines ls (start + 1) end_
  let (headers, blank) ← A.readHeaders A.unread 0 body
  readSealed A ls start end_ (start + 1 + blank.getD 0) headers

/-- The lines of a report: from the first that begins one to the first that ends one -/
def IsReport (text : List Char) (report : List (List Char)) : Prop :=
  ∃ start end_, (Text.lines text).findIdx? A.isBegin = some start
    ∧ (Text.lines text).findIdx? A.isEnd = some end_ ∧ start < end_
    ∧ report = ((Text.lines text).take end_).drop start

def headerLines (report : List (List Char)) : List (List Char) :=
  (report.drop 1).takeWhile fun line => !A.isBlank line

/-- Where the decoder takes the headers of a report to end: behind its first line if no line
    ends them. -/
def headerEnd (report : List (List Char)) : Nat := 1 + ((report.drop 1).findIdx? A.isBlank).getD 0

/-- The headers are read, and none is missing. -/
def HeadersOk (hs : List (List Char)) : Prop :=
  ∃ headers required, hs.foldlM A.readHeader A.unread = .ok headers
    ∧ A.required headers = .ok required

/-- None of what is called by the decoder aborts. -/
structure Total : Prop where
  readHeader : ∀ headers line, A.readHeader headers line ≠ abort
  required : ∀ headers, A.required headers ≠ abort
  decodeSeal : ∀ digits, A.decodeSeal digits ≠ abort

end Defs

variable {A : Armor σ τ ρ}

/-! ## Slices that do not hold -/

variable {ls : List (List Char)} {a b i start end_ headerEnd : Nat} {p : List Char → Bool}
  {headers : σ} {required : τ} {statement : List Char} {decoded : ρ}

theorem sliceLines_of_le (hab : a ≤ b) (hb : b ≤ ls.length) :
    sliceLines ls a b = .ok ((ls.take b).drop a) := if_pos ⟨hab, hb⟩

theorem sliceLines_eq_abort (hb : b ≤ ls.length) : sliceLines ls a b = abort ↔ b < a := by
  unfold sliceLines
  by_cases hab : a ≤ b
  · rw [if_pos ⟨hab, hb⟩]
    exact ⟨nofun, fun hlt => absurd hab (Nat.not_le.mpr hlt)⟩
  · rw [if_neg fun h => hab h.1]
    exact ⟨fun _ => Nat.not_le.mp hab, fun _ => rfl⟩

theorem lt_of_findIdx? (h : ls.findIdx? p = some i) : i < ls.length :=
  (List.findIdx?_eq_some_iff_getElem.mp h).1

theorem readHeaders_ne_abort (hA : A.Total) (headers : σ) (i : Nat) (ls : List (List Char)) :
    A.readHeaders headers i ls ≠ abort := by
  induction ls generalizing headers i with
  | nil => exact nofun
  | cons line ls ih =>
    rw [readHeaders]
    split
    next => exact nofun
    next => exact res_bind_ne_abort (hA.readHeader headers line) fun headers' _ => ih headers' _

/-! ## The texts that abort a decoder -/

theorem readHeaders_eq_ok {read : σ} {blank : Option Nat} :
    A.readHeaders headers i ls = .ok (read, blank) ↔
      (ls.takeWhile fun line => !A.isBlank line).foldlM A.readHeader headers = .ok read
        ∧ blank = (ls.findIdx? A.isBlank).map (i + ·) := by
  induction ls generalizing headers i with
  | nil =>
    show Except.ok (headers, none) = Except.ok (read, blank) ↔
      Except.ok headers = Except.ok read ∧ blank = none
    rw [Except.ok.injEq, Except.ok.injEq, Prod.mk.injEq]
    exact and_congr_right fun _ => eq_comm
  | cons line ls ih =>
    rw [readHeaders, List.findIdx?_cons, List.takeWhile_cons]
    cases hblank : A.isBlank line with
    | true =>
      show Except.ok (headers, some i) = Except.ok (read, blank) ↔
        Except.ok headers = Except.ok read ∧ blank = some (i + 0)
      rw [Except.ok.injEq, Except.ok.injEq, Prod.mk.injEq, Nat.add_zero]
      exact and_congr_right fun _ => eq_comm
    | false =>
      simp only [Bool.false_eq_true, if_false, Bool.not_false, if_true, List.foldlM_cons,
        res_bind_eq_ok, ih, Option.map_map]
      have hshift : (fun j => i + 1 + j) = (fun j => i + j) ∘ fun j => j + 1 := by
        funext j
        exact (Nat.add_assoc i 1 j).trans (congrArg (i + ·) (Nat.add_comm 1 j))
      rw [hshift]
      constructor
      · rintro ⟨headers', hline, hrest, hindex⟩
        exact ⟨⟨headers', hline, hrest⟩, hindex⟩
      · rintro ⟨⟨headers', hline, hrest⟩, hindex⟩
        exact ⟨headers', hline, hrest, hindex⟩

theorem report_lt (h : ((ls.take end_).drop start).findIdx? p = some i) :
    start + i < end_ ∧ start + i < ls.length := by
  have hlt := lt_of_findIdx? h
  rw [List.length_drop, List.length_take] at hlt
  omega

theorem readSealed_eq_abort (hA : A.Total) (hstart : start ≤ end_) (hend : end_ ≤ ls.length) :
    readSealed A ls start end_ (start + headerEnd) headers = abort ↔
      ∃ required sealStart sealEnd, A.required headers = .ok required
        ∧ ((ls.take end_).drop start).findIdx? A.isSealBegin = some sealStart
        ∧ ((ls.take end_).drop start).findIdx? A.isSealEnd = some sealEnd
        ∧ (A.checksOrder = true → headerEnd < sealStart)
        ∧ (sealStart ≤ headerEnd ∨ sealEnd ≤ sealStart) := by
  unfold readSealed
  rw [sliceLines_of_le hstart hend]
  simp only [res_ok_bind, res_bind_eq_abort, hA.required, okOr_ne_abort, okOr_eq_ok, false_or,
    Option.map_eq_some_iff]
  constructor
  · rintro ⟨required, hreq, _, ⟨sealStart, hs, rfl⟩, _, ⟨sealEnd, he, rfl⟩, h⟩
    refine ⟨required, sealStart, sealEnd, hreq, hs, he, ?_⟩
    rcases h with h | ⟨⟨⟩, horder, h⟩
    · exact absurd h reject_ne_abort
    have horder' := reject_eq_ok.mp horder
    refine ⟨fun hc => by have := not_and.mp horder' hc; omega, ?_⟩
    rcases h with h | ⟨statement, -, h⟩
    · rw [sliceLines_eq_abort (report_lt hs).2.le] at h
      exact .inl (by omega)
    rcases h with h | ⟨digits, -, h⟩
    · rw [sliceLines_eq_abort (report_lt he).2.le] at h
      exact .inr (by omega)
    rcases h with h | ⟨decoded, -, h⟩
    · exact absurd h (hA.decodeSeal _)
    · cases h
  · rintro ⟨required, sealStart, sealEnd, hreq, hs, he, horder, h⟩
    refine ⟨required, hreq, _, ⟨sealStart, hs, rfl⟩, _, ⟨sealEnd, he, rfl⟩, .inr ⟨(), ?_, ?_⟩⟩
    · rw [reject_eq_ok, not_and]
      intro hc
      have := horder hc
      omega
    · by_cases hstatement : start + sealStart < start + headerEnd + 1
      · exact .inl ((sliceLines_eq_abort (report_lt hs).2.le).mpr hstatement)
      · refine .inr ⟨_, sliceLines_of_le (Nat.not_lt.mp hstatement) (report_lt hs).2.le, .inl ?_⟩
        rw [sliceLines_eq_abort (report_lt he).2.le]
        omega

/-- A decoder aborts on a report with all headers where it finds the mark that begins the seal
    among these, unless it looks for that, or not before the mark that ends the seal. -/
theorem decode_eq_abort_iff (hA : A.Total) (text : List Char) :
    A.decode text = abort ↔
      ∃ report sealStart sealEnd, A.IsReport text report ∧ A.HeadersOk (A.headerLines report)
        ∧ report.findIdx? A.isSealBegin = some sealStart
        ∧ report.findIdx? A.isSealEnd = some sealEnd
        ∧ (A.checksOrder = true → A.headerEnd report < sealStart)
        ∧ (sealStart ≤ A.headerEnd report ∨ sealEnd ≤ sealStart) := by
  unfold decode
  simp only [res_bind_eq_abort, okOr_ne_abort, okOr_eq_ok, false_or]
  constructor
  · rintro ⟨start, hstart, end_, hend, h⟩
    rcases h with h | ⟨⟨⟩, hlt, h⟩
    · exact absurd h reject_ne_abort
    have hlt' := Nat.not_le.mp (reject_eq_ok.mp hlt)
    have hend' := (lt_of_findIdx? hend).le
    rw [sliceLines_of_le hlt' hend'] at h
    rcases h with h | ⟨_, hbody, h⟩
    · cases h
    obtain rfl := Except.ok.inj hbody
    rcases h with h | ⟨⟨headers, blank⟩, hread, h⟩
    · exact absurd h (readHeaders_ne_abort hA _ _ _)
    obtain ⟨hfold, rfl⟩ := readHeaders_eq_ok.mp hread
    rw [Nat.add_assoc start 1] at h
    obtain ⟨required, sealStart, sealEnd, hreq, hs, he, horder, h⟩ :=
      (readSealed_eq_abort hA hlt'.le hend').mp h
    refine ⟨_, sealStart, sealEnd, ⟨start, end_, hstart, hend, hlt', rfl⟩,
      ⟨headers, required, ?_, hreq⟩, hs, he, ?_⟩
    · rwa [headerLines, List.drop_drop]
    · rw [headerEnd, List.drop_drop]
      simpa using And.intro horder h
  · rintro ⟨_, sealStart, sealEnd, ⟨start, end_, hstart, hend, hlt, rfl⟩,
      ⟨headers, required, hfold, hreq⟩, hs, he, horder, h⟩
    have hend' := (lt_of_findIdx? hend).le
    rw [headerLines, List.drop_drop] at hfold
    rw [headerEnd, List.drop_drop] at horder h
    refine ⟨start, hstart, end_, hend, .inr ⟨(), reject_eq_ok.mpr (Nat.not_le.mpr hlt), .inr
      ⟨_, sliceLines_of_le hlt hend', .inr ⟨(headers, _), readHeaders_eq_ok.mpr ⟨hfold, rfl⟩, ?_⟩⟩⟩⟩
    rw [Nat.add_assoc start 1]
    refine (readSealed_eq_abort hA hlt.le hend').mpr
      ⟨required, sealStart, sealEnd, hreq, hs, he, ?_⟩
    simpa using And.intro horder h

/-! ## What a decoder reads -/

theorem slice_report (hb : start + b ≤ end_) :
    (ls.take (start + b)).drop (start + a) = (((ls.take end_).drop start).take b).drop a := by
  rw [List.take_drop, List.drop_drop, List.take_take, Nat.min_eq_left hb]

theorem readSealed_eq_ok (hstart : start ≤ end_) (hend : end_ ≤ ls.length) :
    readSealed A ls start end_ (start + headerEnd) headers = .ok (required, statement, decoded) ↔
      ∃ sealStart sealEnd, A.required headers = .ok required
        ∧ ((ls.take end_).drop start).findIdx? A.isSealBegin = some sealStart
        ∧ ((ls.take end_).drop start).findIdx? A.isSealEnd = some sealEnd
        ∧ headerEnd < sealStart ∧ sealStart < sealEnd
        ∧ statement = Text.unwords (((((ls.take end_).drop start).take sealStart).drop
            (headerEnd + 1)).filter (· ≠ []))
        ∧ A.decodeSeal (((((ls.take end_).drop start).take sealEnd).drop
            (sealStart + 1)).map Text.trim).flatten = .ok decoded := by
  have hslice : ∀ {p : List Char → Bool} {i a : Nat} {within : List (List Char)},
      ((ls.take end_).drop start).findIdx? p = some i →
      (sliceLines ls (start + a + 1) (start + i) = .ok within ↔
        a < i ∧ within = (((ls.take end_).drop start).take i).drop (a + 1)) := by
    intro p i a within hi
    have hi' := (report_lt hi).1
    rw [sliceLines, ite_abort_eq_ok, ← slice_report hi'.le, Nat.add_assoc start a 1]
    constructor
    · rintro ⟨h, rfl⟩
      exact ⟨by omega, rfl⟩
    · rintro ⟨h, rfl⟩
      exact ⟨⟨by omega, by omega⟩, rfl⟩
  unfold readSealed
  rw [sliceLines_of_le hstart hend]
  simp only [res_ok_bind, res_bind_eq_ok, okOr_eq_ok, Option.map_eq_some_iff]
  constructor
  · rintro ⟨_, hreq, _, ⟨sealStart, hs, rfl⟩, _, ⟨sealEnd, he, rfl⟩, ⟨⟩, -, within, hwithin,
      digits, hdigits, decoded', hdecoded, h⟩
    obtain ⟨hlt, rfl⟩ := (hslice hs).mp hwithin
    obtain ⟨hlt', rfl⟩ := (hslice he).mp hdigits
    cases h
    exact ⟨sealStart, sealEnd, hreq, hs, he, hlt, hlt', rfl, hdecoded⟩
  · rintro ⟨sealStart, sealEnd, hreq, hs, he, hlt, hlt', rfl, hdecoded⟩
    refine ⟨required, hreq, _, ⟨sealStart, hs, rfl⟩, _, ⟨sealEnd, he, rfl⟩, (), ?_, _,
      (hslice hs).mpr ⟨hlt, rfl⟩, _, (hslice he).mpr ⟨hlt', rfl⟩, _, hdecoded, rfl⟩
    rw [reject_eq_ok]
    omega

/-- A decoder reads a report with all headers whose seal comes after them. -/
theorem decode_eq_ok {text : List Char} :
    A.decode text = .ok (required, statement, decoded) ↔
      ∃ report headers sealStart sealEnd, A.IsReport text report
        ∧ (A.headerLines report).foldlM A.readHeader A.unread = .ok headers
        ∧ A.required headers = .ok required
        ∧ report.findIdx? A.isSealBegin = some sealStart
        ∧ report.findIdx? A.isSealEnd = some sealEnd
        ∧ A.headerEnd report < sealStart ∧ sealStart < sealEnd
        ∧ statement = Text.unwords (((report.take sealStart).drop (A.headerEnd report + 1)).filter
            (· ≠ []))
        ∧ A.decodeSeal (((report.take sealEnd).drop (sealStart + 1)).map Text.trim).flatten
            = .ok decoded := by
  unfold decode
  simp only [res_bind_eq_ok, okOr_eq_ok]
  constructor
  · rintro ⟨start, hstart, end_, hend, ⟨⟩, hlt, _, hbody, ⟨headers, blank⟩, hread, h⟩
    have hlt' := Nat.not_le.mp (reject_eq_ok.mp hlt)
    have hend' := (lt_of_findIdx? hend).le
    rw [sliceLines_of_le hlt' hend'] at hbody
    obtain rfl := Except.ok.inj hbody
    obtain ⟨hfold, rfl⟩ := readHeaders_eq_ok.mp hread
    rw [Nat.add_assoc start 1] at h
    obtain ⟨sealStart, sealEnd, hreq, hs, he, hheader, hseal, hstatement, hdecoded⟩ :=
      (readSealed_eq_ok hlt'.le hend').mp h
    refine ⟨_, headers, sealStart, sealEnd, ⟨start, end_, hstart, hend, hlt', rfl⟩, ?_,
      hreq, hs, he, ?_, hseal, ?_, hdecoded⟩
    · rwa [headerLines, List.drop_drop]
    · rw [headerEnd, List.drop_drop]
      simpa using hheader
    · rw [headerEnd, List.drop_drop]
      simpa using hstatement
  · rintro ⟨_, headers, sealStart, sealEnd, ⟨start, end_, hstart, hend, hlt, rfl⟩, hfold, hreq, hs,
      he, hheader, hseal, hstatement, hdecoded⟩
    have hend' := (lt_of_findIdx? hend).le
    rw [headerLines, List.drop_drop] at hfold
    rw [headerEnd, List.drop_drop] at hheader hstatement
    refine ⟨start, hstart, end_, hend, (), reject_eq_ok.mpr (Nat.not_le.mpr hlt), _,
      sliceLines_of_le hlt hend', (headers, _), readHeaders_eq_ok.mpr ⟨hfold, rfl⟩, ?_⟩
    rw [Nat.add_assoc start 1]
    refine (readSealed_eq_ok hlt.le hend').mpr
      ⟨sealStart, sealEnd, hreq, hs, he, ?_, hseal, ?_, hdecoded⟩
    · simpa using hheader
    · simpa using hstatement

/-! ## Framed texts -/

theorem findIdx?_eq_length {before after : List (List Char)} {l : List Char}
    (hbefore : ∀ x ∈ before, p x = false) (hl : p l = true) :
    (before ++ l :: after).findIdx? p = some before.length := by
  induction before with
  | nil => rw [List.nil_append, List.findIdx?_cons, if_pos hl, List.length_nil]
  | cons x before ih =>
    rw [List.forall_mem_cons] at hbefore
    rw [List.cons_append, List.findIdx?_cons, if_neg (Bool.eq_false_iff.mp hbefore.1),
      ih hbefore.2, Option.map_some, List.length_cons]

/-- The lines between which an encoder writes. -/
structure Frame (A : Armor σ τ ρ) where
  first : List Char
  sealBegin : List Char
  sealEnd : List Char
  last : List Char
  isBegin_first : A.isBegin first = true
  isEnd_last : A.isEnd last = true
  isSealBegin_sealBegin : A.isSealBegin sealBegin = true
  isSealEnd_sealEnd : A.isSealEnd sealEnd = true
  isBlank_nil : A.isBlank [] = true
  notEnd : ∀ l ∈ [first, [], sealBegin, sealEnd], A.isEnd l = false
  notSealBegin : ∀ l ∈ [first, []], A.isSealBegin l = false
  notSealEnd : ∀ l ∈ [first, [], sealBegin], A.isSealEnd l = false

/-- A line that the decoder takes for no mark behind the first line -/
structure Clean (A : Armor σ τ ρ) (line : List Char) : Prop where
  isEnd : A.isEnd line = false
  isSealBegin : A.isSealBegin line = false
  isSealEnd : A.isSealEnd line = false

namespace Frame

variable (F : Frame A) (hs ws ds : List (List Char))

/-- The lines as far as the statement: the first, the headers and a blank one -/
def header : List (List Char) := F.first :: hs ++ [[]]

/-- The lines of a report with these headers, statement and digits -/
def report : List (List Char) :=
  F.header hs ++ (ws ++ [[]]) ++ F.sealBegin :: (ds ++ [F.sealEnd])

def lines : List (List Char) := F.report hs ws ds ++ [F.last]

variable {F hs ws ds}

theorem length_header : (F.header hs).length = hs.length + 2 := by
  simp [header]

variable {l text : List Char} {xs : List (List Char)}

theorem mem_header : l ∈ F.header hs ↔ l = F.first ∨ l ∈ hs ∨ l = [] := by
  simp [header]

/-- The lines of a framed text hold no marks but those of the frame. -/
structure Unmarked (A : Armor σ τ ρ) (hs ws ds : List (List Char)) : Prop where
  headers : ∀ l ∈ hs, A.isBlank l = false ∧ Clean A l
  statement : ∀ l ∈ ws, l ≠ [] ∧ Clean A l
  digits : ∀ l ∈ ds, A.isEnd l = false ∧ A.isSealEnd l = false

theorem lines_eq : F.lines hs ws ds
    = F.first :: hs ++ [[]] ++ ws ++ [[]] ++ [F.sealBegin] ++ ds ++ [F.sealEnd, F.last] := by
  simp [lines, report, header]

theorem report_eq : F.report hs ws ds
    = (F.header hs ++ (ws ++ [[]]) ++ F.sealBegin :: ds) ++ F.sealEnd :: [] := by
  simp [report]

theorem drop_one_report : (F.report hs ws ds).drop 1
    = hs ++ [] :: (ws ++ [] :: F.sealBegin :: (ds ++ [F.sealEnd])) := by
  simp [report, header]

section

variable (h : Unmarked A hs ws ds)

include h

theorem Unmarked.before_seal :
    ∀ l ∈ F.header hs ++ (ws ++ [[]]), A.isSealBegin l = false := by
  obtain ⟨hfirst, hblank⟩ : _ ∧ _ := by simpa using F.notSealBegin
  intro l hl
  simp only [mem_header, List.mem_cons, List.mem_append, List.not_mem_nil, or_false] at hl
  rcases hl with (rfl | hl | rfl) | hl | rfl
  exacts [hfirst, (h.headers l hl).2.isSealBegin, hblank, (h.statement l hl).2.isSealBegin, hblank]

theorem Unmarked.before_end :
    ∀ l ∈ F.header hs ++ (ws ++ [[]]) ++ F.sealBegin :: ds,
      A.isEnd l = false ∧ A.isSealEnd l = false := by
  obtain ⟨hfirst, hblank, hbegin, -⟩ : _ ∧ _ ∧ _ ∧ _ := by simpa using F.notEnd
  obtain ⟨hfirst', hblank', hbegin'⟩ : _ ∧ _ ∧ _ := by simpa using F.notSealEnd
  intro l hl
  simp only [mem_header, List.mem_cons, List.mem_append, List.not_mem_nil, or_false] at hl
  rcases hl with ((rfl | hl | rfl) | hl | rfl) | rfl | hl
  exacts [⟨hfirst, hfirst'⟩, ⟨(h.headers l hl).2.isEnd, (h.headers l hl).2.isSealEnd⟩,
    ⟨hblank, hblank'⟩, ⟨(h.statement l hl).2.isEnd, (h.statement l hl).2.isSealEnd⟩,
    ⟨hblank, hblank'⟩, ⟨hbegin, hbegin'⟩, h.digits l hl]

theorem Unmarked.isReport_iff (hlines : Text.lines text = F.lines hs ws ds)
    {found : List (List Char)} :
    A.IsReport text found ↔ found = F.report hs ws ds := by
  have hstart : (F.lines hs ws ds).findIdx? A.isBegin = some 0 := by
    simp [lines, report, header, List.findIdx?_cons, F.isBegin_first]
  have hend : (F.lines hs ws ds).findIdx? A.isEnd = some (F.report hs ws ds).length := by
    refine findIdx?_eq_length (fun l hl => ?_) F.isEnd_last
    rw [report_eq, List.mem_append] at hl
    rcases hl with hl | hl
    · exact (h.before_end l hl).1
    · rw [List.mem_singleton.mp hl]
      exact F.notEnd _ (by simp)
  have htake : ((F.lines hs ws ds).take (F.report hs ws ds).length).drop 0 = F.report hs ws ds := by
    rw [lines, List.take_left, List.drop_zero]
  unfold IsReport
  rw [hlines]
  constructor
  · rintro ⟨start, end_, hstart', hend', -, rfl⟩
    obtain rfl := Option.some.inj (hstart.symm.trans hstart')
    obtain rfl := Option.some.inj (hend.symm.trans hend')
    exact htake
  · rintro rfl
    exact ⟨0, _, hstart, hend, by simp [report], htake.symm⟩

/-- What a decoder reads of lines that hold no marks. -/
theorem Unmarked.decode_eq_ok (hlines : Text.lines text = F.lines hs ws ds)
    {statement : List Char} :
    A.decode text = .ok (required, statement, decoded) ↔
      (∃ headers, hs.foldlM A.readHeader A.unread = .ok headers
        ∧ A.required headers = .ok required)
        ∧ statement = Text.unwords ws ∧ A.decodeSeal (ds.map Text.trim).flatten = .ok decoded := by
  -- where the decoder finds each part of the written report
  have hheaderLines : A.headerLines (F.report hs ws ds) = hs := by
    rw [headerLines, drop_one_report, List.takeWhile_append_of_pos, List.takeWhile_cons_of_neg,
      List.append_nil]
    · simp [F.isBlank_nil]
    · simpa using fun l hl => (h.headers l hl).1
  have hheaderEnd : A.headerEnd (F.report hs ws ds) + 1 = (F.header hs).length := by
    rw [headerEnd, drop_one_report,
      findIdx?_eq_length (fun l hl => (h.headers l hl).1) F.isBlank_nil, Option.getD_some,
      length_header, Nat.add_comm 1]
  have hsealStart : (F.report hs ws ds).findIdx? A.isSealBegin
      = some (F.header hs ++ (ws ++ [[]])).length :=
    findIdx?_eq_length h.before_seal F.isSealBegin_sealBegin
  have hsealEnd : (F.report hs ws ds).findIdx? A.isSealEnd
      = some (F.header hs ++ (ws ++ [[]]) ++ F.sealBegin :: ds).length := by
    rw [report_eq]
    exact findIdx?_eq_length (fun l hl => (h.before_end l hl).2) F.isSealEnd_sealEnd
  have hwords : ((((F.report hs ws ds).take (F.header hs ++ (ws ++ [[]])).length).drop
      (F.header hs).length).filter (· ≠ [])) = ws := by
    rw [report, List.take_left, List.drop_left, List.filter_append, List.filter_eq_self.mpr]
    · simp
    · simpa using fun l hl => (h.statement l hl).1
  have hdigits : ((F.report hs ws ds).take
      (F.header hs ++ (ws ++ [[]]) ++ F.sealBegin :: ds).length).drop
        ((F.header hs ++ (ws ++ [[]])).length + 1) = ds := by
    have hlength : (F.header hs ++ (ws ++ [[]])).length + 1
        = (F.header hs ++ (ws ++ [[]]) ++ [F.sealBegin]).length := by
      simp only [List.length_append, List.length_singleton]
    rw [report_eq, List.take_left, hlength, List.append_cons _ _ ds, List.drop_left]
  rw [Armor.decode_eq_ok]
  constructor
  · rintro ⟨found, headers, sealStart, sealEnd, hfound, hread, hrequired, hstart, hend, -, -,
      hstatement, hdecoded⟩
    obtain rfl := (h.isReport_iff hlines).mp hfound
    obtain rfl := Option.some.inj (hsealStart.symm.trans hstart)
    obtain rfl := Option.some.inj (hsealEnd.symm.trans hend)
    rw [hheaderLines] at hread
    rw [hheaderEnd, hwords] at hstatement
    rw [hdigits] at hdecoded
    exact ⟨⟨headers, hread, hrequired⟩, hstatement, hdecoded⟩
  · rintro ⟨⟨headers, hread, hrequired⟩, hstatement, hdecoded⟩
    refine ⟨F.report hs ws ds, headers, _, _, (h.isReport_iff hlines).mpr rfl, ?_, hrequired,
      hsealStart, hsealEnd, ?_, ?_, ?_, ?_⟩
    · rwa [hheaderLines]
    · refine Nat.lt_of_succ_le ?_
      rw [Nat.succ_eq_add_one, hheaderEnd, List.length_append]
      exact Nat.le_add_right _ _
    · simp
    · rwa [hheaderEnd, hwords]
    · rwa [hdigits]

end

theorem false_of_mem_take (h : xs.findIdx? p = some i) : ∀ x ∈ xs.take i, p x = false := by
  obtain ⟨hi, -, hbefore⟩ := List.findIdx?_eq_some_iff_getElem.mp h
  intro x hx
  obtain ⟨j, hj, rfl⟩ := List.mem_take_iff_getElem.mp hx
  exact Bool.eq_false_iff.mpr (hbefore j (by omega))

theorem exists_of_findIdx? (h : xs.findIdx? p = some i) : ∃ x, xs[i]? = some x ∧ p x = true := by
  obtain ⟨hi, hp, -⟩ := List.findIdx?_eq_some_iff_getElem.mp h
  exact ⟨xs[i], List.getElem?_eq_getElem hi, hp⟩

theorem mem_of_short {stop sealStart sealEnd : Nat} (h : stop < (F.header hs).length)
    (hl : l ∈ (((F.lines hs ws ds).take stop).take sealEnd).drop (sealStart + 1)) : l ∈ hs := by
  have hall : F.lines hs ws ds
      = F.header hs ++ (ws ++ [] :: F.sealBegin :: (ds ++ [F.sealEnd, F.last])) := by
    simp [lines, report]
  rw [length_header] at h
  have hreport : (F.lines hs ws ds).take stop = (F.first :: hs).take stop := by
    rw [hall, header, List.append_assoc]
    exact List.take_append_of_le_length (Nat.le_of_lt_succ h)
  rw [hreport, List.take_take] at hl
  cases hmin : min sealEnd stop with
  | zero =>
    rw [hmin] at hl
    cases hl
  | succ n =>
    rw [hmin, List.take_succ_cons, List.drop_succ_cons] at hl
    exact List.mem_of_mem_take (List.mem_of_mem_drop hl)

theorem length_lt_of_statement (hblank : A.isSealBegin [] = false) (hws : ∀ l ∈ ws, l ≠ [])
    {rest tail : List (List Char)} (hrest : rest = ws ++ [] :: tail) {m k : Nat} (hkm : k < m)
    (hl : (rest.take m)[k]? = some l) (hbegin : A.isSealBegin l = true)
    (hstatement : Text.unwords ws = Text.unwords (((rest.take m).take k).filter (· ≠ []))) :
    ws.length < k := by
  by_contra hk
  rcases Nat.lt_or_eq_of_le (Nat.not_lt.mp hk) with hk | rfl
  · have hcut : (rest.take m).take k = ws.take k := by
      rw [List.take_take, Nat.min_eq_left hkm.le, hrest, List.take_append_of_le_length hk.le]
    rw [hcut, List.filter_eq_self.mpr] at hstatement
    · exact Text.unwords_take_ne hws hk hstatement.symm
    · simpa using fun l hl => hws l (List.mem_of_mem_take hl)
  · rw [List.getElem?_take_of_lt hkm, hrest,
      List.getElem?_append_right (Nat.le_refl _), Nat.sub_self, List.getElem?_cons_zero] at hl
    cases hl
    exact absurd hbegin (Bool.eq_false_iff.mp hblank)

/-- If a decoder reads the statement of a report, then neither this nor the headers hold a mark:
    a mark among the headers leaves no digits in front of it, one in the statement cuts it. -/
theorem clean_of_decode (hlines : Text.lines text = F.lines hs ws ds)
    (hhs : ∀ l ∈ hs, A.isBlank l = false) (hws : ∀ l ∈ ws, l ≠ [])
    (hdigits : ∀ ls : List (List Char), (∀ l ∈ ls, l ∈ hs) →
      ∀ decoded, A.decodeSeal (ls.map Text.trim).flatten ≠ .ok decoded)
    (hdecode : A.decode text = .ok (required, Text.unwords ws, decoded)) :
    ∀ l ∈ hs ++ ws, Clean A l := by
  obtain ⟨_, headers, sealStart, sealEnd, ⟨start, end_, hstart, hend, -, rfl⟩, -, -, hs',
    he, hheader, hseal, hstatement, hdecoded⟩ := decode_eq_ok.mp hdecode
  have hstart' : (F.lines hs ws ds).findIdx? A.isBegin = some 0 := by
    simp [lines, report, header, List.findIdx?_cons, F.isBegin_first]
  rw [hlines] at hstart hend hs' he hheader hstatement hdecoded
  obtain rfl := Option.some.inj (hstart'.symm.trans hstart)
  rw [List.drop_zero] at hs' he hheader hstatement hdecoded
  obtain ⟨rest, hrest⟩ : ∃ rest, rest = ws ++ [] :: F.sealBegin :: (ds ++ [F.sealEnd, F.last]) :=
    ⟨_, rfl⟩
  have hall : F.lines hs ws ds = F.header hs ++ rest := by
    simp [lines, report, hrest]
  rcases Nat.lt_or_ge end_ (F.header hs).length with hshort | hlong
  · -- the report ends among the headers
    exact absurd hdecoded (hdigits _ (fun l hl => mem_of_short hshort hl) _)
  · obtain ⟨m, rfl⟩ := Nat.exists_eq_add_of_le hlong
    have hreport : (F.lines hs ws ds).take ((F.header hs).length + m)
        = F.header hs ++ rest.take m := by
      rw [hall, List.take_length_add_append]
    have hheaderEnd : A.headerEnd (F.header hs ++ rest.take m) + 1 = (F.header hs).length := by
      have hbody : (F.header hs ++ rest.take m).drop 1 = hs ++ [] :: rest.take m := by
        simp [header]
      rw [headerEnd, hbody, findIdx?_eq_length hhs F.isBlank_nil, Option.getD_some, length_header,
        Nat.add_comm 1]
    obtain ⟨l, hl, hbegin⟩ := exists_of_findIdx? hs'
    have hlt : sealEnd < (F.header hs).length + m := by
      have := lt_of_findIdx? he
      rw [List.length_take] at this
      omega
    rw [hreport] at hl hheader hstatement
    rw [← Nat.succ_le_iff, Nat.succ_eq_add_one, hheaderEnd] at hheader
    obtain ⟨k, rfl⟩ := Nat.exists_eq_add_of_le hheader
    rw [List.getElem?_append_right (Nat.le_add_right _ _), Nat.add_sub_cancel_left] at hl
    rw [hheaderEnd, List.take_length_add_append, List.drop_left] at hstatement
    -- the statement is whole, so the seal begins behind it
    have hk : ws.length < k :=
      length_lt_of_statement (F.notSealBegin [] (by simp)) hws hrest (by omega) hl hbegin hstatement
    -- every line of the two is among those that were searched
    have hmem : ∀ n, (F.header hs).length + k ≤ n → ∀ l ∈ hs ++ ws,
        l ∈ (F.lines hs ws ds).take n := by
      intro n hn l hl
      have hfront : F.header hs ++ ws <+: (F.lines hs ws ds).take n := by
        rw [List.prefix_take_iff, List.length_append]
        refine ⟨?_, by omega⟩
        rw [hall, hrest, ← List.append_assoc]
        exact List.prefix_append _ _
      refine hfront.subset (List.mem_append.mpr ?_)
      exact (List.mem_append.mp hl).imp (fun hl => mem_header.mpr (.inr (.inl hl))) id
    have htake : ∀ n, (F.header hs).length + k ≤ n → n ≤ (F.header hs).length + m →
        ∀ l ∈ hs ++ ws, l ∈ ((F.lines hs ws ds).take ((F.header hs).length + m)).take n := by
      intro n hn hnm l hl
      rw [List.take_take, Nat.min_eq_left hnm]
      exact hmem n hn l hl
    intro l hl
    exact
      { isEnd := false_of_mem_take hend l (hmem _ (by omega) l hl)
        isSealBegin := false_of_mem_take hs' l (htake _ (by omega) (by omega) l hl)
        isSealEnd := false_of_mem_take he l (htake _ (by omega) (by omega) l hl) }

end Frame

end Armor

end WritersProof.War
