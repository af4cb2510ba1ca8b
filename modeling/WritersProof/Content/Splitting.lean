/-
  WritersProof.Content.Splitting

  What splitting does to a text (crates/cpoe/src/content/segmentation.rs): whitespace is
  dropped at the ends of segments and between lines, and everything else is in one segment.
-/
import WritersProof.Content.Segmentation
import WritersProof.Lib.Lines

namespace WritersProof.Content

namespace Unicode

/-- What ends a line and what joins lines is whitespace. -/
structure Spaced (u : Unicode) : Prop where
  newline : u.isWhitespace '\n' = true
  cr : u.isWhitespace '\r' = true
  space : u.isWhitespace ' ' = true

variable (u : Unicode)

def deleteWhitespace (text : List Char) : List Char := text.filter fun c => !u.isWhitespace c

/-- Neither blank nor with whitespace at an end -/
structure Trimmed (text : List Char) : Prop where
  ne_nil : text ≠ []
  first : ∀ c ∈ text.head?, u.isWhitespace c = false
  last : ∀ c ∈ text.getLast?, u.isWhitespace c = false

variable {u}

/-! ## Trimming -/

@[simp] theorem deleteWhitespace_append (a b : List Char) :
    u.deleteWhitespace (a ++ b) = u.deleteWhitespace a ++ u.deleteWhitespace b :=
  List.filter_append _ _

variable {c : Char} {text rest current segment : List Char} {granularity : ContentGranularity}

theorem deleteWhitespace_singleton (h : u.isWhitespace c = true) : u.deleteWhitespace [c] = [] := by
  rw [deleteWhitespace, List.filter_singleton, h]
  rfl

theorem deleteWhitespace_dropWhile (text : List Char) :
    u.deleteWhitespace (text.dropWhile u.isWhitespace) = u.deleteWhitespace text := by
  induction text with
  | nil => rfl
  | cons c text ih =>
    rw [List.dropWhile_cons]
    split
    · rename_i hc
      rw [ih, deleteWhitespace, deleteWhitespace, List.filter_cons_of_neg]
      rw [hc]
      decide
    · rfl

theorem deleteWhitespace_reverse (text : List Char) :
    u.deleteWhitespace text.reverse = (u.deleteWhitespace text).reverse :=
  List.filter_reverse

theorem deleteWhitespace_trim (text : List Char) :
    u.deleteWhitespace (u.trim text) = u.deleteWhitespace text := by
  rw [trim, deleteWhitespace_reverse, deleteWhitespace_dropWhile, deleteWhitespace_reverse,
    List.reverse_reverse, deleteWhitespace_dropWhile]

theorem deleteWhitespace_of_blank (h : u.trim text = []) : u.deleteWhitespace text = [] := by
  rw [← deleteWhitespace_trim, h]
  rfl

theorem isWhitespace_head_dropWhile (text : List Char)
    (h : c ∈ (text.dropWhile u.isWhitespace).head?) : u.isWhitespace c = false := by
  have hnot := List.head?_dropWhile_not u.isWhitespace text
  rw [h] at hnot
  exact hnot

theorem trimmed_trim (h : u.trim text ≠ []) : u.Trimmed (u.trim text) := by
  refine ⟨h, fun c hc => ?_, fun c hc => ?_⟩
  · -- The front is that of what `dropWhile` has left.
    obtain ⟨back, hback⟩ : u.trim text <+: text.dropWhile u.isWhitespace :=
      List.rdropWhile_prefix _ _
    apply u.isWhitespace_head_dropWhile text
    rw [← hback, List.head?_append, hc]
    rfl
  · apply u.isWhitespace_head_dropWhile (text.dropWhile u.isWhitespace).reverse
    rw [trim, List.getLast?_reverse] at hc
    exact hc

theorem Trimmed.trim_eq (h : u.Trimmed text) : u.trim text = text := by
  have hfront : text.dropWhile u.isWhitespace = text := by
    cases text with
    | nil => rfl
    | cons c text =>
      rw [List.dropWhile_cons_of_neg]
      rw [h.first c rfl]
      decide
  show (text.dropWhile u.isWhitespace).rdropWhile u.isWhitespace = text
  rw [hfront, List.rdropWhile_eq_self_iff]
  intro hne
  rw [h.last _ (List.getLast?_eq_some_getLast hne)]
  decide

theorem mem_of_mem_trim (h : c ∈ u.trim text) : c ∈ text := by
  rw [trim, List.mem_reverse] at h
  have hrest := (List.dropWhile_suffix u.isWhitespace).subset h
  rw [List.mem_reverse] at hrest
  exact (List.dropWhile_suffix u.isWhitespace).subset hrest

theorem Trimmed.join {a b : List Char} (ha : u.Trimmed a) (hb : u.Trimmed b) (between : List Char) :
    u.Trimmed (a ++ between ++ b) := by
  refine ⟨fun h => hb.ne_nil (List.append_eq_nil_iff.mp h).2, fun c hc => ha.first c ?_,
    fun c hc => hb.last c ?_⟩
  · rwa [List.append_assoc, List.head?_append_of_ne_nil _ ha.ne_nil] at hc
  · rwa [List.getLast?_append_of_ne_nil _ hb.ne_nil] at hc

/-! ## The loops -/

/-- Segments with all of a text but whitespace, each as it should be -/
structure Splits (u : Unicode) (text : List Char) (P : List Char → Prop)
    (segments : List (List Char)) : Prop where
  complete : segments.flatMap u.deleteWhitespace = u.deleteWhitespace text
  all : ∀ segment ∈ segments, P segment

theorem Splits.cons {text rest segment : List Char} {P : List Char → Prop}
    {segments : List (List Char)} (h : Splits u rest P segments) (hsegment : P segment)
    (htext : u.deleteWhitespace text = u.deleteWhitespace segment ++ u.deleteWhitespace rest) :
    Splits u text P (segment :: segments) :=
  ⟨by rw [List.flatMap_cons, h.complete, htext], List.forall_mem_cons.mpr ⟨hsegment, h.all⟩⟩

theorem Splits.of_eq {P : List Char → Prop} {segments : List (List Char)}
    (h : Splits u rest P segments) (htext : u.deleteWhitespace text = u.deleteWhitespace rest) :
    Splits u text P segments :=
  ⟨h.complete.trans htext.symm, h.all⟩

/-- A line without the carriage return of its end -/
theorem deleteWhitespace_stripCr (hu : u.Spaced) (line : List Char) :
    u.deleteWhitespace (if line.getLast? = some '\r' then line.dropLast else line)
      = u.deleteWhitespace line := by
  split
  · rename_i hcr
    obtain ⟨front, rfl⟩ := List.getLast?_eq_some_iff.mp hcr
    rw [List.dropLast_concat, deleteWhitespace_append, deleteWhitespace_singleton hu.cr,
      List.append_nil]
  · rfl

theorem linesLoop_spec (hu : u.Spaced) (hcurrent : '\n' ∉ current) :
    Splits u (current ++ text) (fun line => '\n' ∉ line) (linesLoop current text) := by
  induction text generalizing current with
  | nil =>
    cases current with
    | nil => exact ⟨rfl, fun _ h => nomatch h⟩
    | cons c current =>
      refine ⟨?_, fun line hline => ?_⟩
      · rw [linesLoop, List.flatMap_singleton, List.append_nil]
        exact fun h => nomatch h
      · rw [linesLoop] at hline
        · rwa [List.mem_singleton.mp hline]
        · exact fun h => nomatch h
  | cons c rest ih =>
    rw [linesLoop]
    split
    · rename_i hc
      have hline : '\n' ∉ if current.getLast? = some '\r' then current.dropLast else current := by
        split
        · exact fun h => hcurrent (List.mem_of_mem_dropLast h)
        · exact hcurrent
      refine (ih List.not_mem_nil).cons hline ?_
      rw [deleteWhitespace_stripCr hu, hc, deleteWhitespace_append, List.nil_append,
        ← List.singleton_append, deleteWhitespace_append, deleteWhitespace_singleton hu.newline,
        List.nil_append]
    · rename_i hc
      have hmore : '\n' ∉ current ++ [c] := by
        rw [List.mem_append, List.mem_singleton, not_or]
        exact ⟨hcurrent, fun h => hc h.symm⟩
      have hspec := ih hmore
      rwa [List.append_assoc, List.singleton_append] at hspec

theorem linesLoop_of_line (hne : current ++ text ≠ []) (h : '\n' ∉ text) :
    linesLoop current text = [current ++ text] := by
  induction text generalizing current with
  | nil =>
    rw [List.append_nil] at hne ⊢
    exact linesLoop.eq_2 current hne
  | cons c rest ih =>
    rw [List.mem_cons, not_or] at h
    rw [linesLoop, if_neg (Ne.symm h.1), ih (by simp) h.2, List.append_assoc, List.singleton_append]

theorem lines_of_trimmed (htrim : u.Trimmed text) (h : '\n' ∉ text) : lines text = [text] :=
  linesLoop_of_line htrim.ne_nil h

structure Joined (u : Unicode) (segment : List Char) : Prop where
  trimmed : u.Trimmed segment
  line : '\n' ∉ segment

theorem joined_trim {line : List Char} (h : u.trim line ≠ []) (hline : '\n' ∉ line) :
    u.Joined (u.trim line) :=
  ⟨trimmed_trim h, fun hmem => hline (mem_of_mem_trim hmem)⟩

theorem splitParagraphsLoop_spec (hu : u.Spaced) {ls : List (List Char)}
    (hcurrent : current = [] ∨ u.Joined current) (hls : ∀ line ∈ ls, '\n' ∉ line) :
    Splits u (current ++ ls.flatten) u.Joined (u.splitParagraphsLoop current ls) := by
  induction ls generalizing current with
  | nil =>
    rw [splitParagraphsLoop, List.flatten_nil, List.append_nil]
    split
    · rename_i hblank
      exact ⟨(deleteWhitespace_of_blank hblank).symm, fun _ h => nomatch h⟩
    · rename_i hne
      have hjoined := hcurrent.resolve_left fun h => hne (by rw [h]; rfl)
      refine ⟨List.flatMap_singleton _ _, fun segment hsegment => ?_⟩
      rwa [List.mem_singleton.mp hsegment]
  | cons line rest ih =>
    obtain ⟨hline, hrest⟩ := List.forall_mem_cons.mp hls
    rw [splitParagraphsLoop, List.flatten_cons]
    split
    · -- A blank line ends the paragraph.
      rename_i hblank
      have hnothing := deleteWhitespace_of_blank hblank
      split
      · rename_i hempty
        refine (ih (.inl rfl) hrest).of_eq ?_
        rw [deleteWhitespace_append, deleteWhitespace_append, hnothing,
          deleteWhitespace_of_blank hempty]
        rfl
      · rename_i hne
        have hjoined := hcurrent.resolve_left fun h => hne (by rw [h]; rfl)
        refine (ih (.inl rfl) hrest).cons hjoined ?_
        rw [deleteWhitespace_append, deleteWhitespace_append, hnothing]
        rfl
    · rename_i hne
      have hjoined := joined_trim hne hline
      have hmore : u.Joined ((if current = [] then [] else current ++ [' ']) ++ u.trim line) := by
        split
        · exact hjoined
        · rename_i hsome
          have hfront := hcurrent.resolve_left hsome
          refine ⟨hfront.trimmed.join hjoined.trimmed [' '], ?_⟩
          rw [List.mem_append, List.mem_append, not_or, not_or]
          exact ⟨⟨hfront.line, by decide⟩, hjoined.line⟩
      refine (ih (.inr hmore) hrest).of_eq ?_
      rw [deleteWhitespace_append, deleteWhitespace_append, deleteWhitespace_append,
        deleteWhitespace_append, deleteWhitespace_trim, ← List.append_assoc]
      congr 2
      split
      · rename_i hnil
        rw [hnil]
      · rw [deleteWhitespace_append, deleteWhitespace_singleton hu.space, List.append_nil]

theorem pushTrimmed_spec {sentences : List (List Char)} (h : Splits u rest u.Trimmed sentences) :
    Splits u (current ++ rest) u.Trimmed (u.pushTrimmed current sentences) := by
  rw [pushTrimmed]
  split
  · rename_i hblank
    refine h.of_eq ?_
    rw [deleteWhitespace_append, deleteWhitespace_of_blank hblank, List.nil_append]
  · rename_i hne
    refine h.cons (trimmed_trim hne) ?_
    rw [deleteWhitespace_append, deleteWhitespace_trim]

theorem splitSentencesLoop_spec (before current after : List Char) :
    Splits u (current ++ after) u.Trimmed (u.splitSentencesLoop before current after) := by
  induction after generalizing before current with
  | nil => exact pushTrimmed_spec ⟨rfl, fun _ h => nomatch h⟩
  | cons c after ih =>
    have hsplit : current ++ c :: after = current ++ [c] ++ after := by
      rw [List.append_assoc, List.singleton_append]
    rw [splitSentencesLoop, hsplit]
    split
    · exact pushTrimmed_spec (ih (before ++ [c]) [])
    · exact ih (before ++ [c]) (current ++ [c])

/-! ## The splitters -/

theorem lines_spec (hu : u.Spaced) (text : List Char) :
    Splits u text (fun line => '\n' ∉ line) (lines text) :=
  linesLoop_spec hu List.not_mem_nil

theorem deleteWhitespace_flatten_lines (hu : u.Spaced) (text : List Char) :
    u.deleteWhitespace (lines text).flatten = u.deleteWhitespace text := by
  rw [deleteWhitespace, List.filter_flatten, ← List.flatMap_def]
  exact (lines_spec hu text).complete

theorem splitParagraphs_spec (hu : u.Spaced) (text : List Char) :
    Splits u text u.Joined (u.splitParagraphs text) :=
  (splitParagraphsLoop_spec hu (.inl rfl) (lines_spec hu text).all).of_eq
    (deleteWhitespace_flatten_lines hu text).symm

theorem splitBlocks_spec (hu : u.Spaced) (text : List Char) :
    Splits u text u.Joined (u.splitBlocks text) := by
  refine ⟨?_, fun segment hsegment => ?_⟩
  · rw [← (lines_spec hu text).complete, splitBlocks]
    induction lines text with
    | nil => rfl
    | cons line rest ih =>
      rw [List.map_cons, List.filter_cons, List.flatMap_cons, ← ih]
      split
      · rw [List.flatMap_cons, deleteWhitespace_trim]
      · rename_i hblank
        rw [decide_eq_true_eq, not_not] at hblank
        rw [deleteWhitespace_of_blank hblank, List.nil_append]
  · rw [splitBlocks, List.mem_filter, List.mem_map, decide_eq_true_eq] at hsegment
    obtain ⟨⟨line, hline, rfl⟩, hne⟩ := hsegment
    exact joined_trim hne ((lines_spec hu text).all line hline)

theorem splitText_spec (hu : u.Spaced) (text : List Char) (granularity : ContentGranularity) :
    Splits u text u.Trimmed (u.splitText text granularity) := by
  cases granularity with
  | paragraph =>
    have h := splitParagraphs_spec hu text
    exact ⟨h.complete, fun segment hsegment => (h.all segment hsegment).trimmed⟩
  | sentence => exact splitSentencesLoop_spec [] [] text
  | block =>
    have h := splitBlocks_spec hu text
    exact ⟨h.complete, fun segment hsegment => (h.all segment hsegment).trimmed⟩

theorem line_of_splitText (hu : u.Spaced) (hsentence : granularity ≠ .sentence)
    (h : segment ∈ u.splitText text granularity) : '\n' ∉ segment := by
  cases granularity with
  | paragraph => exact ((splitParagraphs_spec hu text).all segment h).line
  | sentence => exact absurd rfl hsentence
  | block => exact ((splitBlocks_spec hu text).all segment h).line

theorem splitText_eq_singleton (hu : u.Spaced) (htrim : u.Trimmed segment)
    (hsentence : granularity ≠ .sentence) :
    u.splitText segment granularity = [segment] ↔ '\n' ∉ segment := by
  constructor
  · intro h
    exact line_of_splitText hu hsentence (h ▸ List.mem_singleton_self segment)
  · intro hline
    have hlines := lines_of_trimmed htrim hline
    cases granularity with
    | paragraph =>
      show u.splitParagraphsLoop [] (lines segment) = [segment]
      rw [hlines, splitParagraphsLoop, htrim.trim_eq, if_neg htrim.ne_nil, if_pos rfl,
        List.nil_append, splitParagraphsLoop, htrim.trim_eq, if_neg htrim.ne_nil]
    | sentence => exact absurd rfl hsentence
    | block =>
      show ((lines segment).map u.trim).filter (· ≠ []) = [segment]
      rw [hlines, List.map_singleton, htrim.trim_eq, List.filter_singleton,
        decide_eq_true htrim.ne_nil]
      rfl

/-- Every character that is not whitespace is in exactly one segment, and no segment is blank or has
whitespace at an end.  A segment is split again, into paragraphs or into blocks, as itself alone
exactly if it has no line feed, and only a sentence has one. -/
theorem splitText_exact (hu : u.Spaced) (text : List Char) (granularity : ContentGranularity) :
    u.deleteWhitespace (u.splitText text granularity).flatten = u.deleteWhitespace text
      ∧ ∀ segment ∈ u.splitText text granularity, u.Trimmed segment
        ∧ (u.splitText segment .paragraph = [segment] ↔ '\n' ∉ segment)
        ∧ (u.splitText segment .block = [segment] ↔ '\n' ∉ segment)
        ∧ (granularity ≠ .sentence → '\n' ∉ segment) := by
  have hspec := splitText_spec hu text granularity
  refine ⟨?_, fun segment hsegment => ?_⟩
  · rw [deleteWhitespace, List.filter_flatten, ← List.flatMap_def]
    exact hspec.complete
  · have htrim := hspec.all segment hsegment
    exact ⟨htrim, splitText_eq_singleton hu htrim nofun, splitText_eq_singleton hu htrim nofun,
      fun hsentence => line_of_splitText hu hsentence hsegment⟩

/-! ## The tables of ASCII, and whitespace -/

def plainUnicode : Unicode where
  nfc := id
  toLowercase c := [c.toLower]
  isAlphabetic := Char.isAlpha
  isAlphanumeric := Char.isAlphanum
  isUppercase := Char.isUpper
  isWhitespace := Text.isWhitespace

theorem splitText_exact_plain :
    plainUnicode.Spaced
      ∧ plainUnicode.deleteWhitespace
          (plainUnicode.splitText "One.  Two\r\nthree".toList .sentence).flatten
        = plainUnicode.deleteWhitespace "One.  Two\r\nthree".toList := by
  have hspaced : plainUnicode.Spaced := ⟨by decide, by decide, by decide⟩
  exact ⟨hspaced, (splitText_exact hspaced _ _).1⟩

/-- A sentence over two lines is two blocks, and one paragraph that is not the same text. -/
theorem sentence_resplit :
    plainUnicode.splitText "one\ntwo.".toList .sentence = ["one\ntwo.".toList]
      ∧ plainUnicode.splitText "one\ntwo.".toList .block = ["one".toList, "two.".toList]
      ∧ plainUnicode.splitText "one\ntwo.".toList .paragraph = ["one two.".toList] := by
  decide

end Unicode

end WritersProof.Content
