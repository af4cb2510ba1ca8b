/-
  WritersProof.Content.Segmentation

  Splitting a text into segments and hashing them (crates/cpoe/src/content/segmentation.rs,
  `normalize_for_attestation` of crates/cpoe/src/ffi/text_fragment.rs).

  Texts are lists of characters.  What the code asks of the Unicode tables and of SHA-256 is a
  parameter.
-/
import WritersProof.Lib.Text

namespace WritersProof.Content

/-- The properties of characters that the standard library and the normalization crate know -/
structure Unicode where
  nfc : List Char → List Char
  toLowercase : Char → List Char
  isAlphabetic : Char → Bool
  isAlphanumeric : Char → Bool
  isUppercase : Char → Bool
  isWhitespace : Char → Bool

inductive ContentGranularity where
  | paragraph
  | sentence
  | block
  deriving DecidableEq, Repr

/-- `[u8; 32]` -/
abbrev SegmentHash := FixedBytes 32

structure ContentSegment where
  index : Nat
  rawText : List Char
  /-- SHA-256(DST || normalized text). Used as the MMR leaf value. -/
  hash : SegmentHash
  deriving DecidableEq

def contentSegmentDst : Bytes := Bytes.utf8 "witnessd-content-segment-v1"

namespace Unicode

variable (u : Unicode) (text : List Char)

/-- `str::trim` -/
def trim : List Char :=
  ((text.dropWhile u.isWhitespace).reverse.dropWhile u.isWhitespace).reverse

/-- The lines of a text without their ends; a last line that is empty is none. -/
def linesLoop : (current : List Char) → List Char → List (List Char)
  | [], [] => []
  | current, [] => [current]
  | current, c :: rest =>
    if c = '\n' then
      -- `lines` also strips one carriage return before the line feed
      (if current.getLast? = some '\r' then current.dropLast else current) :: linesLoop [] rest
    else linesLoop (current ++ [c]) rest

/-- `str::lines` -/
def lines : List (List Char) := linesLoop [] text

def normalizeForAttestation : List Char :=
  (u.nfc ((u.nfc text).flatMap u.toLowercase)).filter fun c => u.isAlphabetic c || c.isDigit

/-! ## Splitting -/

def splitParagraphsLoop : (current : List Char) → List (List Char) → List (List Char)
  | current, [] => if u.trim current = [] then [] else [current]
  | current, line :: rest =>
    if u.trim line = [] then
      if u.trim current = [] then splitParagraphsLoop [] rest
      else current :: splitParagraphsLoop [] rest
    else
      splitParagraphsLoop ((if current = [] then [] else current ++ [' ']) ++ u.trim line) rest

def splitParagraphs : List (List Char) := u.splitParagraphsLoop [] (lines text)

/-- Common abbreviations that end with '.' but do not end a sentence. -/
def abbreviations : List String :=
  ["Dr", "Mr", "Mrs", "Ms", "Prof", "Sr", "Jr", "St", "Rev", "Gen", "Gov",
    "Sgt", "Cpl", "Pvt", "Lt", "Col", "Capt", "Cmdr", "Adm", "Maj",
    "vs", "etc", "approx", "dept", "est", "vol", "no",
    "i.e", "e.g", "cf", "al"]

/-- Whether the word at the end of `before` is a known abbreviation. -/
def isAbbreviation (before : List Char) : Bool :=
  let word := (before.reverse.takeWhile fun c => u.isAlphanumeric c || c == '.').reverse
  abbreviations.any fun abbr => word.map Char.toLower == abbr.toList.map Char.toLower

/-- Whether the punctuation `c` between `before` and `after` ends a sentence. -/
def isSentenceEnd (before : List Char) (c : Char) (after : List Char) : Bool :=
  match after with
  | [] => true
  | next :: after =>
    if c = '.' ∧ u.isAbbreviation before then false
    -- a closing quote or parenthesis after the punctuation
    else if next = '\x22' ∨ next = '\x27' ∨ next = ')' ∨ next = '\u201d' then
      match after with
      | [] => true
      | afterQuote :: _ => u.isWhitespace afterQuote
    else if ¬ u.isWhitespace next then false
    else
      match after with
      | [] => true
      | afterSpace :: _ =>
          u.isUppercase afterSpace || afterSpace == '\x22' || afterSpace == '\u201c'

def pushTrimmed (current : List Char) (sentences : List (List Char)) : List (List Char) :=
  if u.trim current = [] then sentences else u.trim current :: sentences

def splitSentencesLoop : (before current after : List Char) → List (List Char)
  | _, current, [] => u.pushTrimmed current []
  | before, current, c :: after =>
    if (c = '.' ∨ c = '?' ∨ c = '!') ∧ u.isSentenceEnd before c after then
      u.pushTrimmed (current ++ [c]) (splitSentencesLoop (before ++ [c]) [] after)
    else splitSentencesLoop (before ++ [c]) (current ++ [c]) after

def splitSentences : List (List Char) := u.splitSentencesLoop [] [] text

def splitBlocks : List (List Char) :=
  ((lines text).map u.trim).filter (· ≠ [])

def splitText : ContentGranularity → List (List Char)
  | .paragraph => u.splitParagraphs text
  | .sentence => u.splitSentences text
  | .block => u.splitBlocks text

end Unicode

/-- What the content layer computes with: the character tables and SHA-256. -/
structure Crates extends Unicode where
  sha256 : Bytes → SegmentHash

namespace Crates

variable (C : Crates)

def hashSegment (normalized : List Char) : SegmentHash :=
  C.sha256 (contentSegmentDst ++ Text.bytes normalized)

def segmentsFrom : (i : Nat) → List (List Char) → List ContentSegment
  | _, [] => []
  | i, raw :: rest =>
    let normalized := C.normalizeForAttestation raw
    if normalized = [] then segmentsFrom (i + 1) rest
    else ⟨i, raw, C.hashSegment normalized⟩ :: segmentsFrom (i + 1) rest

def segmentAndHash (text : List Char) (granularity : ContentGranularity) : List ContentSegment :=
  C.segmentsFrom 0 (C.splitText text granularity)

/-- The segments keep the numbers they had before the empty ones were left out. -/
theorem segmentsFrom_sorted (raws : List (List Char)) (i : Nat) :
    (C.segmentsFrom i raws).Pairwise (fun a b => a.index < b.index)
      ∧ ∀ seg ∈ C.segmentsFrom i raws, i ≤ seg.index := by
  induction raws generalizing i with
  | nil => exact ⟨.nil, fun _ h => nomatch h⟩
  | cons raw rest ih =>
    obtain ⟨hsorted, hle⟩ := ih (i + 1)
    rw [segmentsFrom]
    split
    · exact ⟨hsorted, fun seg hseg => Nat.le_of_succ_le (hle seg hseg)⟩
    · refine ⟨List.pairwise_cons.mpr ⟨fun seg hseg => hle seg hseg, hsorted⟩, ?_⟩
      intro seg hseg
      rcases List.mem_cons.mp hseg with rfl | hseg
      · exact Nat.le_refl i
      · exact Nat.le_of_succ_le (hle seg hseg)

theorem segmentAndHash_sorted (text : List Char) (granularity : ContentGranularity) :
    (C.segmentAndHash text granularity).Pairwise (fun a b => a.index < b.index) :=
  (C.segmentsFrom_sorted _ 0).1

end Crates

end WritersProof.Content
