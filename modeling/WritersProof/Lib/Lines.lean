/-
  WritersProof.Lib.Lines

  Lines, words and numbers of a text, as `str::lines`, `str::split_whitespace`,
  `str::trim` and `str::parse` see them.
-/
import WritersProof.Lib.Rust
import Mathlib.Data.List.DropRight
import Mathlib.Data.List.Infix

namespace Text

/-! ## Characters -/

/-- `char::is_whitespace`: the property White_Space -/
def isWhitespace (c : Char) : Bool :=
  let n := c.toNat
  (0x9 ≤ n && n ≤ 0xD) || n == 0x20 || n == 0x85 || n == 0xA0 || n == 0x1680
    || (0x2000 ≤ n && n ≤ 0x200A) || n == 0x2028 || n == 0x2029 || n == 0x202F || n == 0x205F
    || n == 0x3000

/-- `char::is_control`: the general category Cc -/
def isControl (c : Char) : Bool :=
  let n := c.toNat
  n ≤ 0x1F || (0x7F ≤ n && n ≤ 0x9F)

/-! ## Lines -/

/-- A line without the carriage return of its end -/
def stripCr (line : List Char) : List Char :=
  if line.getLast? = some '\r' then line.dropLast else line

def linesFrom : List Char → List Char → List (List Char)
  | line, [] => if line = [] then [] else [line]
  | line, c :: cs =>
    if c = '\n' then stripCr line :: linesFrom [] cs else linesFrom (line ++ [c]) cs

/-- `str::lines` -/
def lines (text : List Char) : List (List Char) := linesFrom [] text

/-- Lines with their ends -/
def unlines (ls : List (List Char)) : List Char := ls.flatMap (· ++ ['\n'])

structure IsLine (line : List Char) : Prop where
  newline : '\n' ∉ line
  cr : line.getLast? ≠ some '\r'

variable {line text : List Char} {c : Char} {ws : List (List Char)} {size : Nat}

theorem linesFrom_line {rest : List Char} (opened : List Char) (h : '\n' ∉ line) :
    linesFrom opened (line ++ '\n' :: rest) = stripCr (opened ++ line) :: linesFrom [] rest := by
  induction line generalizing opened with
  | nil => rw [List.nil_append, linesFrom, if_pos rfl, List.append_nil]
  | cons c line ih =>
    rw [List.mem_cons, not_or] at h
    rw [List.cons_append, linesFrom, if_neg (Ne.symm h.1), ih _ h.2, List.append_assoc,
      List.singleton_append]

/-- Lines that were written are read. -/
theorem lines_unlines {ls : List (List Char)} (h : ∀ l ∈ ls, IsLine l) :
    lines (unlines ls) = ls := by
  induction ls with
  | nil => rfl
  | cons l ls ih =>
    obtain ⟨hl, hls⟩ := List.forall_mem_cons.mp h
    have hstrip : stripCr l = l := if_neg hl.cr
    rw [lines, unlines, List.flatMap_cons, List.append_assoc, List.singleton_append,
      linesFrom_line [] hl.newline, List.nil_append, hstrip]
    exact congrArg (l :: ·) (ih hls)

/-- That there are none is a matter of the text, not of all characters there are. -/
theorem noControl_of_all (h : (line.all fun c => !isControl c) = true) :
    ∀ c ∈ line, isControl c = false := by
  intro c hc
  exact Bool.not_eq_true' _ ▸ List.all_eq_true.mp h c hc

theorem isLine_of_noControl (h : ∀ c ∈ line, isControl c = false) :
    IsLine line where
  newline hmem := absurd (h _ hmem) (by decide)
  cr hlast := absurd (h _ (List.mem_of_getLast? hlast)) (by decide)

/-! ## Trimming and prefixes -/

/-- `str::trim` -/
def trim (text : List Char) : List Char := (text.dropWhile isWhitespace).rdropWhile isWhitespace

theorem trim_of_noWhitespace (h : ∀ c ∈ text, isWhitespace c = false) : trim text = text := by
  have hfront : text.dropWhile isWhitespace = text := by
    cases text with
    | nil => rfl
    | cons c text =>
      rw [List.dropWhile_cons_of_neg]
      rw [h c List.mem_cons_self]
      decide
  rw [trim, hfront, List.rdropWhile_eq_self_iff]
  intro hne
  rw [h _ (List.getLast_mem hne)]
  decide

theorem mem_dropWhile {p : Char → Bool} (hc : c ∈ text) (hp : p c = false) :
    c ∈ text.dropWhile p := by
  rw [← List.takeWhile_append_dropWhile (p := p) (l := text), List.mem_append] at hc
  refine hc.resolve_left fun htake => ?_
  rw [List.mem_takeWhile_imp htake] at hp
  cases hp

theorem mem_trim (hc : c ∈ text) (hspace : isWhitespace c = false) : c ∈ trim text := by
  have hfront := mem_dropWhile hc hspace
  rw [trim, List.rdropWhile, List.mem_reverse]
  exact mem_dropWhile (List.mem_reverse.mpr hfront) hspace

/-- `str::strip_prefix` -/
def stripPrefix (front line : List Char) : Option (List Char) :=
  if front <+: line then some (line.drop front.length) else none

theorem stripPrefix_append (front rest : List Char) :
    stripPrefix front (front ++ rest) = some rest := by
  rw [stripPrefix, if_pos (List.prefix_append _ _), List.drop_left]

/-! ## Words -/

def wordsFrom : List Char → List Char → List (List Char)
  | word, [] => if word = [] then [] else [word]
  | word, c :: cs =>
    if isWhitespace c then
      if word = [] then wordsFrom [] cs else word :: wordsFrom [] cs
    else wordsFrom (word ++ [c]) cs

/-- `str::split_whitespace` -/
def words (text : List Char) : List (List Char) := wordsFrom [] text

/-- A word: not empty, and without whitespace -/
structure IsWord (word : List Char) : Prop where
  ne_nil : word ≠ []
  noWhitespace : ∀ c ∈ word, isWhitespace c = false

theorem isWord_of_mem_wordsFrom {opened cs : List Char}
    (hopened : ∀ c ∈ opened, isWhitespace c = false) :
    ∀ word ∈ wordsFrom opened cs, IsWord word := by
  induction cs generalizing opened with
  | nil =>
    intro word hword
    rw [wordsFrom] at hword
    split at hword
    next => cases hword
    next hne =>
      cases List.mem_singleton.mp hword
      exact ⟨hne, hopened⟩
  | cons c cs ih =>
    intro word hword
    rw [wordsFrom] at hword
    split at hword
    next =>
      split at hword
      next => exact ih (List.forall_mem_nil _) word hword
      next hne =>
        rcases List.mem_cons.mp hword with rfl | hword
        · exact ⟨hne, hopened⟩
        · exact ih (List.forall_mem_nil _) word hword
    next hc =>
      refine ih (fun d hd => ?_) word hword
      rcases List.mem_append.mp hd with hd | hd
      · exact hopened d hd
      · rw [List.mem_singleton.mp hd]
        exact Bool.eq_false_iff.mpr hc

theorem isWord_of_mem_words {word : List Char} (h : word ∈ words text) : IsWord word :=
  isWord_of_mem_wordsFrom (List.forall_mem_nil _) word h

/-- `join(" ")` -/
def unwords (ws : List (List Char)) : List Char := [' '].intercalate ws

theorem unwords_cons (word : List Char) (h : ws ≠ []) :
    unwords (word :: ws) = word ++ ' ' :: unwords ws := by
  rw [unwords, List.intercalate_cons_of_ne_nil h, List.append_assoc, List.singleton_append]
  rfl

/-- Fewer words are another text. -/
theorem unwords_take_ne (h : ∀ word ∈ ws, word ≠ []) {k : Nat} (hk : k < ws.length) :
    unwords (ws.take k) ≠ unwords ws := by
  induction ws generalizing k with
  | nil => exact absurd hk (Nat.not_lt_zero k)
  | cons word ws ih =>
    obtain ⟨hword, hws⟩ := List.forall_mem_cons.mp h
    cases k with
    | zero =>
      by_cases hnil : ws = []
      · rw [hnil, unwords, unwords, List.take_zero, List.intercalate_nil,
          List.intercalate_singleton]
        exact Ne.symm hword
      · rw [unwords_cons word hnil]
        exact fun heq => hword (List.append_eq_nil_iff.mp heq.symm).1
    | succ k =>
      have hk' : k < ws.length := Nat.lt_of_succ_lt_succ hk
      have hne : ws ≠ [] := List.ne_nil_of_length_pos (Nat.zero_lt_of_lt hk')
      rw [List.take_succ_cons, unwords_cons word hne]
      by_cases htake : ws.take k = []
      · rw [htake, unwords, List.intercalate_singleton]
        exact fun heq => nomatch List.self_eq_append_right.mp heq
      · rw [unwords_cons word htake]
        intro heq
        have := List.append_cancel_left heq
        exact ih hws hk' (List.cons.inj this).2

/-! ## Chunks -/

def chunks (size : Nat) (text : List Char) : List (List Char) :=
  (List.range ((text.length + size - 1) / size)).map fun i => (text.drop (i * size)).take size

theorem flatten_chunks (hsize : 0 < size) (text : List Char) :
    (chunks size text).flatten = text := by
  have hfront : ∀ k, ((List.range k).map fun i => (text.drop (i * size)).take size).flatten
      = text.take (k * size) := by
    intro k
    induction k with
    | zero => rw [Nat.zero_mul, List.take_zero, List.range_zero, List.map_nil, List.flatten_nil]
    | succ k ih =>
      rw [List.range_succ, List.map_append, List.flatten_append, ih, List.map_singleton,
        List.flatten_singleton, Nat.succ_mul, List.take_add]
  rw [chunks, hfront, List.take_of_length_le]
  have := Nat.div_add_mod (text.length + size - 1) size
  have := Nat.mod_lt (text.length + size - 1) hsize
  rw [Nat.mul_comm]
  omega

theorem mem_of_mem_chunks {chunk : List Char} (h : chunk ∈ chunks size text) :
    ∀ c ∈ chunk, c ∈ text := by
  obtain ⟨i, -, rfl⟩ := List.mem_map.mp h
  exact fun c hc => List.mem_of_mem_drop (List.mem_of_mem_take hc)

/-! ## Numbers -/

/-- `str::parse` of an unsigned type with so many values -/
def parseUnsigned (values : Nat) (text : List Char) : Option Nat :=
  let digits := (stripPrefix ['+'] text).getD text
  if digits = [] ∨ ¬ digits.all Char.isDigit then none
  else
    let n := Nat.ofDigitChars 10 digits 0
    if n < values then some n else none

/-- So are numbers. -/
theorem parseUnsigned_toString {values n : Nat} (h : n < values) :
    parseUnsigned values (toString n).toList = some n := by
  have hdigits : (toString n).toList = Nat.toDigits 10 n := by
    rw [Nat.toString_eq_repr, Nat.toList_repr]
  have hall : ∀ c ∈ Nat.toDigits 10 n, c.isDigit = true := fun c hc =>
    Nat.isDigit_of_mem_toDigits (by decide) (by decide) hc
  have hne : Nat.toDigits 10 n ≠ [] := List.ne_nil_of_length_pos Nat.length_toDigits_pos
  have hplus : stripPrefix ['+'] (Nat.toDigits 10 n) = none := by
    rw [stripPrefix, if_neg]
    intro hprefix
    have hmem := hprefix.subset List.mem_cons_self
    exact absurd (hall _ hmem) (by decide)
  rw [hdigits, parseUnsigned, hplus, Option.getD_none, if_neg]
  · rw [Nat.ofDigitChars_ten_toDigits, if_pos h]
  · rw [not_or]
    exact ⟨hne, not_not.mpr (List.all_eq_true.mpr hall)⟩

end Text
