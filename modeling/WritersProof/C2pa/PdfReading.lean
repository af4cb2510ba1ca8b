/-
  WritersProof.C2pa.PdfReading

  What the searches for an incremental update find in a document.
-/
import WritersProof.C2pa.PdfEmbed

namespace WritersProof.C2pa

open Rust Protocol Bytes Text

/-! ## Searches -/

variable {needle : Bytes} {data : Bytes}

section

variable (hne : needle ≠ [])

include hne

theorem not_prefix_nil (i : Nat) : ¬ needle <+: ([] : Bytes).drop i := by
  intro h
  exact hne (List.prefix_nil.mp (List.drop_nil ▸ h))

theorem firstPosition_eq_some :
    ∀ {data : Bytes} {i : Nat}, firstPosition needle data = some i ↔
      needle <+: data.drop i ∧ ∀ j < i, ¬ needle <+: data.drop j := by
  intro data
  induction data with
  | nil =>
    intro i
    exact iff_of_false (fun h => nomatch h) fun h => not_prefix_nil hne i h.1
  | cons b data ih =>
    intro i
    rw [firstPosition]
    split
    next h =>
      constructor
      · rintro ⟨⟩
        exact ⟨h, fun j hj => absurd hj (Nat.not_lt_zero j)⟩
      · rintro ⟨-, hbefore⟩
        cases i with
        | zero => rfl
        | succ i => exact absurd h (hbefore 0 (Nat.succ_pos i))
    next h =>
      rw [Option.map_eq_some_iff]
      constructor
      · rintro ⟨i, hi, rfl⟩
        obtain ⟨hat, hbefore⟩ := ih.mp hi
        refine ⟨hat, fun j hj => ?_⟩
        cases j with
        | zero => exact h
        | succ j => exact hbefore j (Nat.lt_of_succ_lt_succ hj)
      · rintro ⟨hat, hbefore⟩
        cases i with
        | zero => exact absurd hat h
        | succ i => exact ⟨i, ih.mpr ⟨hat, fun j hj => hbefore (j + 1) (Nat.succ_lt_succ hj)⟩, rfl⟩

theorem firstPosition_eq_none :
    firstPosition needle data = none ↔ ∀ j, ¬ needle <+: data.drop j := by
  constructor
  · intro h j
    induction j using Nat.strong_induction_on with
    | _ j ih =>
      intro hat
      exact nomatch h.symm.trans ((firstPosition_eq_some hne).mpr ⟨hat, ih⟩)
  · intro h
    cases hfirst : firstPosition needle data with
    | none => rfl
    | some i => exact absurd ((firstPosition_eq_some hne).mp hfirst).1 (h i)

theorem lastPosition_eq_none :
    ∀ {data : Bytes}, lastPosition needle data = none ↔ ∀ j, ¬ needle <+: data.drop j := by
  intro data
  induction data with
  | nil =>
    exact iff_of_true rfl (not_prefix_nil hne)
  | cons b data ih =>
    rw [lastPosition]
    cases hlast : lastPosition needle data with
    | some i =>
      refine iff_of_false (fun h => nomatch h) fun h => ?_
      exact nomatch hlast.symm.trans (ih.mpr fun j => h (j + 1))
    | none =>
      have hbehind := ih.mp hlast
      dsimp only
      split
      next h => exact iff_of_false (fun h => nomatch h) fun hall => hall 0 h
      next h =>
        refine iff_of_true rfl fun j => ?_
        cases j with
        | zero => exact h
        | succ j => exact hbehind j

theorem lastPosition_eq_some :
    ∀ {data : Bytes} {i : Nat}, lastPosition needle data = some i ↔
      needle <+: data.drop i ∧ ∀ j, i < j → ¬ needle <+: data.drop j := by
  intro data
  induction data with
  | nil =>
    intro i
    exact iff_of_false (fun h => nomatch h) fun h => not_prefix_nil hne i h.1
  | cons b data ih =>
    intro i
    rw [lastPosition]
    cases hlast : lastPosition needle data with
    | some k =>
      obtain ⟨hat, hbehind⟩ := ih.mp hlast
      constructor
      · rintro ⟨⟩
        refine ⟨hat, fun j hj => ?_⟩
        cases j with
        | zero => exact absurd hj (Nat.not_lt_zero _)
        | succ j => exact hbehind j (Nat.lt_of_succ_lt_succ hj)
      · rintro ⟨hat', hbehind'⟩
        cases i with
        | zero => exact absurd hat (hbehind' (k + 1) (Nat.succ_pos k))
        | succ i =>
          have hlast' := ih.mpr ⟨hat', fun j hj => hbehind' (j + 1) (Nat.succ_lt_succ hj)⟩
          rw [Option.some.inj (hlast.symm.trans hlast')]
    | none =>
      have hbehind := (lastPosition_eq_none hne).mp hlast
      dsimp only
      split
      next h =>
        constructor
        · rintro ⟨⟩
          refine ⟨h, fun j hj => ?_⟩
          cases j with
          | zero => exact absurd hj (Nat.lt_irrefl 0)
          | succ j => exact hbehind j
        · rintro ⟨hat, -⟩
          cases i with
          | zero => rfl
          | succ i => exact absurd hat (hbehind i)
      next h =>
        refine iff_of_false (fun h => nomatch h) fun ⟨hat, _⟩ => ?_
        cases i with
        | zero => exact h hat
        | succ i => exact hbehind i hat

end

variable {i num gen j : Nat} {front back header text object result entry doc : Bytes}
  {sep b last : UInt8}

theorem lastPosition_of_last (hne : needle ≠ []) (h : ¬ needle <:+: (needle ++ back).tail) :
    lastPosition needle (front ++ needle ++ back) = some front.length := by
  rw [lastPosition_eq_some hne, List.append_assoc]
  constructor
  · rw [List.drop_left]
    exact List.prefix_append _ _
  · intro j hj hat
    obtain ⟨k, rfl⟩ := Nat.exists_eq_add_of_lt hj
    rw [Nat.add_assoc, ← List.drop_drop, List.drop_left, ← List.drop_tail] at hat
    exact h (hat.isInfix.trans (List.drop_suffix _ _).isInfix)

theorem lastPosition_of_notMem {first : UInt8} {rest : Bytes} (h : first ∉ rest ++ back) :
    lastPosition (first :: rest) (front ++ (first :: rest) ++ back) = some front.length :=
  lastPosition_of_last (List.cons_ne_nil _ _) fun hinside => h (hinside.subset List.mem_cons_self)

theorem exists_last (hne : needle ≠ []) (h : needle <:+: data) :
    ∃ front back, data = front ++ needle ++ back ∧ ¬ needle <:+: (needle ++ back).tail := by
  obtain ⟨before, after, hdata⟩ := h
  cases hpos : lastPosition needle data with
  | none =>
    refine absurd ?_ ((lastPosition_eq_none hne).mp hpos before.length)
    rw [← hdata, List.append_assoc, List.drop_left]
    exact List.prefix_append _ _
  | some pos =>
    obtain ⟨⟨back, hback⟩, hnot⟩ := (lastPosition_eq_some hne).mp hpos
    refine ⟨data.take pos, back, ?_, ?_⟩
    · rw [List.append_assoc, hback, List.take_append_drop]
    · intro hinside
      rw [hback] at hinside
      obtain ⟨front, back', h⟩ := hinside
      refine hnot (pos + 1 + front.length) (by omega) ?_
      rw [← List.drop_drop, ← List.drop_drop, List.drop_one, ← h, List.append_assoc, List.drop_left]
      exact List.prefix_append _ _

/-- What stands around the last occurrence is determined. -/
theorem last_unique {a a' b b' : Bytes} (hne : needle ≠ [])
    (heq : a ++ needle ++ b = a' ++ needle ++ b') (hb : ¬ needle <:+: (needle ++ b).tail)
    (hb' : ¬ needle <:+: (needle ++ b').tail) : a = a' ∧ b = b' := by
  have hpos := congrArg (lastPosition needle) heq
  rw [lastPosition_of_last hne hb, lastPosition_of_last hne hb', Option.some.injEq] at hpos
  rw [List.append_assoc, List.append_assoc] at heq
  obtain ⟨rfl, hrest⟩ := List.append_inj heq hpos
  exact ⟨rfl, List.append_cancel_left hrest⟩

/-! ## Numbers -/

def readNumber (data : Bytes) : Option (Nat × Bytes) :=
  let digits := data.takeWhile isDigit
  if digits = [] then none else some (decimal digits, data.drop digits.length)

theorem bytes_digits {text : List Char} (h : ∀ c ∈ text, c.isDigit = true) :
    (∀ b ∈ bytes text, isDigit b = true)
      ∧ decimal (bytes text) = Nat.ofDigitChars 10 text 0 := by
  have hall : ∀ k < 58, (Char.ofNat k).isDigit = true →
      String.utf8EncodeChar (Char.ofNat k) = [UInt8.ofNat k] ∧ isDigit (UInt8.ofNat k) = true
        ∧ (UInt8.ofNat k).toNat - 0x30 = (Char.ofNat k).toNat - '0'.toNat := by
    decide +kernel
  have hchar : ∀ c : Char, c.isDigit = true → ∃ b, String.utf8EncodeChar c = [b]
      ∧ isDigit b = true ∧ b.toNat - 0x30 = c.toNat - '0'.toNat := by
    intro c hc
    have hle := of_decide_eq_true (Bool.and_eq_true_iff.mp hc).2
    have hround : Char.ofNat c.toNat = c := Char.ofNat_toNat c
    have hlt : c.toNat < 58 := Nat.lt_succ_of_le (UInt32.le_iff_toNat_le.mp hle)
    exact hround ▸ ⟨_, hall c.toNat hlt (hround.symm ▸ hc)⟩
  have hfold : ∀ start, (bytes text).foldl (fun n b => 10 * n + (b.toNat - 0x30)) start
      = text.foldl (fun n c => 10 * n + (c.toNat - '0'.toNat)) start := by
    induction text with
    | nil => exact fun start => rfl
    | cons c text ih =>
      intro start
      obtain ⟨hc, htext⟩ := List.forall_mem_cons.mp h
      obtain ⟨b, hb, -, hvalue⟩ := hchar c hc
      rw [bytes_cons, hb, List.singleton_append, List.foldl_cons, List.foldl_cons, hvalue,
        ih htext]
  refine ⟨fun b hb => ?_, (hfold 0).trans Nat.ofDigitChars_eq_foldl.symm⟩
  obtain ⟨c, hc, hb⟩ := List.mem_flatMap.mp hb
  obtain ⟨b', hb', hdigit, -⟩ := hchar c (h c hc)
  rw [hb', List.mem_singleton] at hb
  exact hb ▸ hdigit

theorem readNumber_digits {text : List Char} (h : ∀ c ∈ text, c.isDigit = true) (hne : text ≠ [])
    (hsep : isDigit sep = false) (rest : Bytes) :
    readNumber (bytes text ++ sep :: rest)
      = some (Nat.ofDigitChars 10 text 0, sep :: rest) := by
  obtain ⟨hdigits, hvalue⟩ := bytes_digits h
  have htake : (bytes text ++ sep :: rest).takeWhile isDigit = bytes text := by
    rw [List.takeWhile_append_of_pos hdigits, List.takeWhile_cons_of_neg (by rw [hsep]; decide),
      List.append_nil]
  have hne' : bytes text ≠ [] := fun h => hne (bytes_injective h)
  rw [readNumber, htake, if_neg hne', hvalue, List.drop_left]

theorem readNumber_toString (n : Nat) (hsep : isDigit sep = false) (rest : Bytes) :
    readNumber (utf8 (toString n) ++ sep :: rest) = some (n, sep :: rest) := by
  rw [utf8_eq, Nat.toString_eq_repr, Nat.toList_repr,
    readNumber_digits (fun c hc => Nat.isDigit_of_mem_toDigits (by decide) (by decide) hc)
      Nat.toDigits_ne_nil hsep, Nat.ofDigitChars_ten_toDigits]

theorem readNumber_padded (n : Nat) (hsep : isDigit sep = false) (rest : Bytes) :
    readNumber (utf8 (padded n) ++ sep :: rest) = some (n, sep :: rest) := by
  have hdigits : ∀ c ∈ List.replicate (10 - (toString n).length) '0' ++ Nat.toDigits 10 n,
      c.isDigit = true := by
    intro c hc
    rcases List.mem_append.mp hc with hc | hc
    · rw [List.eq_of_mem_replicate hc]
      rfl
    · exact Nat.isDigit_of_mem_toDigits (by decide) (by decide) hc
  rw [padded, utf8_append, utf8_ofList, utf8_eq (toString n), ← bytes_append,
    Nat.toString_eq_repr, Nat.toList_repr, readNumber_digits (Nat.toString_eq_repr ▸ hdigits)
      (fun h => Nat.toDigits_ne_nil (List.append_eq_nil_iff.mp h).2) hsep,
    Nat.ofDigitChars_append, Nat.ofDigitChars_replicate_zero, Nat.mul_zero,
    Nat.ofDigitChars_ten_toDigits]

theorem notMem_number (h : ¬ b ≤ 57) (n : Nat) : b ∉ utf8 (toString n) :=
  fun hmem => h (mem_utf8_toString hmem).2

theorem dropWhile_number (n : Nat) (rest : Bytes) :
    (utf8 (toString n) ++ rest).dropWhile isSpace = utf8 (toString n) ++ rest := by
  have hpos : 0 < (utf8 (toString n)).length := by
    rw [length_utf8_toString]
    exact Nat.length_toDigits_pos
  obtain ⟨b, digits, hdigits⟩ := List.exists_cons_of_length_pos hpos
  obtain ⟨hge, -⟩ := mem_utf8_toString (hdigits.symm ▸ List.mem_cons_self : b ∈ _)
  have hspace : ∀ b : UInt8, 48 ≤ b → isSpace b = false := by
    intro b hb
    simp only [isSpace, Bool.or_eq_false_iff, decide_eq_false_iff_not]
    refine ⟨⟨⟨⟨?_, ?_⟩, ?_⟩, ?_⟩, ?_⟩
    all_goals
      rintro rfl
      exact absurd hb (by decide)
  rw [hdigits, List.cons_append, List.dropWhile_cons_of_neg (by rw [hspace b hge]; decide)]

def objectHeader (num gen : Nat) : Bytes := utf8 s!"{num} {gen} obj"

theorem objectHeader_eq (num gen : Nat) : objectHeader num gen = utf8 (toString num)
    ++ 0x20 :: (utf8 (toString gen) ++ 0x20 :: utf8 "obj") := by
  have hspace : utf8 (toString " ") = [0x20] := by rfl
  have hobj : utf8 (toString " obj") = 0x20 :: utf8 "obj" := by rfl
  simp only [objectHeader, utf8_append, List.append_assoc, hobj, hspace,
    List.nil_append, List.cons_append]

/-- A header has digits, spaces and the letters of `obj`. -/
theorem notMem_objectHeader (hdigit : ¬ b ≤ 57) (hspace : b ≠ 0x20) (hobj : b ∉ utf8 "obj")
    (num gen : Nat) : b ∉ objectHeader num gen := by
  rw [objectHeader_eq]
  simp only [List.mem_append, List.mem_cons, not_or]
  exact ⟨notMem_number hdigit num, hspace, notMem_number hdigit gen, hspace, hobj⟩

theorem objectHeader_inj {num' gen' : Nat} (h : objectHeader num gen <+: data)
    (h' : objectHeader num' gen' <+: data) :
    num = num' ∧ gen = gen' := by
  have hread : ∀ (num gen : Nat) (rest : Bytes), ∃ behind,
      readNumber (objectHeader num gen ++ rest) = some (num, 0x20 :: behind)
        ∧ readNumber behind = some (gen, 0x20 :: (utf8 "obj" ++ rest)) := by
    intro num gen rest
    rw [objectHeader_eq, List.append_assoc, List.cons_append, List.append_assoc, List.cons_append]
    exact ⟨_, readNumber_toString num rfl _, readNumber_toString gen rfl _⟩
  obtain ⟨rest, rfl⟩ := h
  obtain ⟨rest', heq⟩ := h'
  obtain ⟨behind, hnum, hgen⟩ := hread num gen rest
  obtain ⟨behind', hnum', hgen'⟩ := hread num' gen' rest'
  rw [heq, hnum, Option.some.injEq, Prod.mk.injEq, List.cons.injEq] at hnum'
  obtain ⟨rfl, -, rfl⟩ := hnum'
  rw [hgen, Option.some.injEq, Prod.mk.injEq] at hgen'
  exact ⟨rfl, hgen'.1⟩

/-! ## Finding an object -/

/-- What reads like the start of a definition: the header behind white space or nothing, in front
of white space, `<` or nothing -/
structure Marked (data header : Bytes) (start : Nat) : Prop where
  found : header <+: data.drop start
  before : start = 0 ∨ (data[start - 1]?.map isSpace).getD false = true
  behind : ((data.drop (start + header.length)).head?.map fun b => isSpace b || b = 0x3C).getD true
    = true

/-- The first place where a property holds -/
def First (p : Nat → Prop) (i : Nat) : Prop := p i ∧ ∀ j < i, ¬ p j

theorem First.unique {p : Nat → Prop} (hi : First p i) (hj : First p j) : i = j := by
  rcases Nat.lt_trichotomy i j with h | h | h
  · exact absurd hi.1 (hj.2 i h)
  · exact h
  · exact absurd hj.1 (hi.2 j h)

/-- The text from the first place that reads like a definition to the next `endobj` -/
def FirstObject (data header text : Bytes) : Prop :=
  ∃ start stop, First (Marked data header) start
    ∧ First (fun k => utf8 "endobj" <+: (data.drop start).drop k) stop
    ∧ text = (data.drop start).take (stop + 6)

/-- Two places of a header do not overlap: its last byte is not in it before. -/
theorem not_prefix_of_overlap (hlast : last ∉ front) (hi : front ++ [last] <+: data.drop i)
    (hlt : i < j) (hj : j ≤ i + front.length) :
    ¬ front ++ [last] <+: data.drop j := by
  intro hat
  obtain ⟨k, rfl⟩ := Nat.exists_eq_add_of_lt hlt
  obtain ⟨rest, hrest⟩ := hi
  obtain ⟨rest', hrest'⟩ := hat
  -- the byte at the end of the first place
  have hend : data[i + front.length]? = some last := by
    rw [← List.getElem?_drop, ← hrest, List.append_assoc,
      List.getElem?_append_right (Nat.le_refl _), Nat.sub_self]
    rfl
  have hin : data[i + front.length]? = front[front.length - (k + 1)]? := by
    have hsplit : i + front.length = i + k + 1 + (front.length - (k + 1)) := by omega
    rw [hsplit, ← List.getElem?_drop, ← hrest', List.append_assoc,
      List.getElem?_append_left (by omega)]
  exact hlast (List.mem_of_getElem? (hin.symm.trans hend))

theorem not_firstObject (h : ∀ j, ¬ Marked data header j) : ¬ FirstObject data header text :=
  fun ⟨_, _, hstart, _⟩ => h _ hstart.1

/-- The two conditions of the search, on a header that is found -/
theorem marked_iff {start : Nat} (hfound : header <+: data.drop start) :
    ((decide (start = 0) || (data[start - 1]?.map isSpace).getD false)
      && ((data.drop (start + header.length)).head?.map fun b => isSpace b || b = 0x3C).getD true)
      = true ↔ Marked data header start := by
  rw [Bool.and_eq_true_iff, Bool.or_eq_true_iff, decide_eq_true_iff]
  constructor
  · rintro ⟨hahead, hbehind⟩
    exact ⟨hfound, hahead, hbehind⟩
  · rintro ⟨-, hahead, hbehind⟩
    exact ⟨hahead, hbehind⟩

theorem not_marked_of_drop {pos k : Nat} (h : ¬ header <+: (data.drop pos).drop k) :
    ¬ Marked data header (pos + k) := by
  rw [List.drop_drop] at h
  exact fun hmarked => h hmarked.found

theorem findObjectFrom_eq_some (hlast : last ∉ front) :
    ∀ {rounds pos : Nat} {text : Bytes}, data.length < rounds + pos →
      (∀ j < pos, ¬ Marked data (front ++ [last]) j) →
      (findObjectFrom data (front ++ [last]) rounds pos = some text ↔
        FirstObject data (front ++ [last]) text) := by
  have hne : front ++ [last] ≠ [] := List.concat_ne_nil _ _
  have hend : utf8 "endobj" ≠ [] := by decide
  intro rounds
  induction rounds with
  | zero =>
    intro pos text hrounds hbefore
    refine iff_of_false (by rintro ⟨⟩) (not_firstObject fun j hmarked => ?_)
    rcases Nat.lt_or_ge j pos with hj | hj
    · exact hbefore j hj hmarked
    · have hfound := hmarked.found
      rw [List.drop_eq_nil_of_le (show data.length ≤ j by omega)] at hfound
      exact hne (List.prefix_nil.mp hfound)
  | succ rounds ih =>
    intro pos text hrounds hbefore
    rw [findObjectFrom]
    cases hfirst : firstPosition (front ++ [last]) (data.drop pos) with
    | none =>
      have hnone := (firstPosition_eq_none hne).mp hfirst
      refine iff_of_false (by rintro ⟨⟩) (not_firstObject fun j hmarked => ?_)
      rcases Nat.lt_or_ge j pos with hj | hj
      · exact hbefore j hj hmarked
      · obtain ⟨k, rfl⟩ := Nat.exists_eq_add_of_le hj
        exact not_marked_of_drop (hnone k) hmarked
    | some rel =>
      obtain ⟨hat, hnot⟩ := (firstPosition_eq_some hne).mp hfirst
      rw [List.drop_drop] at hat
      -- before the place that is found nothing reads like a definition
      have hbefore' : ∀ j < pos + rel, ¬ Marked data (front ++ [last]) j := by
        intro j hj hmarked
        rcases Nat.lt_or_ge j pos with hlt | hge
        · exact hbefore j hlt hmarked
        · obtain ⟨k, rfl⟩ := Nat.exists_eq_add_of_le hge
          exact not_marked_of_drop (hnot k (by omega)) hmarked
      simp only [Option.bind_eq_bind, Option.bind_some]
      split
      next hok =>
        have hmarked := (marked_iff hat).mp hok
        rw [Option.bind_eq_some_iff]
        constructor
        · rintro ⟨stop, hstop, ⟨⟩⟩
          exact ⟨pos + rel, stop, ⟨hmarked, hbefore'⟩, (firstPosition_eq_some hend).mp hstop, rfl⟩
        · rintro ⟨start, stop, hstart, hstop, rfl⟩
          obtain rfl := First.unique hstart ⟨hmarked, hbefore'⟩
          exact ⟨stop, (firstPosition_eq_some hend).mpr hstop, rfl⟩
      next hok =>
        have hnotMarked := fun hmarked => hok ((marked_iff hat).mpr hmarked)
        refine ih ?_ fun j hj => ?_
        · rw [List.length_append, List.length_singleton]
          omega
        · rw [List.length_append, List.length_singleton] at hj
          rcases Nat.lt_trichotomy j (pos + rel) with h | rfl | h
          · exact hbefore' j h
          · exact hnotMarked
          · exact fun hmarked => not_prefix_of_overlap hlast hat h (by omega) hmarked.found

/-- An object is taken from the first place that reads like it. -/
theorem findObjectBytes_eq_some :
    findObjectBytes data num gen = some text ↔ FirstObject data (objectHeader num gen) text := by
  obtain ⟨front, hheader, hlast⟩ : ∃ front, objectHeader num gen = front ++ [0x6A]
      ∧ (0x6A : UInt8) ∉ front := by
    refine ⟨utf8 (toString num) ++ 0x20 :: (utf8 (toString gen) ++ [0x20, 0x6F, 0x62]),
      ?_, ?_⟩
    · rw [objectHeader_eq]
      simp only [List.append_assoc, List.cons_append, List.nil_append]
      rfl
    · simp only [List.mem_append, List.mem_cons, not_or]
      exact ⟨notMem_number (by decide) num, by decide, notMem_number (by decide) gen, by decide⟩
  have hbytes : findObjectBytes data num gen
      = findObjectFrom data (objectHeader num gen) (data.length + 1) 0 := rfl
  rw [hbytes, hheader]
  exact findObjectFrom_eq_some hlast (Nat.lt_succ_self _) fun j hj => absurd hj (Nat.not_lt_zero j)

theorem FirstObject.header_prefix (h : FirstObject data (objectHeader num gen) text) :
    objectHeader num gen <+: text := by
  obtain ⟨start, stop, ⟨⟨hfound, -, -⟩, -⟩, ⟨hstop, -⟩, rfl⟩ := h
  refine List.prefix_take_iff.mpr ⟨hfound, Nat.le_of_not_lt fun hlt => ?_⟩
  -- otherwise the first byte of `endobj` is in the header
  obtain ⟨rest, hrest⟩ := hfound
  obtain ⟨rest', hrest'⟩ := hstop
  have he : (data.drop start)[stop]? = some 0x65 := by
    rw [← Nat.add_zero stop, ← List.getElem?_drop, ← hrest']
    rfl
  rw [← hrest, List.getElem?_append_left (by omega)] at he
  exact absurd (List.mem_of_getElem? he)
    (notMem_objectHeader (by decide) (by decide) (by decide) num gen)

/-! ## Inserting an entry -/

/-- An object with one more entry, in front of the `>>` that closes it -/
def WithEntry (object entry result : Bytes) : Prop :=
  ∃ front back, object = front ++ utf8 ">>" ++ back ∧ ¬ utf8 ">>" <:+: 0x3E :: back
    ∧ result = front ++ entry ++ utf8 ">>" ++ back

/-- The reference to the stream -/
def c2paEntry (num gen : Nat) : Bytes := utf8 s!" /C2PA {num} {gen} R "

theorem close_ne : utf8 ">>" ≠ [] := by
  decide

/-- An entry goes in front of the last `>>`. -/
theorem insertC2paRef_eq_some :
    insertC2paRef object num gen = some result ↔ WithEntry object (c2paEntry num gen) result := by
  have hinsert : ∀ {front back : Bytes}, ¬ utf8 ">>" <:+: 0x3E :: back →
      insertC2paRef (front ++ utf8 ">>" ++ back) num gen = some
        (front ++ c2paEntry num gen ++ utf8 ">>" ++ back) := by
    intro front back hlast
    rw [insertC2paRef, ← c2paEntry, lastPosition_of_last close_ne hlast, Option.bind_eq_bind,
      Option.bind_some, List.append_assoc front, List.take_left, List.drop_left,
      List.append_assoc (front ++ _)]
  constructor
  · intro h
    have hinside : utf8 ">>" <:+: object := by
      obtain ⟨pos, hpos, -⟩ := Option.bind_eq_some_iff.mp h
      exact ((lastPosition_eq_some close_ne).mp hpos).1.isInfix.trans (List.drop_suffix _ _).isInfix
    obtain ⟨front, back, rfl, hlast⟩ := exists_last close_ne hinside
    exact ⟨front, back, rfl, hlast, Option.some.inj (h.symm.trans (hinsert hlast))⟩
  · rintro ⟨front, back, rfl, hlast, rfl⟩
    exact hinsert hlast

theorem withEntry_inj {object' : Bytes} (h : WithEntry object entry result)
    (h' : WithEntry object' entry result) : object = object' := by
  obtain ⟨front, back, rfl, hback, rfl⟩ := h
  obtain ⟨front', back', rfl, hback', heq⟩ := h'
  obtain ⟨hfront, rfl⟩ := last_unique close_ne heq hback hback'
  rw [List.append_cancel_right hfront]

theorem exists_withEntry :
    (∃ result, WithEntry object entry result) ↔ utf8 ">>" <:+: object := by
  constructor
  · rintro ⟨-, front, back, rfl, -⟩
    exact ⟨front, back, rfl⟩
  · intro h
    obtain ⟨front, back, rfl, hlast⟩ := exists_last close_ne h
    exact ⟨_, front, back, rfl, hlast, rfl⟩

theorem WithEntry.header_prefix (h : WithEntry object entry result)
    (hheader : objectHeader num gen <+: object) :
    objectHeader num gen <+: result := by
  obtain ⟨front, back, rfl, -, rfl⟩ := h
  have hfront : objectHeader num gen <+: front := by
    rw [List.append_assoc] at hheader
    rcases List.prefix_or_prefix_of_prefix hheader (List.prefix_append _ _) with h | ⟨rest, hrest⟩
    · exact h
    cases rest with
    | nil => exact (hrest.symm.trans (List.append_nil _)) ▸ List.prefix_rfl
    | cons b rest =>
      rw [← hrest, List.prefix_append_right_inj] at hheader
      -- then the header has a byte of `>>`
      have hb : b = 0x3E := (List.cons_prefix_cons.mp hheader).1
      have hmem : (0x3E : UInt8) ∈ objectHeader num gen := by
        rw [← hrest, hb]
        exact List.mem_append_right _ List.mem_cons_self
      exact absurd hmem (notMem_objectHeader (by decide) (by decide) (by decide) num gen)
  rw [List.append_assoc, List.append_assoc]
  exact hfront.trans (List.prefix_append _ _)

/-! ## What is read from the document -/

structure Parsed (doc : Bytes) (f : PdfFrame) : Prop where
  signature : doc.take 5 = PDF_SIGNATURE
  root : findRootRef doc = some (f.rootNum, f.rootGen)
  size : findTrailerSize doc = some f.c2paNum
  catalog : ∃ text, FirstObject doc (objectHeader f.rootNum f.rootGen) text
    ∧ WithEntry text (c2paEntry f.c2paNum 0) f.newCatalog
  prev : f.prevStartxref = (findLastStartxref doc).getD 0

theorem pdfFrame_of_parsed {f : PdfFrame} (h : Parsed doc f) :
    pdfFrame doc = if f.c2paNum + 1 < 2 ^ 32 then .ok f else abort := by
  obtain ⟨hsignature, hroot, hsize, ⟨text, htext, hcatalog⟩, hprev⟩ := h
  rw [← findObjectBytes_eq_some] at htext
  rw [← insertC2paRef_eq_some] at hcatalog
  rw [pdfFrame, reject, if_neg (not_not.mpr hsignature)]
  simp only [res_ok_bind, hroot, hsize, htext, hcatalog, okOr_some, ← hprev]
  by_cases hlt : f.c2paNum + 1 < 2 ^ 32
  · have hmin : min f.rootNum f.c2paNum + 1 < 2 ^ 32 := by omega
    rw [succU32, if_pos hmin, succU32, if_pos hlt, if_pos hlt, unwrap_some, unwrap_some,
      res_ok_bind, res_ok_bind]
  · rw [if_neg hlt, succU32, succU32, if_neg hlt]
    split
    next => rfl
    next => rfl

/-- A document is refused unless all parts are there. -/
theorem exists_parsed (h : ∀ e, pdfFrame doc ≠ fail e) : ∃ f, Parsed doc f := by
  rw [pdfFrame, reject] at h
  by_cases hsignature : doc.take 5 = PDF_SIGNATURE
  · rw [if_neg (not_not.mpr hsignature), res_ok_bind] at h
    cases hroot : findRootRef doc with
    | none => exact absurd rfl (hroot ▸ h _)
    | some root =>
    obtain ⟨num, gen⟩ := root
    rw [hroot, okOr_some, res_ok_bind] at h
    dsimp only at h
    cases hsize : findTrailerSize doc with
    | none => exact absurd rfl (hsize ▸ h _)
    | some size =>
    rw [hsize, okOr_some, res_ok_bind] at h
    cases htext : findObjectBytes doc num gen with
    | none => exact absurd rfl (htext ▸ h _)
    | some text =>
    rw [htext, okOr_some, res_ok_bind] at h
    cases hcatalog : insertC2paRef text size 0 with
    | none => exact absurd rfl (hcatalog ▸ h _)
    | some newCatalog =>
    exact ⟨⟨num, gen, size, _, newCatalog⟩, hsignature, hroot, hsize,
      ⟨text, findObjectBytes_eq_some.mp htext, insertC2paRef_eq_some.mp hcatalog⟩, rfl⟩
  · rw [if_pos hsignature] at h
    exact absurd rfl (h _)

end WritersProof.C2pa
