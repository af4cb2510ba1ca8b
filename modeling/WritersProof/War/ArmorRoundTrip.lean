/-
  WritersProof.War.ArmorRoundTrip

  What is read of a block that the engine has written, by the engine and by the protocol
  crate.

  The texts of a block may be mistaken for the marks between its parts: the author, the
  tool, the tier and the statement are written as they are.
-/
import WritersProof.War.EngineArmor

namespace WritersProof.War.Engine

open Rust Text FixedBytes
open Checkpoint (Digest)
open Evidence (Crates)
open War.Protocol (contains)

/-! ## Tidy blocks -/

structure Trimmed (text : List Char) : Prop where
  trim : trim text = text
  noControl : ∀ c ∈ text, isControl c = false

/-- A block with such texts, whose statement has single blanks between its words.  The numbers are
    those of their types. -/
structure Tidy (b : Block) : Prop where
  author : Trimmed b.author.toList
  tool : ∀ tool, b.tool = some tool → Trimmed tool.toList
  tier : ∀ tier, b.tier = some tier → Trimmed tier.toList
  statement : unwords (words b.statement.toList) = b.statement.toList
  checkpoints : ∀ n, b.checkpoints = some n → n < 2 ^ 64
  durationSecs : ∀ n, b.durationSecs = some n → n < 2 ^ 64

structure SameFields (b read : Block) : Prop where
  version : read.version = b.version
  author : read.author = b.author
  documentId : read.documentId = b.documentId
  timestamp : read.timestamp = b.timestamp
  statement : read.statement = b.statement
  warSeal : read.warSeal = b.warSeal
  tool : read.tool = b.tool
  tier : read.tier = b.tier
  score : read.score = b.score
  checkpoints : read.checkpoints = b.checkpoints
  durationSecs : read.durationSecs = b.durationSecs
  verifierNonce : read.verifierNonce = b.verifierNonce

def toProtocol (s : Seal) : Protocol.Seal :=
  { h1 := s.h1, h2 := s.h2, h3 := s.h3, signature := s.signature, publicKey := s.publicKey }

structure SameCommon (b : Block) (read : Protocol.Block) : Prop where
  version : read.version = b.version
  author : read.author = b.author
  documentId : read.documentId = b.documentId
  timestamp : read.timestamp = b.timestamp
  statement : read.statement = b.statement
  warSeal : read.warSeal = toProtocol b.warSeal
  verifierNonce : read.verifierNonce = b.verifierNonce

section Defs

variable (C : Crates) (toRfc3339 : DateTime → String) (b : Block)

/-- A written block is read back, by the engine at any time and by the protocol crate. -/
def RoundTrips : Prop :=
  (∀ now, ∃ read, decodeAscii C now (encodeAscii toRfc3339 b) = .ok read ∧ SameFields b read)
    ∧ ∃ read, Protocol.Block.decodeAscii C (encodeAscii toRfc3339 b) = .ok read ∧ SameCommon b read

def freeLines : List (List Char) :=
  headerLine (.author, b.author.toList)
    :: (b.tool.map fun tool => headerLine (.tool, tool.toList)).toList
    ++ (b.tier.map fun tier => headerLine (.tier, tier.toList)).toList
    ++ wordWrap b.statement.toList 72

/-- The marks behind the first line of a report -/
def marks : List String :=
  ["END CPoE WAR", "END POP WAR", "END WRITTEN AUTHORSHIP REPORT", "BEGIN SEAL", "END SEAL"]

def NoMark (line : List Char) : Prop := ∀ mark ∈ marks, contains mark line = false

/-- The blocks that are read back -/
structure Faithful : Prop where
  notReconstructed : b.warSeal.reconstructed = false
  timestamp : C.parseRfc3339 (toRfc3339 b.timestamp) = .ok b.timestamp
  noMark : ∀ line ∈ freeLines b, NoMark line

end Defs

/-! ## Characters -/

theorem Trimmed.filter_eq {text : List Char} (h : Trimmed text) :
    text.filter (fun c => !isControl c) = text := by
  rw [List.filter_eq_self]
  intro c hc
  rw [h.noControl c hc]
  rfl

/-- No letter of `END CPoE WAR` and of `SEAL`, no blank and no control character -/
def plainChar (c : Char) : Bool :=
  c != 'P' && c != 'L' && !isControl c && !isWhitespace c

/-- The values of headers other than texts from outside -/
def Plain (val : List Char) : Prop := ∀ c ∈ val, plainChar c = true

theorem Plain.trimmed {val : List Char} (h : Plain val) : Trimmed val where
  trim := trim_of_noWhitespace fun c hc => by
    have := h c hc
    simp only [plainChar, Bool.and_eq_true, Bool.not_eq_true'] at this
    exact this.2
  noControl c hc := by
    have := h c hc
    simp only [plainChar, Bool.and_eq_true, Bool.not_eq_true'] at this
    exact this.1.2

theorem plainChar_of_isDigit {c : Char} (h : c.isDigit = true) : plainChar c = true := by
  have hdigits : ∀ n < 10, plainChar (Char.ofNat (48 + n)) = true := by decide
  have hrange : 48 ≤ c.toNat ∧ c.toNat ≤ 57 := by
    simpa [Char.isDigit, UInt32.le_iff_toNat_le] using h
  have hc : c = Char.ofNat (48 + (c.toNat - 48)) := by
    rw [Nat.add_sub_cancel' hrange.1, Char.ofNat_toNat]
  rw [hc]
  exact hdigits _ (by omega)

theorem plain_version (v : Version) : Plain v.text.toList := by
  unfold Plain
  cases v <;> exact List.all_eq_true.mp (by decide)

theorem plain_hex (bytes : Bytes) : Plain (Hex.encode bytes).toList := by
  have hdigits : ∀ n < 16, plainChar (Hex.digit n) = true := by decide
  intro c hc
  obtain ⟨n, hn, rfl⟩ := Hex.exists_digit hc
  exact hdigits n hn

theorem plain_number (n : Nat) : Plain (toString n).toList := by
  intro c hc
  rw [Nat.toString_eq_repr, Nat.toList_repr] at hc
  exact plainChar_of_isDigit (Nat.isDigit_of_mem_toDigits (by decide) (by decide) hc)

/-- The characters of a date and time in RFC 3339 -/
def rfc3339Char (c : Char) : Bool := c.isDigit || ['-', '+', ':', '.', 'T', 'Z'].contains c

theorem plain_of_rfc3339 {text : List Char} (h : ∀ c ∈ text, rfc3339Char c = true) :
    Plain text := by
  have hothers : ∀ c ∈ ['-', '+', ':', '.', 'T', 'Z'], plainChar c = true :=
    List.all_eq_true.mp (by decide)
  intro c hc
  rcases Bool.or_eq_true_iff.mp (h c hc) with hdigit | hother
  · exact plainChar_of_isDigit hdigit
  · exact hothers c (List.contains_iff_mem.mp hother)

/-! ## Lines without marks -/

section Marks

variable {σ τ ρ : Type} {A : Armor σ τ ρ} {line val : List Char} {C : Crates}

/-- The marks of an armor have the letters that plain values are without, and its blank lines have
    no colon. -/
structure Lettered (A : Armor σ τ ρ) : Prop where
  isEnd : ∀ {line}, A.isEnd line = true → 'P' ∈ line
  isSealBegin : ∀ {line}, A.isSealBegin line = true → 'L' ∈ line
  isSealEnd : ∀ {line}, A.isSealEnd line = true → 'L' ∈ line
  isBlank : ∀ {line}, ':' ∈ line → A.isBlank line = false

theorem mem_of_contains {text : String} {c : Char} (h : contains text line = true)
    (hc : c ∈ text.toList) : c ∈ line :=
  (of_decide_eq_true h).subset hc

theorem lettered_protocol : Lettered (Protocol.armor C) where
  isEnd h := by
    simp only [Protocol.armor, Bool.or_eq_true] at h
    rcases h with (h | h) | h <;> exact mem_of_contains h (by decide)
  isSealBegin h := mem_of_contains h (by decide)
  isSealEnd h := mem_of_contains h (by decide)
  isBlank h := by
    refine decide_eq_false fun hblank => ?_
    rw [List.eq_nil_iff_forall_not_mem] at hblank
    exact hblank ':' (mem_trim h (by decide))

theorem lettered_engine : Lettered (armor C) where
  isEnd h := mem_of_contains h (by decide)
  isSealBegin h := mem_of_contains h (by decide)
  isSealEnd h := mem_of_contains h (by decide)
  isBlank h := decide_eq_false (List.ne_nil_of_mem h)

theorem Lettered.clean (hA : Lettered A) (hP : 'P' ∉ line) (hL : 'L' ∉ line) :
    Armor.Clean A line where
  isEnd := Bool.eq_false_iff.mpr fun h => hP (hA.isEnd h)
  isSealBegin := Bool.eq_false_iff.mpr fun h => hL (hA.isSealBegin h)
  isSealEnd := Bool.eq_false_iff.mpr fun h => hL (hA.isSealEnd h)

theorem Plain.notMem (h : Plain val) : 'P' ∉ val ∧ 'L' ∉ val :=
  ⟨fun hP => absurd (h _ hP) (by decide), fun hL => absurd (h _ hL) (by decide)⟩

theorem headerName_spec (name : HeaderName) :
    'P' ∉ name.text ∧ 'L' ∉ name.text ∧ ':' ∈ name.text
      ∧ ∀ c ∈ name.text, isControl c = false := by
  cases name <;> exact ⟨by decide, by decide, by decide, noControl_of_all (by decide)⟩

theorem Lettered.clean_headerLine (hA : Lettered A) {name : HeaderName} (h : Plain val) :
    Armor.Clean A (headerLine (name, val)) := by
  obtain ⟨hP, hL, -, -⟩ := headerName_spec name
  refine hA.clean ?_ ?_
  · exact fun hmem => (List.mem_append.mp hmem).elim hP h.notMem.1
  · exact fun hmem => (List.mem_append.mp hmem).elim hL h.notMem.2

theorem colon_mem_headerLine (entry : HeaderName × List Char) : ':' ∈ headerLine entry :=
  List.mem_append_left _ (headerName_spec entry.1).2.2.1

end Marks

variable {C : Crates} {toRfc3339 : DateTime → String} {b : Block}

theorem clean_protocol_iff {line : List Char} :
    Armor.Clean (Protocol.armor C) line ↔ NoMark line := by
  constructor
  · rintro ⟨hend, hbegin, hsealEnd⟩
    simp only [Protocol.armor, Bool.or_eq_false_iff] at hend hbegin hsealEnd
    simp [NoMark, marks, hend, hbegin, hsealEnd]
  · intro h
    simp only [NoMark, marks, List.forall_mem_cons] at h
    obtain ⟨h1, h2, h3, h4, h5, -⟩ := h
    exact
      { isEnd := by simp only [Protocol.armor, h1, h2, h3, Bool.or_self]
        isSealBegin := h4
        isSealEnd := h5 }

theorem clean_engine {line : List Char} (h : NoMark line) : Armor.Clean (armor C) line := by
  have hpart : ∀ {part whole : String}, part.toList <:+: whole.toList → contains part line = false →
      contains whole line = false := by
    intro part whole hinner hpart
    exact decide_eq_false fun hwhole => of_decide_eq_false hpart (hinner.trans hwhole)
  exact
    { isEnd := h _ (by decide)
      isSealBegin := hpart (by decide) (h "BEGIN SEAL" (by decide))
      isSealEnd := hpart (by decide) (h "END SEAL" (by decide)) }

/-! ## The lines of a tidy block -/

variable (hb : Tidy b) (hchars : ∀ t, ∀ c ∈ (toRfc3339 t).toList, rfc3339Char c = true)

include hb hchars in
/-- A header that is written is plain, or one of the texts from outside. -/
theorem entry_cases {entry : HeaderName × List Char} (h : entry ∈ headerValues toRfc3339 b) :
    Plain entry.2 ∨ Trimmed entry.2 ∧ headerLine entry ∈ freeLines b := by
  simp only [headerValues, List.mem_append, List.mem_cons, List.not_mem_nil, or_false,
    Option.mem_toList, Option.map_eq_some_iff] at h
  rcases h with (((((((rfl | rfl | rfl | rfl) | ⟨tool, htool, rfl⟩) | ⟨tier, htier, rfl⟩)
    | ⟨score, -, rfl⟩) | ⟨cp, -, rfl⟩) | ⟨dur, -, rfl⟩) | ⟨nonce, -, rfl⟩)
  · exact .inl (plain_version _)
  · exact .inr ⟨hb.author, by simp [freeLines]⟩
  · exact .inl (plain_hex _)
  · exact .inl (plain_of_rfc3339 (hchars _))
  · rw [(hb.tool tool htool).filter_eq]
    exact .inr ⟨hb.tool tool htool, by simp [freeLines, htool]⟩
  · exact .inr ⟨hb.tier tier htier, by simp [freeLines, htier]⟩
  · exact .inl (plain_number _)
  · exact .inl (plain_number _)
  · exact .inl (plain_number _)
  · exact .inl (plain_hex _)

def frame (C : Crates) : Armor.Frame (armor C) where
  first := "-----BEGIN CPoE WAR-----".toList
  sealBegin := "-----BEGIN SEAL-----".toList
  sealEnd := "-----END SEAL-----".toList
  last := "-----END CPoE WAR-----".toList
  isBegin_first := by
    dsimp only [armor]
    decide
  isEnd_last := by
    dsimp only [armor]
    decide
  isSealBegin_sealBegin := by
    dsimp only [armor]
    decide
  isSealEnd_sealEnd := by
    dsimp only [armor]
    decide
  isBlank_nil := rfl
  notEnd := by
    dsimp only [armor]
    decide
  notSealBegin := by
    dsimp only [armor]
    decide
  notSealEnd := by
    dsimp only [armor]
    decide

def protocolFrame (C : Crates) : Armor.Frame (Protocol.armor C) where
  first := "-----BEGIN CPoE WAR-----".toList
  sealBegin := "-----BEGIN SEAL-----".toList
  sealEnd := "-----END SEAL-----".toList
  last := "-----END CPoE WAR-----".toList
  isBegin_first := by
    dsimp only [Protocol.armor]
    decide
  isEnd_last := by
    dsimp only [Protocol.armor]
    decide
  isSealBegin_sealBegin := by
    dsimp only [Protocol.armor]
    decide
  isSealEnd_sealEnd := by
    dsimp only [Protocol.armor]
    decide
  isBlank_nil := rfl
  notEnd := by
    dsimp only [Protocol.armor]
    decide
  notSealBegin := by
    dsimp only [Protocol.armor]
    decide
  notSealEnd := by
    dsimp only [Protocol.armor]
    decide

section Parts

variable (toRfc3339 b)

def headerPart : List (List Char) := (headerValues toRfc3339 b).map headerLine

def statementPart : List (List Char) := wordWrap b.statement.toList 72

def digitPart : List (List Char) := chunks 64 (encodeHex b.warSeal).toList

end Parts

theorem encodedLines_eq :
    encodedLines toRfc3339 b
      = (frame C).lines (headerPart toRfc3339 b) (statementPart b) (digitPart b) := by
  rw [Armor.Frame.lines_eq]
  rfl

theorem encodedLines_eq_protocol :
    encodedLines toRfc3339 b
      = (protocolFrame C).lines (headerPart toRfc3339 b) (statementPart b) (digitPart b) := by
  rw [Armor.Frame.lines_eq]
  rfl

theorem plain_encodeHex (s : Seal) : Plain (encodeHex s).toList := by
  unfold encodeHex
  exact plain_hex _

theorem plain_digitPart {line : List Char} (h : line ∈ digitPart b) : Plain line := by
  unfold digitPart at h
  intro c hc
  exact plain_encodeHex b.warSeal c (mem_of_mem_chunks h c hc)

include hb hchars in
theorem lines_encodeAscii :
    lines (encodeAscii toRfc3339 b).toList = encodedLines toRfc3339 b := by
  have hfixed : ∀ line ∈ ["-----BEGIN CPoE WAR-----".toList, [], "-----BEGIN SEAL-----".toList,
      "-----END SEAL-----".toList, "-----END CPoE WAR-----".toList],
      ∀ c ∈ line, isControl c = false := by
    intro line hline
    apply noControl_of_all
    revert line
    decide
  have hheaders : ∀ line ∈ headerPart toRfc3339 b, Text.IsLine line := by
    intro line hline
    obtain ⟨entry, hentry, rfl⟩ := List.mem_map.mp hline
    have htrimmed : Trimmed entry.2 := (entry_cases hb hchars hentry).elim Plain.trimmed And.left
    refine isLine_of_noControl fun c hc => ?_
    rcases List.mem_append.mp hc with hc | hc
    · exact (headerName_spec entry.1).2.2.2 c hc
    · exact htrimmed.noControl c hc
  have hdigits : ∀ line ∈ digitPart b, Text.IsLine line := fun line hline =>
    isLine_of_noControl (plain_digitPart hline).trimmed.noControl
  rw [encodeAscii, String.toList_ofList]
  refine lines_unlines fun line hline => ?_
  simp only [encodedLines, List.mem_append, List.mem_cons, List.not_mem_nil, or_false] at hline
  rcases hline with ((((((rfl | h) | rfl) | h) | rfl) | rfl) | h) | rfl | rfl
  · exact isLine_of_noControl (hfixed _ (by simp))
  · exact hheaders _ h
  · exact isLine_of_noControl (hfixed _ (by simp))
  · exact (isWrapped_of_mem_wordWrap h).isLine
  · exact isLine_of_noControl (hfixed _ (by simp))
  · exact isLine_of_noControl (hfixed _ (by simp))
  · exact hdigits _ h
  · exact isLine_of_noControl (hfixed _ (by simp))
  · exact isLine_of_noControl (hfixed _ (by simp))

/-- No part of the text holds a mark of an armor, if none of the texts from outside does. -/
theorem unmarked {σ τ ρ : Type} {A : Armor σ τ ρ} (hA : Lettered A) (hb : Tidy b)
    (hchars : ∀ t, ∀ c ∈ (toRfc3339 t).toList, rfc3339Char c = true)
    (hfree : ∀ line ∈ freeLines b, Armor.Clean A line) :
    Armor.Frame.Unmarked A (headerPart toRfc3339 b) (statementPart b) (digitPart b) where
  headers line hline := by
    obtain ⟨entry, hentry, rfl⟩ := List.mem_map.mp hline
    refine ⟨hA.isBlank (colon_mem_headerLine entry), ?_⟩
    rcases entry_cases hb hchars hentry with hplain | ⟨-, hmem⟩
    · exact hA.clean_headerLine hplain
    · exact hfree _ hmem
  statement line hline :=
    ⟨(isWrapped_of_mem_wordWrap hline).ne_nil, hfree _ (List.mem_append_right _ hline)⟩
  digits line hline := by
    have hplain := plain_digitPart hline
    have hclean := hA.clean hplain.notMem.1 hplain.notMem.2
    exact ⟨hclean.isEnd, hclean.isSealEnd⟩

theorem decodeHex_digitPart :
    Protocol.Seal.decodeHex C (String.ofList ((digitPart b).map trim).flatten)
      = .ok (toProtocol b.warSeal) := by
  have htrim : (digitPart b).map trim = digitPart b :=
    (List.map_congr_left fun line hline => (plain_digitPart hline).trimmed.trim).trans
      (List.map_id _)
  rw [htrim, digitPart, flatten_chunks (by decide), String.ofList_toList,
    Protocol.decodeHex_eq_ok]
  exact Hex.decode_encode _

theorem decodeHex_headers {ls : List (List Char)} (h : ∀ line ∈ ls, line ∈ headerPart toRfc3339 b)
    (s : Protocol.Seal) :
    Protocol.Seal.decodeHex C (String.ofList (ls.map trim).flatten) ≠ .ok s := by
  intro hdecode
  have hbytes := Protocol.decodeHex_eq_ok.mp hdecode
  cases ls with
  | nil =>
    have hnil : (some [] : Option Bytes) = some s.bytes := hbytes
    have hlength := congrArg List.length (Option.some.inj hnil)
    simp [Protocol.Seal.bytes, length_val] at hlength
  | cons line ls =>
    obtain ⟨entry, -, rfl⟩ := List.mem_map.mp (h line List.mem_cons_self)
    have hcolon : ':' ∈ (((headerLine entry) :: ls).map trim).flatten := by
      rw [List.map_cons, List.flatten_cons]
      exact List.mem_append_left _ (mem_trim (colon_mem_headerLine entry) (by decide))
    rw [Hex.decode, Hex.utf8_ofList] at hbytes
    have hdigit := Hex.digitValue_of_decodeBytes hbytes 58
      (List.mem_flatMap.mpr ⟨':', hcolon, by decide⟩)
    exact absurd hdigit (by decide)

/-! ## The headers of a tidy block -/

section Entries

variable (toRfc3339 b)

def frontEntries : List (HeaderName × List Char) :=
  [(.version, b.version.text.toList), (.author, b.author.toList),
    (.documentId, (Hex.encode b.documentId.val).toList),
    (.timestamp, (toRfc3339 b.timestamp).toList)]

def nonceEntry : List (HeaderName × List Char) :=
  (b.verifierNonce.map fun nonce => (.verifierNonce, (Hex.encode nonce.val).toList)).toList

end Entries

/-- The headers that both decoders know, with the time that is read for the timestamp -/
def frontHeaders (b : Block) (t : DateTime) : Headers :=
  { version := some b.version, author := some b.author, documentId := some b.documentId
    timestamp := some t }

/-- What the protocol crate reads of the headers -/
def commonHeaders (b : Block) (t : DateTime) : Headers :=
  { frontHeaders b t with verifierNonce := b.verifierNonce }

/-- What the engine reads of them -/
def allHeaders (b : Block) (t : DateTime) : Headers :=
  { commonHeaders b t with
    tool := b.tool, tier := b.tier, score := b.score, checkpoints := b.checkpoints
    duration := b.durationSecs }

theorem readDigest_encode {invalid mustBe : String} (digest : Digest) :
    readDigest C invalid mustBe (Hex.encode digest.val).toList = .ok digest := by
  rw [readDigest_eq_ok, (plain_hex _).trimmed.trim, String.ofList_toList]
  exact Hex.decode_encode _

include hb hchars in
theorem readFront {rest : List (HeaderName × List Char)} :
    (frontEntries toRfc3339 b ++ rest).foldlM (fun h entry => readValue C h entry.1 entry.2) {}
      = (mapErr (C.parseRfc3339 (toRfc3339 b.timestamp)) (fun e => "invalid timestamp: " ++ e)
          >>= fun t => rest.foldlM (fun h entry => readValue C h entry.1 entry.2)
            (frontHeaders b t)) := by
  have hversion : trim b.version.text.toList = b.version.text.toList :=
    (plain_version b.version).trimmed.trim
  have htimestamp : trim (toRfc3339 b.timestamp).toList = (toRfc3339 b.timestamp).toList :=
    (plain_of_rfc3339 (hchars _)).trimmed.trim
  simp only [frontEntries, List.cons_append, List.nil_append, List.foldlM_cons, readValue,
    hversion, Version.parse_text, okOr_some, res_ok_bind, hb.author.trim, readDigest_encode,
    htimestamp, String.ofList_toList]
  cases C.parseRfc3339 (toRfc3339 b.timestamp) with
  | error e => rfl
  | ok t => rfl

variable {headers : Headers}

theorem readNonce (hnone : headers.verifierNonce = none) :
    (nonceEntry b).foldlM (fun h entry => readValue C h entry.1 entry.2) headers
      = .ok { headers with verifierNonce := b.verifierNonce } := by
  refine readValue_optional (fun nonce h => ?_) fun h => ?_
  · rw [readValue, readDigest_encode, res_ok_bind, h]
  · rw [h, ← hnone]

theorem readTool (hb : Tidy b) (hnone : headers.tool = none) :
    ((b.tool.map fun tool =>
        (HeaderName.tool, tool.toList.filter fun c => !isControl c)).toList).foldlM
          (fun h entry => readValue C h entry.1 entry.2) headers
      = .ok { headers with tool := b.tool } := by
  refine readValue_optional (fun tool h => ?_) fun h => ?_
  · have htool := hb.tool tool h
    rw [htool.filter_eq, readValue, htool.trim, String.ofList_toList, h]
  · rw [h, ← hnone]

theorem readTier (hb : Tidy b) (hnone : headers.tier = none) :
    ((b.tier.map fun tier => (HeaderName.tier, tier.toList)).toList).foldlM
        (fun h entry => readValue C h entry.1 entry.2) headers
      = .ok { headers with tier := b.tier } := by
  refine readValue_optional (fun tier h => ?_) fun h => ?_
  · rw [readValue, (hb.tier tier h).trim, String.ofList_toList, h]
  · rw [h, ← hnone]

theorem readScore (hnone : headers.score = none) :
    ((b.score.map fun score => (HeaderName.score, (toString score.toNat).toList)).toList).foldlM
        (fun h entry => readValue C h entry.1 entry.2) headers
      = .ok { headers with score := b.score } := by
  refine readValue_optional (fun score h => ?_) fun h => ?_
  · rw [readValue, (plain_number _).trimmed.trim, parseUnsigned_toString score.toNat_lt,
      Option.map_some, UInt8.ofNat_toNat, h]
  · rw [h, ← hnone]

theorem readCheckpoints (hb : Tidy b) (hnone : headers.checkpoints = none) :
    ((b.checkpoints.map fun cp => (HeaderName.checkpoints, (toString cp).toList)).toList).foldlM
        (fun h entry => readValue C h entry.1 entry.2) headers
      = .ok { headers with checkpoints := b.checkpoints } := by
  refine readValue_optional (fun cp h => ?_) fun h => ?_
  · rw [readValue, (plain_number _).trimmed.trim, parseUnsigned_toString (hb.checkpoints cp h),
      h]
  · rw [h, ← hnone]

theorem readDuration (hb : Tidy b) (hnone : headers.duration = none) :
    ((b.durationSecs.map fun dur => (HeaderName.duration, (toString dur).toList)).toList).foldlM
        (fun h entry => readValue C h entry.1 entry.2) headers
      = .ok { headers with duration := b.durationSecs } := by
  refine readValue_optional (fun dur h => ?_) fun h => ?_
  · rw [readValue, (plain_number _).trimmed.trim,
      parseUnsigned_toString (hb.durationSecs dur h), h]
  · rw [h, ← hnone]

theorem mem_names (name : HeaderName) : name ∈ names := by
  cases name <;> decide

include hb hchars in
theorem readEngine :
    (headerPart toRfc3339 b).foldlM (readHeader C names) {}
      = (mapErr (C.parseRfc3339 (toRfc3339 b.timestamp)) (fun e => "invalid timestamp: " ++ e)
          >>= fun t => .ok (allHeaders b t)) := by
  have hall : (headerValues toRfc3339 b).filter (·.1 ∈ names) = headerValues toRfc3339 b := by
    simp [mem_names]
  rw [headerPart, readHeaders_written, hall, headerValues]
  simp only [List.append_assoc]
  rw [← frontEntries, readFront hb hchars]
  congr 1
  funext t
  rw [List.foldlM_append, readTool hb rfl, res_ok_bind, List.foldlM_append, readTier hb rfl,
    res_ok_bind, List.foldlM_append, readScore rfl, res_ok_bind, List.foldlM_append,
    readCheckpoints hb rfl, res_ok_bind, List.foldlM_append, readDuration hb rfl, res_ok_bind,
    ← nonceEntry, readNonce rfl]
  rfl

/-- The engine's own headers are passed. -/
theorem filter_optional {α : Type} {known : List HeaderName} {name : HeaderName} {opt : Option α}
    {write : α → List Char} (h : name ∉ known) :
    ((opt.map fun a => (name, write a)).toList).filter (·.1 ∈ known) = [] := by
  cases opt with
  | none => rfl
  | some a => simp [h]

include hb hchars in
theorem readProtocol :
    (headerPart toRfc3339 b).foldlM (readHeader C Protocol.names) {}
      = (mapErr (C.parseRfc3339 (toRfc3339 b.timestamp)) (fun e => "invalid timestamp: " ++ e)
          >>= fun t => .ok (commonHeaders b t)) := by
  have hknown : (headerValues toRfc3339 b).filter (·.1 ∈ Protocol.names)
      = frontEntries toRfc3339 b ++ nonceEntry b := by
    have hnonce : (nonceEntry b).filter (·.1 ∈ Protocol.names) = nonceEntry b := by
      rw [List.filter_eq_self, nonceEntry]
      intro entry hentry
      obtain ⟨nonce, -, rfl⟩ := Option.map_eq_some_iff.mp (Option.mem_toList.mp hentry)
      show decide (HeaderName.verifierNonce ∈ Protocol.names) = true
      decide
    simp only [headerValues, List.filter_append]
    rw [filter_optional (by decide), filter_optional (by decide), filter_optional (by decide),
      filter_optional (by decide), filter_optional (by decide), ← nonceEntry, hnonce]
    simp [frontEntries, Protocol.names]
  rw [headerPart, readHeaders_written, hknown, readFront hb hchars]
  congr 1
  funext t
  rw [readNonce rfl]
  rfl

/-! ## Reading back -/

/-- What the engine reads of a block without marks, with the time that is read for the timestamp -/
def readBack (b : Block) (t : DateTime) : Block :=
  { b with
    timestamp := t
    warSeal := { b.warSeal with reconstructed := false }
    evidence := none
    signed := decide (b.warSeal.signature ≠ filled 64 0) }

def readBackProtocol (b : Block) (t : DateTime) : Protocol.Block :=
  { version := b.version, author := b.author, documentId := b.documentId, timestamp := t
    statement := b.statement, warSeal := toProtocol b.warSeal
    signed := decide (b.warSeal.signature ≠ filled 64 0)
    verifierNonce := b.verifierNonce }

theorem unwords_statementPart (hb : Tidy b) :
    unwords (statementPart b) = b.statement.toList := by
  rw [statementPart, unwords_wordWrap, hb.statement]

include hb hchars in
theorem decodeAscii_eq_ok (hfree : ∀ line ∈ freeLines b, NoMark line) {now : Int} {read : Block} :
    decodeAscii C now (encodeAscii toRfc3339 b) = .ok read ↔
      ∃ t, C.parseRfc3339 (toRfc3339 b.timestamp) = .ok t ∧ readBack b t = read := by
  have hlines := (lines_encodeAscii hb hchars).trans (encodedLines_eq (C := C))
  have hunmarked := unmarked (lettered_engine (C := C)) hb hchars fun line h =>
    clean_engine (hfree line h)
  have hseal : decodeHex C (String.ofList ((digitPart b).map trim).flatten)
      = .ok { b.warSeal with reconstructed := false } := by
    rw [decodeHex, decodeHex_digitPart]
    rfl
  have hdecode : ∀ {headers statement decoded},
      (armor C).decode (encodeAscii toRfc3339 b).toList = .ok (headers, statement, decoded) ↔
        (∃ t, C.parseRfc3339 (toRfc3339 b.timestamp) = .ok t ∧ allHeaders b t = headers)
          ∧ statement = b.statement.toList
          ∧ { b.warSeal with reconstructed := false } = decoded := by
    intro headers statement decoded
    rw [hunmarked.decode_eq_ok hlines, unwords_statementPart hb]
    refine and_congr ?_ (and_congr_right fun _ => ?_)
    · show (∃ h, (headerPart toRfc3339 b).foldlM (readHeader C names) {} = .ok h
        ∧ Except.ok h = Except.ok headers) ↔ _
      rw [readEngine hb hchars]
      simp only [mapErr_bind_eq_ok, Except.ok.injEq, exists_eq_right]
    · show decodeHex C _ = _ ↔ _
      rw [hseal, Except.ok.injEq]
  unfold decodeAscii
  rw [res_bind_eq_ok]
  constructor
  · rintro ⟨⟨headers, statement, decoded⟩, h, hread⟩
    obtain ⟨⟨t, ht, rfl⟩, rfl, rfl⟩ := hdecode.mp h
    refine ⟨t, ht, (Eq.trans ?_ (Except.ok.inj hread))⟩
    rw [String.ofList_toList]
    rfl
  · rintro ⟨t, ht, rfl⟩
    refine ⟨_, hdecode.mpr ⟨⟨t, ht, rfl⟩, rfl, rfl⟩, ?_⟩
    simp only [String.ofList_toList]
    rfl

include hb hchars in
theorem protocolDecode_eq_ok (hfree : ∀ line ∈ freeLines b, NoMark line) {read : Protocol.Block} :
    Protocol.Block.decodeAscii C (encodeAscii toRfc3339 b) = .ok read ↔
      ∃ t, C.parseRfc3339 (toRfc3339 b.timestamp) = .ok t ∧ readBackProtocol b t = read := by
  have hlines := (lines_encodeAscii hb hchars).trans (encodedLines_eq_protocol (C := C))
  have hunmarked := unmarked (lettered_protocol (C := C)) hb hchars fun line h =>
    clean_protocol_iff.mpr (hfree line h)
  have hheader : ∀ {t header},
      Protocol.required (commonHeaders b t) = .ok header ↔
        { version := b.version, author := b.author, documentId := b.documentId, timestamp := t
          verifierNonce := b.verifierNonce } = header :=
    ⟨fun h => Except.ok.inj h, fun h => h ▸ rfl⟩
  have hdecode : ∀ {header statement decoded},
      (Protocol.armor C).decode (encodeAscii toRfc3339 b).toList
          = .ok (header, statement, decoded) ↔
        (∃ t, C.parseRfc3339 (toRfc3339 b.timestamp) = .ok t
            ∧ Protocol.required (commonHeaders b t) = .ok header)
          ∧ statement = b.statement.toList ∧ toProtocol b.warSeal = decoded := by
    intro header statement decoded
    rw [hunmarked.decode_eq_ok hlines, unwords_statementPart hb]
    refine and_congr ?_ (and_congr_right fun _ => ?_)
    · show (∃ h, (headerPart toRfc3339 b).foldlM (readHeader C Protocol.names) {} = .ok h
        ∧ Protocol.required h = .ok header) ↔ _
      rw [readProtocol hb hchars]
      simp only [mapErr_bind_eq_ok, Except.ok.injEq]
      constructor
      · rintro ⟨_, ⟨t, ht, rfl⟩, hrequired⟩
        exact ⟨t, ht, hrequired⟩
      · rintro ⟨t, ht, hrequired⟩
        exact ⟨_, ⟨t, ht, rfl⟩, hrequired⟩
    · show Protocol.Seal.decodeHex C _ = _ ↔ _
      rw [decodeHex_digitPart, Except.ok.injEq]
  unfold Protocol.Block.decodeAscii
  rw [res_bind_eq_ok]
  constructor
  · rintro ⟨⟨header, statement, decoded⟩, h, hread⟩
    obtain ⟨⟨t, ht, hrequired⟩, rfl, rfl⟩ := hdecode.mp h
    obtain rfl := hheader.mp hrequired
    refine ⟨t, ht, Eq.trans ?_ (Except.ok.inj hread)⟩
    rw [String.ofList_toList]
    rfl
  · rintro ⟨t, ht, rfl⟩
    refine ⟨_, hdecode.mpr ⟨⟨t, ht, rfl⟩, rfl, rfl⟩, ?_⟩
    simp only [String.ofList_toList]
    rfl

theorem mem_parts_of_free (hb : Tidy b) {line : List Char} (h : line ∈ freeLines b) :
    line ∈ headerPart toRfc3339 b ++ statementPart b := by
  have hheader : ∀ {entry}, entry ∈ headerValues toRfc3339 b →
      headerLine entry ∈ headerPart toRfc3339 b ++ statementPart b :=
    fun hentry => List.mem_append_left _ (List.mem_map_of_mem hentry)
  simp only [freeLines, List.mem_append, List.mem_cons, Option.mem_toList,
    Option.map_eq_some_iff] at h
  rcases h with ((rfl | ⟨tool, htool, rfl⟩) | ⟨tier, htier, rfl⟩) | h
  · exact hheader (by simp [headerValues])
  · refine hheader ?_
    simp [headerValues, htool, (hb.tool tool htool).filter_eq]
  · exact hheader (by simp [headerValues, htier])
  · exact List.mem_append_right _ h

include hb hchars in
theorem noMark_of_decode {read : Protocol.Block}
    (h : Protocol.Block.decodeAscii C (encodeAscii toRfc3339 b) = .ok read)
    (hstatement : read.statement = b.statement) : ∀ line ∈ freeLines b, NoMark line := by
  have hlines := (lines_encodeAscii hb hchars).trans (encodedLines_eq_protocol (C := C))
  unfold Protocol.Block.decodeAscii at h
  obtain ⟨⟨header, statement, decoded⟩, hdecode, hread⟩ := res_bind_eq_ok.mp h
  obtain rfl := Except.ok.inj hread
  have hwords : statement = unwords (statementPart b) := by
    rw [unwords_statementPart hb, ← hstatement, String.toList_ofList]
  rw [hwords] at hdecode
  intro line hline
  refine clean_protocol_iff.mp (Armor.Frame.clean_of_decode hlines (fun l hl => ?_)
    (fun l hl => (isWrapped_of_mem_wordWrap hl).ne_nil) (fun ls hls => decodeHex_headers hls)
    hdecode line (mem_parts_of_free hb hline))
  obtain ⟨entry, -, rfl⟩ := List.mem_map.mp hl
  exact lettered_protocol.isBlank (colon_mem_headerLine entry)

include hb hchars in
/-- A tidy block is read back by both just when none of its texts holds a mark, its timestamp can be
    read back and its seal is not reconstructed. -/
theorem roundTrips_iff : RoundTrips C toRfc3339 b ↔ Faithful C toRfc3339 b := by
  constructor
  · rintro ⟨hengine, read, hread, hsame⟩
    have hfree := noMark_of_decode hb hchars hread hsame.statement
    obtain ⟨back, hback, hfields⟩ := hengine 0
    obtain ⟨t, ht, rfl⟩ := (decodeAscii_eq_ok hb hchars hfree).mp hback
    have htime : t = b.timestamp := hfields.timestamp
    exact
      { notReconstructed := congrArg Seal.reconstructed hfields.warSeal.symm
        timestamp := htime ▸ ht
        noMark := hfree }
  · intro h
    have hseal : (readBack b b.timestamp).warSeal = b.warSeal := by
      rw [readBack, ← h.notReconstructed]
    refine ⟨fun now => ⟨_, (decodeAscii_eq_ok hb hchars h.noMark).mpr ⟨_, h.timestamp, rfl⟩, ?_⟩,
      _, (protocolDecode_eq_ok hb hchars h.noMark).mpr ⟨_, h.timestamp, rfl⟩, ?_⟩
    · exact ⟨rfl, rfl, rfl, rfl, rfl, hseal, rfl, rfl, rfl, rfl, rfl, rfl⟩
    · exact ⟨rfl, rfl, rfl, rfl, rfl, rfl, rfl⟩

/-- The engine's decoder returns just on the texts whose seal is in order, and both decoders read
    back just the faithful ones of the tidy blocks. -/
theorem armor_faithful_iff (C : Crates) (toRfc3339 : DateTime → String)
    (hchars : ∀ t, ∀ c ∈ (toRfc3339 t).toList, rfc3339Char c = true) :
    (∀ now text, decodeAscii C now text ≠ abort ↔ SealInOrder C text)
      ∧ ∀ b, Tidy b → (RoundTrips C toRfc3339 b ↔ Faithful C toRfc3339 b) :=
  ⟨decodeAscii_ne_abort_iff, fun _ hb => roundTrips_iff hb hchars⟩

def epochCrates : Crates :=
  { Evidence.sumCrates with
    parseRfc3339 := fun text =>
      if text = "1970-01-01T00:00:00+00:00" then .ok (.ofNanos 0)
      else .error "input contains invalid characters" }

def epochText (_ : DateTime) : String := "1970-01-01T00:00:00+00:00"

def epochBlock : Block :=
  { version := .v1_1, author := "Jo", documentId := filled 32 1, timestamp := .ofNanos 0
    statement := "I wrote this."
    warSeal :=
      { h1 := filled 32 2, h2 := filled 32 3, h3 := filled 32 4
        signature := filled 64 5, publicKey := filled 32 6
        reconstructed := false }
    tool := some "none", tier := some "T1", score := some 90, checkpoints := some 3
    durationSecs := some 60, evidence := none, signed := true, verifierNonce := none }

theorem tidy_epochBlock : Tidy epochBlock where
  author := ⟨by decide, noControl_of_all (by decide)⟩
  tool := by
    rintro _ ⟨⟩
    exact ⟨by decide, noControl_of_all (by decide)⟩
  tier := by
    rintro _ ⟨⟩
    exact ⟨by decide, noControl_of_all (by decide)⟩
  statement := by decide
  checkpoints := by
    rintro _ ⟨⟩
    decide
  durationSecs := by
    rintro _ ⟨⟩
    decide

theorem epochText_chars : ∀ t, ∀ c ∈ (epochText t).toList, rfc3339Char c = true := by
  intro t
  unfold epochText
  exact List.all_eq_true.mp (by decide)

theorem armor_faithful_epochBlock :
    RoundTrips epochCrates epochText epochBlock
      ∧ decodeAscii epochCrates 0 "BEGIN CPoE WAR" ≠ abort := by
  obtain ⟨htotal, hblocks⟩ := armor_faithful_iff epochCrates epochText epochText_chars
  refine ⟨(hblocks epochBlock tidy_epochBlock).mpr ⟨rfl, rfl, ?_⟩, (htotal 0 _).mpr ?_⟩
  · unfold NoMark
    decide +kernel
  · have hnone : (lines "BEGIN CPoE WAR".toList).findIdx? (armor epochCrates).isEnd
        = none := by
      decide
    rintro _ _ _ ⟨start, end_, -, hend, -⟩
    exact absurd (hnone.symm.trans hend) nofun

def markedBlock : Block := { epochBlock with statement := "Here I write END SEAL twice." }

def sealEndsFirst : List (List Char) :=
  ["-----BEGIN CPoE WAR-----".toList, [], "-----END SEAL-----".toList,
    "-----BEGIN SEAL-----".toList, "-----END CPoE WAR-----".toList]

/-- A seal that ends before it begins aborts the reader, and a statement that names the end of the
seal does not come back. -/
theorem armor_not_faithful :
    decodeAscii epochCrates 0 (String.ofList (unlines sealEndsFirst)) = abort
      ∧ Tidy markedBlock ∧ ¬ RoundTrips epochCrates epochText markedBlock := by
  have htidy : Tidy markedBlock :=
    { tidy_epochBlock with statement := by decide }
  refine ⟨by decide +kernel, htidy, fun h => ?_⟩
  have hfaithful := (roundTrips_iff htidy epochText_chars).mp h
  have hmark :=
    hfaithful.noMark "Here I write END SEAL twice.".toList (by decide +kernel) "END SEAL"
    (by decide)
  exact absurd hmark (by decide)

end WritersProof.War.Engine
