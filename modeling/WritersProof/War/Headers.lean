/-
  WritersProof.War.Headers

  The headers of an armored block (`decode_ascii` of
  crates/authorproof-protocol/src/war/encoding.rs and crates/cpoe/src/war/encoding.rs).

  The two decoders read the headers that both know in the same way.  They know different
  ones, and the engine has values for those that are missing.
-/
import WritersProof.War.Armor

namespace WritersProof.War

open Rust Text
open Checkpoint (Digest)
open Evidence (Crates)

def Version.parse (text : List Char) : Option Version :=
  if text = "WAR/1.0".toList then some .v1_0
  else if text = "WAR/1.1".toList then some .v1_1
  else if text = "WAR/2.0".toList then some .v2_0
  else none

theorem Version.parse_text (v : Version) : Version.parse v.text.toList = some v := by
  cases v <;> decide

inductive HeaderName where
  | version
  | author
  | documentId
  | timestamp
  | tool
  | tier
  | score
  | checkpoints
  | duration
  | verifierNonce
  deriving DecidableEq

def HeaderName.text : HeaderName → List Char
  | .version => "Version: ".toList
  | .author => "Author: ".toList
  | .documentId => "Document-ID: ".toList
  | .timestamp => "Timestamp: ".toList
  | .tool => "Tool: ".toList
  | .tier => "Tier: ".toList
  | .score => "Score: ".toList
  | .checkpoints => "Checkpoints: ".toList
  | .duration => "Duration: ".toList
  | .verifierNonce => "Verifier-Nonce: ".toList

theorem HeaderName.eq_of_prefix (a b : HeaderName) (h : a.text <+: b.text) : a = b := by
  cases a <;> cases b <;> first | rfl | exact absurd h (by decide)

/-- The first of the headers that a line is, and what follows:
    `if let Some(val) = line.strip_prefix(…) { … } else if let …` -/
def matchHeader (names : List HeaderName) (line : List Char) : Option (HeaderName × List Char) :=
  names.findSome? fun name => (stripPrefix name.text line).map fun val => (name, val)

structure Headers where
  version : Option Version := none
  author : Option String := none
  documentId : Option Digest := none
  timestamp : Option DateTime := none
  tool : Option String := none
  tier : Option String := none
  score : Option UInt8 := none
  checkpoints : Option Nat := none
  duration : Option Nat := none
  verifierNonce : Option Digest := none

section Defs

variable (C : Crates)

/-- 32 bytes in hexadecimal -/
def readDigest (invalid mustBe : String) (val : List Char) : Res String Digest := do
  let bytes ← mapErr (C.hexDecode (String.ofList (trim val))) fun e => invalid ++ e
  okOr (FixedBytes.tryFrom 32 bytes) mustBe

def readValue (headers : Headers) : HeaderName → List Char → Res String Headers
  | .version, val => do
    let version ← okOr (Version.parse (trim val)) s!"unknown version: {String.ofList val}"
    .ok { headers with version := some version }
  | .author, val => .ok { headers with author := some (String.ofList (trim val)) }
  | .documentId, val => do
    let id ← readDigest C "invalid document ID: " "document ID must be 32 bytes" val
    .ok { headers with documentId := some id }
  | .timestamp, val => do
    let timestamp ← mapErr (C.parseRfc3339 (String.ofList (trim val)))
      fun e => "invalid timestamp: " ++ e
    .ok { headers with timestamp := some timestamp }
  | .tool, val => .ok { headers with tool := some (String.ofList (trim val)) }
  | .tier, val => .ok { headers with tier := some (String.ofList (trim val)) }
  -- a number that does not parse is no number
  | .score, val =>
    .ok { headers with score := (parseUnsigned (2 ^ 8) (trim val)).map UInt8.ofNat }
  | .checkpoints, val =>
    .ok { headers with checkpoints := parseUnsigned (2 ^ 64) (trim val) }
  | .duration, val =>
    .ok { headers with duration := parseUnsigned (2 ^ 64) (trim val) }
  | .verifierNonce, val => do
    let nonce ← readDigest C "invalid verifier nonce: " "verifier nonce must be 32 bytes" val
    .ok { headers with verifierNonce := some nonce }

def readHeader (names : List HeaderName) (headers : Headers) (line : List Char) :
    Res String Headers :=
  match matchHeader names line with
  | some (name, val) => readValue C headers name val
  | none => .ok headers

/-- What is written behind a header can be read. -/
def ValueOk : HeaderName → List Char → Prop
  | .version, val => ∃ version, Version.parse (trim val) = some version
  | .documentId, val => ∃ id : Digest, Hex.decode (String.ofList (trim val)) = some id.val
  | .timestamp, val => ∃ timestamp, C.parseRfc3339 (String.ofList (trim val)) = .ok timestamp
  | .verifierNonce, val =>
    ∃ nonce : Digest, Hex.decode (String.ofList (trim val)) = some nonce.val
  | _, _ => True

def HeaderOk (names : List HeaderName) (line : List Char) : Prop :=
  ∀ name ∈ names, ∀ val, line = name.text ++ val → ValueOk C name val

end Defs

/-- The headers that a block cannot be without -/
def requiredNames : List HeaderName := [.version, .author, .documentId, .timestamp]

/-- The required headers that have been read -/
def Headers.has (headers : Headers) : HeaderName → Bool
  | .version => headers.version.isSome
  | .author => headers.author.isSome
  | .documentId => headers.documentId.isSome
  | .timestamp => headers.timestamp.isSome
  | _ => true

variable {C : Crates} {names : List HeaderName} {line val : List Char} {headers read : Headers}
  {n : HeaderName}

theorem stripPrefix_eq_some {front : List Char} :
    stripPrefix front line = some val ↔ line = front ++ val := by
  constructor
  · intro h
    unfold stripPrefix at h
    split at h
    next hprefix =>
      rw [← Option.some.inj h]
      exact (List.prefix_iff_eq_append.mp hprefix).symm
    next => cases h
  · rintro rfl
    exact stripPrefix_append front val

variable {name : HeaderName}

theorem matchHeader_eq_some :
    matchHeader names line = some (name, val) ↔ name ∈ names ∧ line = name.text ++ val := by
  constructor
  · intro h
    obtain ⟨name', hname, hval⟩ := List.exists_of_findSome?_eq_some h
    obtain ⟨val', hstrip, heq⟩ := Option.map_eq_some_iff.mp hval
    cases heq
    exact ⟨hname, stripPrefix_eq_some.mp hstrip⟩
  · rintro ⟨hname, rfl⟩
    unfold matchHeader
    induction names with
    | nil => cases hname
    | cons other names ih =>
      rw [List.findSome?_cons]
      by_cases hother : other = name
      · rw [hother, stripPrefix_append]
        rfl
      · have hnone : stripPrefix other.text (name.text ++ val) = none := by
          rw [stripPrefix, if_neg]
          intro hprefix
          -- of two headers that a line begins with, one begins like the other
          rcases List.prefix_or_prefix_of_prefix hprefix (List.prefix_append name.text val)
              with h | h
          · exact hother (HeaderName.eq_of_prefix _ _ h)
          · exact hother (HeaderName.eq_of_prefix _ _ h).symm
        rw [hnone]
        exact ih ((List.mem_cons.mp hname).resolve_left (Ne.symm hother))

theorem matchHeader_eq_none :
    matchHeader names line = none ↔ ∀ name ∈ names, ∀ val, line ≠ name.text ++ val := by
  constructor
  · intro h name hname val hline
    rw [matchHeader_eq_some.mpr ⟨hname, hline⟩] at h
    cases h
  · intro h
    cases hmatch : matchHeader names line with
    | none => rfl
    | some found =>
      obtain ⟨hname, hline⟩ := matchHeader_eq_some.mp hmatch
      exact absurd hline (h _ hname _)

theorem readHeader_append (hname : name ∈ names) (headers : Headers) (val : List Char) :
    readHeader C names headers (name.text ++ val) = readValue C headers name val := by
  rw [readHeader, matchHeader_eq_some.mpr ⟨hname, rfl⟩]

theorem readHeader_append_of_notMem (hname : name ∉ names) (headers : Headers) (val : List Char) :
    readHeader C names headers (name.text ++ val) = .ok headers := by
  have hnone : matchHeader names (name.text ++ val) = none := by
    rw [matchHeader_eq_none]
    intro other hother val' hline
    -- of two headers that a line begins with, one begins like the other
    rcases List.prefix_or_prefix_of_prefix (hline ▸ List.prefix_append other.text val')
      (List.prefix_append name.text val) with h | h
    · exact hname (HeaderName.eq_of_prefix _ _ h ▸ hother)
    · exact hname ((HeaderName.eq_of_prefix _ _ h).symm ▸ hother)
  rw [readHeader, hnone]

def headerLine (entry : HeaderName × List Char) : List Char := entry.1.text ++ entry.2

/-- What is read of a line that was written. -/
theorem readHeaders_written (headers : Headers) (entries : List (HeaderName × List Char)) :
    (entries.map headerLine).foldlM (readHeader C names) headers
      = (entries.filter (·.1 ∈ names)).foldlM (fun h entry => readValue C h entry.1 entry.2)
          headers := by
  induction entries generalizing headers with
  | nil => rfl
  | cons entry entries ih =>
    rw [List.map_cons, List.foldlM_cons, headerLine]
    by_cases hname : entry.1 ∈ names
    · rw [readHeader_append hname, List.filter_cons_of_pos (by simpa using hname),
        List.foldlM_cons]
      exact bind_congr fun headers' => ih headers'
    · rw [readHeader_append_of_notMem hname, List.filter_cons_of_neg (by simpa using hname),
        res_ok_bind]
      exact ih headers

theorem readValue_optional {α : Type} {opt : Option α} {write : α → List Char}
    (hsome : ∀ a, opt = some a → readValue C headers name (write a) = .ok read)
    (hnone : opt = none → headers = read) :
    ((opt.map fun a => (name, write a)).toList).foldlM
      (fun h entry => readValue C h entry.1 entry.2) headers = .ok read := by
  cases opt with
  | none => exact congrArg Except.ok (hnone rfl)
  | some a =>
    show (readValue C headers name (write a) >>= fun h => .ok h) = .ok read
    rw [hsome a rfl]
    rfl

/-! ## The lines that are read -/

theorem readDigest_eq_ok {invalid mustBe : String} {digest : Digest} :
    readDigest C invalid mustBe val = .ok digest ↔
      Hex.decode (String.ofList (trim val)) = some digest.val := by
  unfold readDigest
  simp only [mapErr_bind_eq_ok, okOr_eq_ok, Crates.hexDecode_eq_ok, FixedBytes.tryFrom_eq_some]
  constructor
  · rintro ⟨_, h, rfl⟩
    exact h
  · intro h
    exact ⟨_, h, rfl⟩

theorem exists_readValue_iff (headers : Headers) (name : HeaderName) (val : List Char) :
    (∃ read, readValue C headers name val = .ok read) ↔ ValueOk C name val := by
  cases name <;> simp [readValue, ValueOk, res_bind_eq_ok, readDigest_eq_ok]

theorem has_of_readValue (h : readValue C headers name val = .ok read) (hn : n ∈ requiredNames) :
    read.has n ↔ headers.has n ∨ n = name := by
  simp only [requiredNames, List.mem_cons, List.not_mem_nil, or_false] at hn
  cases name <;> simp only [readValue, res_bind_eq_ok, Except.ok.injEq] at h <;>
    obtain ⟨_, -, rfl⟩ := h <;> rcases hn with rfl | rfl | rfl | rfl <;> simp [Headers.has]

theorem readDigest_ne_abort (invalid mustBe : String) (val : List Char) :
    readDigest C invalid mustBe val ≠ abort := by
  unfold readDigest
  refine res_bind_ne_abort ?_ fun _ _ => okOr_ne_abort _ _
  cases C.hexDecode (String.ofList (trim val)) <;> exact nofun

theorem readValue_ne_abort (headers : Headers) (name : HeaderName) (val : List Char) :
    readValue C headers name val ≠ abort := by
  cases name with
  | version => exact okOr_bind_ne_abort fun _ => nofun
  | documentId => exact res_bind_ne_abort (readDigest_ne_abort _ _ _) fun _ _ => nofun
  | verifierNonce => exact res_bind_ne_abort (readDigest_ne_abort _ _ _) fun _ _ => nofun
  | timestamp =>
    refine res_bind_ne_abort ?_ fun _ _ => nofun
    cases C.parseRfc3339 (String.ofList (trim val)) <;> exact nofun
  | author | tool | tier | score | checkpoints | duration => exact nofun

theorem readHeader_ne_abort (headers : Headers) (line : List Char) :
    readHeader C names headers line ≠ abort := by
  unfold readHeader
  split
  next => exact readValue_ne_abort _ _ _
  next => exact nofun

theorem exists_readHeader_iff (headers : Headers) (line : List Char) :
    (∃ read, readHeader C names headers line = .ok read) ↔ HeaderOk C names line := by
  unfold readHeader
  cases hmatch : matchHeader names line with
  | none =>
    have hnone := matchHeader_eq_none.mp hmatch
    exact ⟨fun _ name hname val hline => absurd hline (hnone name hname val),
      fun _ => ⟨headers, rfl⟩⟩
  | some found =>
    obtain ⟨name, val⟩ := found
    obtain ⟨hname, hline⟩ := matchHeader_eq_some.mp hmatch
    rw [exists_readValue_iff]
    constructor
    · intro h name' hname' val' hline'
      -- the line is one header only
      rw [matchHeader_eq_some.mpr ⟨hname', hline'⟩] at hmatch
      cases hmatch
      exact h
    · exact fun h => h name hname val hline

theorem has_of_readHeader (h : readHeader C names headers line = .ok read) (hn : n ∈ requiredNames)
    (hnames : n ∈ names) : read.has n ↔ headers.has n ∨ n.text <+: line := by
  unfold readHeader at h
  cases hmatch : matchHeader names line with
  | none =>
    rw [hmatch] at h
    obtain rfl := Except.ok.inj h
    have hnot : ¬ n.text <+: line := fun ⟨val, hval⟩ =>
      matchHeader_eq_none.mp hmatch n hnames val hval.symm
    exact (or_iff_left hnot).symm
  | some found =>
    obtain ⟨name, val⟩ := found
    rw [hmatch] at h
    rw [has_of_readValue h hn]
    refine or_congr_right ⟨?_, ?_⟩
    · rintro rfl
      rw [(matchHeader_eq_some.mp hmatch).2]
      exact List.prefix_append _ _
    · rintro ⟨val', hval'⟩
      rw [matchHeader_eq_some.mpr ⟨hnames, hval'.symm⟩] at hmatch
      cases hmatch
      rfl

/-- Which header lines are read. -/
theorem exists_readHeaders_iff (headers : Headers) (hs : List (List Char)) :
    (∃ read, hs.foldlM (readHeader C names) headers = .ok read) ↔
      ∀ line ∈ hs, HeaderOk C names line := by
  induction hs generalizing headers with
  | nil => exact ⟨fun _ => List.forall_mem_nil _, fun _ => ⟨headers, rfl⟩⟩
  | cons line hs ih =>
    rw [List.forall_mem_cons, ← exists_readHeader_iff headers, List.foldlM_cons]
    constructor
    · rintro ⟨read, h⟩
      obtain ⟨headers', hline, hrest⟩ := res_bind_eq_ok.mp h
      exact ⟨⟨headers', hline⟩, (ih headers').mp ⟨read, hrest⟩⟩
    · rintro ⟨⟨headers', hline⟩, hrest⟩
      obtain ⟨read, h⟩ := (ih headers').mpr hrest
      exact ⟨read, res_bind_eq_ok.mpr ⟨headers', hline, h⟩⟩

theorem has_of_readHeaders {hs : List (List Char)}
    (h : hs.foldlM (readHeader C names) headers = .ok read) (hn : n ∈ requiredNames)
    (hnames : n ∈ names) :
    read.has n ↔ headers.has n ∨ ∃ line ∈ hs, n.text <+: line := by
  induction hs generalizing headers with
  | nil =>
    obtain rfl := Except.ok.inj h
    simp
  | cons line hs ih =>
    obtain ⟨headers', hline, hrest⟩ := res_bind_eq_ok.mp h
    rw [ih hrest, has_of_readHeader hline hn hnames, or_assoc]
    simp

end WritersProof.War
