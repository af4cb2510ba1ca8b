/-
  WritersProof.Protocol.Depth

  How exact `check_cbor_depth` is (crates/authorproof-protocol/src/codec/cbor.rs).

  The loop counts the items of each open container, and nothing else: whether a tag
  waits for its item, whether a map has a key without a value and what a container was
  opened as is not on its stack.  A `Walk` is a run of the loop with notes of all that,
  and a `Slip` is a state in which the loop goes on although the input is malformed.
-/
import WritersProof.Lib.CborWire
import WritersProof.Protocol.Cbor

namespace WritersProof.Protocol

open CborWire Item

/-! ## Headers -/

section Headers

theorem initial_toNat {major low : Nat} (hmajor : major < 8) (hlow : low < 32) :
    (initial major low).toNat / 32 = major ∧ (initial major low).toNat % 32 = low := by
  have hbyte : (initial major low).toNat = major * 32 + low := by
    rw [initial, UInt8.toNat_ofNat']
    exact Nat.mod_eq_of_lt (by omega)
  rw [hbyte]
  omega

theorem eq_initial (first : UInt8) : first = initial (first.toNat / 32) (first.toNat % 32) := by
  apply UInt8.toNat_inj.mp
  have hlt := first.toNat_lt
  rw [initial, UInt8.toNat_ofNat', Nat.mod_eq_of_lt]
  · omega
  · show first.toNat / 32 * 32 + first.toNat % 32 < 256
    omega

theorem takeInt_toBE {w n : Nat} (h : n < 256 ^ w) (rest : Bytes) :
    takeInt w (Bytes.toBE w n ++ rest) = some (n, rest) := by
  have hlen := Bytes.length_toBE w n
  rw [takeInt, if_neg (by simp), List.take_left' hlen, List.drop_left' hlen,
    Bytes.ofBE_toBE_of_lt h]

theorem takeInt_eq_some {w n : Nat} {bytes rest : Bytes} (h : takeInt w bytes = some (n, rest)) :
    n < 256 ^ w ∧ bytes = Bytes.toBE w n ++ rest := by
  rw [takeInt] at h
  by_cases hlen : bytes.length < w
  · rw [if_pos hlen] at h
    cases h
  rw [if_neg hlen] at h
  cases h
  refine ⟨Bytes.ofBE_take_lt bytes w, ?_⟩
  have htake : (bytes.take w).length = w := List.length_take_of_le (Nat.not_lt.mp hlen)
  have hround := Bytes.toBE_ofBE (bytes.take w)
  rw [htake] at hround
  rw [hround, List.take_append_drop]

theorem readArg_bytes (a : Argument) (rest : Bytes) :
    readArg a.low (a.bytes ++ rest) = some (a.value, rest) := by
  obtain ⟨w, n, h⟩ := a
  cases w with
  | inline =>
    have hle : n ≤ 23 := Nat.le_of_lt_succ h
    show readArg n ([] ++ rest) = some (n, rest)
    rw [readArg, if_pos hle]
    rfl
  | one => exact takeInt_toBE (w := 1) h rest
  | two => exact takeInt_toBE (w := 2) h rest
  | four => exact takeInt_toBE (w := 4) h rest
  | eight => exact takeInt_toBE (w := 8) h rest

theorem exists_argument {additional n : Nat} {bytes rest : Bytes}
    (h : readArg additional bytes = some (n, rest)) :
    ∃ a : Argument, a.low = additional ∧ a.value = n ∧ bytes = a.bytes ++ rest := by
  rw [readArg] at h
  by_cases h23 : additional ≤ 23
  · rw [if_pos h23] at h
    cases h
    exact ⟨⟨.inline, additional, Nat.lt_succ_of_le h23⟩, rfl, rfl, rfl⟩
  rw [if_neg h23] at h
  by_cases h24 : additional = 24
  · rw [if_pos h24] at h
    obtain ⟨hlt, hbytes⟩ := takeInt_eq_some h
    exact ⟨⟨.one, n, hlt⟩, h24.symm, rfl, hbytes⟩
  rw [if_neg h24] at h
  by_cases h25 : additional = 25
  · rw [if_pos h25] at h
    obtain ⟨hlt, hbytes⟩ := takeInt_eq_some h
    exact ⟨⟨.two, n, hlt⟩, h25.symm, rfl, hbytes⟩
  rw [if_neg h25] at h
  by_cases h26 : additional = 26
  · rw [if_pos h26] at h
    obtain ⟨hlt, hbytes⟩ := takeInt_eq_some h
    exact ⟨⟨.four, n, hlt⟩, h26.symm, rfl, hbytes⟩
  rw [if_neg h26] at h
  by_cases h27 : additional = 27
  · rw [if_pos h27] at h
    obtain ⟨hlt, hbytes⟩ := takeInt_eq_some h
    exact ⟨⟨.eight, n, hlt⟩, h27.symm, rfl, hbytes⟩
  · rw [if_neg h27] at h
    cases h

/-- A header in the loop. -/
theorem scanStep_initial {len maxDepth major : Nat} (hmajor : major < 8) (a : Argument)
    (stack : List Nat) (rest : Bytes) :
    scanStep len maxDepth (stack, header major a ++ rest)
      = scanItem len maxDepth major a.value stack rest := by
  have hlow := a.low_lt
  obtain ⟨hdiv, hmod⟩ := initial_toNat hmajor (show a.low < 32 by omega)
  rw [header, List.cons_append, scanStep, hdiv, hmod, if_neg (by omega), if_neg (by omega),
    readArg_bytes]
  rfl

/-- A container or a string without a length. -/
theorem scanStep_indefinite {len maxDepth major : Nat} (hmajor : major < 7) (stack : List Nat)
    (rest : Bytes) :
    scanStep len maxDepth (stack, initial major 31 :: rest)
      = scanItem len maxDepth major u64Max stack rest := by
  obtain ⟨hdiv, hmod⟩ := initial_toNat (show major < 8 by omega) (show 31 < 32 by decide)
  rw [scanStep, hdiv, hmod, if_neg (by omega), if_pos rfl]

theorem scanStep_stop (len maxDepth : Nat) (stack : List Nat) (rest : Bytes) :
    scanStep len maxDepth (stack, 0xFF :: rest)
      = some (consumeItem (closeIndefinite stack), rest) := rfl

end Headers

/-! ## Strings -/

section Strings

variable {len : Nat} {rest : Bytes} {major fuel : Nat}

theorem skipBytes_eq_some {n : Nat} {rest' : Bytes} (hlen : rest.length < len) :
    skipBytes len n rest = some rest'
      ↔ ∃ content, rest = content ++ rest' ∧ content.length = n := by
  rw [skipBytes]
  by_cases hle : min n len ≤ rest.length
  · have hmin : min n len = n := by omega
    rw [if_pos hle, hmin]
    refine ⟨fun h => ?_, ?_⟩
    · cases h
      exact ⟨rest.take n, (List.take_append_drop n rest).symm, List.length_take_of_le (by omega)⟩
    · rintro ⟨content, hcontent, hn⟩
      rw [hcontent, List.drop_left' hn]
  · rw [if_neg hle]
    refine ⟨by rintro ⟨⟩, ?_⟩
    · rintro ⟨content, hcontent, hn⟩
      rw [hcontent, List.length_append] at hle
      omega

theorem skipBytes_append {content : Bytes} (hlen : (content ++ rest).length < len) :
    skipBytes len content.length (content ++ rest) = some rest :=
  (skipBytes_eq_some hlen).mpr ⟨content, rfl, rfl⟩

/-- One chunk of a string that was opened with type `major` is of another type. -/
def foreignChunk (len major : Nat) : Nat → Bytes → Bool
  | 0, _ => false
  | _, [] => false
  | fuel + 1, first :: rest =>
    if first = 0xFF then false
    else if first.toNat / 32 ≠ major then true
    else
      match readArg (first.toNat % 32) rest with
      | none => false
      | some (n, rest) =>
        match skipBytes len n rest with
        | none => false
        | some rest => foreignChunk len major fuel rest

theorem initial_ne_stop {low : Nat} (hmajor : major < 7) (hlow : low < 32) :
    initial major low ≠ 0xFF := by
  intro h
  obtain ⟨hdiv, -⟩ := initial_toNat (show major < 8 by omega) hlow
  rw [h] at hdiv
  have hstop : (0xFF : UInt8).toNat / 32 = 7 := rfl
  omega

/-- The chunks of a string are skipped, and none of them is foreign. -/
theorem skipChunks_append (hmajor : major < 7) (parts : List Piece) (rest : Bytes)
    (hfuel : (parts.flatMap (Piece.encode major) ++ 0xFF :: rest).length ≤ fuel)
    (hlen : (parts.flatMap (Piece.encode major) ++ 0xFF :: rest).length < len) :
    skipChunks len fuel (parts.flatMap (Piece.encode major) ++ 0xFF :: rest) = some rest
      ∧ foreignChunk len major fuel (parts.flatMap (Piece.encode major) ++ 0xFF :: rest)
        = false := by
  induction parts generalizing fuel with
  | nil =>
    cases fuel with
    | zero => exact absurd hfuel (Nat.not_succ_le_zero _)
    | succ fuel => exact ⟨rfl, rfl⟩
  | cons part parts ih =>
    have hlow := part.argument.low_lt
    obtain ⟨hdiv, hmod⟩ := initial_toNat (show major < 8 by omega)
      (show part.argument.low < 32 by omega)
    have hstop := initial_ne_stop hmajor (show part.argument.low < 32 by omega)
    rw [List.flatMap_cons, Piece.encode, header, List.append_assoc, List.append_assoc,
      List.cons_append] at hfuel hlen ⊢
    rw [List.length_cons, List.length_append] at hfuel hlen
    cases fuel with
    | zero => omega
    | succ fuel =>
      have hskip : skipBytes len part.argument.value
          (part.content ++ (parts.flatMap (Piece.encode major) ++ 0xFF :: rest))
          = some (parts.flatMap (Piece.encode major) ++ 0xFF :: rest) :=
        skipBytes_append (by omega)
      rw [List.length_append] at hfuel hlen
      obtain ⟨hchunks, hforeign⟩ := @ih fuel (by omega) (by omega)
      refine ⟨?_, ?_⟩
      · rw [skipChunks, if_neg hstop, hmod, readArg_bytes]
        show (skipBytes len part.argument.value _).bind _ = _
        rw [hskip]
        exact hchunks
      · rw [foreignChunk, if_neg hstop, hdiv, if_neg (not_not.mpr rfl), hmod, readArg_bytes]
        show (match skipBytes len part.argument.value _ with
          | none => false
          | some rest => foreignChunk len major fuel rest) = false
        rw [hskip]
        exact hforeign

theorem exists_chunks {bytes : Bytes} (h : skipChunks len fuel bytes = some rest)
    (hforeign : foreignChunk len major fuel bytes = false) (hlen : bytes.length < len) :
    ∃ parts : List Piece, bytes = parts.flatMap (Piece.encode major) ++ 0xFF :: rest := by
  induction fuel generalizing bytes with
  | zero => cases h
  | succ fuel ih =>
    cases bytes with
    | nil => cases h
    | cons first bytes =>
      rw [skipChunks] at h
      rw [foreignChunk] at hforeign
      -- the break byte, a chunk of the same type, or another item
      by_cases hstop : first = 0xFF
      · rw [if_pos hstop] at h
        cases h
        exact ⟨[], by rw [hstop]; rfl⟩
      rw [if_neg hstop] at h hforeign
      by_cases hmajor : first.toNat / 32 = major
      · rw [if_neg (not_not.mpr hmajor)] at hforeign
        rw [List.length_cons] at hlen
        cases harg : readArg (first.toNat % 32) bytes with
        | none =>
          rw [harg] at h
          cases h
        | some read =>
          obtain ⟨n, after⟩ := read
          rw [harg] at h hforeign
          obtain ⟨a, hlow, rfl, rfl⟩ := exists_argument harg
          rw [List.length_append] at hlen
          replace h : (skipBytes len a.value after).bind (skipChunks len fuel) = some rest := h
          replace hforeign : (match skipBytes len a.value after with
            | none => false
            | some rest => foreignChunk len major fuel rest) = false := hforeign
          cases hskip : skipBytes len a.value after with
          | none =>
            rw [hskip] at h
            cases h
          | some next =>
            rw [hskip] at h hforeign
            obtain ⟨content, rfl, hcontent⟩ := (skipBytes_eq_some (by omega)).mp hskip
            rw [List.length_append] at hlen
            obtain ⟨parts, rfl⟩ := ih h hforeign (by omega)
            have hfits : content.length < a.width.bound := by
              rw [hcontent]
              exact a.fits
            refine ⟨⟨a.width, content, hfits⟩ :: parts, ?_⟩
            have hargument : Piece.argument ⟨a.width, content, hfits⟩ = a := by
              obtain ⟨w, n, hn⟩ := a
              obtain rfl : content.length = n := hcontent
              rfl
            rw [List.flatMap_cons, Piece.encode, hargument, header, hlow, ← hmajor,
              ← eq_initial, List.append_assoc, List.append_assoc]
            rfl
      · rw [if_pos hmajor] at hforeign
        cases hforeign

end Strings

/-! ## The loop with notes -/

/-- The count that the loop keeps for an open container. -/
def remaining : Frame → Nat
  | .items more => more + 1
  | .array => u64Max
  | .map _ => u64Max

/-- The count is none that stands for an indefinite length. -/
def Counted : Frame → Prop
  | .items more => more + 1 < u64Max
  | .array => True
  | .map _ => True

/-- A state of the loop, with what its stack does not tell. -/
structure Walk where
  state : State
  rest : Bytes

def Walk.scan (w : Walk) : Scan := (w.state.frames.map remaining, w.rest)

/-- A break may end the innermost container here. -/
def CanStop : State → Prop
  | ⟨.array :: _, false⟩ => True
  | ⟨.map false :: _, false⟩ => True
  | _ => False

/-- An argument that the loop takes for something else, or that is not allowed. -/
def ArgumentSlips (major additional arg : Nat) : Prop :=
  match major with
  -- a string or an array whose length is the marker of an indefinite one
  | 2 | 3 | 4 => arg = u64Max
  -- a map whose count of keys and values saturates at the marker
  | 5 => u64Max ≤ 2 * arg
  -- a simple value in a byte of its own that it does not need
  | 7 => additional = 24 ∧ arg < 32
  | _ => False

/-- The same for a header without an argument. -/
def IndefiniteSlips (len major : Nat) (s : State) (rest : Bytes) : Prop :=
  match major with
  -- an integer or a tag without its number
  | 0 | 1 | 6 => True
  | 2 | 3 => foreignChunk len major rest.length rest = true
  | 4 | 5 => False
  -- a break in a tag, after a key, or where no container waits for one
  | _ => ¬ CanStop s

/-- The input is malformed here, and the loop goes on. -/
def Slip (len : Nat) (w : Walk) : Prop :=
  match w.rest with
  -- a tag without an item, at the end
  | [] => w.state.frames = [] ∧ w.state.tagged = true
  | first :: rest =>
    let major := first.toNat / 32
    let additional := first.toNat % 32
    if additional = 31 then IndefiniteSlips len major w.state rest
    else
      match readArg additional rest with
      | none => False
      | some (arg, _) => ArgumentSlips major additional arg

/-- The notes after a round of the loop that leaves `stack`.  Behind a slip they mean nothing. -/
def noted (major additional : Nat) (stack : List Nat) (s : State) : State :=
  if major = 7 ∧ additional = 31 then ⟨consume s.frames.tail, false⟩
  else if major = 6 then ⟨s.frames, true⟩
  else if s.frames.length < stack.length then
    -- a container has been opened
    let opened :=
      if additional = 31 then if major = 4 then .array else .map false
      else Frame.items (stack.headD 0 - 1)
    ⟨opened :: s.frames, false⟩
  else ⟨consume s.frames, false⟩

/-- A round of the loop. -/
def Walk.next (len maxDepth : Nat) (w : Walk) : Option Walk :=
  match w.rest with
  | [] => none
  | first :: _ =>
    (scanStep len maxDepth w.scan).map fun (stack, rest) =>
      ⟨noted (first.toNat / 32) (first.toNat % 32) stack w.state, rest⟩

def Reaches (data : Bytes) (maxDepth : Nat) : Walk → Prop :=
  Relation.ReflTransGen (fun w w' => w.next data.length maxDepth = some w') ⟨⟨[], false⟩, data⟩

def Clean (data : Bytes) (maxDepth : Nat) : Prop :=
  ∀ w, Reaches data maxDepth w → ¬ Slip data.length w

/-- `data` is complete items, nested within the limit. -/
def Complete (data : Bytes) (maxDepth : Nat) : Prop :=
  ∃ items, data = encodeAll items ∧ ∀ item ∈ items, item.depth ≤ maxDepth

/-! ## Tokens in the loop -/

section Rounds

variable {len maxDepth : Nat} {fs : List Frame} {major low : Nat} {s s' : State}
  {bytes rest : Bytes} {f : Frame} {a : Argument}

/-- The token's count is none that stands for an indefinite length. -/
def CountedToken : Token → Prop
  | .opens kind (some size) => kind.holds size.value < u64Max
  | _ => True

theorem consumeItem_remaining (h : ∀ f ∈ fs, Counted f) :
    consumeItem (fs.map remaining) = (consume fs).map remaining := by
  induction fs with
  | nil => rfl
  | cons f fs ih =>
    obtain ⟨hf, hfs⟩ := List.forall_mem_cons.mp h
    match f with
    | .items 0 =>
      rw [List.map_cons, consume, ← ih hfs]
      exact consumeItem_one _
    | .items (more + 1) => exact consumeItem_succ hf _
    | .array =>
      show consumeItem (u64Max :: _) = _
      rw [consumeItem, if_pos rfl]
      rfl
    | .map odd =>
      show consumeItem (u64Max :: _) = _
      rw [consumeItem, if_pos rfl]
      rfl

theorem counted_consume (h : ∀ f ∈ fs, Counted f) : ∀ f ∈ consume fs, Counted f := by
  induction fs with
  | nil => exact h
  | cons f fs ih =>
    obtain ⟨hf, hfs⟩ := List.forall_mem_cons.mp h
    match f with
    | .items 0 => exact ih hfs
    | .items (more + 1) =>
      exact List.forall_mem_cons.mpr ⟨(Nat.lt_succ_self _).trans hf, hfs⟩
    | .array => exact List.forall_mem_cons.mpr ⟨trivial, hfs⟩
    | .map odd => exact List.forall_mem_cons.mpr ⟨trivial, hfs⟩

/-- A round that reads `t`, as the loop and its notes see it. -/
structure Round (len maxDepth : Nat) (t : Token) (s s' : State) (rest : Bytes) : Prop where
  next : Walk.next len maxDepth ⟨s, t.encode ++ rest⟩ = some ⟨s', rest⟩
  scan : scanStep len maxDepth (s.frames.map remaining, t.encode ++ rest)
    = some (s'.frames.map remaining, rest)
  counted : ∀ f ∈ s'.frames, Counted f

theorem noted_consume {additional : Nat} (hmajor : major ≠ 6)
    (hstop : ¬ (major = 7 ∧ additional = 31)) (s : State) :
    noted major additional ((consume s.frames).map remaining) s = ⟨consume s.frames, false⟩ := by
  have hle := length_consume_le s.frames
  rw [noted, if_neg hstop, if_neg hmajor, List.length_map, if_neg (by omega)]

variable {stack : List Nat} {t : Token} {kind : Container} {rounds : Nat}

theorem next_of_scanStep (hmajor : major < 8) (hlow : low < 32)
    (h : scanStep len maxDepth (s.frames.map remaining, initial major low :: bytes)
      = some (stack, rest)) :
    Walk.next len maxDepth ⟨s, initial major low :: bytes⟩
      = some ⟨noted major low stack s, rest⟩ := by
  obtain ⟨hdiv, hmod⟩ := initial_toNat hmajor hlow
  show (scanStep len maxDepth (s.frames.map remaining, initial major low :: bytes)).map _ = _
  rw [h, hdiv, hmod]
  rfl

theorem round_consume (hmajor : major < 8) (h6 : major ≠ 6) (hlow : low < 32)
    (hstop : ¬ (major = 7 ∧ low = 31)) (ht : t.encode ++ rest = initial major low :: bytes)
    (hs : ∀ f ∈ s.frames, Counted f)
    (h : scanStep len maxDepth (s.frames.map remaining, initial major low :: bytes)
      = some (consumeItem (s.frames.map remaining), rest)) :
    Round len maxDepth t s ⟨consume s.frames, false⟩ rest := by
  rw [consumeItem_remaining hs] at h
  refine ⟨?_, ?_, counted_consume hs⟩
  · rw [ht, next_of_scanStep hmajor hlow h, noted_consume h6 hstop]
  · rw [ht, h]

theorem round_opens (hmajor : major < 6) (hlow : low < 32)
    (ht : t.encode ++ rest = initial major low :: bytes) (hs : ∀ f ∈ s.frames, Counted f)
    (hf : (if low = 31 then if major = 4 then .array else .map false
      else Frame.items (remaining f - 1)) = f)
    (hcounted : Counted f)
    (h : scanStep len maxDepth (s.frames.map remaining, initial major low :: bytes)
      = some (remaining f :: s.frames.map remaining, rest)) :
    Round len maxDepth t s ⟨f :: s.frames, false⟩ rest := by
  refine ⟨?_, ?_, List.forall_mem_cons.mpr ⟨hcounted, hs⟩⟩
  · rw [ht, next_of_scanStep (by omega) hlow h, noted, if_neg (by omega), if_neg (by omega),
      if_pos (by simp)]
    show some (Walk.mk ⟨(if low = 31 then _ else Frame.items (remaining f - 1)) :: _, _⟩ _) = _
    rw [hf]
  · rw [ht, h]
    rfl

theorem slip_header (hmajor : major < 8) (a : Argument) (s : State) (rest : Bytes) :
    Slip len ⟨s, header major a ++ rest⟩ ↔ ArgumentSlips major a.low a.value := by
  have hlow := a.low_lt
  obtain ⟨hdiv, hmod⟩ := initial_toNat hmajor (show a.low < 32 by omega)
  rw [header, List.cons_append, Slip]
  dsimp only
  rw [hdiv, hmod, if_neg (by omega), readArg_bytes]

theorem slip_indefinite (hmajor : major < 8) (s : State) (rest : Bytes) :
    Slip len ⟨s, initial major 31 :: rest⟩ ↔ IndefiniteSlips len major s rest := by
  obtain ⟨hdiv, hmod⟩ := initial_toNat hmajor (show 31 < 32 by decide)
  rw [Slip]
  dsimp only
  rw [hdiv, hmod, if_pos rfl]

theorem round_header {value : Argument} (hmajor : major < 8) (h6 : major ≠ 6)
    (hs : ∀ f ∈ s.frames, Counted f) (ht : t.encode ++ rest = header major value ++ bytes)
    (h : scanItem len maxDepth major value.value (s.frames.map remaining) bytes
      = some (consumeItem (s.frames.map remaining), rest)) :
    Round len maxDepth t s ⟨consume s.frames, false⟩ rest := by
  have hlow := value.low_lt
  apply round_consume hmajor h6 (show value.low < 32 by omega) (by omega) ht hs
  exact (scanStep_initial hmajor value _ _).trans h

theorem StringKind.major_cases (kind : StringKind) : kind.major = 2 ∨ kind.major = 3 := by
  cases kind with
  | bytes => exact .inl rfl
  | text => exact .inr rfl

theorem scanItem_string (kind : StringKind) (arg : Nat) (stack : List Nat) (bytes : Bytes) :
    scanItem len maxDepth kind.major arg stack bytes
      = (if arg = u64Max then skipChunks len bytes.length bytes
        else skipBytes len arg bytes).map fun rest => (consumeItem stack, rest) := by
  by_cases hmarker : arg = u64Max
  · rw [if_pos hmarker]
    cases kind <;> rw [StringKind.major, scanItem, if_pos hmarker, Option.map_eq_bind] <;> rfl
  · rw [if_neg hmarker]
    cases kind <;> rw [StringKind.major, scanItem, if_neg hmarker, Option.map_eq_bind] <;> rfl

theorem round_atom {a : Atom} (hs : ∀ f ∈ s.frames, Counted f)
    (hlen : ((Token.atom a).encode ++ rest).length ≤ len) (hmax : len < u64Max) :
    Round len maxDepth (.atom a) s ⟨consume s.frames, false⟩ rest
      ∧ ¬ Slip len ⟨s, (Token.atom a).encode ++ rest⟩ := by
  cases a with
  | uint value =>
    refine ⟨round_header (by decide) (by decide) hs rfl rfl, ?_⟩
    exact mt (slip_header (by decide) value s rest).mp id
  | nint value =>
    refine ⟨round_header (by decide) (by decide) hs rfl rfl, ?_⟩
    exact mt (slip_header (by decide) value s rest).mp id
  | string kind content =>
    have hmajor := StringKind.major_cases kind
    have hbytes : (Token.atom (.string kind content)).encode ++ rest
        = header kind.major content.argument ++ (content.content ++ rest) := List.append_assoc ..
    rw [hbytes, header, List.cons_append, List.length_cons, List.length_append] at hlen
    rw [hbytes]
    have hlength : content.argument.value = content.content.length := rfl
    have hlt : content.argument.value ≠ u64Max := by
      rw [List.length_append] at hlen
      omega
    refine ⟨round_header (by omega) (by omega) hs hbytes ?_, ?_⟩
    · have hskip : skipBytes len content.argument.value (content.content ++ rest) = some rest :=
        skipBytes_append (by omega)
      rw [scanItem_string, if_neg hlt, hskip]
      rfl
    · rw [slip_header (by omega)]
      rcases hmajor with h | h
      · rw [h]
        exact hlt
      · rw [h]
        exact hlt
  | chunks kind parts =>
    have hmajor := StringKind.major_cases kind
    have hbytes : (Token.atom (.chunks kind parts)).encode ++ rest
        = initial kind.major 31 :: (parts.flatMap (Piece.encode kind.major) ++ 0xFF :: rest) := by
      show initial kind.major 31 :: ((_ ++ [0xFF]) ++ rest) = _
      rw [List.append_assoc]
      rfl
    rw [hbytes, List.length_cons] at hlen
    rw [hbytes]
    obtain ⟨hskip, hforeign⟩ := skipChunks_append (show kind.major < 7 by omega) parts rest
      (Nat.le_refl _) hlen
    refine ⟨?_, ?_⟩
    · apply round_consume (by omega) (by omega) (by decide) (by omega) hbytes hs
      rw [scanStep_indefinite (by omega), scanItem_string, if_pos rfl, hskip]
      rfl
    · rw [slip_indefinite (by omega)]
      rcases hmajor with h | h
      · rw [h] at hforeign ⊢
        exact fun hslip => Bool.false_ne_true (hforeign.symm.trans hslip)
      · rw [h] at hforeign ⊢
        exact fun hslip => Bool.false_ne_true (hforeign.symm.trans hslip)
  | simple value wide =>
    refine ⟨round_header (by decide) (by decide) hs rfl rfl, ?_⟩
    refine mt (slip_header (by decide) value s rest).mp ?_
    intro ⟨hlow, hlt⟩
    have hone : value.width = .one := by
      obtain ⟨w, n, h⟩ := value
      cases w with
      | inline =>
        have hn : n = 24 := hlow
        have hbound : n < 24 := h
        omega
      | one => rfl
      | two => cases hlow
      | four => cases hlow
      | eight => cases hlow
    exact Nat.not_lt.mpr (wide hone) hlt

theorem Container.major_cases (kind : Container) : kind.major = 4 ∨ kind.major = 5 := by
  cases kind with
  | array => exact .inl rfl
  | map => exact .inr rfl

theorem scanItem_size {arg : Nat} (h : kind.holds arg < u64Max) (stack : List Nat) (rest : Bytes) :
    scanItem len maxDepth kind.major arg stack rest
      = if maxDepth ≤ stack.length then none
        else if kind.holds arg = 0 then some (consumeItem stack, rest)
        else some (kind.holds arg :: stack, rest) := by
  cases kind with
  | array => rfl
  | map =>
    have hlt : 2 * arg < u64Max := h
    show (if maxDepth ≤ stack.length then none else if arg = 0 then _
      else if arg = u64Max then _ else some (min (arg * 2) u64Max :: stack, rest))
      = if maxDepth ≤ stack.length then none else if 2 * arg = 0 then _
        else some (2 * arg :: stack, rest)
    have hzero : (2 * arg = 0) = (arg = 0) := by rw [eq_iff_iff]; omega
    have hmin : min (arg * 2) u64Max = 2 * arg := by omega
    simp only [hzero, hmin]
    rw [if_neg (show arg ≠ u64Max by omega)]

theorem scanItem_indefinite (kind : Container) (stack : List Nat) (rest : Bytes) :
    scanItem len maxDepth kind.major u64Max stack rest
      = if maxDepth ≤ stack.length then none else some (u64Max :: stack, rest) := by
  cases kind <;> rfl

theorem round_size {size : Argument} (hs : ∀ f ∈ s.frames, Counted f)
    (hsize : kind.holds size.value < u64Max)
    (h : step maxDepth (.opens kind (some size)) s = .ok s') :
    Round len maxDepth (.opens kind (some size)) s s' rest := by
  have hmajor := Container.major_cases kind
  have hlow := size.low_lt
  have hscan := (@scanStep_initial len maxDepth _ (show kind.major < 8 by omega) size
    (s.frames.map remaining) rest).trans (scanItem_size hsize _ rest)
  rw [step] at h
  rw [List.length_map] at hscan
  by_cases hlimit : maxDepth ≤ s.frames.length
  · rw [if_pos hlimit] at h
    cases h
  rw [if_neg hlimit] at h hscan
  rw [Frame.opened] at h
  cases hcount : kind.holds size.value with
  | zero =>
    rw [hcount] at h hscan
    cases h
    exact round_consume (by omega) (by omega) (show size.low < 32 by omega) (by omega) rfl hs hscan
  | succ more =>
    rw [hcount] at h hscan hsize
    cases h
    apply round_opens (by omega) (show size.low < 32 by omega) rfl hs _
      (show Counted (.items more) from hsize) hscan
    rw [if_neg (show size.low ≠ 31 by omega)]
    rfl

/-- A container without, that a break will end. -/
theorem round_indefinite (hs : ∀ f ∈ s.frames, Counted f)
    (h : step maxDepth (.opens kind none) s = .ok s') :
    Round len maxDepth (.opens kind none) s s' rest := by
  have hmajor := Container.major_cases kind
  have hscan := (@scanStep_indefinite len maxDepth _ (show kind.major < 7 by omega)
    (s.frames.map remaining) rest).trans (scanItem_indefinite kind _ rest)
  rw [step] at h
  rw [List.length_map] at hscan
  by_cases hlimit : maxDepth ≤ s.frames.length
  · rw [if_pos hlimit] at h
    cases h
  rw [if_neg hlimit] at h hscan
  cases kind with
  | array =>
    cases h
    exact round_opens (by decide) (by decide) rfl hs rfl trivial hscan
  | map =>
    cases h
    exact round_opens (by decide) (by decide) rfl hs rfl trivial hscan

theorem closeIndefinite_remaining (hf : f = .array ∨ f = .map false) (fs : List Frame) :
    closeIndefinite ((f :: fs).map remaining) = fs.map remaining := by
  rcases hf with rfl | rfl
  · exact if_pos rfl
  · exact if_pos rfl

/-- A break where it may stand. -/
theorem round_stop (hs : ∀ f ∈ s.frames, Counted f) (h : step maxDepth .stop s = .ok s') :
    Round len maxDepth .stop s s' rest ∧ CanStop s := by
  have hround : ∀ (f : Frame) (fs : List Frame), (f = .array ∨ f = .map false) →
      (∀ f ∈ fs, Counted f) →
        Round len maxDepth .stop ⟨f :: fs, false⟩ ⟨consume fs, false⟩ rest := by
    intro f fs hf hfs
    have hscan : scanStep len maxDepth ((f :: fs).map remaining, 0xFF :: rest)
        = some ((consume fs).map remaining, rest) := by
      rw [scanStep_stop, closeIndefinite_remaining hf, consumeItem_remaining hfs]
    refine ⟨?_, hscan, counted_consume hfs⟩
    exact next_of_scanStep (show 7 < 8 by decide) (show 31 < 32 by decide) hscan
  match s, h with
  | ⟨.array :: fs, false⟩, h =>
    cases h
    exact ⟨hround .array fs (.inl rfl) (List.forall_mem_cons.mp hs).2, trivial⟩
  | ⟨.map false :: fs, false⟩, h =>
    cases h
    exact ⟨hround (.map false) fs (.inr rfl) (List.forall_mem_cons.mp hs).2, trivial⟩

theorem round_of_step (hs : ∀ f ∈ s.frames, Counted f) (ht : CountedToken t)
    (hlen : (t.encode ++ rest).length ≤ len) (hmax : len < u64Max)
    (h : step maxDepth t s = .ok s') :
    Round len maxDepth t s s' rest ∧ ¬ Slip len ⟨s, t.encode ++ rest⟩ := by
  match t with
  | .atom a =>
    cases h
    exact round_atom hs hlen hmax
  | .tag number =>
    cases h
    have hlow := number.low_lt
    have hscan := @scanStep_initial len maxDepth _ (show 6 < 8 by decide) number
      (s.frames.map remaining) rest
    refine ⟨⟨?_, hscan, hs⟩, mt (slip_header (by decide) number s rest).mp id⟩
    exact next_of_scanStep (by decide) (show number.low < 32 by omega) hscan
  | .opens kind (some size) =>
    refine ⟨round_size hs ht h, ?_⟩
    cases kind with
    | array => exact mt (slip_header (by decide) size s rest).mp (Nat.ne_of_lt ht)
    | map => exact mt (slip_header (by decide) size s rest).mp (Nat.not_le.mpr ht)
  | .opens kind none =>
    refine ⟨round_indefinite hs h, ?_⟩
    cases kind with
    | array => exact mt (slip_indefinite (by decide) s rest).mp id
    | map => exact mt (slip_indefinite (by decide) s rest).mp id
  | .stop =>
    obtain ⟨hround, hstop⟩ := round_stop hs h
    refine ⟨hround, ?_⟩
    exact mt (slip_indefinite (show 7 < 8 by decide) s rest).mp (not_not.mpr hstop)

/-- A container that the machine refuses is refused by the loop. -/
theorem scanStep_of_tooDeep (ht : CountedToken t) (h : step maxDepth t s = .error .tooDeep) :
    scanStep len maxDepth (s.frames.map remaining, t.encode ++ rest) = none := by
  cases t with
  | atom a => cases h
  | tag number => cases h
  | opens kind size =>
    have hmajor := Container.major_cases kind
    have hlimit : maxDepth ≤ s.frames.length := by
      by_contra hlimit
      rw [step, if_neg hlimit] at h
      cases hopened : Frame.opened kind size with
      | none =>
        rw [hopened] at h
        cases h
      | some f =>
        rw [hopened] at h
        cases h
    have hlimit' : maxDepth ≤ (s.frames.map remaining).length := by rwa [List.length_map]
    cases size with
    | some size =>
      show scanStep len maxDepth (_, header kind.major size ++ rest) = none
      rw [scanStep_initial (by omega), scanItem_size ht, if_pos hlimit']
    | none =>
      show scanStep len maxDepth (_, initial kind.major 31 :: rest) = none
      rw [scanStep_indefinite (by omega), scanItem_indefinite, if_pos hlimit']
  | stop =>
    obtain ⟨_ | ⟨_ | _ | ⟨_ | _⟩, _⟩, _ | _⟩ := s <;> cases h

/-- The machine opens a container wherever the limit allows it. -/
theorem exists_step_opens (size : Option Argument) (hlimit : ¬ maxDepth ≤ s.frames.length) :
    ∃ s', step maxDepth (.opens kind size) s = .ok s' := by
  cases hopened : Frame.opened kind size with
  | none => exact ⟨⟨consume s.frames, false⟩, by rw [step, if_neg hlimit, hopened]⟩
  | some f => exact ⟨⟨f :: s.frames, false⟩, by rw [step, if_neg hlimit, hopened]⟩

theorem exists_step_stop (h : CanStop s) : ∃ s', step maxDepth .stop s = .ok s' := by
  match s, h with
  | ⟨.array :: fs, false⟩, _ => exact ⟨⟨consume fs, false⟩, rfl⟩
  | ⟨.map false :: fs, false⟩, _ => exact ⟨⟨consume fs, false⟩, rfl⟩

/-- A token that the loop has read, and the machine reads as well. -/
def ReadAs (maxDepth : Nat) (s : State) (bytes rest : Bytes) : Prop :=
  ∃ (t : Token) (s' : State), bytes = t.encode ++ rest ∧ CountedToken t ∧ step maxDepth t s = .ok s'

theorem readAs_string (kind : StringKind) (hlen : bytes.length < len) (hslip : a.value ≠ u64Max)
    (h : scanItem len maxDepth kind.major a.value (s.frames.map remaining) bytes
      = some (stack, rest)) :
    ReadAs maxDepth s (header kind.major a ++ bytes) rest := by
  rw [scanItem_string, if_neg hslip] at h
  obtain ⟨after, hskip, hafter⟩ := Option.map_eq_some_iff.mp h
  cases hafter
  obtain ⟨content, rfl, hcontent⟩ := (skipBytes_eq_some hlen).mp hskip
  obtain ⟨w, n, hn⟩ := a
  obtain rfl : content.length = n := hcontent
  refine ⟨.atom (.string kind ⟨w, content, hn⟩), ⟨consume s.frames, false⟩, ?_, trivial, rfl⟩
  exact (List.append_assoc ..).symm

theorem readAs_chunks (kind : StringKind) (hlen : bytes.length < len)
    (hslip : foreignChunk len kind.major bytes.length bytes = false)
    (h : scanItem len maxDepth kind.major u64Max (s.frames.map remaining) bytes
      = some (stack, rest)) :
    ReadAs maxDepth s (initial kind.major 31 :: bytes) rest := by
  rw [scanItem_string, if_pos rfl] at h
  obtain ⟨after, hskip, hafter⟩ := Option.map_eq_some_iff.mp h
  cases hafter
  obtain ⟨parts, rfl⟩ := exists_chunks hskip hslip hlen
  refine ⟨.atom (.chunks kind parts), ⟨consume s.frames, false⟩, ?_, trivial, rfl⟩
  show _ = initial kind.major 31 :: ((_ ++ [0xFF]) ++ rest)
  rw [List.append_assoc]
  rfl

theorem readAs_size (kind : Container) (hslip : kind.holds a.value < u64Max)
    (h : scanItem len maxDepth kind.major a.value (s.frames.map remaining) bytes
      = some (stack, rest)) :
    ReadAs maxDepth s (header kind.major a ++ bytes) rest := by
  rw [scanItem_size hslip, List.length_map] at h
  by_cases hlimit : maxDepth ≤ s.frames.length
  · rw [if_pos hlimit] at h
    cases h
  rw [if_neg hlimit] at h
  have hrest : bytes = rest := by
    by_cases hzero : kind.holds a.value = 0
    · rw [if_pos hzero] at h
      cases h
      rfl
    · rw [if_neg hzero] at h
      cases h
      rfl
  obtain ⟨s', hstep⟩ := exists_step_opens (some a) hlimit
  exact ⟨.opens kind (some a), s', by rw [hrest]; rfl, hslip, hstep⟩

theorem readAs_indefinite (kind : Container)
    (h : scanItem len maxDepth kind.major u64Max (s.frames.map remaining) bytes
      = some (stack, rest)) :
    ReadAs maxDepth s (initial kind.major 31 :: bytes) rest := by
  rw [scanItem_indefinite, List.length_map] at h
  by_cases hlimit : maxDepth ≤ s.frames.length
  · rw [if_pos hlimit] at h
    cases h
  rw [if_neg hlimit] at h
  cases h
  obtain ⟨s', hstep⟩ := exists_step_opens none hlimit
  exact ⟨.opens kind none, s', rfl, trivial, hstep⟩

theorem readAs_header (hmajor : major < 8) (hlen : bytes.length < len)
    (hslip : ¬ ArgumentSlips major a.low a.value)
    (h : scanItem len maxDepth major a.value (s.frames.map remaining) bytes = some (stack, rest)) :
    ReadAs maxDepth s (header major a ++ bytes) rest := by
  match major with
  | 0 =>
    cases h
    exact ⟨.atom (.uint a), ⟨consume s.frames, false⟩, rfl, trivial, rfl⟩
  | 1 =>
    cases h
    exact ⟨.atom (.nint a), ⟨consume s.frames, false⟩, rfl, trivial, rfl⟩
  | 2 => exact readAs_string .bytes hlen hslip h
  | 3 => exact readAs_string .text hlen hslip h
  | 4 =>
    have hlt := a.value_lt
    have hvalue : a.value ≠ u64Max := hslip
    have hmax : u64Max = 2 ^ 64 - 1 := rfl
    exact readAs_size .array (show a.value < u64Max by omega) h
  | 5 => exact readAs_size .map (Nat.not_le.mp hslip) h
  | 6 =>
    cases h
    exact ⟨.tag a, ⟨s.frames, true⟩, rfl, trivial, rfl⟩
  | 7 =>
    cases h
    have hwide : a.width = .one → 32 ≤ a.value := by
      intro hone
      by_contra hlt
      refine hslip ⟨?_, Nat.not_le.mp hlt⟩
      rw [Argument.low, hone]
    exact ⟨.atom (.simple a hwide), ⟨consume s.frames, false⟩, rfl, trivial, rfl⟩

/-- A header without. -/
theorem readAs_31 (hmajor : major < 8) (hlen : bytes.length < len)
    (hslip : ¬ IndefiniteSlips len major s bytes)
    (h : scanStep len maxDepth (s.frames.map remaining, initial major 31 :: bytes)
      = some (stack, rest)) :
    ReadAs maxDepth s (initial major 31 :: bytes) rest := by
  match major with
  | 0 => exact absurd trivial hslip
  | 1 => exact absurd trivial hslip
  | 2 =>
    rw [scanStep_indefinite (by decide)] at h
    exact readAs_chunks .bytes hlen (Bool.eq_false_of_not_eq_true hslip) h
  | 3 =>
    rw [scanStep_indefinite (by decide)] at h
    exact readAs_chunks .text hlen (Bool.eq_false_of_not_eq_true hslip) h
  | 4 =>
    rw [scanStep_indefinite (by decide)] at h
    exact readAs_indefinite .array h
  | 5 =>
    rw [scanStep_indefinite (by decide)] at h
    exact readAs_indefinite .map h
  | 6 => exact absurd trivial hslip
  | 7 =>
    cases h
    obtain ⟨s', hstep⟩ := exists_step_stop (not_not.mp hslip)
    exact ⟨.stop, s', rfl, trivial, hstep⟩

/-- Where the loop goes on without a slip, the machine does. -/
theorem readAs_of_scanStep {w : Walk} (hlen : w.rest.length ≤ len) (hslip : ¬ Slip len w)
    (h : scanStep len maxDepth w.scan = some (stack, rest)) :
    ReadAs maxDepth w.state w.rest rest := by
  obtain ⟨s, bytes⟩ := w
  cases bytes with
  | nil => cases h
  | cons first bytes =>
    have hmajor : first.toNat / 32 < 8 := by
      have hlt := first.toNat_lt
      omega
    have hfirst := eq_initial first
    by_cases h31 : first.toNat % 32 = 31
    · rw [h31] at hfirst
      rw [hfirst] at hslip h ⊢
      exact readAs_31 hmajor hlen (mt (slip_indefinite hmajor s bytes).mpr hslip) h
    cases harg : readArg (first.toNat % 32) bytes with
    | none =>
      replace h : scanStep len maxDepth (s.frames.map remaining, first :: bytes) = _ := h
      rw [scanStep, if_neg (by omega), if_neg h31, harg] at h
      cases h
    | some read =>
      obtain ⟨n, after⟩ := read
      obtain ⟨a, hlow, rfl, rfl⟩ := exists_argument harg
      rw [← hlow] at hfirst
      have hbytes : first :: (a.bytes ++ after) = header (first.toNat / 32) a ++ after := by
        rw [header, List.cons_append, ← hfirst]
      rw [hbytes] at hslip h ⊢
      have hslip' := mt (slip_header hmajor a s after).mpr hslip
      replace h : scanStep len maxDepth (s.frames.map remaining, _ ++ after) = _ := h
      rw [scanStep_initial hmajor] at h
      rw [List.length_cons, List.length_append] at hlen
      exact readAs_header hmajor (by omega) hslip' h

/-! ## The whole input -/

theorem scanAll_of_some {scan : Scan} (h : scanStep len maxDepth (stack, bytes) = some scan) :
    scanAll len maxDepth (rounds + 1) (stack, bytes) = scanAll len maxDepth rounds scan := by
  cases bytes with
  | nil => cases h
  | cons first rest => simp only [scanAll, h]

theorem scanAll_of_none (hbytes : bytes ≠ []) (h : scanStep len maxDepth (stack, bytes) = none) :
    scanAll len maxDepth rounds (stack, bytes) = false := by
  cases bytes with
  | nil => exact absurd rfl hbytes
  | cons first rest =>
    cases rounds with
    | zero => rfl
    | succ rounds => simp only [scanAll, h]

/-- The loop on tokens does what the machine does, short of a slip. -/
theorem scanAll_tokens {ts : List Token} {s : State} (hs : ∀ f ∈ s.frames, Counted f)
    (hts : ∀ t ∈ ts, CountedToken t) (hlen : (ts.flatMap Token.encode).length ≤ len)
    (hmax : len < u64Max) {rounds : Nat} (hrounds : (ts.flatMap Token.encode).length ≤ rounds) :
    (∀ s', run maxDepth ts s = .ok s' →
        scanAll len maxDepth rounds (s.frames.map remaining, ts.flatMap Token.encode)
          = s'.frames.isEmpty)
      ∧ (run maxDepth ts s = .error .tooDeep →
        scanAll len maxDepth rounds (s.frames.map remaining, ts.flatMap Token.encode) = false) := by
  induction ts generalizing s rounds with
  | nil =>
    refine ⟨fun s' h => ?_, fun h => ?_⟩
    · cases h
      rw [List.flatMap_nil, scanAll]
      cases s.frames <;> rfl
    · cases h
  | cons t ts ih =>
    obtain ⟨ht, hts⟩ := List.forall_mem_cons.mp hts
    have hpos := t.length_encode_pos
    rw [List.flatMap_cons] at hlen hrounds ⊢
    cases hstep : step maxDepth t s with
    | ok next =>
      obtain ⟨⟨-, hscan, hnext⟩, -⟩ := round_of_step hs ht hlen hmax hstep
      rw [List.length_append] at hlen hrounds
      cases rounds with
      | zero => omega
      | succ rounds =>
        rw [scanAll_of_some hscan, run_cons_of_ok hstep]
        exact ih hnext hts (by omega) (by omega)
    | error e =>
      rw [run_cons_of_error hstep]
      refine ⟨fun s' h => ?_, fun h => ?_⟩
      · cases h
      · cases h
        apply scanAll_of_none _ (scanStep_of_tooDeep ht hstep)
        intro hnil
        rw [List.append_eq_nil_iff] at hnil
        rw [hnil.1] at hpos
        exact Nat.lt_irrefl 0 hpos

/-- At the end nothing is open, and no tag waits. -/
theorem state_eq_of_end (hslip : ¬ Slip len ⟨s, []⟩)
    (h : scanAll len maxDepth rounds (Walk.scan ⟨s, []⟩) = true) : s = ⟨[], false⟩ := by
  obtain ⟨frames, tagged⟩ := s
  rw [Walk.scan, scanAll, List.isEmpty_iff] at h
  obtain rfl : frames = [] := List.map_eq_nil_iff.mp h
  cases tagged with
  | false => rfl
  | true => exact absurd ⟨rfl, rfl⟩ hslip

/-- What the loop accepts without a slip are tokens that the machine gets through. -/
theorem exists_tokens {w : Walk} (hs : ∀ f ∈ w.state.frames, Counted f) (hlen : w.rest.length ≤ len)
    (hmax : len < u64Max)
    (hclean : ∀ w', Relation.ReflTransGen (fun w w' => w.next len maxDepth = some w') w w' →
      ¬ Slip len w') (h : scanAll len maxDepth rounds w.scan = true) :
    ∃ ts : List Token, w.rest = ts.flatMap Token.encode ∧ (∀ t ∈ ts, CountedToken t)
      ∧ run maxDepth ts w.state = .ok ⟨[], false⟩ := by
  have hslip := hclean w Relation.ReflTransGen.refl
  obtain ⟨s, bytes⟩ := w
  induction rounds generalizing s bytes with
  | zero =>
    cases bytes with
    | nil =>
      refine ⟨[], rfl, fun t ht => absurd ht List.not_mem_nil, ?_⟩
      rw [run, state_eq_of_end hslip h]
    | cons first rest => cases h
  | succ rounds ih =>
    cases bytes with
    | nil =>
      refine ⟨[], rfl, fun t ht => absurd ht List.not_mem_nil, ?_⟩
      rw [run, state_eq_of_end hslip h]
    | cons first bytes =>
      cases hscan : scanStep len maxDepth (Walk.scan ⟨s, first :: bytes⟩) with
      | none =>
        rw [Walk.scan, scanAll_of_none (List.cons_ne_nil _ _) hscan] at h
        cases h
      | some scan =>
        obtain ⟨stack, rest⟩ := scan
        obtain ⟨t, s', hbytes, ht, hstep⟩ := readAs_of_scanStep hlen hslip hscan
        replace hbytes : first :: bytes = t.encode ++ rest := hbytes
        rw [hbytes] at hlen hclean h
        obtain ⟨⟨hnext, hround, hcounted⟩, -⟩ := round_of_step hs ht hlen hmax hstep
        rw [Walk.scan, scanAll_of_some hround] at h
        rw [List.length_append] at hlen
        have hclean' : ∀ w', Relation.ReflTransGen (fun w w' => w.next len maxDepth = some w')
            ⟨s', rest⟩ w' → ¬ Slip len w' :=
          fun w' hw' => hclean w' (Relation.ReflTransGen.head hnext hw')
        obtain ⟨ts, hrest, hts, hrun⟩ := ih s' rest hcounted (by show rest.length ≤ len; omega)
          hclean' h (hclean' _ Relation.ReflTransGen.refl)
        refine ⟨t :: ts, ?_, List.forall_mem_cons.mpr ⟨ht, hts⟩, ?_⟩
        · rw [List.flatMap_cons, ← hrest]
          exact hbytes
        · rw [run_cons_of_ok hstep]
          exact hrun

theorem not_slip_of_run {ts : List Token} (hs : ∀ f ∈ s.frames, Counted f)
    (hts : ∀ t ∈ ts, CountedToken t) (hlen : (ts.flatMap Token.encode).length ≤ len)
    (hmax : len < u64Max) (h : run maxDepth ts s = .ok ⟨[], false⟩) {w : Walk}
    (hw : Relation.ReflTransGen (fun w w' => w.next len maxDepth = some w')
      ⟨s, ts.flatMap Token.encode⟩ w) : ¬ Slip len w := by
  induction ts generalizing s with
  | nil =>
    cases h
    rcases Relation.ReflTransGen.cases_head hw with rfl | ⟨w', hnext, -⟩
    · exact fun hslip => Bool.false_ne_true hslip.2
    · cases hnext
  | cons t ts ih =>
    obtain ⟨ht, hts⟩ := List.forall_mem_cons.mp hts
    obtain ⟨s', hstep, hrun⟩ := exists_step_of_run h
    rw [List.flatMap_cons] at hlen hw
    obtain ⟨⟨hnext, -, hcounted⟩, hslip⟩ := round_of_step hs ht hlen hmax hstep
    rw [List.length_append] at hlen
    rcases Relation.ReflTransGen.cases_head hw with rfl | ⟨w', hnext', hw'⟩
    · exact hslip
    · rw [hnext] at hnext'
      cases hnext'
      exact ih hcounted hts (by omega) hrun hw'

end Rounds

/-! ## How exact the check is -/

theorem countedToken_of_mem {items : List Item} (hlen : (encodeAll items).length < u64Max) :
    ∀ t ∈ tokensAll items, CountedToken t := by
  intro t ht
  obtain ⟨item, hitem, hmem⟩ := mem_tokensAll.mp ht
  have hle := length_tokens_le hitem
  have hbytes := length_le_flatMap_encode (tokensAll items)
  rw [encodeAll_eq] at hlen
  match t with
  | .opens kind (some size) =>
    have hlt := size_lt hmem
    show kind.holds size.value < u64Max
    omega
  | .opens _ none => trivial
  | .atom _ => trivial
  | .tag _ => trivial
  | .stop => trivial

/-- On the encoding of an item, whatever the choices made for it, the check tells whether its depth
    is within the limit. -/
theorem checkCborDepth_item (item : Item) (m : Nat) (hlen : item.encode.length < u64Max) :
    checkCborDepth item.encode m = decide (item.depth ≤ m) := by
  have hencode : encodeAll [item] = item.encode := List.append_nil _
  have htokens : tokensAll [item] = item.tokens := List.append_nil _
  rw [← hencode] at hlen
  have hts := countedToken_of_mem hlen
  rw [encodeAll_eq, htokens] at hlen
  rw [htokens] at hts
  have hbytes := length_le_flatMap_encode item.tokens
  have hmax : u64Max = 2 ^ 64 - 1 := rfl
  obtain ⟨hok, herror⟩ := @scanAll_tokens item.encode.length m item.tokens ⟨[], false⟩
    (fun f hf => absurd hf List.not_mem_nil) hts (Nat.le_refl _) hlen _ (Nat.le_refl _)
  have hrun := run_tokens (m := m) item (by omega) ⟨[], false⟩ [] (Nat.zero_le m)
  rw [List.append_nil] at hrun
  by_cases hdepth : item.depth ≤ m
  · rw [decide_eq_true hdepth]
    exact hok _ (hrun.trans (if_pos hdepth))
  · rw [decide_eq_false hdepth]
    exact herror (hrun.trans (if_neg hdepth))

/-- An input is complete exactly if the loop accepts it without a slip. -/
theorem complete_iff {data : Bytes} {m : Nat} (hdata : data.length < u64Max) :
    Complete data m ↔ checkCborDepth data m = true ∧ Clean data m := by
  have hnone : ∀ f ∈ ([] : List Frame), Counted f := fun f hf => absurd hf List.not_mem_nil
  refine ⟨fun ⟨items, hitems, hdepth⟩ => ?_, fun ⟨haccept, hclean⟩ => ?_⟩
  · subst hitems
    have hts := countedToken_of_mem hdata
    have hbytes := length_le_flatMap_encode (tokensAll items)
    have hmax : u64Max = 2 ^ 64 - 1 := rfl
    rw [Clean]
    rw [checkCborDepth]
    unfold Reaches
    rw [encodeAll_eq] at hdata ⊢
    have hrun := run_items (show (tokensAll items).length < 2 ^ 64 by omega) hdepth
    refine ⟨?_, fun w hw => ?_⟩
    · exact (scanAll_tokens hnone hts (Nat.le_refl _) hdata (Nat.le_refl _)).1 _ hrun
    · exact not_slip_of_run hnone hts (Nat.le_refl _) hdata hrun hw
  · obtain ⟨ts, hts, -, hrun⟩ := exists_tokens (w := ⟨⟨[], false⟩, data⟩) hnone (Nat.le_refl _)
      hdata hclean haccept
    obtain ⟨items, rfl, hdepth⟩ := exists_items_of_run hrun
    refine ⟨items, ?_, hdepth⟩
    rw [encodeAll_eq]
    exact hts

/-- Malformed, and accepted: a tag at the end, a key without a value, an integer without its
number, a foreign chunk, a simple value that needs no byte, an array that a break cuts short. -/
example : ([[0xC1], [0xBF, 0x00, 0xFF], [0x1F], [0x5F, 0x60, 0xFF], [0xF8, 0x00], [0x81, 0xFF]]
    : List Bytes).all (checkCborDepth · MAX_CBOR_DEPTH) = true := by decide

end WritersProof.Protocol
