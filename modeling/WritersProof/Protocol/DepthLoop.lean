/-
  WritersProof.Protocol.DepthLoop

  `check_cbor_depth` statement by statement (crates/authorproof-protocol/src/codec/cbor.rs):
  a position in the input, every index and slice checked, every sum and difference in its
  machine range, and the loops with a number of rounds.
-/
import WritersProof.Lib.Vec
import WritersProof.Protocol.Depth

namespace WritersProof.Protocol.Checked

open Rust

/-! ## The source -/

def advance (pos n : Nat) : Res Unit Nat := unwrap (checkedAdd pos n)

variable (data : Bytes)

def readInt (n pos : Nat) : Res Unit (Nat × Nat) := do
  let stop ← advance pos n
  if data.length < stop then fail ()
  else
    let slice ← Bytes.slice data pos stop
    let bytes ← okOr (FixedBytes.tryFrom n slice) ()
    .ok (Bytes.ofBE bytes.val, stop)

/-- The argument of a header, or the length of a chunk. -/
def readArg (additional pos : Nat) : Res Unit (Nat × Nat) :=
  if additional ≤ 23 then .ok (additional, pos)
  else if additional = 24 then
    if data.length ≤ pos then fail ()
    else do
      let v ← index data pos
      let pos ← advance pos 1
      .ok (v.toNat, pos)
  else if additional = 25 then do
    let stop ← advance pos 2
    if data.length < stop then fail ()
    else
      let high ← index data pos
      let next ← advance pos 1
      let low ← index data next
      .ok (Bytes.ofBE [high, low], stop)
  else if additional = 26 then readInt data 4 pos
  else if additional = 27 then readInt data 8 pos
  -- reserved
  else fail ()

/-- Past the content of a string. -/
def skipBytes (n pos : Nat) : Res Unit Nat :=
  match checkedAdd pos (min n data.length) with
  | some newPos => if newPos ≤ data.length then .ok newPos else fail ()
  | none => fail ()

/-- Past the chunks of a string; without rounds left it has not come to an end. -/
def skipChunks (data : Bytes) : Nat → Nat → Res Unit Nat
  | 0, _ => abort
  | rounds + 1, pos =>
    if data.length ≤ pos then fail ()
    else do
      let first ← index data pos
      let pos ← advance pos 1
      if first = 0xFF then .ok pos
      else
        let (n, pos) ← readArg data (first.toNat % 32) pos
        let pos ← skipBytes data n pos
        skipChunks data rounds pos

def consumeItem : List Nat → Res Unit (List Nat)
  | [] => .ok []
  | r :: stack =>
    if r = u64Max then .ok (r :: stack)
    else do
      let r ← unwrap (checkedSub r 1)
      if r = 0 then consumeItem stack else .ok (r :: stack)

def scanItem (maxDepth major arg : Nat) (stack : List Nat) (pos : Nat) :
    Res Unit (List Nat × Nat) :=
  match major with
  | 0 | 1 => do
    let stack ← consumeItem stack
    .ok (stack, pos)
  | 2 | 3 => do
    let pos ← if arg = u64Max then skipChunks data (data.length + 1) pos
      else skipBytes data arg pos
    let stack ← consumeItem stack
    .ok (stack, pos)
  | 4 =>
    if maxDepth ≤ stack.length then fail ()
    else if arg = 0 then do
      let stack ← consumeItem stack
      .ok (stack, pos)
    else .ok (arg :: stack, pos)
  | 5 =>
    if maxDepth ≤ stack.length then fail ()
    else if arg = 0 then do
      let stack ← consumeItem stack
      .ok (stack, pos)
    else if arg = u64Max then .ok (u64Max :: stack, pos)
    else .ok (min (arg * 2) u64Max :: stack, pos)
  | 6 => .ok (stack, pos)
  | 7 => do
    let stack ← consumeItem stack
    .ok (stack, pos)
  | _ => fail ()

/-- One round of the loop. -/
def scanStep (maxDepth : Nat) (stack : List Nat) (pos : Nat) :
    Res Unit (List Nat × Nat) := do
  let first ← index data pos
  let pos ← advance pos 1
  let major := first.toNat / 32
  let additional := first.toNat % 32
  if major = 7 ∧ additional = 31 then
    let stack ← consumeItem (closeIndefinite stack)
    .ok (stack, pos)
  else if additional = 31 then scanItem data maxDepth major u64Max stack pos
  else
    let (arg, pos) ← readArg data additional pos
    scanItem data maxDepth major arg stack pos

/-- `while pos < data.len()` -/
def scanAll (data : Bytes) (maxDepth : Nat) : Nat → List Nat × Nat → Res Unit Bool
  | rounds, (stack, pos) =>
    if data.length ≤ pos then .ok stack.isEmpty
    else
      match rounds with
      | 0 => abort
      | rounds + 1 => do
        let next ← scanStep data maxDepth stack pos
        scanAll data maxDepth rounds next

/-- `Vec::with_capacity` of 64-bit words: the bytes are at most `isize::MAX`. -/
def withCapacity (n : Nat) : Res Unit (List Nat) :=
  if n * 8 < 2 ^ 63 then .ok [] else abort

/-- `return false` is a failure of the rounds. -/
def checkCborDepth (maxDepth : Nat) : Res Empty Bool :=
  match withCapacity maxDepth >>= fun stack => scanAll data maxDepth data.length (stack, 0) with
  | .ok answer => .ok answer
  | .error (.err ()) => .ok false
  | .error .panic => abort

/-! ## All checks hold -/

section Same

variable {data : Bytes} {pos : Nat} {rest : Bytes}

def At (data : Bytes) (pos : Nat) (rest : Bytes) : Prop :=
  pos ≤ data.length ∧ rest = data.drop pos

/-- The same, no earlier than where the reading started. -/
def Past (data : Bytes) (start pos : Nat) (rest : Bytes) : Prop := start ≤ pos ∧ At data pos rest

/-- A value that was read, and where the input goes on. -/
def ReadAt {α : Type} (data : Bytes) (start : Nat) (x : α × Nat) (y : α × Bytes) : Prop :=
  x.1 = y.1 ∧ Past data start x.2 y.2

theorem At.length (h : At data pos rest) : rest.length = data.length - pos := by
  rw [h.2, List.length_drop]

theorem At.drop {n : Nat} (h : At data pos rest) (hn : n ≤ rest.length) :
    At data (pos + n) (rest.drop n) := by
  have hlength := h.length
  have hpos := h.1
  refine ⟨by omega, ?_⟩
  rw [h.2, List.drop_drop]

theorem At.index {first : UInt8} (h : At data pos (first :: rest)) :
    index (ε := Unit) data pos = .ok first ∧ At data (pos + 1) rest := by
  have hlength := h.length
  rw [List.length_cons] at hlength
  refine ⟨?_, h.drop (n := 1) (Nat.succ_pos _)⟩
  rw [index_eq_ok]
  have hget : (data.drop pos)[0]? = some first := by rw [← h.2]; rfl
  rwa [List.getElem?_drop] at hget

theorem okOr_bind {ε α β : Type} (x : Option α) (f : α → Option β) (e : ε) :
    okOr (x.bind f) e = okOr x e >>= fun a => okOr (f a) e := by
  cases x <;> rfl

theorem advance_eq {n : Nat} (h : pos + n < 2 ^ 64) : advance pos n = .ok (pos + n) := by
  rw [advance, checkedAdd_eq_some h]
  rfl

variable (hdata : data.length < 2 ^ 63)

include hdata

theorem readInt_same {n : Nat} (hn : n ≤ 8) (h : At data pos rest) :
    SameOutcome (ReadAt data pos) (readInt data n pos) (okOr (takeInt n rest) ()) := by
  have hlength := h.length
  have hpos := h.1
  rw [readInt, advance_eq (by omega), takeInt]
  show SameOutcome _ (if data.length < pos + n then _ else _) _
  by_cases hshort : rest.length < n
  · rw [if_pos (by omega), if_pos hshort]
    exact rfl
  rw [if_neg (by omega), if_neg hshort, Bytes.slice_eq (by omega) (by omega)]
  have htake : (rest.take n).length = n := List.length_take_of_le (by omega)
  have hslice : (data.drop pos).take (pos + n - pos) = rest.take n := by
    rw [h.2, Nat.add_sub_cancel_left]
  rw [hslice]
  show SameOutcome _ (okOr (FixedBytes.tryFrom n (rest.take n)) () >>= _) _
  rw [FixedBytes.tryFrom, dif_pos htake]
  exact ⟨rfl, Nat.le_add_right _ _, h.drop (by omega)⟩

theorem readArg_same (additional : Nat) (h : At data pos rest) :
    SameOutcome (ReadAt data pos) (readArg data additional pos)
      (okOr (Protocol.readArg additional rest) ()) := by
  have hlength := h.length
  have hpos := h.1
  rw [readArg, Protocol.readArg]
  by_cases h23 : additional ≤ 23
  · rw [if_pos h23, if_pos h23]
    exact ⟨rfl, Nat.le_refl _, h⟩
  rw [if_neg h23, if_neg h23]
  by_cases h24 : additional = 24
  · rw [if_pos h24, if_pos h24, takeInt]
    cases rest with
    | nil =>
      rw [List.length_nil] at hlength
      rw [if_pos (by omega), if_pos (by decide)]
      exact rfl
    | cons first rest =>
      obtain ⟨hindex, hnext⟩ := h.index
      rw [List.length_cons] at hlength
      rw [if_neg (by omega), if_neg (by rw [List.length_cons]; omega), hindex,
        advance_eq (by omega)]
      have hvalue : first.toNat = Bytes.ofBE [first] := by simp [Bytes.ofBE]
      exact ⟨hvalue, Nat.le_succ _, hnext⟩
  rw [if_neg h24, if_neg h24]
  by_cases h25 : additional = 25
  · rw [if_pos h25, if_pos h25, takeInt, advance_eq (by omega)]
    show SameOutcome _ (if data.length < pos + 2 then _ else _) _
    by_cases hshort : rest.length < 2
    · rw [if_pos (by omega), if_pos hshort]
      exact rfl
    rw [if_neg (by omega), if_neg hshort]
    rcases rest with _ | ⟨high, _ | ⟨low, rest⟩⟩
    · exact absurd (show 0 < 2 by decide) hshort
    · exact absurd (show 1 < 2 by decide) hshort
    · obtain ⟨hhigh, hnext⟩ := h.index
      obtain ⟨hlow, hafter⟩ := hnext.index
      rw [hhigh, advance_eq (by omega)]
      show SameOutcome _ (index data (pos + 1) >>= _) _
      rw [hlow]
      exact ⟨rfl, Nat.le_add_right _ _, hafter⟩
  rw [if_neg h25, if_neg h25]
  by_cases h26 : additional = 26
  · rw [if_pos h26, if_pos h26]
    exact readInt_same hdata (by decide) h
  rw [if_neg h26, if_neg h26]
  by_cases h27 : additional = 27
  · rw [if_pos h27, if_pos h27]
    exact readInt_same hdata (by decide) h
  · rw [if_neg h27, if_neg h27]
    exact rfl

theorem skipBytes_same (n : Nat) (h : At data pos rest) :
    SameOutcome (Past data pos) (skipBytes data n pos)
      (okOr (Protocol.skipBytes data.length n rest) ()) := by
  have hlength := h.length
  have hpos := h.1
  rw [skipBytes, checkedAdd_eq_some (by omega), Protocol.skipBytes]
  show SameOutcome _ (if pos + min n data.length ≤ data.length then _ else _)
    (okOr (if min n data.length ≤ rest.length then _ else _) ())
  by_cases hfits : min n data.length ≤ rest.length
  · rw [if_pos (by omega), if_pos hfits]
    exact ⟨Nat.le_add_right _ _, h.drop hfits⟩
  · rw [if_neg (by omega), if_neg hfits]
    exact rfl

theorem skipChunks_same {rounds fuel : Nat} (h : At data pos rest) (hrounds : rest.length < rounds)
    (hfuel : rest.length ≤ fuel) :
    SameOutcome (Past data pos) (skipChunks data rounds pos)
      (okOr (Protocol.skipChunks data.length fuel rest) ()) := by
  induction rounds generalizing pos rest fuel with
  | zero => exact absurd hrounds (Nat.not_lt_zero _)
  | succ rounds ih =>
    have hlength := h.length
    have hpos := h.1
    rw [skipChunks]
    cases rest with
    | nil =>
      rw [List.length_nil] at hlength
      rw [if_pos (by omega)]
      cases fuel <;> exact rfl
    | cons first rest =>
      obtain ⟨hindex, hnext⟩ := h.index
      rw [List.length_cons] at hlength hrounds hfuel
      cases fuel with
      | zero => omega
      | succ fuel =>
        rw [if_neg (by omega), hindex, Protocol.skipChunks]
        show SameOutcome _ (advance pos 1 >>= _) _
        rw [advance_eq (by omega)]
        show SameOutcome _ (if first = 0xFF then _ else _) _
        by_cases hstop : first = 0xFF
        · rw [if_pos hstop, if_pos hstop]
          exact ⟨Nat.le_succ _, hnext⟩
        rw [if_neg hstop, if_neg hstop]
        rw [Option.bind_eq_bind, okOr_bind]
        refine (readArg_same hdata (first.toNat % 32) hnext).bind ?_
        rintro ⟨n, pos'⟩ ⟨n', rest'⟩ ⟨hn, hpast, hat⟩
        obtain rfl : n = n' := hn
        dsimp only at hpast hat ⊢
        rw [Option.bind_eq_bind, okOr_bind]
        refine (skipBytes_same hdata n hat).bind ?_
        rintro pos'' rest'' ⟨hpast', hat'⟩
        have hlength' := hat.length
        have hlength'' := hat'.length
        refine (ih hat' (by omega) (by omega)).mono ?_
        rintro x y ⟨hlater, hxy⟩
        exact ⟨by omega, hxy⟩

omit hdata in
/-- A container that is open waits for an item, so its count has something to give. -/
theorem consumeItem_eq {stack : List Nat} (h : ∀ r ∈ stack, 0 < r) :
    consumeItem stack = .ok (Protocol.consumeItem stack)
      ∧ ∀ r ∈ Protocol.consumeItem stack, 0 < r := by
  induction stack with
  | nil => exact ⟨rfl, h⟩
  | cons r stack ih =>
    obtain ⟨hr, hstack⟩ := List.forall_mem_cons.mp h
    rw [consumeItem, Protocol.consumeItem]
    by_cases hmarker : r = u64Max
    · rw [if_pos hmarker, if_pos hmarker]
      exact ⟨rfl, h⟩
    rw [if_neg hmarker, if_neg hmarker, checkedSub, if_pos (Nat.succ_le_of_lt hr)]
    show (if r - 1 = 0 then consumeItem stack else .ok ((r - 1) :: stack)) = _ ∧ _
    by_cases hlast : r - 1 = 0
    · rw [if_pos hlast, if_pos hlast]
      exact ih hstack
    · rw [if_neg hlast, if_neg hlast]
      exact ⟨rfl, List.forall_mem_cons.mpr ⟨Nat.pos_of_ne_zero hlast, hstack⟩⟩

omit hdata in
theorem closeIndefinite_pos {stack : List Nat} (h : ∀ r ∈ stack, 0 < r) :
    ∀ r ∈ closeIndefinite stack, 0 < r := by
  induction stack with
  | nil => exact h
  | cons r stack ih =>
    obtain ⟨-, hstack⟩ := List.forall_mem_cons.mp h
    rw [closeIndefinite]
    by_cases hmarker : r = u64Max
    · rw [if_pos hmarker]
      exact hstack
    · rw [if_neg hmarker]
      exact ih hstack

/-- The same containers are open, each of them waits for an item, and the input goes on from
`start` or later. -/
def Open (data : Bytes) (start : Nat) (x : List Nat × Nat) (y : Scan) : Prop :=
  x.1 = y.1 ∧ (∀ r ∈ x.1, 0 < r) ∧ Past data start x.2 y.2

variable {stack : List Nat}

omit hdata in
theorem open_consumeItem {start : Nat} (hstack : ∀ r ∈ stack, 0 < r)
    (h : Past data start pos rest) :
    SameOutcome (Open data start) (consumeItem stack >>= fun stack => .ok (stack, pos))
      (okOr (some (Protocol.consumeItem stack, rest)) ()) := by
  obtain ⟨hconsume, hpos⟩ := consumeItem_eq hstack
  rw [hconsume]
  exact ⟨rfl, hpos, h⟩

theorem scanItem_same (maxDepth major : Nat) {arg : Nat} (hstack : ∀ r ∈ stack, 0 < r)
    (h : At data pos rest) :
    SameOutcome (Open data pos) (scanItem data maxDepth major arg stack pos)
      (okOr (Protocol.scanItem data.length maxDepth major arg stack rest) ()) := by
  have hhere : Past data pos pos rest := ⟨Nat.le_refl _, h⟩
  have hlength := h.length
  have hpush : ∀ {r : Nat}, 0 < r → SameOutcome (Open data pos) (.ok (r :: stack, pos))
      (okOr (some (r :: stack, rest)) ()) :=
    fun hr => ⟨rfl, List.forall_mem_cons.mpr ⟨hr, hstack⟩, hhere⟩
  have hmax : 0 < u64Max := by decide
  have hstring : SameOutcome (Open data pos)
      (do
        let pos ← if arg = u64Max then skipChunks data (data.length + 1) pos
          else skipBytes data arg pos
        let stack ← consumeItem stack
        .ok (stack, pos))
      (okOr (do
        let rest ← if arg = u64Max then Protocol.skipChunks data.length rest.length rest
          else Protocol.skipBytes data.length arg rest
        some (Protocol.consumeItem stack, rest)) ()) := by
    by_cases hmarker : arg = u64Max
    · rw [if_pos hmarker, if_pos hmarker, Option.bind_eq_bind, okOr_bind]
      refine (skipChunks_same hdata h (by omega) (Nat.le_refl _)).bind ?_
      intro pos' rest' hpast
      exact open_consumeItem hstack hpast
    · rw [if_neg hmarker, if_neg hmarker, Option.bind_eq_bind, okOr_bind]
      refine (skipBytes_same hdata arg h).bind ?_
      intro pos' rest' hpast
      exact open_consumeItem hstack hpast
  -- arrays and maps push a frame, a tag leaves the stack, the rest consumes an item
  match major with
  | 0 => exact open_consumeItem hstack hhere
  | 1 => exact open_consumeItem hstack hhere
  | 2 => exact hstring
  | 3 => exact hstring
  | 4 =>
    rw [scanItem, Protocol.scanItem]
    by_cases hlimit : maxDepth ≤ stack.length
    · rw [if_pos hlimit, if_pos hlimit]
      exact rfl
    rw [if_neg hlimit, if_neg hlimit]
    by_cases hzero : arg = 0
    · rw [if_pos hzero, if_pos hzero]
      exact open_consumeItem hstack hhere
    · rw [if_neg hzero, if_neg hzero]
      exact hpush (Nat.pos_of_ne_zero hzero)
  | 5 =>
    rw [scanItem, Protocol.scanItem]
    by_cases hlimit : maxDepth ≤ stack.length
    · rw [if_pos hlimit, if_pos hlimit]
      exact rfl
    rw [if_neg hlimit, if_neg hlimit]
    by_cases hzero : arg = 0
    · rw [if_pos hzero, if_pos hzero]
      exact open_consumeItem hstack hhere
    rw [if_neg hzero, if_neg hzero]
    by_cases hmarker : arg = u64Max
    · rw [if_pos hmarker, if_pos hmarker]
      exact hpush hmax
    · rw [if_neg hmarker, if_neg hmarker]
      exact hpush (by omega)
  | 6 => exact ⟨rfl, hstack, hhere⟩
  | 7 => exact open_consumeItem hstack hhere
  | _ + 8 => exact rfl

/-- A round takes a byte at least. -/
theorem scanStep_same (maxDepth : Nat) (hstack : ∀ r ∈ stack, 0 < r) (h : At data pos rest)
    (hpos : pos < data.length) :
    SameOutcome (Open data (pos + 1)) (scanStep data maxDepth stack pos)
      (okOr (Protocol.scanStep data.length maxDepth (stack, rest)) ()) := by
  have hlength := h.length
  cases rest with
  | nil =>
    rw [List.length_nil] at hlength
    omega
  | cons first rest =>
    obtain ⟨hindex, hnext⟩ := h.index
    have hhere : Past data (pos + 1) (pos + 1) rest := ⟨Nat.le_refl _, hnext⟩
    rw [scanStep, hindex]
    show SameOutcome _ (advance pos 1 >>= _) _
    rw [advance_eq (by omega), Protocol.scanStep]
    show SameOutcome _ (if first.toNat / 32 = 7 ∧ first.toNat % 32 = 31 then _
      else if first.toNat % 32 = 31 then _ else _) _
    by_cases hstop : first.toNat / 32 = 7 ∧ first.toNat % 32 = 31
    · rw [if_pos hstop, if_pos hstop]
      exact open_consumeItem (closeIndefinite_pos hstack) hhere
    rw [if_neg hstop, if_neg hstop]
    by_cases h31 : first.toNat % 32 = 31
    · rw [if_pos h31, if_pos h31]
      exact scanItem_same hdata maxDepth _ hstack hnext
    rw [if_neg h31, if_neg h31, Option.bind_eq_bind, okOr_bind]
    refine (readArg_same hdata _ hnext).bind ?_
    rintro ⟨arg, pos'⟩ ⟨arg', rest'⟩ ⟨harg, hpast, hat⟩
    obtain rfl : arg = arg' := harg
    refine (scanItem_same hdata maxDepth _ hstack hat).mono ?_
    rintro x y ⟨hxy, hopen, hlater, hread⟩
    exact ⟨hxy, hopen, hpast.trans hlater, hread⟩

/-- The rounds are enough for the input that is left, and the loops agree. -/
theorem scanAll_same (maxDepth : Nat) {rounds : Nat} (hstack : ∀ r ∈ stack, 0 < r)
    (h : At data pos rest) (hrounds : rest.length ≤ rounds) :
    scanAll data maxDepth rounds (stack, pos)
        = .ok (Protocol.scanAll data.length maxDepth rounds (stack, rest))
      ∨ scanAll data maxDepth rounds (stack, pos) = fail ()
        ∧ Protocol.scanAll data.length maxDepth rounds (stack, rest) = false := by
  induction rounds generalizing stack pos rest with
  | zero =>
    have hlength := h.length
    obtain rfl : rest = [] := List.length_eq_zero_iff.mp (Nat.le_zero.mp hrounds)
    rw [List.length_nil] at hlength
    rw [scanAll, if_pos (by omega)]
    exact .inl rfl
  | succ rounds ih =>
    have hlength := h.length
    have hpos := h.1
    rw [scanAll]
    cases rest with
    | nil =>
      rw [List.length_nil] at hlength
      rw [if_pos (by omega)]
      exact .inl rfl
    | cons first rest =>
      have hlt : pos < data.length := by
        rw [List.length_cons] at hlength
        omega
      rw [if_neg (Nat.not_le.mpr hlt)]
      have hsame := scanStep_same hdata maxDepth hstack h hlt
      cases hstep : Protocol.scanStep data.length maxDepth (stack, first :: rest) with
      | none =>
        rw [hstep] at hsame
        cases hchecked : scanStep data maxDepth stack pos with
        | ok x =>
          rw [hchecked] at hsame
          exact hsame.elim
        | error e =>
          rw [hchecked] at hsame
          obtain rfl : e = .err () := hsame
          exact .inr ⟨rfl, scanAll_of_none (List.cons_ne_nil _ _) hstep⟩
      | some next =>
        rw [hstep] at hsame
        obtain ⟨⟨stack', pos'⟩, hchecked, hstack', hopen, hlater, hread⟩ := hsame.exists_of_ok'
        obtain ⟨stack'', rest'⟩ := next
        obtain rfl : stack' = stack'' := hstack'
        have hlength' := hread.length
        dsimp only at hopen hlater hread hlength'
        rw [hchecked, scanAll_of_some hstep]
        exact ih hopen hread (by omega)

end Same

/-- With room for the stack no check fails; without, the call aborts. -/
theorem checkCborDepth_eq {data : Bytes} (hdata : data.length < 2 ^ 63) (maxDepth : Nat) :
    checkCborDepth data maxDepth
      = if maxDepth < 2 ^ 60 then .ok (Protocol.checkCborDepth data maxDepth) else abort := by
  by_cases hroom : maxDepth < 2 ^ 60
  · rw [if_pos hroom, checkCborDepth, withCapacity, if_pos (by omega)]
    have hstart : At data 0 data := ⟨Nat.zero_le _, rfl⟩
    have hnone : ∀ r ∈ ([] : List Nat), 0 < r := fun r hr => absurd hr List.not_mem_nil
    rw [Protocol.checkCborDepth]
    rcases scanAll_same hdata maxDepth hnone hstart (Nat.le_refl _) with hok | ⟨hfail, hfalse⟩
    · rw [res_ok_bind, hok]
    · rw [res_ok_bind, hfail, hfalse]
      rfl
  · rw [if_neg hroom, checkCborDepth, withCapacity, if_neg (by omega)]
    rfl

/-! ## How exact the check is -/

open CborWire

/-- The check returns, and on an encoded item tells whether its depth is within the limit, just
when there is room for the stack.  An input that it accepts is complete items just when its run
meets no slip. -/
theorem exact_iff (data : Bytes) (hdata : data.length < 2 ^ 63) (m : Nat) :
    (checkCborDepth data m ≠ abort ↔ m < 2 ^ 60)
      ∧ (∀ item : Item, item.encode = data →
        (checkCborDepth data m = .ok (decide (item.depth ≤ m)) ↔ m < 2 ^ 60))
      ∧ (checkCborDepth data m = .ok true → (Complete data m ↔ Clean data m)) := by
  have hmax : data.length < u64Max := hdata.trans (by decide)
  rw [checkCborDepth_eq hdata]
  by_cases hroom : m < 2 ^ 60
  · rw [if_pos hroom]
    refine ⟨⟨fun _ => hroom, fun _ => nofun⟩, ?_, fun haccept => ?_⟩
    · rintro item rfl
      rw [checkCborDepth_item item m hmax]
      exact ⟨fun _ => hroom, fun _ => rfl⟩
    · have htrue : Protocol.checkCborDepth data m = true := Except.ok.inj haccept
      rw [complete_iff hmax]
      exact and_iff_right htrue
  · rw [if_neg hroom]
    refine ⟨⟨fun h => absurd rfl h, fun h => absurd h hroom⟩, ?_, fun haccept => ?_⟩
    · intro item _
      exact ⟨fun h => absurd h.symm (abort_ne_ok _).symm, fun h => absurd h hroom⟩
    · exact absurd haccept (abort_ne_ok _)

/-- An array of two integers, the second in more bytes than it needs. -/
theorem exact_twoInts :
    checkCborDepth [0x82, 0x01, 0x18, 0x02] 1 = .ok true
      ∧ (Complete [0x82, 0x01, 0x18, 0x02] 1 ↔ Clean [0x82, 0x01, 0x18, 0x02] 1) :=
  ⟨rfl, (exact_iff [0x82, 0x01, 0x18, 0x02] (by decide) 1).2.2 rfl⟩

/-- A break with nothing open is accepted. -/
theorem stop_accepted :
    checkCborDepth [0xFF] MAX_CBOR_DEPTH = .ok true ∧ ¬ Complete [0xFF] MAX_CBOR_DEPTH := by
  refine ⟨rfl, fun hcomplete => ?_⟩
  have hclean := ((complete_iff (show ([0xFF] : Bytes).length < u64Max by decide)).mp hcomplete).2
  -- no container waits for it
  exact hclean _ Relation.ReflTransGen.refl id

end WritersProof.Protocol.Checked
