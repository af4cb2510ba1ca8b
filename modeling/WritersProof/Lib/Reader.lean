/-
  WritersProof.Lib.Reader

  Decoders that walk over a byte string with an offset.  Indexing past the end
  aborts, as it does in Rust, so the bounds checks of a decoder are part of it.

  `Reads r bytes a` says that `r`, wherever it meets `bytes`, returns `a` and
  moves behind them.  The rules compose it along the decoder, and an encoding
  followed by its decoder is then one `Reads` derivation.

  Encodings that show where they end.

  `Separates P enc`: whatever follows, the front of the bytes tells which value of `P`
  was encoded.  Fixed-width encodings do, bytes after their length, lists after their
  length and values after a tag; and so does what is put together from these.
-/
import WritersProof.Lib.Bytes
import Mathlib.Data.List.Forall2

open Rust Bytes

/-- A decoder: the data and the offset to the outcome and the next offset. -/
def Reader (ε α : Type) := Bytes → Nat → Res ε (α × Nat)

namespace Reader

variable {ε α β : Type}

instance : Monad (Reader ε) where
  pure a := fun _ offset => .ok (a, offset)
  bind r f := fun data offset => do
    let (a, offset) ← r data offset
    f a data offset

def run (r : Reader ε α) (data : Bytes) : Res ε α := do
  let (a, _) ← r data 0
  .ok a

def take (n : Nat) : Reader ε Bytes := fun data offset => do
  let bytes ← slice data offset (offset + n)
  .ok (bytes, offset + n)

/-- `array.copy_from_slice(&data[offset..offset + n])` -/
def fixed (n : Nat) : Reader ε (FixedBytes n) := fun data offset =>
  if h : offset + n ≤ data.length then
    .ok (⟨(data.drop offset).take n, by simp; omega⟩, offset + n)
  else abort

def byte : Reader ε UInt8 := fun data offset =>
  match data[offset]? with
  | some b => .ok (b, offset + 1)
  | none => abort

/-- `from_be_bytes` of the next `w` bytes. -/
def be (w : Nat) : Reader ε Nat := do
  let bytes ← take w
  pure (ofBE bytes)

/-- `r?`, for an outcome that reads nothing. -/
def lift (r : Res ε α) : Reader ε α := fun _ offset => do
  let a ← r
  .ok (a, offset)

/-- `if offset + n > data.len() { return Err(e); }` -/
def need (n : Nat) (e : ε) : Reader ε Unit := fun data offset =>
  if offset + n > data.length then fail e else .ok ((), offset)

/-- `if p { return Err(e); }` -/
def reject (p : Prop) [Decidable p] (e : ε) : Reader ε Unit := fun _ offset =>
  if p then fail e else .ok ((), offset)

/-- `for _ in 0..n { xs.push(r) }` -/
def times (r : Reader ε α) : Nat → Reader ε (List α)
  | 0 => pure []
  | n + 1 => do
    let x ← r
    let xs ← times r n
    pure (x :: xs)

/-! ## Reading inside the data -/

section

variable {data : Bytes} {offset : Nat}

theorem bind_apply (r : Reader ε α) (f : α → Reader ε β) (data : Bytes) (offset : Nat) :
    (r >>= f) data offset = (r data offset >>= fun p => f p.1 data p.2) := rfl

theorem take_of_le {n : Nat} (h : offset + n ≤ data.length) :
    take (ε := ε) n data offset = .ok ((data.drop offset).take n, offset + n) := by
  rw [take, slice_eq (Nat.le_add_right _ _) h, res_ok_bind, Nat.add_sub_cancel_left]

theorem be_of_le {w : Nat} (h : offset + w ≤ data.length) :
    be (ε := ε) w data offset = .ok (ofBE ((data.drop offset).take w), offset + w) := by
  rw [be, bind_apply, take_of_le h]
  rfl

theorem fixed_of_le {n : Nat} (h : offset + n ≤ data.length) :
    ∃ b, fixed (ε := ε) n data offset = .ok (b, offset + n)
      ∧ b.val = (data.drop offset).take n := by
  rw [fixed, dif_pos h]
  exact ⟨_, rfl, rfl⟩

theorem byte_of_lt (h : offset < data.length) :
    byte (ε := ε) data offset = .ok (data[offset], offset + 1) := by
  rw [byte, List.getElem?_eq_getElem h]

end

/-! ## Reading back an encoding -/

/-- Wherever `bytes` stand, `r` reads them as `a`. -/
def Reads (r : Reader ε α) (bytes : Bytes) (a : α) : Prop :=
  ∀ pre post, r (pre ++ bytes ++ post) pre.length = .ok (a, pre.length + bytes.length)

theorem reads_pure (a : α) : Reads (pure a : Reader ε α) [] a := fun _ _ => rfl

variable {r : Reader ε α} {bytes : Bytes} {a : α} {b : β} {n : Nat} {e : ε} {f : Unit → Reader ε β}
  {xs : List α} {enc : α → Bytes}

theorem Reads.bind {f : α → Reader ε β} {bytes bytes' : Bytes} (hr : Reads r bytes a)
    (hf : Reads (f a) bytes' b) : Reads (r >>= f) (bytes ++ bytes') b := by
  intro pre post
  have hfirst : r (pre ++ (bytes ++ bytes') ++ post) pre.length
      = .ok (a, pre.length + bytes.length) := by
    have := hr pre (bytes' ++ post)
    simpa using this
  have hsecond : f a (pre ++ (bytes ++ bytes') ++ post) (pre.length + bytes.length)
      = .ok (b, pre.length + (bytes ++ bytes').length) := by
    have := hf (pre ++ bytes) post
    simpa [Nat.add_assoc] using this
  change (r _ _ >>= fun p => f p.1 _ p.2) = _
  rw [hfirst]
  exact hsecond

theorem reads_take (h : bytes.length = n) : Reads (take (ε := ε) n) bytes bytes := by
  intro pre post
  rw [take, slice_append pre bytes post rfl (by rw [h]), res_ok_bind, h]

theorem reads_fixed (b : FixedBytes n) : Reads (fixed (ε := ε) n) b.val b := by
  intro pre post
  have hle : pre.length + n ≤ (pre ++ b.val ++ post).length := by
    simp
  have hval : ((pre ++ b.val ++ post).drop pre.length).take n = b.val := by
    simp
  rw [fixed, dif_pos hle, b.length_val]
  simp only [hval]

theorem reads_byte (b : UInt8) : Reads (byte (ε := ε)) [b] b := by
  intro pre post
  simp [byte]

theorem reads_be {w : Nat} (h : n < 256 ^ w) : Reads (be (ε := ε) w) (toBE w n) n := by
  have hpure : Reads (pure (ofBE (toBE w n)) : Reader ε Nat) [] n := by
    rw [ofBE_toBE_of_lt h]
    exact reads_pure n
  have := (reads_take (ε := ε) (length_toBE w n)).bind
    (f := fun bytes => pure (ofBE bytes)) hpure
  rwa [List.append_nil] at this

/-- A bounds check passes when what follows is long enough. -/
theorem Reads.need (hf : Reads (f ()) bytes b) (hn : n ≤ bytes.length) :
    Reads (need n e >>= f) bytes b := by
  intro pre post
  have hcheck : Reader.need n e (pre ++ bytes ++ post) pre.length = .ok ((), pre.length) := by
    rw [Reader.need, if_neg (by simp; omega)]
  change (Reader.need n e _ _ >>= fun p => f p.1 _ p.2) = _
  rw [hcheck]
  exact hf pre post

/-- A check on the values read so far. -/
theorem Reads.reject {p : Prop} [Decidable p] (hf : Reads (f ()) bytes b) (hp : ¬ p) :
    Reads (reject p e >>= f) bytes b := by
  intro pre post
  have hcheck : Reader.reject p e (pre ++ bytes ++ post) pre.length = .ok ((), pre.length) := by
    rw [Reader.reject, if_neg hp]
  change (Reader.reject p e _ _ >>= fun p => f p.1 _ p.2) = _
  rw [hcheck]
  exact hf pre post

theorem reads_times_of_forall {records : List Bytes}
    (h : List.Forall₂ (fun bytes x => Reads r bytes x) records xs) :
    Reads (times r xs.length) records.flatten xs := by
  induction h with
  | nil => exact reads_pure []
  | @cons bytes x records xs hx _ ih =>
    have hpure : Reads (pure (x :: xs) : Reader ε (List α)) [] (x :: xs) := reads_pure _
    have hall := hx.bind (f := fun x => times r xs.length >>= fun xs => pure (x :: xs))
      (ih.bind (f := fun xs => pure (x :: xs)) hpure)
    rwa [List.append_nil] at hall

theorem reads_times_of_mem (hr : ∀ x ∈ xs, Reads r (enc x) x) :
    Reads (times r xs.length) (xs.flatMap enc) xs := by
  rw [List.flatMap_def]
  apply reads_times_of_forall
  rw [List.forall₂_map_left_iff]
  exact List.forall₂_same.mpr hr

theorem reads_times (hr : ∀ a, Reads r (enc a) a) (xs : List α) :
    Reads (times r xs.length) (xs.flatMap enc) xs :=
  reads_times_of_mem fun a _ => hr a

/-- A decoder that reads an encoding reads it from the start of the data, whatever follows. -/
theorem Reads.run_append (h : Reads r bytes a) (rest : Bytes) : run r (bytes ++ rest) = .ok a := by
  have hread := h [] rest
  rw [List.nil_append] at hread
  show (r (bytes ++ rest) ([] : Bytes).length >>= fun p => .ok p.1) = _
  rw [hread]
  rfl

theorem Reads.run_eq (h : Reads r bytes a) : run r bytes = .ok a := by
  have hread := h.run_append []
  rwa [List.append_nil] at hread

/-! ## What a decoder has read -/

/-- `bytes` stand from `offset` to `next`. -/
structure Spans (data : Bytes) (offset next : Nat) (bytes : Bytes) : Prop where
  next_eq : next = offset + bytes.length
  le : next ≤ data.length
  drop_eq : data.drop offset = bytes ++ data.drop next

namespace Spans

variable {data bytes' : Bytes} {offset mid next : Nat}

theorem nil (h : offset ≤ data.length) : Spans data offset offset [] := ⟨rfl, h, rfl⟩

theorem append (h : Spans data offset mid bytes) (h' : Spans data mid next bytes') :
    Spans data offset next (bytes ++ bytes') where
  next_eq := by
    rw [h'.next_eq, h.next_eq, List.length_append, Nat.add_assoc]
  le := h'.le
  drop_eq := by
    rw [h.drop_eq, h'.drop_eq, List.append_assoc]

theorem of_take {n : Nat} (h : offset + n ≤ data.length) :
    Spans data offset (offset + n) ((data.drop offset).take n) where
  next_eq := by
    rw [List.length_take, List.length_drop]
    omega
  le := h
  drop_eq := by
    rw [← List.drop_drop, List.take_append_drop]

end Spans

/-- Read from `offset`, the data do not abort `r`, and what it returns satisfies `Q`. -/
structure Meets (r : Reader ε α) (data : Bytes) (offset : Nat) (Q : α → Nat → Prop) : Prop where
  returns : r data offset ≠ abort
  post : ∀ a next, r data offset = .ok (a, next) → Q a next

section Meets

variable {data : Bytes} {offset : Nat}

variable {Q : α → Nat → Prop} {Q' : β → Nat → Prop}

theorem meets_of_ok {next : Nat} (h : r data offset = .ok (a, next)) (hQ : Q a next) :
    Meets r data offset Q where
  returns := by
    rw [h]
    exact nofun
  post b next' hok := by
    cases h.symm.trans hok
    exact hQ

theorem meets_of_fail (h : r data offset = fail e) :
    Meets r data offset Q where
  returns := by
    rw [h]
    exact nofun
  post b next' hok := by
    cases h.symm.trans hok

theorem Meets.imp {Q Q' : α → Nat → Prop} (h : Meets r data offset Q)
    (himp : ∀ a next, Q a next → Q' a next) : Meets r data offset Q' :=
  ⟨h.returns, fun a next hok => himp a next (h.post a next hok)⟩

/-- What the first decoder has read is there for the second one. -/
theorem Meets.bind {f : α → Reader ε β} (hr : Meets r data offset Q)
    (hf : ∀ a next, Q a next → Meets (f a) data next Q') : Meets (r >>= f) data offset Q' := by
  cases hrun : r data offset with
  | ok p =>
    have hnext := hf p.1 p.2 (hr.post p.1 p.2 hrun)
    have hbind : (r >>= f) data offset = f p.1 data p.2 := by
      rw [bind_apply, hrun, res_ok_bind]
    exact ⟨by rw [hbind]; exact hnext.returns, fun b next h => hnext.post b next (hbind ▸ h)⟩
  | error fault =>
    cases fault with
    | err e =>
        exact meets_of_fail (show (r >>= f) data offset = fail e by rw [bind_apply, hrun]; rfl)
    | panic => exact absurd hrun hr.returns

theorem meets_pure (h : Q a offset) : Meets (pure a : Reader ε α) data offset Q := meets_of_ok rfl h

theorem meets_fixed (h : offset + n ≤ data.length) :
    Meets (fixed (ε := ε) n) data offset fun b next => Spans data offset next b.val := by
  obtain ⟨b, hok, hval⟩ := fixed_of_le (ε := ε) h
  refine meets_of_ok hok ?_
  rw [hval]
  exact Spans.of_take h

theorem meets_byte (h : offset < data.length) :
    Meets (byte (ε := ε)) data offset fun b next => Spans data offset next [b] := by
  refine meets_of_ok (byte_of_lt h) ⟨rfl, h, ?_⟩
  exact List.drop_eq_getElem_cons h

theorem meets_be {w : Nat} (h : offset + w ≤ data.length) :
    Meets (be (ε := ε) w) data offset fun n next =>
      n < 256 ^ w ∧ Spans data offset next (toBE w n) := by
  refine meets_of_ok (be_of_le h) ⟨?_, ?_⟩
  · exact ofBE_take_lt _ _
  · rw [toBE_ofBE_slice data h]
    exact Spans.of_take h

theorem meets_need :
    Meets (need n e) data offset fun _ next => next = offset ∧ offset + n ≤ data.length := by
  by_cases h : offset + n > data.length
  · exact meets_of_fail (by rw [need, if_pos h])
  · exact meets_of_ok (by rw [need, if_neg h]) ⟨rfl, Nat.le_of_not_lt h⟩

theorem meets_reject {p : Prop} [Decidable p] :
    Meets (reject p e) data offset fun _ next => next = offset ∧ ¬ p := by
  by_cases h : p
  · exact meets_of_fail (by rw [reject, if_pos h])
  · exact meets_of_ok (by rw [reject, if_neg h]) ⟨rfl, h⟩

/-- A byte that must have one value. -/
theorem meets_expect {value : UInt8} {r : Reader ε β} (h : offset < data.length)
    (hr : Spans data offset (offset + 1) [value] → Meets r data (offset + 1) Q') :
    Meets (byte >>= fun b => reject (b ≠ value) e >>= fun _ => r) data offset Q' := by
  refine (meets_byte h).bind fun b o₁ hb => meets_reject.bind fun _ o₂ hv => ?_
  obtain ⟨rfl, hv⟩ := hv
  obtain rfl := not_not.mp hv
  obtain rfl : o₂ = offset + 1 := hb.next_eq
  exact hr hb

/-- A loop over records that each check their bounds. -/
theorem meets_times {P : α → Bytes → Prop} (hr : ∀ offset ≤ data.length,
      Meets r data offset fun a next => ∃ bytes, P a bytes ∧ Spans data offset next bytes) :
    ∀ (n : Nat) (offset : Nat), offset ≤ data.length →
      Meets (times r n) data offset fun xs next => xs.length = n
        ∧ ∃ records, List.Forall₂ P xs records ∧ Spans data offset next records.flatten := by
  intro n
  induction n with
  | zero => exact fun offset h => meets_pure ⟨rfl, [], .nil, Spans.nil h⟩
  | succ n ih =>
    intro offset h
    refine (hr offset h).bind fun x mid hx => ?_
    obtain ⟨bytes, hP, hspan⟩ := hx
    refine (ih mid hspan.le).bind fun xs next hxs => ?_
    obtain ⟨hlen, records, hall, hspans⟩ := hxs
    exact meets_pure ⟨congrArg (· + 1) hlen, bytes :: records, .cons hP hall, hspan.append hspans⟩

/-- A run from the start returns, and what it returns was read there. -/
theorem Meets.run (h : Meets r data 0 Q) :
    Reader.run r data ≠ abort ∧ ∀ a, Reader.run r data = .ok a → ∃ next, Q a next := by
  have hrun : Reader.run r data = (r data 0).map Prod.fst := by
    rw [Reader.run]
    cases r data 0 with
    | ok p => rfl
    | error fault => rfl
  rw [hrun]
  cases hr : r data 0 with
  | ok p =>
    refine ⟨nofun, fun a ha => ⟨p.2, ?_⟩⟩
    cases ha
    exact h.post p.1 p.2 hr
  | error fault =>
    cases fault with
    | err e => exact ⟨nofun, nofun⟩
    | panic => exact absurd hr h.returns

end Meets

end Reader

namespace PrefixCode

variable {α β : Type} {P : α → Prop} {enc : α → Bytes}

/-- Of two streams that start with encodings and are the same, the values are the same and so is
    what follows. -/
def Separates (P : α → Prop) (enc : α → Bytes) : Prop :=
  ∀ a b, P a → P b → ∀ r s, enc a ++ r = enc b ++ s → a = b ∧ r = s

theorem separates_fixed {w : Nat} (hlen : ∀ a, P a → (enc a).length = w)
    (hinj : ∀ a b, P a → P b → enc a = enc b → a = b) : Separates P enc := by
  intro a b ha hb r s h
  obtain ⟨henc, hrest⟩ := List.append_inj h ((hlen a ha).trans (hlen b hb).symm)
  exact ⟨hinj a b ha hb henc, hrest⟩

theorem separates_toBE (w : Nat) : Separates (· < 256 ^ w) (toBE w) :=
  separates_fixed (fun _ _ => length_toBE _ _) fun _ _ ha hb => toBE_injective ha hb

theorem separates_fixedBytes {n : Nat} : Separates (fun _ => True) (FixedBytes.val (n := n)) :=
  separates_fixed (fun b _ => b.length_val) fun _ _ _ _ => FixedBytes.ext_val

/-- Values that are encoded by way of others. -/
theorem Separates.comap (h : Separates P enc) {f : β → α} (hf : Function.Injective f) :
    Separates (fun b => P (f b)) fun b => enc (f b) := by
  intro a b ha hb r s hstream
  obtain ⟨hvalue, hrest⟩ := h (f a) (f b) ha hb r s hstream
  exact ⟨hf hvalue, hrest⟩

theorem separates_prefixed (w : Nat) :
    Separates (fun bytes : Bytes => bytes.length < 256 ^ w)
      fun bytes => toBE w bytes.length ++ bytes := by
  intro a b ha hb r s h
  rw [List.append_assoc, List.append_assoc] at h
  obtain ⟨hlen, h⟩ := separates_toBE w _ _ ha hb _ _ h
  exact List.append_inj h hlen

/-- Values one after the other, as many as are known to be there. -/
theorem Separates.flatMap (h : Separates P enc) {xs ys : List α} (hlen : xs.length = ys.length)
    (hxs : ∀ x ∈ xs, P x) (hys : ∀ y ∈ ys, P y) {r s : Bytes}
    (hstream : xs.flatMap enc ++ r = ys.flatMap enc ++ s) : xs = ys ∧ r = s := by
  induction xs generalizing ys with
  | nil =>
    cases ys with
    | nil => exact ⟨rfl, hstream⟩
    | cons y ys => cases hlen
  | cons x xs ih =>
    cases ys with
    | nil => cases hlen
    | cons y ys =>
      obtain ⟨hx, hxrest⟩ := List.forall_mem_cons.mp hxs
      obtain ⟨hy, hyrest⟩ := List.forall_mem_cons.mp hys
      rw [List.flatMap_cons, List.flatMap_cons, List.append_assoc, List.append_assoc] at hstream
      obtain ⟨rfl, htail⟩ := h x y hx hy _ _ hstream
      obtain ⟨rfl, hrest⟩ := ih (Nat.succ.inj hlen) hxrest hyrest htail
      exact ⟨rfl, hrest⟩

theorem Separates.list (h : Separates P enc) (w : Nat) :
    Separates (fun xs : List α => xs.length < 256 ^ w ∧ ∀ x ∈ xs, P x)
      fun xs => toBE w xs.length ++ xs.flatMap enc := by
  rintro xs ys ⟨hxs, hall⟩ ⟨hys, hall'⟩ r s hstream
  rw [List.append_assoc, List.append_assoc] at hstream
  obtain ⟨hlen, hstream⟩ := separates_toBE w _ _ hxs hys _ _ hstream
  exact h.flatMap hlen hall hall' hstream

/-- A value after a tag, or another tag alone. -/
theorem Separates.option (h : Separates P enc) (none_ some_ : UInt8) (hne : none_ ≠ some_) :
    Separates (fun o : Option α => ∀ a ∈ o, P a)
      fun o => o.elim [none_] fun a => some_ :: enc a := by
  intro o o' ho ho' r s hstream
  cases o with
  | none =>
    cases o' with
    | none => exact ⟨rfl, (List.cons.inj hstream).2⟩
    | some b => exact absurd (List.cons.inj hstream).1 hne
  | some a =>
    cases o' with
    | none => exact absurd (List.cons.inj hstream).1.symm hne
    | some b =>
      obtain ⟨rfl, hrest⟩ := h a b (ho a rfl) (ho' b rfl) r s (List.cons.inj hstream).2
      exact ⟨rfl, hrest⟩

/-- Values with nothing behind them. -/
theorem Separates.injOn (h : Separates P enc) {a b : α} (ha : P a) (hb : P b)
    (henc : enc a = enc b) : a = b :=
  (h a b ha hb [] [] (by rw [henc])).1

end PrefixCode
