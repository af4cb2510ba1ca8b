/-
  WritersProof.Lib.CborWire

  CBOR data items with all the freedom their encoding has: an argument may take more
  bytes than it needs, a string may come in chunks, an array or a map may end in a break
  instead of starting with its size.

  An item is a row of tokens, one for each header.  `run` is a machine that reads such a
  row with a stack of open containers.  It gets through an item exactly if the item is
  not nested too deeply (`run_tokens`), and all that it gets through are items
  (`exists_items_of_run`).
-/
import WritersProof.Lib.Bytes
import Mathlib.Logic.Function.Iterate

namespace CborWire

/-! ## Arguments -/

/-- Where the argument of a header stands: in its first byte, or in bytes of its own. -/
inductive Width where
  | inline
  | one
  | two
  | four
  | eight
  deriving DecidableEq

namespace Width

/-- How many bytes of its own the argument takes. -/
def bytes : Width → Nat
  | inline => 0
  | one => 1
  | two => 2
  | four => 4
  | eight => 8

def bound : Width → Nat
  | inline => 24
  | one => 2 ^ 8
  | two => 2 ^ 16
  | four => 2 ^ 32
  | eight => 2 ^ 64

theorem bound_le (w : Width) : w.bound ≤ 2 ^ 64 := by
  cases w <;> decide

end Width

structure Argument where
  width : Width
  value : Nat
  fits : value < width.bound

namespace Argument

def low (a : Argument) : Nat :=
  match a.width with
  | .inline => a.value
  | .one => 24
  | .two => 25
  | .four => 26
  | .eight => 27

def bytes (a : Argument) : Bytes := Bytes.toBE a.width.bytes a.value

/-- The number in the chosen width where it fits, in eight bytes otherwise. -/
def ofNat (w : Width) (n : Nat) : Argument :=
  if h : n < w.bound then ⟨w, n, h⟩
  else ⟨.eight, n % 2 ^ 64, Nat.mod_lt _ (Nat.two_pow_pos 64)⟩

theorem ofNat_of_lt {w : Width} {n : Nat} (h : n < w.bound) : ofNat w n = ⟨w, n, h⟩ :=
  dif_pos h

theorem value_lt (a : Argument) : a.value < 2 ^ 64 :=
  a.fits.trans_le a.width.bound_le

theorem ofNat_value (a : Argument) : ofNat a.width a.value = a :=
  ofNat_of_lt a.fits

theorem value_ofNat {w : Width} {n : Nat} (h : n < 2 ^ 64) : (ofNat w n).value = n := by
  by_cases hfits : n < w.bound
  · rw [ofNat_of_lt hfits]
  · rw [ofNat, dif_neg hfits]
    exact Nat.mod_eq_of_lt h

theorem value_ofNat_le (w : Width) (n : Nat) : (ofNat w n).value ≤ n := by
  by_cases hfits : n < w.bound
  · rw [ofNat_of_lt hfits]
  · rw [ofNat, dif_neg hfits]
    exact Nat.mod_le n _

theorem low_lt (a : Argument) : a.low < 28 := by
  obtain ⟨w, n, h⟩ := a
  cases w with
  | inline =>
    show n < 28
    exact Nat.lt_of_lt_of_le h (by decide)
  | one => show 24 < 28; decide
  | two => show 25 < 28; decide
  | four => show 26 < 28; decide
  | eight => show 27 < 28; decide

end Argument

def initial (major low : Nat) : UInt8 := UInt8.ofNat (major * 32 + low)

def header (major : Nat) (a : Argument) : Bytes := initial major a.low :: a.bytes

/-! ## Items -/

/-- A string of known length, with the width of its length. -/
structure Piece where
  width : Width
  content : Bytes
  fits : content.length < width.bound

def Piece.argument (p : Piece) : Argument := ⟨p.width, p.content.length, p.fits⟩

/-- The bytes of an item, which carries the choices made for it. -/
def Piece.encode (major : Nat) (p : Piece) : Bytes := header major p.argument ++ p.content

inductive StringKind where
  | bytes
  | text

def StringKind.major : StringKind → Nat
  | bytes => 2
  | text => 3

/-- What contains no other item. -/
inductive Atom where
  | uint (value : Argument)
  | nint (value : Argument)
  | string (kind : StringKind) (content : Piece)
  | chunks (kind : StringKind) (parts : List Piece)
  /-- The widths from two bytes on are those of the floating-point numbers; a simple value
  below 32 has no byte of its own. -/
  | simple (value : Argument) (wide : value.width = .one → 32 ≤ value.value)

def Atom.encode : Atom → Bytes
  | uint value => header 0 value
  | nint value => header 1 value
  | string kind content => content.encode kind.major
  | chunks kind parts =>
    initial kind.major 31 :: (parts.flatMap (Piece.encode kind.major) ++ [0xFF])
  | simple value _ => header 7 value

inductive Container where
  | array
  | map

namespace Container

def major : Container → Nat
  | array => 4
  | map => 5

def holds : Container → Nat → Nat
  | array, n => n
  | map, n => 2 * n

end Container

/-- The size goes first, or a break ends the items. -/
inductive Form where
  | definite (width : Width)
  | indefinite

inductive Item where
  | atom (a : Atom)
  | tag (number : Argument) (item : Item)
  | array (form : Form) (items : List Item)
  | map (form : Form) (entries : List (Item × Item))

/-! ## Tokens -/

inductive Token where
  | atom (a : Atom)
  | tag (number : Argument)
  /-- The container starts; without a size it goes on until a `stop`. -/
  | opens (kind : Container) (size : Option Argument)
  | stop

def Token.encode : Token → Bytes
  | atom a => a.encode
  | tag number => header 6 number
  | opens kind (some size) => header kind.major size
  | opens kind none => [initial kind.major 31]
  | stop => [0xFF]

namespace Form

def size : Form → Nat → Option Argument
  | definite width, n => some (Argument.ofNat width n)
  | indefinite, _ => none

def closing : Form → List Token
  | definite _ => []
  | indefinite => [.stop]

end Form

namespace Item

/-- Keys and values in order. -/
def flatten (entries : List (Item × Item)) : List Item :=
  entries.flatMap fun entry => [entry.1, entry.2]

mutual

def tokens : Item → List Token
  | .atom a => [.atom a]
  | .tag number item => .tag number :: tokens item
  | .array form items =>
    .opens .array (form.size items.length) :: (tokensAll items ++ form.closing)
  | .map form entries =>
    .opens .map (form.size entries.length) :: (tokensEntries entries ++ form.closing)

def tokensAll : List Item → List Token
  | [] => []
  | item :: items => tokens item ++ tokensAll items

def tokensEntries : List (Item × Item) → List Token
  | [] => []
  | entry :: entries => tokensEntry entry ++ tokensEntries entries

def tokensEntry : Item × Item → List Token
  | (key, value) => tokens key ++ tokens value

end

mutual

/-- How deeply arrays and maps are nested. -/
def depth : Item → Nat
  | .atom _ => 0
  | .tag _ item => depth item
  | .array _ items => depthAll items + 1
  | .map _ entries => depthEntries entries + 1

def depthAll : List Item → Nat
  | [] => 0
  | item :: items => max (depth item) (depthAll items)

def depthEntries : List (Item × Item) → Nat
  | [] => 0
  | entry :: entries => max (depthEntry entry) (depthEntries entries)

def depthEntry : Item × Item → Nat
  | (key, value) => max (depth key) (depth value)

end

def encode (item : Item) : Bytes := item.tokens.flatMap Token.encode

def encodeAll (items : List Item) : Bytes := items.flatMap encode

theorem induct {P : Item → Prop} (atom : ∀ a, P (.atom a))
    (tag : ∀ number item, P item → P (.tag number item))
    (array : ∀ form items, (∀ item ∈ items, P item) → P (.array form items))
    (map : ∀ form entries, (∀ item ∈ flatten entries, P item) → P (.map form entries))
    (item : Item) : P item := by
  apply @Item.rec P (fun items => ∀ item ∈ items, P item)
    (fun entries => ∀ item ∈ flatten entries, P item) (fun entry => P entry.1 ∧ P entry.2)
  · exact atom
  · exact tag
  · exact array
  · exact map
  · intro item hitem
    exact absurd hitem List.not_mem_nil
  · intro head tail hhead htail
    exact List.forall_mem_cons.mpr ⟨hhead, htail⟩
  · intro item hitem
    exact absurd hitem List.not_mem_nil
  · intro head tail hhead htail
    exact List.forall_mem_cons.mpr ⟨hhead.1, List.forall_mem_cons.mpr ⟨hhead.2, htail⟩⟩
  · intro key value hkey hvalue
    exact ⟨hkey, hvalue⟩

theorem flatten_cons (key value : Item) (entries : List (Item × Item)) :
    flatten ((key, value) :: entries) = key :: value :: flatten entries := rfl

theorem length_flatten (entries : List (Item × Item)) :
    (flatten entries).length = 2 * entries.length := by
  induction entries with
  | nil => rfl
  | cons entry entries ih =>
    obtain ⟨key, value⟩ := entry
    rw [flatten_cons, List.length_cons, List.length_cons, List.length_cons, ih]
    omega

variable {items : List Item} {item : Item} {n : Nat} {kind : Container} {size : Argument}

/-- An even number of items are keys and values. -/
theorem exists_flatten (h : items.length = 2 * n) :
    ∃ entries, flatten entries = items ∧ entries.length = n := by
  induction n generalizing items with
  | zero => exact ⟨[], (List.length_eq_zero_iff.mp h).symm, rfl⟩
  | succ n ih =>
    match items, h with
    | key :: value :: items, h =>
      have hrest : items.length = 2 * n := by
        rw [List.length_cons, List.length_cons] at h
        omega
      obtain ⟨entries, hentries, hlength⟩ := ih hrest
      refine ⟨(key, value) :: entries, ?_, by rw [List.length_cons, hlength]⟩
      rw [flatten_cons, hentries]

theorem tokensEntries_eq (entries : List (Item × Item)) :
    tokensEntries entries = tokensAll (flatten entries) := by
  induction entries with
  | nil => rw [tokensEntries, flatten, List.flatMap_nil, tokensAll]
  | cons entry entries ih =>
    obtain ⟨key, value⟩ := entry
    rw [flatten_cons, tokensEntries, tokensEntry, tokensAll, tokensAll, ih, List.append_assoc]

theorem depthAll_le : depthAll items ≤ n ↔ ∀ item ∈ items, depth item ≤ n := by
  induction items with
  | nil =>
    rw [depthAll]
    exact ⟨fun _ item hitem => absurd hitem List.not_mem_nil, fun _ => Nat.zero_le n⟩
  | cons item items ih => rw [depthAll, Nat.max_le, ih, List.forall_mem_cons]

theorem depthEntries_eq (entries : List (Item × Item)) :
    depthEntries entries = depthAll (flatten entries) := by
  induction entries with
  | nil => rw [depthEntries, flatten, List.flatMap_nil, depthAll]
  | cons entry entries ih =>
    obtain ⟨key, value⟩ := entry
    rw [flatten_cons, depthEntries, depthEntry, depthAll, depthAll, ih, Nat.max_assoc]

theorem tokens_array (form : Form) (items : List Item) :
    tokens (.array form items)
      = .opens .array (form.size items.length) :: (tokensAll items ++ form.closing) := by
  rw [tokens]

theorem tokens_map (form : Form) (entries : List (Item × Item)) :
    tokens (.map form entries)
      = .opens .map (form.size entries.length)
        :: (tokensAll (flatten entries) ++ form.closing) := by
  rw [tokens, tokensEntries_eq]

theorem mem_tokensAll {t : Token} : t ∈ tokensAll items ↔ ∃ item ∈ items, t ∈ tokens item := by
  induction items with
  | nil =>
    refine ⟨fun h => absurd h List.not_mem_nil, fun ⟨item, hitem, _⟩ => ?_⟩
    exact absurd hitem List.not_mem_nil
  | cons item items ih => rw [tokensAll, List.mem_append, ih, List.exists_mem_cons_iff]

theorem encodeAll_eq (items : List Item) :
    encodeAll items = (tokensAll items).flatMap Token.encode := by
  induction items with
  | nil => rw [encodeAll, tokensAll, List.flatMap_nil, List.flatMap_nil]
  | cons item items ih =>
    rw [tokensAll, List.flatMap_append, ← ih]
    rfl

theorem length_tokens_pos (item : Item) : 0 < (tokens item).length := by
  cases item <;> rw [tokens] <;> exact Nat.succ_pos _

theorem length_le_tokensAll (items : List Item) : items.length ≤ (tokensAll items).length := by
  induction items with
  | nil => exact Nat.zero_le _
  | cons item items ih =>
    have hpos := length_tokens_pos item
    rw [tokensAll, List.length_append, List.length_cons]
    omega

theorem length_tokens_le (h : item ∈ items) : (tokens item).length ≤ (tokensAll items).length := by
  induction items with
  | nil => exact absurd h List.not_mem_nil
  | cons head tail ih =>
    rw [tokensAll, List.length_append]
    rcases List.mem_cons.mp h with rfl | htail
    · exact Nat.le_add_right _ _
    · exact (ih htail).trans (Nat.le_add_left _ _)

theorem holds_lt {kind' : Container} {form : Form}
    (hitems : ∀ item ∈ items, .opens kind' (some size) ∈ tokens item →
      kind'.holds size.value < (tokens item).length)
    (hlength : items.length = kind.holds n)
    (h : .opens kind' (some size)
      ∈ Token.opens kind (form.size n) :: (tokensAll items ++ form.closing)) :
    kind'.holds size.value
      < (Token.opens kind (form.size n) :: (tokensAll items ++ form.closing)).length := by
  rw [List.length_cons, List.length_append]
  rcases List.mem_cons.mp h with hfirst | h
  · have hcount := length_le_tokensAll items
    cases form with
    | definite width =>
      cases hfirst
      have hle := Argument.value_ofNat_le width n
      have hholds : kind.holds (Argument.ofNat width n).value ≤ kind.holds n := by
        cases kind with
        | array => exact hle
        | map => exact Nat.mul_le_mul_left 2 hle
      omega
    | indefinite => cases hfirst
  rcases List.mem_append.mp h with hinner | hclosing
  · obtain ⟨item, hitem, hmem⟩ := mem_tokensAll.mp hinner
    have hlt := hitems item hitem hmem
    have hle := length_tokens_le hitem
    omega
  · cases form with
    | definite width => exact absurd hclosing List.not_mem_nil
    | indefinite => cases List.mem_singleton.mp hclosing

theorem size_lt (h : .opens kind (some size) ∈ tokens item) :
    kind.holds size.value < (tokens item).length := by
  induction item using induct with
  | atom a =>
    rw [tokens] at h
    cases List.mem_singleton.mp h
  | tag number item ih =>
    rw [tokens] at h
    rw [tokens, List.length_cons]
    rcases List.mem_cons.mp h with hfirst | hrest
    · cases hfirst
    · exact (ih hrest).trans (Nat.lt_succ_self _)
  | array form items ih =>
    rw [tokens_array] at h
    rw [tokens_array]
    exact holds_lt ih rfl h
  | map form entries ih =>
    rw [tokens_map] at h
    rw [tokens_map]
    exact holds_lt ih (length_flatten entries) h

end Item

theorem Token.length_encode_pos (t : Token) : 0 < t.encode.length := by
  match t with
  | .atom (.uint _) => exact Nat.succ_pos _
  | .atom (.nint _) => exact Nat.succ_pos _
  | .atom (.string _ _) => exact Nat.succ_pos _
  | .atom (.chunks _ _) => exact Nat.succ_pos _
  | .atom (.simple _ _) => exact Nat.succ_pos _
  | .tag _ => exact Nat.succ_pos _
  | .opens _ (some _) => exact Nat.succ_pos _
  | .opens _ none => exact Nat.succ_pos _
  | .stop => exact Nat.succ_pos _

theorem length_le_flatMap_encode (ts : List Token) :
    ts.length ≤ (ts.flatMap Token.encode).length := by
  induction ts with
  | nil => exact Nat.zero_le _
  | cons t ts ih =>
    have hpos := t.length_encode_pos
    rw [List.flatMap_cons, List.length_append, List.length_cons]
    omega

/-! ## The machine -/

/-- An open container. -/
inductive Frame where
  | items (more : Nat)
  /-- Until a break. -/
  | array
  /-- Until a break; `odd` after a key. -/
  | map (odd : Bool)

/-- The frame of a container that holds `n` items; an empty one is not left open. -/
def Frame.ofCount : Nat → Option Frame
  | 0 => none
  | n + 1 => some (.items n)

def Frame.opened : Container → Option Argument → Option Frame
  | kind, some size => Frame.ofCount (kind.holds size.value)
  | .array, none => some .array
  | .map, none => some (.map false)

/-- An item is complete; where it was the last of its container, so is that. -/
def consume : List Frame → List Frame
  | [] => []
  | .items 0 :: fs => consume fs
  | .items (more + 1) :: fs => .items more :: fs
  | .array :: fs => .array :: fs
  | .map odd :: fs => .map (!odd) :: fs

structure State where
  frames : List Frame
  /-- The next item belongs to a tag. -/
  tagged : Bool

inductive Refusal where
  | tooDeep
  | misplaced

/-- One token, with at most `m` open containers. -/
def step (m : Nat) : Token → State → Except Refusal State
  | .atom _, s => .ok ⟨consume s.frames, false⟩
  | .tag _, s => .ok ⟨s.frames, true⟩
  | .opens kind size, s =>
    if m ≤ s.frames.length then .error .tooDeep
    else
      match Frame.opened kind size with
      | none => .ok ⟨consume s.frames, false⟩
      | some f => .ok ⟨f :: s.frames, false⟩
  | .stop, ⟨.array :: fs, false⟩ => .ok ⟨consume fs, false⟩
  | .stop, ⟨.map false :: fs, false⟩ => .ok ⟨consume fs, false⟩
  | .stop, _ => .error .misplaced

def run (m : Nat) : List Token → State → Except Refusal State
  | [], s => .ok s
  | t :: ts, s => step m t s >>= run m ts

/-! ## Items get through -/

section Forward

variable {m : Nat} {t : Token} {ts : List Token} {s : State} {n : Nat} {f : Frame}

theorem run_cons_of_ok {s' : State} (h : step m t s = .ok s') :
    run m (t :: ts) s = run m ts s' := by
  rw [run, h]
  rfl

theorem run_cons_of_error {e : Refusal} (h : step m t s = .error e) :
    run m (t :: ts) s = .error e := by
  rw [run, h]
  rfl

def Frame.Takes (n : Nat) : Frame → Prop
  | .items more => n ≤ more + 1
  | .array => True
  | .map _ => True

/-- Before its last item a container stays open. -/
theorem consume_of_takes (h : f.Takes (n + 2)) (fs : List Frame) :
    ∃ f', consume (f :: fs) = f' :: fs ∧ f'.Takes (n + 1) := by
  match f, h with
  | .items 0, h => exact absurd h (by show ¬ n + 2 ≤ 0 + 1; omega)
  | .items (more + 1), h => exact ⟨.items more, rfl, Nat.le_of_succ_le_succ h⟩
  | .array, _ => exact ⟨.array, rfl, trivial⟩
  | .map odd, _ => exact ⟨.map (!odd), rfl, trivial⟩

theorem iterate_consume_items (fs : List Frame) (more : Nat) :
    consume^[more + 1] (.items more :: fs) = consume fs := by
  induction more with
  | zero => rfl
  | succ more ih => exact ih

theorem iterate_consume_array (fs : List Frame) (n : Nat) :
    consume^[n] (.array :: fs) = .array :: fs :=
  Function.iterate_fixed rfl n

theorem iterate_consume_map (fs : List Frame) (n : Nat) :
    consume^[2 * n] (.map false :: fs) = .map false :: fs := by
  rw [Function.iterate_mul]
  exact Function.iterate_fixed rfl n

/-- What reading an item does, in any state within the limit. -/
def Reads (m : Nat) (item : Item) : Prop :=
  ∀ (s : State) (ts : List Token), s.frames.length ≤ m →
    run m (item.tokens ++ ts) s
      = if item.depth + s.frames.length ≤ m then run m ts ⟨consume s.frames, false⟩
        else .error .tooDeep

variable {items : List Item}

/-- The items of an open container, one after the other. -/
theorem run_tokensAll (hitems : ∀ item ∈ items, Reads m item) (hf : f.Takes items.length)
    {fs : List Frame} (hfs : fs.length < m) (ts : List Token) :
    run m (Item.tokensAll items ++ ts) ⟨f :: fs, false⟩
      = if ∀ item ∈ items, item.depth + (fs.length + 1) ≤ m then
          run m ts ⟨consume^[items.length] (f :: fs), false⟩
        else .error .tooDeep := by
  induction items generalizing f with
  | nil =>
    rw [if_pos (fun item hitem => absurd hitem List.not_mem_nil)]
    rfl
  | cons item items ih =>
    obtain ⟨hitem, hrest⟩ := List.forall_mem_cons.mp hitems
    rw [Item.tokensAll, List.append_assoc, hitem ⟨f :: fs, false⟩ _ hfs]
    show (if item.depth + (fs.length + 1) ≤ m then _ else _) = _
    by_cases hdepth : item.depth + (fs.length + 1) ≤ m
    · rw [if_pos hdepth]
      have hall : (∀ i ∈ item :: items, i.depth + (fs.length + 1) ≤ m)
          ↔ ∀ i ∈ items, i.depth + (fs.length + 1) ≤ m := by
        rw [List.forall_mem_cons]
        exact and_iff_right hdepth
      simp only [hall]
      cases items with
      | nil =>
        rw [if_pos (fun item hitem => absurd hitem List.not_mem_nil)]
        rfl
      | cons next items =>
        -- the container is still open after the item
        obtain ⟨f', hconsume, hf'⟩ := consume_of_takes hf fs
        rw [hconsume, ih hrest hf', ← hconsume]
        rfl
    · rw [if_neg hdepth, if_neg]
      exact fun hall => hdepth (hall item List.mem_cons_self)

theorem run_container {kind : Container} {form : Form} (hitems : ∀ item ∈ items, Reads m item)
    (hlength : items.length = kind.holds n) (hn : n < 2 ^ 64) (s : State) (ts : List Token) :
    run m (.opens kind (form.size n) :: (Item.tokensAll items ++ form.closing) ++ ts) s
      = if Item.depthAll items + 1 + s.frames.length ≤ m then
          run m ts ⟨consume s.frames, false⟩
        else .error .tooDeep := by
  obtain ⟨fs, tagged⟩ := s
  have hdepth : Item.depthAll items + 1 + fs.length ≤ m
      ↔ fs.length < m ∧ ∀ item ∈ items, item.depth + (fs.length + 1) ≤ m := by
    have hall : Item.depthAll items ≤ m - (fs.length + 1)
        ↔ ∀ item ∈ items, item.depth ≤ m - (fs.length + 1) := Item.depthAll_le
    refine ⟨fun h => ⟨by omega, fun item hitem => ?_⟩, fun ⟨hlt, h⟩ => ?_⟩
    · have := hall.mp (by omega) item hitem
      omega
    · have := hall.mpr fun item hitem => by
        have := h item hitem
        omega
      omega
  rw [List.cons_append, List.append_assoc]
  show _ = if Item.depthAll items + 1 + fs.length ≤ m then _ else _
  by_cases hlimit : m ≤ fs.length
  · rw [if_neg (by omega)]
    exact run_cons_of_error (if_pos hlimit)
  have hlt : fs.length < m := Nat.not_le.mp hlimit
  simp only [hdepth, hlt, true_and]
  cases form with
  | definite width =>
    have hopened : Frame.opened kind ((Form.definite width).size n)
        = Frame.ofCount items.length := by
      rw [Form.size, Frame.opened, Argument.value_ofNat hn, hlength]
    cases items with
    | nil =>
      rw [if_pos (fun item hitem => absurd hitem List.not_mem_nil)]
      apply run_cons_of_ok
      rw [step, if_neg hlimit, hopened]
      rfl
    | cons item items =>
      have hstep : step m (.opens kind ((Form.definite width).size n)) ⟨fs, tagged⟩
          = .ok ⟨.items items.length :: fs, false⟩ := by
        rw [step, if_neg hlimit, hopened]
        rfl
      rw [run_cons_of_ok hstep, run_tokensAll hitems (Nat.le_refl _) hlt, List.length_cons,
        iterate_consume_items]
      rfl
  | indefinite =>
    -- the break finds the frame as it was opened
    obtain ⟨f, hopened, hf, hsame, hstop⟩ : ∃ f, Frame.opened kind none = some f
        ∧ f.Takes items.length ∧ consume^[items.length] (f :: fs) = f :: fs
        ∧ step m .stop ⟨f :: fs, false⟩ = .ok ⟨consume fs, false⟩ := by
      cases kind with
      | array => exact ⟨.array, rfl, trivial, iterate_consume_array fs _, rfl⟩
      | map =>
        refine ⟨.map false, rfl, trivial, ?_, rfl⟩
        rw [hlength]
        exact iterate_consume_map fs n
    have hstep : step m (.opens kind (Form.indefinite.size n)) ⟨fs, tagged⟩
        = .ok ⟨f :: fs, false⟩ := by
      rw [step, if_neg hlimit, Form.size, hopened]
    rw [run_cons_of_ok hstep, run_tokensAll hitems hf hlt, hsame]
    show (if _ then run m (.stop :: ts) _ else _) = _
    rw [run_cons_of_ok hstop]

/-- The machine gets through an item exactly if the limit allows its depth. -/
theorem run_tokens (item : Item) (hlength : item.tokens.length < 2 ^ 64) : Reads m item := by
  induction item using Item.induct with
  | atom a =>
    intro s ts hs
    rw [Item.tokens, Item.depth, List.singleton_append, Nat.zero_add, if_pos hs]
    exact run_cons_of_ok rfl
  | tag number item ih =>
    intro s ts hs
    rw [Item.tokens, List.length_cons] at hlength
    rw [Item.tokens, List.cons_append, Item.depth, run_cons_of_ok rfl]
    exact ih (by omega) ⟨s.frames, true⟩ ts hs
  | array form items ih =>
    intro s ts _
    rw [Item.tokens_array, List.length_cons, List.length_append] at hlength
    have hcount := Item.length_le_tokensAll items
    rw [Item.tokens_array, Item.depth]
    apply run_container _ rfl
    · omega
    intro item hitem
    have hle := Item.length_tokens_le hitem
    exact ih item hitem (by omega)
  | map form entries ih =>
    intro s ts _
    rw [Item.tokens_map, List.length_cons, List.length_append] at hlength
    have hcount := Item.length_le_tokensAll (Item.flatten entries)
    rw [Item.length_flatten] at hcount
    rw [Item.tokens_map, Item.depth, Item.depthEntries_eq]
    apply run_container _ (Item.length_flatten entries)
    · omega
    intro item hitem
    have hle := Item.length_tokens_le hitem
    exact ih item hitem (by omega)

/-- So it does through items in a row. -/
theorem run_items (hlength : (Item.tokensAll items).length < 2 ^ 64)
    (hdepth : ∀ item ∈ items, item.depth ≤ m) :
    run m (Item.tokensAll items) ⟨[], false⟩ = .ok ⟨[], false⟩ := by
  induction items with
  | nil => rfl
  | cons item items ih =>
    obtain ⟨hitem, hrest⟩ := List.forall_mem_cons.mp hdepth
    rw [Item.tokensAll, List.length_append] at hlength
    rw [Item.tokensAll, run_tokens item (by omega) _ _ (Nat.zero_le m)]
    show (if item.depth + 0 ≤ m then run m (Item.tokensAll items) ⟨[], false⟩ else _) = _
    rw [if_pos (by omega)]
    exact ih (by omega) hrest

end Forward

/-! ## Only items get through -/

section Backward

variable {m : Nat}

namespace Frame

def FilledBy (items : List Item) : Frame → Prop
  | .items more => items.length = more + 1
  | .array => True
  | .map odd => items.length % 2 = if odd then 1 else 0

def closing : Frame → List Token
  | .items _ => []
  | .array => [.stop]
  | .map _ => [.stop]

end Frame

/-- The tokens complete the open containers, with items within the limit, and items follow. -/
inductive Completes (m : Nat) : List Frame → List Token → Prop where
  | top (items : List Item) (depth : ∀ item ∈ items, item.depth ≤ m) :
    Completes m [] (Item.tokensAll items)
  | frame (f : Frame) (fs : List Frame) (items : List Item) (ts : List Token)
    (filled : f.FilledBy items) (depth : ∀ item ∈ items, item.depth + (fs.length + 1) ≤ m)
    (rest : Completes m (consume fs) ts) :
    Completes m (f :: fs) (Item.tokensAll items ++ (f.closing ++ ts))

/-- An item that the innermost container gets. -/
theorem Completes.cons {item : Item} {fs : List Frame} {ts : List Token}
    (hdepth : item.depth + fs.length ≤ m) (h : Completes m (consume fs) ts) :
    Completes m fs (item.tokens ++ ts) := by
  match fs with
  | [] =>
    cases h with
    | top items hitems =>
      exact .top (item :: items) (List.forall_mem_cons.mpr ⟨hdepth, hitems⟩)
  | .items 0 :: fs =>
    have hone := Completes.frame (.items 0) fs [item] ts rfl
      (List.forall_mem_singleton.mpr hdepth) h
    rwa [Item.tokensAll, Item.tokensAll, List.append_nil] at hone
  | .items (more + 1) :: fs =>
    cases h with
    | frame _ _ items ts hfilled hitems hrest =>
      have hmore := Completes.frame (.items (more + 1)) fs (item :: items) ts
        (congrArg (· + 1) hfilled) (List.forall_mem_cons.mpr ⟨hdepth, hitems⟩) hrest
      rwa [Item.tokensAll, List.append_assoc] at hmore
  | .array :: fs =>
    cases h with
    | frame _ _ items ts _ hitems hrest =>
      have hmore := Completes.frame .array fs (item :: items) ts trivial
        (List.forall_mem_cons.mpr ⟨hdepth, hitems⟩) hrest
      rwa [Item.tokensAll, List.append_assoc] at hmore
  | .map odd :: fs =>
    cases h with
    | frame _ _ items ts hfilled hitems hrest =>
      have hparity : (item :: items).length % 2 = if odd then 1 else 0 := by
        have hitems : items.length % 2 = if !odd then 1 else 0 := hfilled
        rw [List.length_cons]
        cases odd
        · have hodd : items.length % 2 = 1 := hitems
          show (items.length + 1) % 2 = 0
          omega
        · have heven : items.length % 2 = 0 := hitems
          show (items.length + 1) % 2 = 1
          omega
      have hmore := Completes.frame (.map odd) fs (item :: items) ts hparity
        (List.forall_mem_cons.mpr ⟨hdepth, hitems⟩) hrest
      rwa [Item.tokensAll, List.append_assoc] at hmore

/-- The next tokens are an item, and the others complete what is open then. -/
def Next (m : Nat) (fs : List Frame) (ts : List Token) : Prop :=
  ∃ (item : Item) (rest : List Token), ts = item.tokens ++ rest
    ∧ item.depth + fs.length ≤ m ∧ Completes m (consume fs) rest

variable {kind : Container} {size : Option Argument} {ts : List Token} {items : List Item}
  {f : Frame} {fs : List Frame} {s s' : State}

theorem exists_container {n : Nat} (hlength : items.length = kind.holds n) (form : Form) :
    ∃ item : Item, item.tokens
        = .opens kind (form.size n) :: (Item.tokensAll items ++ form.closing)
      ∧ item.depth = Item.depthAll items + 1 := by
  cases kind with
  | array =>
    have hcount : items.length = n := hlength
    refine ⟨.array form items, ?_, by rw [Item.depth]⟩
    rw [Item.tokens_array, hcount]
  | map =>
    obtain ⟨entries, hentries, hcount⟩ := Item.exists_flatten hlength
    refine ⟨.map form entries, ?_, ?_⟩
    · rw [Item.tokens_map, hentries, hcount]
    · rw [Item.depth, Item.depthEntries_eq, hentries]

/-- The form of a container, from its first token and the items that complete it. -/
theorem exists_form (hopened : Frame.opened kind size = some f) (hfilled : f.FilledBy items) :
    ∃ (form : Form) (n : Nat), form.size n = size ∧ form.closing = f.closing
      ∧ items.length = kind.holds n := by
  match size, kind with
  | some size, kind =>
    refine ⟨.definite size.width, size.value, ?_, ?_⟩
    · rw [Form.size, Argument.ofNat_value]
    · rw [Frame.opened] at hopened
      cases hcount : kind.holds size.value with
      | zero =>
        rw [hcount] at hopened
        cases hopened
      | succ more =>
        rw [hcount] at hopened
        cases hopened
        exact ⟨rfl, hfilled⟩
  | none, .array =>
    cases hopened
    exact ⟨.indefinite, items.length, rfl, rfl, rfl⟩
  | none, .map =>
    cases hopened
    have heven : items.length % 2 = 0 := hfilled
    refine ⟨.indefinite, items.length / 2, rfl, rfl, ?_⟩
    show items.length = 2 * (items.length / 2)
    omega

/-- A container that opens and is completed is an item. -/
theorem next_of_opens (hopened : Frame.opened kind size = some f) (hlimit : fs.length < m)
    (h : Completes m (f :: fs) ts) :
    Next m fs (.opens kind size :: ts) := by
  cases h with
  | frame _ _ items ts hfilled hdepth hrest =>
    obtain ⟨form, n, hsize, hclosing, hlength⟩ := exists_form hopened hfilled
    obtain ⟨item, htokens, hitem⟩ := exists_container hlength form
    refine ⟨item, ts, ?_, ?_, hrest⟩
    · rw [htokens, hsize, hclosing, List.cons_append, List.append_assoc]
    · have hall : Item.depthAll items ≤ m - (fs.length + 1) := Item.depthAll_le.mpr
        fun i hi => by
          have := hdepth i hi
          omega
      omega

theorem next_of_empty (hopened : Frame.opened kind size = none) (hlimit : fs.length < m)
    (h : Completes m (consume fs) ts) :
    Next m fs (.opens kind size :: ts) := by
  match size, kind with
  | some size, kind =>
    have hcount : kind.holds size.value = 0 := by
      cases hholds : kind.holds size.value with
      | zero => rfl
      | succ more =>
        rw [Frame.opened, hholds] at hopened
        cases hopened
    have hlength : ([] : List Item).length = kind.holds size.value := hcount.symm
    obtain ⟨item, htokens, hitem⟩ := exists_container hlength (.definite size.width)
    refine ⟨item, ts, ?_, ?_, h⟩
    · rw [htokens, Form.size, Argument.ofNat_value]
      rfl
    · rw [hitem, Item.depthAll]
      omega
  | none, .array => cases hopened
  | none, .map => cases hopened

theorem Next.completes (h : Next m fs ts) :
    Completes m fs ts := by
  obtain ⟨item, rest, rfl, hdepth, hrest⟩ := h
  exact hrest.cons hdepth

theorem length_consume_le (fs : List Frame) : (consume fs).length ≤ fs.length := by
  fun_induction consume fs with
  | case1 => exact Nat.le_refl _
  | case2 fs ih => exact ih.trans (Nat.le_succ _)
  | case3 more fs => exact Nat.le_refl _
  | case4 fs => exact Nat.le_refl _
  | case5 odd fs => exact Nat.le_refl _

theorem exists_step_of_run {t : Token} (h : run m (t :: ts) s = .ok s') :
    ∃ next, step m t s = .ok next ∧ run m ts next = .ok s' := by
  cases hstep : step m t s with
  | error e =>
    rw [run_cons_of_error hstep] at h
    cases h
  | ok next =>
    rw [run_cons_of_ok hstep] at h
    exact ⟨next, rfl, h⟩

/-- A break closes a container that has no size, between its items. -/
theorem step_stop_eq_ok (h : step m .stop s = .ok s') :
    s.tagged = false ∧ s'.tagged = false ∧ ∃ f fs, s.frames = f :: fs
      ∧ s'.frames = consume fs ∧ f.FilledBy [] ∧ f.closing = [.stop] := by
  match s, h with
  | ⟨.array :: fs, false⟩, h =>
    cases h
    exact ⟨rfl, rfl, .array, fs, rfl, rfl, trivial, rfl⟩
  | ⟨.map false :: fs, false⟩, h =>
    cases h
    exact ⟨rfl, rfl, .map false, fs, rfl, rfl, rfl, rfl⟩

/-- What gets through completes what is open; after a tag it starts with an item. -/
theorem completes_of_run (h : run m ts s = .ok ⟨[], false⟩) (hs : s.frames.length ≤ m) :
    (s.tagged = false → Completes m s.frames ts) ∧ (s.tagged = true → Next m s.frames ts) := by
  induction ts generalizing s with
  | nil =>
    cases h
    refine ⟨fun _ => ?_, fun htagged => ?_⟩
    · exact .top [] fun item hitem => absurd hitem List.not_mem_nil
    · cases htagged
  | cons t ts ih =>
    obtain ⟨s', hstep, hrun⟩ := exists_step_of_run h
    have hconsume := (length_consume_le s.frames).trans hs
    -- all tokens but a break start an item
    have hsuffices : Next m s.frames (t :: ts) →
        (s.tagged = false → Completes m s.frames (t :: ts))
          ∧ (s.tagged = true → Next m s.frames (t :: ts)) :=
      fun hnext => ⟨fun _ => hnext.completes, fun _ => hnext⟩
    cases t with
    | atom a =>
      cases hstep
      exact hsuffices ⟨.atom a, ts, by rw [Item.tokens]; rfl, by rw [Item.depth]; omega,
        (ih hrun hconsume).1 rfl⟩
    | tag number =>
      cases hstep
      obtain ⟨item, rest, rfl, hdepth, hrest⟩ := (ih hrun hs).2 rfl
      exact hsuffices ⟨.tag number item, rest, by rw [Item.tokens]; rfl, by rwa [Item.depth], hrest⟩
    | opens kind size =>
      apply hsuffices
      rw [step] at hstep
      by_cases hlimit : m ≤ s.frames.length
      · rw [if_pos hlimit] at hstep
        cases hstep
      rw [if_neg hlimit] at hstep
      have hlt : s.frames.length < m := Nat.not_le.mp hlimit
      cases hopened : Frame.opened kind size with
      | none =>
        rw [hopened] at hstep
        cases hstep
        exact next_of_empty hopened hlt ((ih hrun hconsume).1 rfl)
      | some f =>
        rw [hopened] at hstep
        cases hstep
        exact next_of_opens hopened hlt ((ih hrun hlt).1 rfl)
    | stop =>
      obtain ⟨htagged, htagged', f, fs, hframes, hframes', hfilled, hclosing⟩ :=
        step_stop_eq_ok hstep
      have hlength := length_consume_le fs
      rw [hframes, List.length_cons] at hs
      have hrest := (ih hrun (by rw [hframes']; omega)).1 htagged'
      rw [hframes'] at hrest
      refine ⟨fun _ => ?_, fun h => ?_⟩
      · have hstop := Completes.frame f fs [] ts hfilled
          (fun item hitem => absurd hitem List.not_mem_nil) hrest
        rw [hclosing] at hstop
        rwa [hframes]
      · rw [htagged] at h
        cases h

/-- All that gets through are items within the limit. -/
theorem exists_items_of_run (h : run m ts ⟨[], false⟩ = .ok ⟨[], false⟩) :
    ∃ items, ts = Item.tokensAll items ∧ ∀ item ∈ items, item.depth ≤ m := by
  have hcompletes := (completes_of_run h (Nat.zero_le m)).1 rfl
  cases hcompletes with
  | top items hdepth => exact ⟨items, rfl, hdepth⟩

end Backward

end CborWire
