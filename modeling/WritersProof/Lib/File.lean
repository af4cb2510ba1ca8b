/-
  WritersProof.Lib.File

  A file behind one open file description: its content and its cursor.
  `File::try_clone` yields a second handle to the same description, so every
  handle of a clone family is this one value and they all share the cursor.

  `BufferedFile` adds a `BufWriter` over one of the handles.  Nothing keeps the
  cursor where the writer expects it: a flush writes wherever the last seek or
  read of any handle left it.  The lemmas say what a write does when the cursor
  is at the end of the file, which is the only place where it appends.
-/
import WritersProof.Lib.Bytes

structure OpenFile where
  content : Bytes
  cursor : Nat
  deriving DecidableEq

namespace OpenFile

def empty : OpenFile := ⟨[], 0⟩

/-- `metadata().len()` -/
def len (f : OpenFile) : Nat := f.content.length

def AtEnd (f : OpenFile) : Prop := f.cursor = f.content.length

instance (f : OpenFile) : Decidable f.AtEnd := inferInstanceAs (Decidable (_ = _))

/-- `seek(SeekFrom::Start(pos))` -/
def seek (f : OpenFile) (pos : Nat) : OpenFile := { f with cursor := pos }

def seekEnd (f : OpenFile) : OpenFile := { f with cursor := f.content.length }

/-- `set_len(n)`, for an `n` that does not grow the file. -/
def truncateTo (f : OpenFile) (n : Nat) : OpenFile := { f with content := f.content.take n }

/-- `content` with `bs` written over it from `pos` on; a gap is filled with zeros. -/
def overwrite (content : Bytes) (pos : Nat) (bs : Bytes) : Bytes :=
  (content ++ List.replicate (pos - content.length) 0).take pos ++ bs
    ++ content.drop (pos + bs.length)

/-- `write_all(bs)` at the cursor. -/
def write (f : OpenFile) (bs : Bytes) : OpenFile :=
  if bs = [] then f
  else ⟨overwrite f.content f.cursor bs, f.cursor + bs.length⟩

/-- `read_exact` into a buffer of length `n`: `none` is `UnexpectedEof`, after
    the bytes that were left have been consumed. -/
def readExact (f : OpenFile) (n : Nat) : Option Bytes × OpenFile :=
  let got := (f.content.drop f.cursor).take n
  (if got.length = n then some got else none, { f with cursor := f.cursor + got.length })

@[simp] theorem write_nil (f : OpenFile) : f.write [] = f := by
  rw [write, if_pos rfl]

theorem overwrite_end (content bs : Bytes) :
    overwrite content content.length bs = content ++ bs := by
  simp [overwrite]

variable {f : OpenFile}

theorem write_atEnd (h : f.AtEnd) (bs : Bytes) :
    f.write bs = ⟨f.content ++ bs, f.content.length + bs.length⟩ := by
  obtain ⟨content, cursor⟩ := f
  have hcursor : cursor = content.length := h
  subst hcursor
  by_cases hbs : bs = []
  · simp [write, hbs]
  · simp [write, hbs, overwrite_end]

theorem write_atEnd_content {bs : Bytes} (h : bs ≠ [] → f.AtEnd) :
    (f.write bs).content = f.content ++ bs := by
  by_cases hbs : bs = []
  · simp [hbs]
  · rw [write_atEnd (h hbs)]

theorem atEnd_write (h : f.AtEnd) (bs : Bytes) : (f.write bs).AtEnd := by
  rw [write_atEnd h, AtEnd, List.length_append]

/-! ## Reading -/

theorem readExact_append (pre mid post : Bytes) :
    OpenFile.readExact ⟨pre ++ mid ++ post, pre.length⟩ mid.length
      = (some mid, ⟨pre ++ mid ++ post, pre.length + mid.length⟩) := by
  simp [readExact]

def rest (f : OpenFile) : Bytes := f.content.drop f.cursor

def advance (f : OpenFile) (n : Nat) : OpenFile := { f with cursor := f.cursor + n }

theorem advance_advance (f : OpenFile) (m n : Nat) :
    (f.advance m).advance n = f.advance (m + n) := by
  rw [advance, advance, advance, Nat.add_assoc]

theorem rest_advance (f : OpenFile) (n : Nat) : (f.advance n).rest = f.rest.drop n := by
  rw [rest, rest, advance, List.drop_drop]

theorem length_rest_le (f : OpenFile) : f.rest.length ≤ f.len := by
  rw [rest, List.length_drop]
  exact Nat.sub_le _ _

theorem readExact_of_le {n : Nat} (h : n ≤ f.rest.length) :
    f.readExact n = (some (f.rest.take n), f.advance n) := by
  have hlen : ((f.content.drop f.cursor).take n).length = n := by
    rw [List.length_take]
    exact Nat.min_eq_left h
  rw [readExact]
  simp only [hlen, if_true]
  rfl

/-- A read that does not moves to the end of the file. -/
theorem readExact_of_lt {n : Nat} (h : f.rest.length < n) :
    f.readExact n = (none, f.advance f.rest.length) := by
  have hlen : ((f.content.drop f.cursor).take n).length = f.rest.length := by
    rw [List.length_take]
    exact Nat.min_eq_right (Nat.le_of_lt h)
  rw [readExact]
  simp only [hlen, if_neg (Nat.ne_of_lt h)]
  rfl

end OpenFile

/-- A file, and a `BufWriter` over a clone of its handle. -/
structure BufferedFile where
  file : OpenFile
  buf : Bytes
  deriving DecidableEq

namespace BufferedFile

def flush (b : BufferedFile) : BufferedFile := ⟨b.file.write b.buf, []⟩

/-- `BufWriter::write_all` for a writer of the given capacity: the bytes are
    buffered when they fit, after a flush when only that makes them fit, and
    written through when they are as long as the buffer itself. -/
def writeAll (capacity : Nat) (b : BufferedFile) (bs : Bytes) : BufferedFile :=
  if bs.length < capacity - b.buf.length then
    { b with buf := b.buf ++ bs }
  else
    let b := if capacity - b.buf.length < bs.length then b.flush else b
    if capacity ≤ bs.length then { b with file := b.file.write bs }
    else { b with buf := b.buf ++ bs }

/-- A `write_all` of `bs` empties the buffer first. -/
def Overflows (capacity : Nat) (b : BufferedFile) (bs : Bytes) : Prop :=
  capacity - b.buf.length < bs.length

instance (capacity : Nat) (b : BufferedFile) (bs : Bytes) :
    Decidable (b.Overflows capacity bs) := inferInstanceAs (Decidable (_ < _))

/-- The bytes of the file once the buffer is written out at its end. -/
def logical (b : BufferedFile) : Bytes := b.file.content ++ b.buf

@[simp] theorem flush_buf (b : BufferedFile) : b.flush.buf = [] := rfl

variable {b : BufferedFile}

theorem logical_flush (h : b.buf ≠ [] → b.file.AtEnd) : b.flush.logical = b.logical := by
  simp [logical, flush, OpenFile.write_atEnd_content h]

theorem flush_content (h : b.buf ≠ [] → b.file.AtEnd) : b.flush.file.content = b.logical := by
  have hlog := logical_flush h
  rwa [logical, flush_buf, List.append_nil] at hlog

theorem writeAll_short {capacity : Nat} {bs : Bytes} (hcap : bs.length < capacity) :
    b.writeAll capacity bs =
      if b.Overflows capacity bs then ⟨b.flush.file, bs⟩ else ⟨b.file, b.buf ++ bs⟩ := by
  unfold writeAll
  by_cases hover : b.Overflows capacity bs
  · have hlt : capacity - b.buf.length < bs.length := hover
    rw [if_pos hover, if_neg (by omega), if_pos hlt]
    simp only [if_neg (show ¬ capacity ≤ bs.length by omega), flush_buf, List.nil_append]
  · have hle : ¬ capacity - b.buf.length < bs.length := hover
    rw [if_neg hover, if_neg hle]
    simp only [if_neg (show ¬ capacity ≤ bs.length by omega), ite_self]

/-- A short `write_all` extends the logical content, if the buffer is only
    emptied with the cursor at the end. -/
theorem logical_writeAll {capacity : Nat} {bs : Bytes} (hcap : bs.length < capacity)
    (h : b.Overflows capacity bs → b.buf ≠ [] → b.file.AtEnd) :
    (b.writeAll capacity bs).logical = b.logical ++ bs := by
  rw [writeAll_short hcap]
  by_cases hover : b.Overflows capacity bs
  · rw [if_pos hover, logical, flush_content (h hover)]
  · rw [if_neg hover, logical, logical, List.append_assoc]

end BufferedFile
