/-
  The I/O calls of the log.

  `Clear n` says that the next `n` calls succeed, and `tick n` is the disk `n`
  calls later.  A disk without I/O errors (`Quiet`) is clear for every `n` and does
  not change with `tick`; there each call is one change of the file behind the
  handle.  A call that meets an error of its own leaves the file, unless it is a
  read or a write.
-/
import WritersProof.Wal.Operations

namespace WritersProof.Wal

set_option linter.dupNamespace false

open Rust

namespace Disk

variable {α : Type} {d : Disk}

/-- The next `n` I/O calls succeed. -/
def Clear (n : Nat) (d : Disk) : Prop := ∀ f ∈ d.faults.take n, f = none

instance (n : Nat) (d : Disk) : Decidable (d.Clear n) :=
  inferInstanceAs (Decidable (∀ f ∈ d.faults.take n, f = none))

/-- `n` I/O calls later. -/
def tick (n : Nat) (d : Disk) : Disk := { d with faults := d.faults.drop n }

/-- No I/O call will fail. -/
def Quiet (d : Disk) : Prop := d.faults = []

instance (d : Disk) : Decidable d.Quiet := inferInstanceAs (Decidable (_ = _))

def setFile (d : Disk) (file : OpenFile) : Disk := { d with file }

@[simp] theorem setFile_file (d : Disk) (f : OpenFile) : (d.setFile f).file = f := rfl

@[simp] theorem setFile_setFile (d : Disk) (f g : OpenFile) :
    (d.setFile f).setFile g = d.setFile g := rfl

@[simp] theorem tick_file (d : Disk) (n : Nat) : (d.tick n).file = d.file := rfl

@[simp] theorem tick_setFile (d : Disk) (f : OpenFile) (n : Nat) :
    (d.setFile f).tick n = (d.tick n).setFile f := rfl

@[simp] theorem tick_tick (d : Disk) (m n : Nat) : (d.tick m).tick n = d.tick (m + n) := by
  rw [tick, tick, tick, List.drop_drop]

@[simp] theorem clear_zero (d : Disk) : d.Clear 0 := by
  simp [Clear]

theorem clear_add (d : Disk) (m n : Nat) : d.Clear (m + n) ↔ d.Clear m ∧ (d.tick m).Clear n := by
  unfold Clear tick
  rw [List.take_add]
  exact List.forall_mem_append

theorem Quiet.clear (hq : d.Quiet) (n : Nat) : d.Clear n := by
  unfold Clear
  rw [show d.faults = [] from hq, List.take_nil]
  exact fun f hf => (List.not_mem_nil hf).elim

theorem Quiet.tick_eq (hq : d.Quiet) (n : Nat) : d.tick n = d := by
  obtain ⟨file, wal, walNew, archives, faults⟩ := d
  rw [tick, show faults = [] from hq, List.drop_nil]

/-! ## One call -/

theorem io_clear (h : d.Clear 1) (onFail : Nat → Disk → Disk) (x : Call Disk IoError α) :
    io onFail x d = x (d.tick 1) := by
  obtain ⟨file, wal, walNew, archives, faults⟩ := d
  cases faults with
  | nil => rfl
  | cons f faults =>
    have hf : f = none := h f List.mem_cons_self
    subst hf
    rfl

theorem io_fault (h : ¬ d.Clear 1) (onFail : Nat → Disk → Disk) (x : Call Disk IoError α) :
    ∃ k, io onFail x d = (fail .other, onFail k (d.tick 1)) := by
  obtain ⟨file, wal, walNew, archives, faults⟩ := d
  cases faults with
  | nil => exact absurd (fun f hf => (List.not_mem_nil hf).elim) h
  | cons f faults =>
    cases f with
    | none => exact absurd (by simp [Clear]) h
    | some k => exact ⟨k, rfl⟩

theorem io_quiet (hq : d.Quiet) (onFail : Nat → Disk → Disk) (x : Call Disk IoError α) :
    io onFail x d = x d := by
  rw [io_clear (hq.clear 1), hq.tick_eq]

theorem atomic_quiet (hq : d.Quiet) (x : Call Disk IoError α) : atomic x d = x d := io_quiet hq _ x

variable {n : Nat} {x : Call Disk IoError α} {d' : Disk}

theorem orErr_of_ok {a : α} (h : x d = (.ok a, d')) : orErr x d = (.ok a, d') := by
  rw [orErr, h]

theorem orErr_of_err {e : IoError} (h : x d = (.error (.err e), d')) :
    orErr x d = (.error (.err (.io e)), d') := by
  rw [orErr, h]
  rfl

theorem access_quiet (hq : d.Quiet) : access d = (.ok (), d) := atomic_quiet hq _

theorem seek_quiet (hq : d.Quiet) (pos : Nat) :
    seek pos d = (.ok (), d.setFile (d.file.seek pos)) := atomic_quiet hq _

theorem fileLen_quiet (hq : d.Quiet) : fileLen d = (.ok d.file.len, d) := atomic_quiet hq _

theorem setLen_quiet (hq : d.Quiet) (n : Nat) :
    setLen n d = (.ok (), d.setFile (d.file.truncateTo n)) := atomic_quiet hq _

theorem writeAll_quiet (hq : d.Quiet) (bytes : Bytes) :
    writeAll bytes d = (.ok (), d.setFile (d.file.write bytes)) := io_quiet hq _ _

/-! ## Reading -/

/-- The I/O calls of a `read_exact`: none into an empty buffer. -/
def readCalls (n : Nat) : Nat := if n = 0 then 0 else 1

theorem readExact_of_le (h : d.Clear (readCalls n)) (hle : n ≤ d.file.rest.length) :
    readExact n d
      = (.ok (d.file.rest.take n), (d.tick (readCalls n)).setFile (d.file.advance n)) := by
  rw [readExact]
  by_cases hn : n = 0
  · subst hn
    rfl
  · rw [readCalls, if_neg hn] at h
    rw [if_neg hn, readCalls, if_neg hn, io_clear h, readFile, tick_file,
      OpenFile.readExact_of_le hle]
    rfl

theorem readExact_of_lt (h : d.Clear 1) (hlt : d.file.rest.length < n) :
    readExact n d
      = (fail .unexpectedEof, (d.tick 1).setFile (d.file.advance d.file.rest.length)) := by
  rw [readExact, if_neg (by omega), io_clear h, readFile, tick_file, OpenFile.readExact_of_lt hlt]
  rfl

theorem readExact_fault (h : ¬ d.Clear (readCalls n)) :
    ∃ d' : Disk, readExact n d = (fail .other, d') ∧ d'.file.content = d.file.content := by
  rw [readCalls] at h
  by_cases hn : n = 0
  · rw [if_pos hn] at h
    exact absurd (clear_zero d) h
  · rw [if_neg hn] at h
    rw [readExact, if_neg hn]
    obtain ⟨k, hk⟩ := io_fault h (fun k d => { d with file := (d.file.readExact (min k n)).2 })
      (readFile n)
    exact ⟨_, hk, rfl⟩

end Disk

namespace Wal

variable {Key : Type} {α : Type} {w : Wal Key}

/-- The log with another content or cursor of its file. -/
def setFile (w : Wal Key) (file : OpenFile) : Wal Key := { w with disk := w.disk.setFile file }

@[simp] theorem setFile_setFile (w : Wal Key) (f g : OpenFile) :
    (w.setFile f).setFile g = w.setFile g := rfl

variable {d : Disk} {x : Call Disk IoError α}

theorem onDisk_of_eq {x : Call Disk WalError α} {r : Res WalError α} (h : x w.disk = (r, d)) :
    onDisk x w = (r, { w with disk := d }) := by
  rw [onDisk, Call.zoom, h]

theorem io_of_ok {a : α} (h : x w.disk = (.ok a, d)) :
    io x w = (.ok a, { w with disk := d }) := onDisk_of_eq (Disk.orErr_of_ok h)

theorem io_of_err {e : IoError} (h : x w.disk = (.error (.err e), d)) :
    io x w = (.error (.err (.io e)), { w with disk := d }) := onDisk_of_eq (Disk.orErr_of_err h)

variable (hq : w.disk.Quiet)

include hq

theorem io_access : io Disk.access w = (.ok (), w) :=
  io_of_ok (Disk.access_quiet hq)

theorem io_seek (pos : Nat) :
    io (Disk.seek pos) w = (.ok (), w.setFile (w.disk.file.seek pos)) :=
  io_of_ok (Disk.seek_quiet hq pos)

theorem io_fileLen : io Disk.fileLen w = (.ok w.disk.file.len, w) :=
  io_of_ok (Disk.fileLen_quiet hq)

theorem io_setLen (n : Nat) :
    io (Disk.setLen n) w = (.ok (), w.setFile (w.disk.file.truncateTo n)) :=
  io_of_ok (Disk.setLen_quiet hq n)

theorem io_writeAll (bytes : Bytes) :
    io (Disk.writeAll bytes) w = (.ok (), w.setFile (w.disk.file.write bytes)) :=
  io_of_ok (Disk.writeAll_quiet hq bytes)

end Wal

/-! ## Calls that may fail -/

namespace Disk

variable {α : Type} {d d' : Disk} {x : Call Disk IoError α} {a : α}

theorem io_eq_ok {onFail : Nat → Disk → Disk} :
    io onFail x d = (.ok a, d') ↔ d.Clear 1 ∧ x (d.tick 1) = (.ok a, d') := by
  by_cases h : d.Clear 1
  · rw [io_clear h]
    exact ⟨fun hx => ⟨h, hx⟩, fun hx => hx.2⟩
  · obtain ⟨k, hk⟩ := io_fault h onFail x
    rw [hk]
    exact ⟨nofun, fun hx => absurd hx.1 h⟩

theorem atomic_clear (h : d.Clear 1) (x : Call Disk IoError α) :
    atomic x d = x (d.tick 1) := io_clear h _ _

theorem atomic_eq_ok : atomic x d = (.ok a, d') ↔ d.Clear 1 ∧ x (d.tick 1) = (.ok a, d') := io_eq_ok

theorem atomic_fault (h : ¬ d.Clear 1) (x : Call Disk IoError α) :
    atomic x d = (fail .other, d.tick 1) := by
  obtain ⟨k, hk⟩ := io_fault h (fun _ d => d) x
  exact hk

end Disk

namespace Wal

variable {Key : Type} {α : Type} {w w' : Wal Key}

/-- `n` I/O calls later. -/
def tick (n : Nat) (w : Wal Key) : Wal Key := { w with disk := w.disk.tick n }

@[simp] theorem tick_tick (m n : Nat) : (w.tick m).tick n = w.tick (m + n) := by
  rw [tick, tick, tick, ← Disk.tick_tick]

variable {n : Nat} {x : Call Disk IoError α} {a : α}

theorem io_eq_ok :
    io x w = (.ok a, w') ↔ ∃ d, x w.disk = (.ok a, d) ∧ w' = { w with disk := d } := by
  rw [io, onDisk, Call.zoom]
  rcases hx : x w.disk with ⟨(e | _) | b, d⟩
  · rw [Disk.orErr, hx]
    exact ⟨nofun, fun ⟨_, h, _⟩ => by cases h⟩
  · rw [Disk.orErr, hx]
    exact ⟨nofun, fun ⟨_, h, _⟩ => by cases h⟩
  · rw [Disk.orErr, hx]
    constructor
    · intro h
      cases h
      exact ⟨d, rfl, rfl⟩
    · rintro ⟨_, h, rfl⟩
      cases h
      rfl

theorem io_atomic_fault (h : ¬ w.disk.Clear 1) (x : Call Disk IoError α) :
    io (Disk.atomic x) w = (fail (.io .other), w.tick 1) := io_of_err (Disk.atomic_fault h x)

theorem io_access_fault (h : ¬ w.disk.Clear 1) :
    io Disk.access w = (fail (.io .other), w.tick 1) := io_atomic_fault h _

theorem io_access_clear (h : w.disk.Clear 1) : io Disk.access w = (.ok (), w.tick 1) :=
  io_of_ok (Disk.atomic_clear h _)

theorem io_seek_fault (h : ¬ w.disk.Clear 1) (pos : Nat) :
    io (Disk.seek pos) w = (fail (.io .other), w.tick 1) := io_atomic_fault h _

theorem io_seek_clear (h : w.disk.Clear 1) (pos : Nat) :
    io (Disk.seek pos) w = (.ok (), (w.tick 1).setFile (w.disk.file.seek pos)) :=
  io_of_ok (Disk.atomic_clear h _)

theorem io_setLen_fault (h : ¬ w.disk.Clear 1) (n : Nat) :
    io (Disk.setLen n) w = (fail (.io .other), w.tick 1) := io_atomic_fault h _

theorem io_setLen_clear (h : w.disk.Clear 1) (n : Nat) :
    io (Disk.setLen n) w = (.ok (), (w.tick 1).setFile (w.disk.file.truncateTo n)) :=
  io_of_ok (Disk.atomic_clear h _)

theorem io_fileLen_fault (h : ¬ w.disk.Clear 1) :
    io Disk.fileLen w = (fail (.io .other), w.tick 1) := io_atomic_fault h _

theorem io_fileLen_clear (h : w.disk.Clear 1) :
    io Disk.fileLen w = (.ok w.disk.file.len, w.tick 1) := io_of_ok (Disk.atomic_clear h _)

theorem clear_of_ok (h : io (Disk.atomic x) w = (.ok a, w')) : w.disk.Clear 1 := by
  by_contra hfault
  rw [io_atomic_fault hfault] at h
  cases h

theorem io_access_eq_ok {a : Unit} (h : io Disk.access w = (.ok a, w')) :
    w.disk.Clear 1 ∧ w' = w.tick 1 := by
  have hclear := clear_of_ok h
  rw [io_access_clear hclear] at h
  exact ⟨hclear, (Prod.mk.inj h).2.symm⟩

theorem io_seek_eq_ok {pos : Nat} {a : Unit} (h : io (Disk.seek pos) w = (.ok a, w')) :
    w.disk.Clear 1 ∧ w' = (w.tick 1).setFile (w.disk.file.seek pos) := by
  have hclear := clear_of_ok h
  rw [io_seek_clear hclear] at h
  exact ⟨hclear, (Prod.mk.inj h).2.symm⟩

theorem io_readExact_clear (h : w.disk.Clear 1) (hpos : 0 < n) (hle : n ≤ w.disk.file.rest.length) :
    io (Disk.readExact n) w
      = (.ok (w.disk.file.rest.take n), (w.tick 1).setFile (w.disk.file.advance n)) := by
  have hcalls : Disk.readCalls n = 1 := if_neg (Nat.ne_of_gt hpos)
  have hread := Disk.readExact_of_le (d := w.disk) (by rw [hcalls]; exact h) hle
  rw [hcalls] at hread
  exact io_of_ok hread

theorem io_readExact_eq_ok (hpos : 0 < n) {bytes : Bytes}
    (h : io (Disk.readExact n) w = (.ok bytes, w')) :
    w.disk.Clear 1 ∧ bytes = w.disk.file.rest.take n
      ∧ w' = (w.tick 1).setFile (w.disk.file.advance n) := by
  have hcalls : Disk.readCalls n = 1 := if_neg (Nat.ne_of_gt hpos)
  by_cases hclear : w.disk.Clear 1
  · by_cases hle : n ≤ w.disk.file.rest.length
    · rw [io_readExact_clear hclear hpos hle] at h
      obtain ⟨hbytes, rfl⟩ := Prod.mk.inj h
      exact ⟨hclear, (Except.ok.inj hbytes).symm, rfl⟩
    · rw [io_of_err (Disk.readExact_of_lt hclear (Nat.lt_of_not_le hle))] at h
      cases h
  · obtain ⟨d, hread, -⟩ := Disk.readExact_fault (d := w.disk) (n := n)
      (by rw [hcalls]; exact hclear)
    rw [io_of_err hread] at h
    cases h

end Wal

end WritersProof.Wal
