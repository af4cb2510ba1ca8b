/-
  WritersProof.Anchors.Types

  The errors of the anchor providers (crates/cpoe/src/anchors/types.rs).
-/
import WritersProof.Lib.Vec

namespace WritersProof.Anchors

inductive AnchorError where
  | unavailable (msg : String)
  | configuration (msg : String)
  | submission (msg : String)
  | signing (msg : String)
  | verification (msg : String)
  | notReady
  | expired
  | network (msg : String)
  | invalidFormat (msg : String)
  | hashMismatch
  deriving DecidableEq, Repr

/-- `opt.ok_or_else(..)`, in a function that cannot abort -/
def okOrElse {α : Type} (opt : Option α) (e : AnchorError) : Except AnchorError α :=
  match opt with
  | some a => .ok a
  | none => .error e

@[simp] theorem ok_bind {α β : Type} (a : α) (f : α → Except AnchorError β) :
    (Except.ok a >>= f) = f a := rfl

/-- The value of such a function where others may abort -/
def total {α : Type} (x : Except AnchorError α) : Rust.Res AnchorError α := Rust.mapErr x id

@[simp] theorem total_ne_abort {α : Type} (x : Except AnchorError α) : total x ≠ Rust.abort := by
  cases x with
  | ok a => exact nofun
  | error e => exact nofun

@[simp] theorem total_eq_ok {α : Type} {x : Except AnchorError α} {a : α} :
    total x = .ok a ↔ x = .ok a :=
  Rust.mapErr_eq_ok

end WritersProof.Anchors
