/-
  WritersProof.Lib.Codec

  Texts that read back: the values of a countable type can be written as bytes such
  that each is read as what it was.  They stand for the encodings of derived
  serializers where nothing depends on the bytes.
-/
import WritersProof.Lib.Bytes
import Mathlib.Data.Countable.Basic
import Mathlib.Logic.Equiv.List

namespace Rust.Codec

instance countableUInt8 : Countable UInt8 :=
  Function.Injective.countable (f := UInt8.toNat) fun _ _ => UInt8.toNat_inj.mp

instance {n : Nat} : Countable (FixedBytes n) :=
  Function.Injective.countable (f := FixedBytes.val) fun _ _ => FixedBytes.ext_val

instance countableString : Countable String :=
  Function.Injective.countable (f := Bytes.utf8) fun _ _ => Bytes.utf8_injective

variable {α : Type} [Countable α]

/-- Each value as so many zeros -/
noncomputable def write (a : α) : Bytes :=
  List.replicate ((Encodable.ofCountable α).encode a) 0

theorem write_injective : Function.Injective (write : α → Bytes) := by
  intro a b h
  have hlen := congrArg List.length h
  rw [write, write, List.length_replicate, List.length_replicate] at hlen
  exact (Encodable.ofCountable α).encode_injective hlen

open Classical in
noncomputable def read (bytes : Bytes) : Except String α :=
  if h : ∃ a : α, write a = bytes then .ok h.choose else .error "unexpected bytes"

theorem read_write (a : α) : read (write a) = .ok a := by
  have h : ∃ b : α, write b = write a := ⟨a, rfl⟩
  rw [read, dif_pos h]
  exact congrArg Except.ok (write_injective h.choose_spec)

end Rust.Codec
