/-
  WritersProof.Evidence.EntangledHash

  What the hash of a hardware co-signature binds
  (`compute_hw_entangled_hash`, crates/cpoe/src/evidence/types.rs).

  Software binding and public key have their lengths in front of them, as `u32`, but the
  document hash before the one and the device id before the other end where such a length
  is taken to begin.  The hash binds its inputs as far as no other four bytes of the
  stream can be taken for one (`entangled_binds_iff`).
-/
import WritersProof.Evidence.Signing
import WritersProof.Lib.Text

namespace WritersProof.Evidence

open Rust Bytes
open Checkpoint (Digest)

/-- The arguments of `compute_hw_entangled_hash` -/
structure EntangledInputs where
  docHash : Bytes
  swBinding : Bytes
  tpmClockMs : UInt64
  monotonicCounter : UInt64
  deviceId : String
  publicKey : Bytes
  prevHwSignature : Bytes
  deriving DecidableEq

namespace EntangledInputs

def hash (C : Crates) (x : EntangledInputs) : Digest :=
  computeHwEntangledHash C x.docHash x.swBinding x.tpmClockMs.toNat x.monotonicCounter.toNat
    x.deviceId x.publicKey x.prevHwSignature

/-- What is hashed behind the domain separator -/
def stream (x : EntangledInputs) : Bytes :=
  x.docHash ++ (toBE 4 x.swBinding.length ++ (x.swBinding
    ++ (toBE 8 x.tpmClockMs.toNat ++ (toBE 8 x.monotonicCounter.toNat
      ++ (utf8 x.deviceId ++ (toBE 4 x.publicKey.length
        ++ (x.publicKey ++ x.prevHwSignature)))))))

def hashed (x : EntangledInputs) : Bytes := utf8 "cpoe-hw-cosign-v1" ++ x.stream

theorem hash_eq (C : Crates) (x : EntangledInputs) : x.hash C = C.sha256 x.hashed := by
  unfold hash computeHwEntangledHash hwEntangledInput hashed stream
  simp only [List.append_assoc]

/-- The lengths of the inputs that the stream has to be cut at. -/
structure Lengths where
  docHash : Nat
  swBinding : Nat
  deviceId : Nat
  publicKey : Nat

def lengths (x : EntangledInputs) : Lengths where
  docHash := x.docHash.length
  swBinding := x.swBinding.length
  deviceId := (utf8 x.deviceId).length
  publicKey := x.publicKey.length

end EntangledInputs

open EntangledInputs (Lengths)

namespace EntangledInputs.Lengths

def deviceAt (n : Lengths) : Nat := n.docHash + 4 + n.swBinding + 16

def keyAt (n : Lengths) : Nat := n.deviceAt + n.deviceId

/-- Bytes can be cut at these lengths: the two that are written down stand where they should, and
    the device id is a text. -/
structure Cuts (n : Lengths) (bytes : Bytes) : Prop where
  fits : n.keyAt + 4 + n.publicKey ≤ bytes.length
  swBinding : (bytes.drop n.docHash).take 4 = toBE 4 n.swBinding
  deviceId : ∃ text, (bytes.drop n.deviceAt).take n.deviceId = utf8 text
  publicKey : (bytes.drop n.keyAt).take 4 = toBE 4 n.publicKey

end EntangledInputs.Lengths

namespace EntangledInputs

variable {x y : EntangledInputs} {n : Lengths} {bytes : Bytes}

theorem drop_docHash (x : EntangledInputs) : x.stream.drop x.lengths.docHash
    = toBE 4 x.swBinding.length ++ (x.swBinding
      ++ (toBE 8 x.tpmClockMs.toNat ++ (toBE 8 x.monotonicCounter.toNat
        ++ (utf8 x.deviceId ++ (toBE 4 x.publicKey.length
          ++ (x.publicKey ++ x.prevHwSignature)))))) :=
  List.drop_left' rfl

theorem drop_deviceAt (x : EntangledInputs) : x.stream.drop x.lengths.deviceAt
    = utf8 x.deviceId ++ (toBE 4 x.publicKey.length
      ++ (x.publicKey ++ x.prevHwSignature)) := by
  have hat : x.lengths.deviceAt = x.lengths.docHash + (4 + (x.swBinding.length + (8 + 8))) := by
    show x.docHash.length + 4 + x.swBinding.length + 16 = x.docHash.length + _
    omega
  rw [hat, ← List.drop_drop, drop_docHash, ← List.drop_drop,
    List.drop_left' (length_toBE _ _), ← List.drop_drop, List.drop_left' rfl,
    ← List.drop_drop, List.drop_left' (length_toBE _ _),
    List.drop_left' (length_toBE _ _)]

theorem drop_keyAt (x : EntangledInputs) : x.stream.drop x.lengths.keyAt
    = toBE 4 x.publicKey.length ++ (x.publicKey ++ x.prevHwSignature) := by
  rw [Lengths.keyAt, ← List.drop_drop, drop_deviceAt]
  exact List.drop_left' rfl

theorem cuts_lengths (x : EntangledInputs) : x.lengths.Cuts x.stream where
  fits := by
    have hlen := congrArg List.length (drop_keyAt x)
    rw [List.length_drop, List.length_append, List.length_append, length_toBE] at hlen
    show x.lengths.keyAt + 4 + x.publicKey.length ≤ _
    omega
  swBinding := by
    rw [drop_docHash, List.take_left' (length_toBE _ _)]
    rfl
  deviceId := by
    rw [drop_deviceAt]
    exact ⟨x.deviceId, List.take_left' rfl⟩
  publicKey := by
    rw [drop_keyAt, List.take_left' (length_toBE _ _)]
    rfl

/-- Eight bytes as a `u64` -/
theorem toBE_toNat_ofBE {word : Bytes} (h : word.length = 8) :
    toBE 8 (UInt64.ofNat (ofBE word)).toNat = word := by
  have hlt := ofBE_lt word
  rw [h] at hlt
  rw [UInt64.toNat_ofNat_of_lt' (by exact hlt), ← h, toBE_ofBE]

theorem exists_of_cuts (h : n.Cuts bytes) :
    ∃ x : EntangledInputs, x.stream = bytes ∧ x.lengths = n := by
  obtain ⟨hfits, hbinding, ⟨text, htext⟩, hkey⟩ := h
  unfold Lengths.keyAt Lengths.deviceAt at hfits hkey
  unfold Lengths.deviceAt at htext
  -- the parts, one after the other
  have hcut : ∀ at_ len, at_ + len ≤ bytes.length → ((bytes.drop at_).take len).length = len := by
    intro at_ len hle
    rw [List.length_take, List.length_drop]
    omega
  have hsplit : ∀ at_ len,
      bytes.drop at_ = (bytes.drop at_).take len ++ bytes.drop (at_ + len) := by
    intro at_ len
    rw [← List.drop_drop, List.take_append_drop]
  let x : EntangledInputs :=
    { docHash := bytes.take n.docHash
      swBinding := (bytes.drop (n.docHash + 4)).take n.swBinding
      tpmClockMs := UInt64.ofNat (ofBE ((bytes.drop (n.docHash + 4 + n.swBinding)).take 8))
      monotonicCounter := UInt64.ofNat
        (ofBE ((bytes.drop (n.docHash + 4 + n.swBinding + 8)).take 8))
      deviceId := text
      publicKey := (bytes.drop (n.docHash + 4 + n.swBinding + 16 + n.deviceId + 4)).take n.publicKey
      prevHwSignature :=
        bytes.drop (n.docHash + 4 + n.swBinding + 16 + n.deviceId + 4 + n.publicKey) }
  have hdoc : x.docHash.length = n.docHash := by
    show (bytes.take n.docHash).length = _
    rw [List.length_take]
    omega
  have hsw : x.swBinding.length = n.swBinding := hcut _ _ (by omega)
  have hdevice : (utf8 x.deviceId).length = n.deviceId := by
    show (utf8 text).length = _
    rw [← htext]
    exact hcut _ _ (by omega)
  have hpublic : x.publicKey.length = n.publicKey := hcut _ _ (by omega)
  refine ⟨x, ?_, ?_⟩
  · unfold stream
    rw [hsw, hpublic, ← hbinding, ← hkey, toBE_toNat_ofBE (hcut _ 8 (by omega)),
      toBE_toNat_ofBE (hcut _ 8 (by omega))]
    show bytes.take n.docHash ++ _ = bytes
    rw [← htext, ← hsplit, ← hsplit, ← hsplit, ← hsplit, ← hsplit, ← hsplit, ← hsplit,
      List.take_append_drop]
  · unfold lengths
    rw [hdoc, hsw, hdevice, hpublic]

theorem eq_of_stream (h : x.stream = y.stream) (hlengths : x.lengths = y.lengths) : x = y := by
  obtain ⟨hdoc, hsw, hdevice, hkey⟩ := Lengths.mk.inj hlengths
  unfold stream at h
  obtain ⟨h1, h⟩ := List.append_inj h hdoc
  obtain ⟨-, h⟩ := List.append_inj h (by simp)
  obtain ⟨h2, h⟩ := List.append_inj h hsw
  obtain ⟨h3, h⟩ := List.append_inj h (by simp)
  obtain ⟨h4, h⟩ := List.append_inj h (by simp)
  obtain ⟨h5, h⟩ := List.append_inj h hdevice
  obtain ⟨-, h⟩ := List.append_inj h (by simp)
  obtain ⟨h6, h7⟩ := List.append_inj h hkey
  have hclock := UInt64.toNat_inj.mp
    (toBE_injective x.tpmClockMs.toNat_lt y.tpmClockMs.toNat_lt h3)
  have hcounter := UInt64.toNat_inj.mp
    (toBE_injective x.monotonicCounter.toNat_lt y.monotonicCounter.toNat_lt h4)
  have hid := utf8_injective h5
  cases x
  cases y
  simp only [mk.injEq]
  exact ⟨h1, h2, hclock, hcounter, hid, h6, h7⟩

/-- Inputs are bound by their hash, where nothing collides, exactly if their stream cannot be cut
    in another way. -/
theorem entangled_binds_iff (C : Crates) (x : EntangledInputs) :
    (∀ y : EntangledInputs, (C.sha256 x.hashed = C.sha256 y.hashed → x.hashed = y.hashed) →
        x.hash C = y.hash C → x = y)
      ↔ ∀ n : Lengths, n.Cuts x.stream → n = x.lengths := by
  constructor
  · intro h n hcuts
    obtain ⟨y, hstream, hlengths⟩ := exists_of_cuts hcuts
    have hhashed : x.hashed = y.hashed := by rw [hashed, hashed, hstream]
    have heq := h y (fun _ => hhashed) (by rw [hash_eq, hash_eq, hhashed])
    rw [← hlengths, heq]
  · intro h y hfree hhash
    rw [hash_eq, hash_eq] at hhash
    have hstream := List.append_cancel_left (hfree hhash)
    exact eq_of_stream hstream (h _ (hstream ▸ cuts_lengths y)).symm

/-! ## Zeros at the end of a device id -/

def namedDevice : EntangledInputs where
  docHash := utf8 "00ff"
  swBinding := [1]
  tpmClockMs := 5
  monotonicCounter := 5
  deviceId := "tpm"
  publicKey := []
  prevHwSignature := [0, 0, 0, 0]

/-- The same bytes, with the signature before in the name -/
def renamedDevice : EntangledInputs :=
  { namedDevice with deviceId := "tpm\x00\x00\x00\x00", prevHwSignature := [] }

/-- The zeros of the signature stand at the end of the other name. -/
theorem entangled_not_binds : namedDevice.hash sumCrates = renamedDevice.hash sumCrates
    ∧ namedDevice.hashed = renamedDevice.hashed ∧ namedDevice ≠ renamedDevice := by
  have hhashed : namedDevice.hashed = renamedDevice.hashed := by decide
  refine ⟨?_, hhashed, by decide⟩
  rw [hash_eq, hash_eq, hhashed]

end EntangledInputs

end WritersProof.Evidence
