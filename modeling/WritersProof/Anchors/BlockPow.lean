/-
  WritersProof.Anchors.BlockPow

  The proof of work of a Bitcoin block header (crates/cpoe/src/anchors/ots.rs).

  Targets and hashes are numbers of 256 bits, least significant byte first (`Bytes.ofLE`).
-/
import WritersProof.Lib.Bytes
import Mathlib.Data.Nat.Bitwise

namespace WritersProof.Anchors.BlockPow

open Bytes FixedBytes

abbrev U256 := FixedBytes 32

def bitcoinBlockHeaderSize : Nat := 80

def headerBitsOffset : Nat := 72

abbrev Header := FixedBytes bitcoinBlockHeaderSize

/-! ## The code -/

/-- `(word & 0xFF) as u8` -/
def lowByte (word : UInt32) : UInt8 := (word &&& 0xFF).toUInt8

variable (bits : UInt32)

/-- Convert Bitcoin compact target (nBits) to a 32-byte LE representation. -/
def compactToTarget : U256 :=
  let target : U256 := .filled 32 0
  let size := (bits >>> 24).toNat
  let word := bits &&& 0x007FFFFF
  -- the sign bit
  if bits &&& 0x00800000 ≠ 0 then target
  else if size = 0 ∨ word = 0 then target
  else if 32 < size then target
  else if size ≤ 3 then
    let word := word >>> UInt32.ofNat (8 * (3 - size))
    ((target.set 0 (lowByte word)).set 1 (lowByte (word >>> 8))).set 2 (lowByte (word >>> 16))
  else
    let pos := size - 3
    let target := if pos < 32 then target.set pos (lowByte word) else target
    let target := if pos + 1 < 32 then target.set (pos + 1) (lowByte (word >>> 8)) else target
    if pos + 2 < 32 then target.set (pos + 2) (lowByte (word >>> 16)) else target

/-- The loop of `le_u256_lte`, on the pairs of bytes from the last one down -/
def lteFrom : List (UInt8 × UInt8) → Bool
  | [] => true
  | (x, y) :: rest => if x < y then true else if x > y then false else lteFrom rest

/-- Compare two 32-byte values as LE 256-bit unsigned integers. -/
def leU256Lte (a b : U256) : Bool := lteFrom (a.val.reverse.zip b.val.reverse)

/-- `u32::from_le_bytes` of the four bytes from `HEADER_BITS_OFFSET` on -/
def headerBits (header : Header) : UInt32 :=
  UInt32.ofNat (ofLE ((header.val.drop headerBitsOffset).take 4))

def blockHash (sha256 : Bytes → U256) (header : Header) : U256 := sha256 (sha256 header.val).val

def verifyBlockPow (sha256 : Bytes → U256) (header : Header) : Bool :=
  leU256Lte (blockHash sha256 header) (compactToTarget (headerBits header))

/-! ## Compact bits as numbers -/

def exponent : Nat := bits.toNat / 2 ^ 24

def mantissa : Nat := bits.toNat % 2 ^ 23

/-- Bit 23 is the sign of the mantissa. -/
def Negative : Prop := bits.toNat / 2 ^ 23 % 2 = 1

instance (bits : UInt32) : Decidable (Negative bits) := inferInstanceAs (Decidable (_ = _))

/-- `mantissa * 256 ^ (exponent - 3)`, an integer of 256 bits -/
def encodedTarget : Nat :=
  mantissa bits * 256 ^ exponent bits / 256 ^ 3 % 2 ^ 256

section Bits

variable (bits : UInt32)

theorem toNat_size : (bits >>> 24).toNat = exponent bits := by
  rw [UInt32.toNat_shiftRight, Nat.shiftRight_eq_div_pow]
  rfl

theorem toNat_word : (bits &&& 0x007FFFFF).toNat = mantissa bits := by
  rw [UInt32.toNat_and]
  exact Nat.and_two_pow_sub_one_eq_mod bits.toNat 23

theorem sign_eq_zero_iff : bits &&& 0x00800000 = 0 ↔ ¬ Negative bits := by
  have hand : (bits &&& 0x00800000).toNat = bits.toNat / 2 ^ 23 % 2 * 2 ^ 23 := by
    rw [UInt32.toNat_and]
    show bits.toNat &&& 2 ^ 23 = _
    rw [Nat.and_two_pow, Nat.testBit_eq_decide_div_mod_eq]
    rcases Nat.mod_two_eq_zero_or_one (bits.toNat / 2 ^ 23) with h | h
    · rw [h]
      rfl
    · rw [h]
      rfl
  rw [← UInt32.toNat_inj, hand, UInt32.toNat_zero, Negative]
  omega

theorem toNat_lowByte (word : UInt32) : (lowByte word).toNat = word.toNat % 256 := by
  rw [lowByte, UInt32.toNat_toUInt8, UInt32.toNat_and]
  show (word.toNat &&& 2 ^ 8 - 1) % 2 ^ 8 = _
  rw [Nat.and_two_pow_sub_one_eq_mod, Nat.mod_mod]

/-- The three bytes of a word of 24 bits make up the word. -/
theorem lowBytes_sum {word : UInt32} (h : word.toNat < 2 ^ 24) :
    (lowByte word).toNat + (lowByte (word >>> 8)).toNat * 256
        + (lowByte (word >>> 16)).toNat * 256 ^ 2 = word.toNat := by
  have h8 : (word >>> 8).toNat = word.toNat / 2 ^ 8 := by
    rw [UInt32.toNat_shiftRight, Nat.shiftRight_eq_div_pow]
    rfl
  have h16 : (word >>> 16).toNat = word.toNat / 2 ^ 16 := by
    rw [UInt32.toNat_shiftRight, Nat.shiftRight_eq_div_pow]
    rfl
  rw [toNat_lowByte, toNat_lowByte, toNat_lowByte, h8, h16]
  omega

end Bits

/-! ## The target -/

/-- Three bytes that are written from `pos` on add the word at that place. -/
theorem ofLE_written {word : UInt32} (h : word.toNat < 2 ^ 24) {pos : Nat} (hpos : pos + 2 < 32) :
    ofLE ((((filled 32 0).set pos (lowByte word)).set (pos + 1)
        (lowByte (word >>> 8))).set (pos + 2) (lowByte (word >>> 16))).val
      = word.toNat * 256 ^ pos := by
  have hzero : ∀ i < 32, (filled 32 0).val[i]? = some 0 := fun i hi => by
    rw [filled, List.getElem?_replicate_of_lt hi]
  show ofLE ((((filled 32 0).val.set pos _).set (pos + 1) _).set (pos + 2) _) = _
  rw [ofLE_set, ofLE_set, ofLE_set (hzero pos (by omega))]
  · rw [filled, ofLE_replicate_zero, ← lowBytes_sum h, Nat.pow_add, Nat.pow_add]
    ring
  · rw [List.getElem?_set_ne (by omega)]
    exact hzero _ (by omega)
  · rw [List.getElem?_set_ne (by omega), List.getElem?_set_ne (by omega)]
    exact hzero _ hpos

theorem ofLE_zero : ofLE (filled 32 0).val = 0 := ofLE_replicate_zero 32

variable {bits : UInt32}

/-- Bits that are negative or too large stand for zero. -/
theorem compactToTarget_of_rejected (h : Negative bits ∨ 32 < exponent bits) :
    compactToTarget bits = .filled 32 0 := by
  rw [compactToTarget, toNat_size]
  simp only
  by_cases hneg : Negative bits
  · rw [if_pos (fun hzero => (sign_eq_zero_iff bits).mp hzero hneg)]
  · rw [if_neg (not_not.mpr ((sign_eq_zero_iff bits).mpr hneg)), if_pos (h.resolve_left hneg)]
    exact ite_self _

/-- A mantissa moved up by its exponent stays within 256 bits. -/
theorem encodedTarget_of_large (hlow : 3 ≤ exponent bits) (hhigh : exponent bits ≤ 32) :
    encodedTarget bits = mantissa bits * 256 ^ (exponent bits - 3) := by
  have hsplit : 256 ^ exponent bits = 256 ^ (exponent bits - 3) * 256 ^ 3 := by
    rw [← Nat.pow_add, Nat.sub_add_cancel hlow]
  have hmantissa : mantissa bits < 256 ^ 3 := Nat.lt_trans (Nat.mod_lt _ (by decide)) (by decide)
  have hpow : 256 ^ (exponent bits - 3) ≤ 256 ^ 29 := Nat.pow_le_pow_right (by decide) (by omega)
  have hlt : mantissa bits * 256 ^ (exponent bits - 3) < 2 ^ 256 :=
    calc mantissa bits * 256 ^ (exponent bits - 3)
        ≤ mantissa bits * 256 ^ 29 := Nat.mul_le_mul_left _ hpow
      _ < 256 ^ 3 * 256 ^ 29 := Nat.mul_lt_mul_of_pos_right hmantissa (by decide)
      _ = 2 ^ 256 := by decide
  rw [encodedTarget, hsplit, ← Nat.mul_assoc, Nat.mul_div_cancel _ (by decide),
    Nat.mod_eq_of_lt hlt]

/-- Below exponent 3 the low bytes of the mantissa fall off. -/
theorem encodedTarget_of_small (hlow : exponent bits ≤ 3) :
    encodedTarget bits = mantissa bits / 2 ^ (8 * (3 - exponent bits)) := by
  have hsplit : (256 : Nat) ^ 3 = 256 ^ (3 - exponent bits) * 256 ^ exponent bits := by
    rw [← Nat.pow_add, Nat.sub_add_cancel hlow]
  have hmantissa : mantissa bits < 2 ^ 256 := Nat.lt_trans (Nat.mod_lt _ (by decide)) (by decide)
  rw [encodedTarget, hsplit, Nat.mul_div_mul_right _ _ (Nat.pow_pos (by decide)), Nat.pow_mul,
    Nat.mod_eq_of_lt (Nat.lt_of_le_of_lt (Nat.div_le_self _ _) hmantissa)]

theorem compactToTarget_eq (hneg : ¬ Negative bits) (hexp : exponent bits ≤ 32) :
    ofLE (compactToTarget bits).val = encodedTarget bits := by
  have hword : mantissa bits < 2 ^ 24 := Nat.lt_trans (Nat.mod_lt _ (by decide)) (by decide)
  rw [compactToTarget, toNat_size]
  simp only
  rw [if_neg (not_not.mpr ((sign_eq_zero_iff bits).mpr hneg))]
  by_cases hnone : exponent bits = 0 ∨ bits &&& 0x007FFFFF = 0
  · rw [if_pos hnone, ofLE_zero]
    rcases hnone with hsize | hzero
    · rw [encodedTarget_of_small (by omega), hsize]
      exact (Nat.div_eq_of_lt hword).symm
    · rw [encodedTarget, ← toNat_word, hzero, UInt32.toNat_zero, Nat.zero_mul, Nat.zero_div,
        Nat.zero_mod]
  · rw [if_neg hnone, if_neg (by omega)]
    by_cases hsmall : exponent bits ≤ 3
    · have hshift : (UInt32.ofNat (8 * (3 - exponent bits))).toNat % 32
          = 8 * (3 - exponent bits) := by
        rw [UInt32.toNat_ofNat']
        omega
      have hshifted : ((bits &&& 0x007FFFFF) >>> UInt32.ofNat (8 * (3 - exponent bits))).toNat
          = encodedTarget bits := by
        rw [UInt32.toNat_shiftRight, hshift, toNat_word, Nat.shiftRight_eq_div_pow,
          encodedTarget_of_small hsmall]
      have hlt : encodedTarget bits < 2 ^ 24 := by
        rw [encodedTarget_of_small hsmall]
        exact Nat.lt_of_le_of_lt (Nat.div_le_self _ _) hword
      rw [if_pos hsmall, ofLE_written (hshifted ▸ hlt) (by decide : 0 + 2 < 32), hshifted,
        Nat.pow_zero, Nat.mul_one]
    · rw [if_neg hsmall, if_pos (by omega), if_pos (by omega), if_pos (by omega),
        ofLE_written (toNat_word bits ▸ hword) (by omega), toNat_word,
        encodedTarget_of_large (by omega) hexp]

/-! ## Comparing -/

theorem lteFrom_iff {xs ys : Bytes} (h : xs.length = ys.length) :
    lteFrom (xs.zip ys) = true ↔ ofBE xs ≤ ofBE ys := by
  induction xs generalizing ys with
  | nil => simp [lteFrom, ofBE]
  | cons x xs ih =>
    cases ys with
    | nil => cases h
    | cons y ys =>
      have hlen : xs.length = ys.length := Nat.succ.inj h
      have hxs : ofBE xs < 256 ^ ys.length := hlen ▸ ofBE_lt xs
      have hys : ofBE ys < 256 ^ ys.length := ofBE_lt ys
      rw [List.zip_cons_cons, lteFrom, ofBE, ofBE, hlen]
      -- the first byte that differs decides, since what is below it is less than one of its units
      rcases Nat.lt_trichotomy x.toNat y.toNat with hlt | heq | hgt
      · have hmul := Nat.mul_le_mul_right (256 ^ ys.length) (Nat.succ_le_of_lt hlt)
        rw [Nat.succ_mul] at hmul
        rw [if_pos (UInt8.lt_iff_toNat_lt.mpr hlt)]
        exact iff_of_true rfl (by omega)
      · obtain rfl := UInt8.toNat_inj.mp heq
        rw [if_neg (UInt8.lt_irrefl x), if_neg (UInt8.lt_irrefl x), ih hlen]
        omega
      · have hmul := Nat.mul_le_mul_right (256 ^ ys.length) (Nat.succ_le_of_lt hgt)
        rw [Nat.succ_mul] at hmul
        have hgt' : x > y := UInt8.lt_iff_toNat_lt.mpr hgt
        rw [if_neg (UInt8.lt_asymm hgt'), if_pos hgt']
        exact iff_of_false Bool.false_ne_true (by omega)

theorem leU256Lte_iff (a b : U256) : leU256Lte a b = true ↔ ofLE a.val ≤ ofLE b.val :=
  lteFrom_iff (by simp)

/-! ## Headers -/

/-- **The arithmetic of the difficulty target is exact.**
    Compact bits in range decode to the number that they stand for, the
    comparison is that of the numbers, and so a header is accepted exactly if
    its double hash is at most the target in its bits.  Where these are out of
    range the target is zero. -/
theorem blockPow_exact (sha256 : Bytes → U256) :
    (∀ bits : UInt32, ¬ Negative bits → exponent bits ≤ 32 →
        ofLE (compactToTarget bits).val = encodedTarget bits)
      ∧ (∀ a b : U256, leU256Lte a b = true ↔ ofLE a.val ≤ ofLE b.val)
      ∧ ∀ header : Header, verifyBlockPow sha256 header = true ↔
          ofLE (blockHash sha256 header).val
            ≤ if Negative (headerBits header) ∨ 32 < exponent (headerBits header) then 0
              else encodedTarget (headerBits header) := by
  refine ⟨fun bits hneg hexp => compactToTarget_eq hneg hexp, leU256Lte_iff, fun header => ?_⟩
  rw [verifyBlockPow, leU256Lte_iff]
  split
  next hrejected => rw [compactToTarget_of_rejected hrejected, ofLE_zero]
  next haccepted =>
    rw [not_or] at haccepted
    rw [compactToTarget_eq haccepted.1 (Nat.le_of_not_lt haccepted.2)]

/-- A header with the bits of the first block. -/
def firstHeader : Header :=
  ⟨List.replicate 72 0 ++ [0xff, 0xff, 0, 0x1d] ++ List.replicate 4 0, by decide⟩

/-- Their target, a hash below it and one above. -/
theorem blockPow_exact_first : ofLE (compactToTarget 0x1d00ffff).val = 0xffff * 256 ^ 26
    ∧ verifyBlockPow (fun _ => filled 32 0) firstHeader = true
    ∧ ¬ verifyBlockPow (fun _ => filled 32 1) firstHeader = true :=
  ⟨((blockPow_exact fun _ => default).1 0x1d00ffff (by decide) (by decide)).trans (by decide),
    ((blockPow_exact _).2.2 firstHeader).mpr (by decide +kernel),
    fun h => absurd (((blockPow_exact _).2.2 firstHeader).mp h) (by decide +kernel)⟩

end WritersProof.Anchors.BlockPow
