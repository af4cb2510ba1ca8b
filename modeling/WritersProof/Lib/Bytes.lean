/-
  WritersProof.Lib.Bytes

  Byte strings, byte strings of a fixed length, and the big-endian codec of
  unsigned integers.

  The two codec directions cancel (`ofBE_toBE`, `toBE_ofBE`), so an encoding
  built from them is read back field by field with the `take`/`drop` lemmas of
  the last section.
-/
import WritersProof.Lib.Rust
import Mathlib.Data.List.Basic
import Mathlib.Data.UInt
import Mathlib.Tactic.Ring

abbrev Bytes := List UInt8

instance Bytes.lawfulBEq : LawfulBEq Bytes := inferInstance

/-- A byte string of length `n`, such as `[u8; 32]`. -/
structure FixedBytes (n : Nat) where
  val : Bytes
  size_eq : val.length = n
  deriving DecidableEq

namespace FixedBytes

variable {n : Nat}

@[simp] theorem length_val (b : FixedBytes n) : b.val.length = n := b.size_eq

theorem ext_val {a b : FixedBytes n} (h : a.val = b.val) : a = b := by
  cases a
  cases b
  cases h
  rfl

def filled (n : Nat) (byte : UInt8) : FixedBytes n :=
  ⟨List.replicate n byte, List.length_replicate⟩

instance : Inhabited (FixedBytes n) := ⟨filled n 0⟩

def tryFrom (n : Nat) (bytes : Bytes) : Option (FixedBytes n) :=
  if h : bytes.length = n then some ⟨bytes, h⟩ else none

@[simp] theorem tryFrom_val (b : FixedBytes n) : tryFrom n b.val = some b := by
  rw [tryFrom, dif_pos b.size_eq]

/-- `b[i] = byte` -/
def set (b : FixedBytes n) (i : Nat) (byte : UInt8) : FixedBytes n :=
  ⟨b.val.set i byte, List.length_set.trans b.size_eq⟩

theorem tryFrom_eq_some {bytes : Bytes} {b : FixedBytes n} :
    tryFrom n bytes = some b ↔ bytes = b.val := by
  constructor
  · intro h
    unfold tryFrom at h
    split at h
    · cases h
      rfl
    · cases h
  · rintro rfl
    exact tryFrom_val b

end FixedBytes

namespace Bytes

/-! ## Big-endian integers -/

/-- The `w` low bytes of `n`, most significant first. -/
def toBE : Nat → Nat → Bytes
  | 0, _ => []
  | w + 1, n => UInt8.ofNat (n / 256 ^ w) :: toBE w n

/-- The number a big-endian byte string denotes. -/
def ofBE : Bytes → Nat
  | [] => 0
  | b :: rest => b.toNat * 256 ^ rest.length + ofBE rest

@[simp] theorem length_toBE (w n : Nat) : (toBE w n).length = w := by
  induction w with
  | zero => rfl
  | succ w ih => simp [toBE, ih]

/-- `toBE` as a byte string of its length -/
def ofNat (w n : Nat) : FixedBytes w := ⟨toBE w n, length_toBE w n⟩

theorem ofBE_lt (bs : Bytes) : ofBE bs < 256 ^ bs.length := by
  induction bs with
  | nil => simp [ofBE]
  | cons b rest ih =>
    have hb : b.toNat < 256 := b.toNat_lt
    have hmul : (b.toNat + 1) * 256 ^ rest.length ≤ 256 * 256 ^ rest.length :=
      Nat.mul_le_mul_right _ hb
    simp only [ofBE, List.length_cons, Nat.pow_succ]
    rw [Nat.add_mul, Nat.one_mul] at hmul
    omega

theorem ofBE_append (xs ys : Bytes) : ofBE (xs ++ ys) = ofBE xs * 256 ^ ys.length + ofBE ys := by
  induction xs with
  | nil => rw [List.nil_append, ofBE, Nat.zero_mul, Nat.zero_add]
  | cons x xs ih =>
    rw [List.cons_append, ofBE, ofBE, ih, List.length_append, Nat.pow_add]
    ring

theorem ofBE_take_lt (bs : Bytes) (w : Nat) : ofBE (bs.take w) < 256 ^ w := by
  refine Nat.lt_of_lt_of_le (ofBE_lt _) (Nat.pow_le_pow_right (by decide) ?_)
  rw [List.length_take]
  exact Nat.min_le_left _ _

/-- Decoding an encoding keeps the `w` low bytes. -/
theorem ofBE_toBE (w n : Nat) : ofBE (toBE w n) = n % 256 ^ w := by
  induction w with
  | zero => simp [toBE, ofBE, Nat.mod_one]
  | succ w ih =>
    simp only [toBE, ofBE, length_toBE, ih, UInt8.toNat_ofNat']
    rw [show (2 : Nat) ^ 8 = 256 from rfl, Nat.pow_succ, Nat.mod_mul]
    ring

variable {w n a b : Nat}

theorem ofBE_toBE_of_lt (h : n < 256 ^ w) : ofBE (toBE w n) = n := by
  rw [ofBE_toBE, Nat.mod_eq_of_lt h]

/-- The high multiples of `256 ^ w` do not reach the `w` low bytes. -/
theorem toBE_add_mul (w n k : Nat) : toBE w (n + k * 256 ^ w) = toBE w n := by
  induction w generalizing k with
  | zero => rfl
  | succ w ih =>
    simp only [toBE]
    have hpow : n + k * 256 ^ (w + 1) = n + (k * 256) * 256 ^ w := by
      rw [Nat.pow_succ]
      ring
    rw [hpow, ih (k * 256)]
    congr 1
    have hpos : 0 < 256 ^ w := Nat.pow_pos (by decide)
    apply UInt8.toNat_inj.mp
    rw [UInt8.toNat_ofNat', UInt8.toNat_ofNat', Nat.add_mul_div_right _ _ hpos,
      show (2 : Nat) ^ 8 = 256 from rfl, Nat.add_mul_mod_self_right]

theorem toBE_ofBE (bs : Bytes) : toBE bs.length (ofBE bs) = bs := by
  induction bs with
  | nil => rfl
  | cons b rest ih =>
    have hpos : 0 < 256 ^ rest.length := Nat.pow_pos (by decide)
    have hhead : (b.toNat * 256 ^ rest.length + ofBE rest) / 256 ^ rest.length = b.toNat := by
      rw [Nat.add_comm, Nat.add_mul_div_right _ _ hpos, Nat.div_eq_of_lt (ofBE_lt rest),
        Nat.zero_add]
    simp only [List.length_cons, ofBE, toBE, hhead]
    rw [Nat.add_comm, toBE_add_mul, ih]
    simp

/-- The same for the bytes at a position of a longer list. -/
theorem toBE_ofBE_slice (bs : Bytes) (h : a + w ≤ bs.length) :
    toBE w (ofBE ((bs.drop a).take w)) = (bs.drop a).take w := by
  have hlen : ((bs.drop a).take w).length = w := by
    rw [List.length_take, List.length_drop]
    omega
  have := toBE_ofBE ((bs.drop a).take w)
  rwa [hlen] at this

theorem toBE_injective (ha : a < 256 ^ w) (hb : b < 256 ^ w) (h : toBE w a = toBE w b) : a = b := by
  rw [← ofBE_toBE_of_lt ha, h, ofBE_toBE_of_lt hb]

/-- The `w` low bytes of `n`, least significant first. -/
def toLE (w n : Nat) : Bytes := (toBE w n).reverse

@[simp] theorem length_toLE (w n : Nat) : (toLE w n).length = w := by
  rw [toLE, List.length_reverse, length_toBE]

/-- The number a little-endian byte string denotes. -/
def ofLE (bs : Bytes) : Nat := ofBE bs.reverse

theorem ofLE_cons (b : UInt8) (rest : Bytes) : ofLE (b :: rest) = b.toNat + 256 * ofLE rest := by
  rw [ofLE, List.reverse_cons, ofBE_append, ofBE, ofBE, ofLE]
  simp only [List.length_cons, List.length_nil, Nat.pow_zero]
  ring

theorem ofLE_replicate_zero (n : Nat) : ofLE (List.replicate n 0) = 0 := by
  induction n with
  | zero => rfl
  | succ n ih => rw [List.replicate_succ, ofLE_cons, ih, UInt8.toNat_zero]

theorem ofLE_set {bs : Bytes} {i : Nat} (h : bs[i]? = some 0) (b : UInt8) :
    ofLE (bs.set i b) = ofLE bs + b.toNat * 256 ^ i := by
  induction bs generalizing i with
  | nil => cases h
  | cons c rest ih =>
    cases i with
    | zero =>
      rw [List.getElem?_cons_zero] at h
      rw [Option.some.inj h, List.set_cons_zero, ofLE_cons, ofLE_cons, UInt8.toNat_zero]
      ring
    | succ i =>
      rw [List.getElem?_cons_succ] at h
      rw [List.set_cons_succ, ofLE_cons, ofLE_cons, ih h, Nat.pow_succ]
      ring

theorem ofLE_toLE_of_lt (h : n < 256 ^ w) : ofLE (toLE w n) = n := by
  rw [ofLE, toLE, List.reverse_reverse, ofBE_toBE_of_lt h]

theorem toLE_ofLE (bs : Bytes) : toLE bs.length (ofLE bs) = bs := by
  rw [toLE, ofLE, ← List.length_reverse, toBE_ofBE, List.reverse_reverse]

theorem toLE_injective (ha : a < 256 ^ w) (hb : b < 256 ^ w) (h : toLE w a = toLE w b) : a = b := by
  rw [← ofLE_toLE_of_lt ha, h, ofLE_toLE_of_lt hb]

/-! ## Two's complement -/

/-- The bit pattern of `w` bytes that stands for an integer. -/
def ofInt (w : Nat) (t : Int) : Nat := (t % (256 ^ w : Nat)).toNat

/-- The integer that a bit pattern of `w` bytes stands for. -/
def toInt (w n : Nat) : Int := if 2 * n < 256 ^ w then n else n - (256 ^ w : Nat)

theorem ofInt_lt (w : Nat) (t : Int) : ofInt w t < 256 ^ w := by
  have hpos : 0 < 256 ^ w := Nat.pow_pos (by decide)
  unfold ofInt
  omega

/-- A bit pattern stands for an integer in the range of the type. -/
theorem toInt_range (h : n < 256 ^ w) :
    -(256 ^ w : Nat) ≤ 2 * toInt w n ∧ 2 * toInt w n < (256 ^ w : Nat) := by
  unfold toInt
  split <;> omega

theorem toInt_ofInt {t : Int} (hlo : -(256 ^ w : Nat) ≤ 2 * t) (hhi : 2 * t < (256 ^ w : Nat)) :
    toInt w (ofInt w t) = t := by
  have hpos : 0 < 256 ^ w := Nat.pow_pos (by decide)
  unfold toInt ofInt
  generalize 256 ^ w = m at *
  by_cases hneg : t < 0
  · have hmod : t % (m : Int) = t + m := by
      rw [← Int.add_emod_right, Int.emod_eq_of_lt (by omega) (by omega)]
    rw [hmod]
    split <;> omega
  · rw [Int.emod_eq_of_lt (by omega) (by omega)]
    split <;> omega

theorem ofInt_toInt (h : n < 256 ^ w) : ofInt w (toInt w n) = n := by
  unfold ofInt toInt
  generalize 256 ^ w = m at *
  split
  · rw [Int.emod_eq_of_lt (by omega) (by omega)]
    omega
  · rw [← Int.add_emod_right, Int.sub_add_cancel, Int.emod_eq_of_lt (by omega) (by omega)]
    omega

/-! ## Slices -/

/-- `data[a..b]`, which aborts when the range is not inside `data`. -/
def slice {ε : Type} (data : Bytes) (a b : Nat) : Rust.Res ε Bytes :=
  if a ≤ b ∧ b ≤ data.length then .ok ((data.drop a).take (b - a)) else Rust.abort

theorem slice_eq {ε : Type} {data : Bytes} (hab : a ≤ b) (hb : b ≤ data.length) :
    slice (ε := ε) data a b = .ok ((data.drop a).take (b - a)) := by
  rw [slice, if_pos ⟨hab, hb⟩]

/-- The slice that starts where `pre` ends and is as long as `mid` is `mid`. -/
theorem slice_append {ε : Type} (pre mid post : Bytes) (ha : a = pre.length)
    (hb : b = pre.length + mid.length) :
    slice (ε := ε) (pre ++ mid ++ post) a b = .ok mid := by
  subst ha hb
  rw [slice_eq (Nat.le_add_right _ _) (by simp)]
  simp

/-! ## Records of one length -/

section Records

variable {α : Type} {enc : α → Bytes}

theorem length_flatMap_records (henc : ∀ x, (enc x).length = w) (xs : List α) :
    (xs.flatMap enc).length = xs.length * w := by
  induction xs with
  | nil => simp
  | cons x xs ih =>
    rw [List.flatMap_cons, List.length_append, ih, henc, List.length_cons]
    ring

/-- A sequence of records, split at record `i`. -/
theorem flatMap_split (xs : List α) {i : Nat} {x : α} (h : xs[i]? = some x) :
    xs.flatMap enc = (xs.take i).flatMap enc ++ enc x ++ (xs.drop (i + 1)).flatMap enc := by
  obtain ⟨hi, hx⟩ := List.getElem?_eq_some_iff.mp h
  conv_lhs => rw [← List.take_append_drop i xs, List.drop_eq_getElem_cons hi, hx]
  simp

end Records

/-! ## Text -/

def utf8 (s : String) : Bytes := s.toByteArray.data.toList

theorem utf8_injective {s t : String} (h : utf8 s = utf8 t) : s = t :=
  String.toByteArray_inj.mp (ByteArray.ext (Array.toList_inj.mp h))

end Bytes
