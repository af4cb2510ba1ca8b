/-
  WritersProof.Lib.Binary64

  `f64` by value: a finite number is the rational that it denotes.

  Only numbers from 0 to the largest finite one occur.
-/
import WritersProof.Lib.Bytes
import Mathlib.Data.Rat.Defs

namespace Rust.Binary64

/-- `n / d`, to the nearest integer, ties to even. -/
def roundEven (n d : Nat) : Nat :=
  let whole := n / d
  let rest := 2 * (n % d)
  if rest < d then whole else if d < rest then whole + 1 else whole + whole % 2

/-- The `e` with `2 ^ e ≤ n / d < 2 ^ (e + 1)`. -/
def exponent (n d : Nat) : Int :=
  let e : Int := (n.log2 : Int) - d.log2
  if n * 2 ^ (-e).toNat < d * 2 ^ e.toNat then e - 1 else e

/-- The number nearest to `q`, ties to an even last digit; the result of an operation is the exact
    one, rounded. -/
def round (q : Rat) : Rat :=
  let n := q.num.toNat
  if n = 0 then 0
  else
    let e := max (exponent n q.den - 52) (-1074)
    let digits := roundEven (n * 2 ^ (-e).toNat) (q.den * 2 ^ e.toNat)
    mkRat (digits * 2 ^ e.toNat : Nat) (2 ^ (-e).toNat)

/-- `n as f64` -/
def ofNat (n : Nat) : Rat := round n

def add (a b : Rat) : Rat := round (a + b)

def mul (a b : Rat) : Rat := round (a * b)

def div (a b : Rat) : Rat := round (a / b)

/-- The number that eight big-endian bytes denote, `none` for an infinity or a NaN. -/
def value (be : FixedBytes 8) : Option Rat :=
  let bits := Bytes.ofBE be.val
  let exponent := bits / 2 ^ 52 % 2 ^ 11
  let fraction := bits % 2 ^ 52
  if exponent = 2047 then none
  else
    let digits : Nat := if exponent = 0 then fraction else 2 ^ 52 + fraction
    -- the last digit of a subnormal number is that of the least normal ones
    let power := max exponent 1
    let magnitude := mkRat (digits * 2 ^ (power - 1075) : Nat) (2 ^ (1075 - power))
    some (if bits < 2 ^ 63 then magnitude else -magnitude)

/-! ## Durations -/

/-- `Duration::from_secs_f64`: the nearest nanosecond; it panics past `u64::MAX` seconds. -/
def durationFromSecs {ε : Type} (seconds : Rat) : Res ε Nat :=
  let nanos := roundEven (seconds.num.toNat * 1000000000) seconds.den
  if nanos < 2 ^ 64 * 1000000000 then .ok nanos else abort

def asSecs (duration : Nat) : Rat :=
  add (ofNat (duration / 1000000000)) (div (ofNat (duration % 1000000000)) (ofNat 1000000000))

end Rust.Binary64

namespace Rust

def addDuration {ε : Type} (a b : Nat) : Res ε Nat :=
  if a + b < 2 ^ 64 * 1000000000 then .ok (a + b) else abort

/-- A number with its fractional digits, of which there are `width`, without zeros at
    the end. -/
def decimalText (whole fraction width : Nat) : String :=
  let digits := (List.range width).map fun i => Nat.digitChar (fraction / 10 ^ (width - 1 - i) % 10)
  toString whole ++
    if fraction = 0 then ""
    else "." ++ String.ofList (digits.reverse.dropWhile (· = Nat.digitChar 0)).reverse

/-- `format!("{:?}", duration)` -/
def durationText (duration : Nat) : String :=
  let nanos := duration % 1000000000
  if 0 < duration / 1000000000 then decimalText (duration / 1000000000) nanos 9 ++ "s"
  else if 1000000 ≤ nanos then decimalText (nanos / 1000000) (nanos % 1000000) 6 ++ "ms"
  else if 1000 ≤ nanos then decimalText (nanos / 1000) (nanos % 1000) 3 ++ "µs"
  else toString nanos ++ "ns"

end Rust
