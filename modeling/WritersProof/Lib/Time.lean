/-
  WritersProof.Lib.Time

  Instants and durations of `chrono` and `std::time` (crates/cpoe/src/utils/time.rs): a
  `DateTime<Utc>` is the seconds since the Unix epoch and the nanoseconds in the second, which
  go past a full second in a leap second; a `Duration` is its nanoseconds.
-/
import Mathlib.Algebra.Group.Int.Defs
import Mathlib.Algebra.Group.Nat.Defs
import Mathlib.Data.Int.Order.Basic
import Mathlib.Order.Lattice

namespace Rust

/-- The least and the greatest `i64`. -/
def i64Min : Int := -(2 ^ 63)

def i64Max : Int := 2 ^ 63 - 1

/-- `chrono::DateTime<Utc>`: only the last second of a minute has a leap second behind it. -/
structure DateTime where
  secs : Int
  frac : Nat
  frac_lt : frac < 1000000000 ∨ secs % 60 = 59 ∧ frac < 2000000000
  deriving DecidableEq

namespace DateTime

/-- What a system clock shows: it counts no leap seconds. -/
def ofNanos (nanos : Int) : DateTime where
  secs := nanos / 1000000000
  frac := (nanos % 1000000000).toNat
  frac_lt := .inl (by omega)

def nanos (t : DateTime) : Int := t.secs * 1000000000 + t.frac

def timestampMillis (t : DateTime) : Int := t.nanos / 1000000

/-- Seconds count before nanoseconds, of which there are fewer than 2 * 10^9. -/
def key (t : DateTime) : Int := t.secs * 2000000000 + t.frac

/-- 2016-12-31T23:59:60.5Z, in a leap second -/
def endOf2016 : DateTime := ⟨1483228799, 1500000000, .inr ⟨rfl, by decide⟩⟩

/-- A leap second and the second after it have the same nanoseconds since the epoch. -/
def LeapTwin (s t : DateTime) : Prop := t.secs = s.secs + 1 ∧ s.frac = t.frac + 1000000000

/-- `signed_duration_since`, in nanoseconds: within a day, a leap second counts. -/
def signedDurationSince (t rhs : DateTime) : Int :=
  t.nanos - rhs.nanos +
    if rhs.secs % 86400 < t.secs % 86400 ∧ 1000000000 ≤ rhs.frac then 1000000000
    else if t.secs % 86400 < rhs.secs % 86400 ∧ 1000000000 ≤ t.frac then -1000000000
    else 0

/-- `signed_duration_since(rhs).num_seconds()` -/
def secondsSince (t rhs : DateTime) : Int := (t.signedDurationSince rhs).tdiv 1000000000

variable {s t : DateTime} {n m : Int}

theorem ext_key (h : s.key = t.key) : s = t := by
  obtain ⟨secs, frac, hfrac⟩ := s
  obtain ⟨secs', frac', hfrac'⟩ := t
  have hkey : secs * 2000000000 + frac = secs' * 2000000000 + frac' := h
  obtain rfl : secs = secs' := by omega
  obtain rfl : frac = frac' := by omega
  rfl

instance : LinearOrder DateTime := LinearOrder.lift' key fun _ _ => ext_key

theorem lt_iff : s < t ↔ s.secs < t.secs ∨ s.secs = t.secs ∧ s.frac < t.frac := by
  have hs := s.frac_lt
  have ht := t.frac_lt
  show s.key < t.key ↔ _
  unfold key
  omega

@[simp] theorem nanos_ofNanos (n : Int) : (ofNanos n).nanos = n := by
  unfold nanos ofNanos
  simp only
  omega

theorem ofNanos_lt_ofNanos : ofNanos m < ofNanos n ↔ m < n := by
  rw [lt_iff]
  unfold ofNanos
  simp only
  omega

theorem ofNanos_le_ofNanos : ofNanos m ≤ ofNanos n ↔ m ≤ n := by
  rw [← not_lt, ofNanos_lt_ofNanos, not_lt]

theorem frac_ofNanos_lt (n : Int) : (ofNanos n).frac < 1000000000 := by
  unfold ofNanos
  simp only
  omega

theorem ofNanos_nanos (h : t.frac < 1000000000) : ofNanos t.nanos = t := by
  apply ext_key
  unfold key ofNanos nanos
  simp only
  omega

/-- The nanoseconds since the epoch tell times apart but for leap seconds. -/
theorem nanos_eq_iff : s.nanos = t.nanos ↔ s = t ∨ s.LeapTwin t ∨ t.LeapTwin s := by
  have hs := s.frac_lt
  have ht := t.frac_lt
  constructor
  · intro h
    unfold nanos at h
    by_cases hsecs : s.secs = t.secs
    · refine .inl (ext_key ?_)
      unfold key
      omega
    · unfold LeapTwin
      omega
  · rintro (rfl | ⟨hsecs, hfrac⟩ | ⟨hsecs, hfrac⟩)
    · rfl
    · unfold nanos
      omega
    · unfold nanos
      omega

end DateTime

variable (timestamp : DateTime)

def timestampNanosOpt : Option Int :=
  if i64Min ≤ timestamp.nanos ∧ timestamp.nanos ≤ i64Max then some timestamp.nanos else none

/-- `timestamp_nanos_safe`: past the range of `i64` nanoseconds it falls back to
    whole milliseconds, saturating. -/
def timestampNanosSafe : Int :=
  (timestampNanosOpt timestamp).getD (max i64Min (min i64Max (timestamp.timestampMillis * 1000000)))

/-- `timestamp_nanos_safe().max(0) as u64` -/
def timestampNanos : Nat := (timestampNanosSafe timestamp).toNat

/-- `u64::try_from(duration.as_nanos()).unwrap_or(u64::MAX)` -/
def durationNanos (duration : Nat) : Nat :=
  if duration < 2 ^ 64 then duration else 2 ^ 64 - 1

def durationToMs (duration : Nat) : Nat := min (duration / 1000000) (2 ^ 64 - 1)

theorem timestampNanosSafe_of_le {timestamp : DateTime} (h₀ : 0 ≤ timestamp.nanos)
    (h : timestamp.nanos ≤ i64Max) : timestampNanosSafe timestamp = timestamp.nanos := by
  have hmin : i64Min ≤ timestamp.nanos := by
    unfold i64Min
    omega
  rw [timestampNanosSafe, timestampNanosOpt, if_pos ⟨hmin, h⟩, Option.getD_some]

theorem timestampNanos_lt : timestampNanos timestamp < 2 ^ 64 := by
  unfold timestampNanos timestampNanosSafe timestampNanosOpt i64Min i64Max
  split
  · simp only [Option.getD_some]
    omega
  · simp only [Option.getD_none]
    omega

theorem durationNanos_lt (duration : Nat) : durationNanos duration < 2 ^ 64 := by
  unfold durationNanos
  split <;> omega

theorem durationToMs_lt (duration : Nat) : durationToMs duration < 2 ^ 64 := by
  unfold durationToMs
  omega

end Rust
