import Mathlib.Algebra.Ring.Int.Defs
import Mathlib.Algebra.Order.Ring.Int
import Mathlib.Tactic.Common

/-!
# The parts of `chrono` the program computes with

* A `DateTime<Utc>` is the number of nanoseconds since 1970-01-01T00:00:00Z; a
  `NaiveDateTime` is the same count on a local clock, a `NaiveDate` the number
  of days since 1970-01-01 and a `NaiveTime` the nanoseconds since midnight.
  The leap-second values of `NaiveTime` are not modelled.
* A `TimeDelta` (`chrono::Duration`) is a number of nanoseconds.
* An operation that panics outside its range returns `Except.error`.
-/

namespace EasyJob.Chrono

abbrev DateTime := ℤ
abbrev NaiveDateTime := ℤ
abbrev NaiveDate := ℤ
abbrev NaiveTime := ℤ
abbrev TimeDelta := ℤ

/-- Why a Rust operation panics. -/
inductive Panic
  | timeDeltaOutOfBounds
  | dateTimeOverflow
  | arithmeticOverflow
  deriving DecidableEq, Repr

/-- A Rust computation that may panic. -/
abbrev Rust (α : Type) := Except Panic α

def nanosPerSec : ℤ := 1000000000
def nanosPerMinute : ℤ := 60 * nanosPerSec
def nanosPerHour : ℤ := 60 * nanosPerMinute
def nanosPerDay : ℤ := 24 * nanosPerHour

/-- `NaiveDate::MIN`, -262143-01-01. -/
def minDate : NaiveDate := -96465293

/-- `NaiveDate::MAX`, 262142-12-31. -/
def maxDate : NaiveDate := 95026236

/-- `DateTime::<Utc>::MIN_UTC`. -/
def minUtc : DateTime := minDate * nanosPerDay

/-- `DateTime::<Utc>::MAX_UTC`. -/
def maxUtc : DateTime := maxDate * nanosPerDay + (nanosPerDay - 1)

/-- The `i64` value range. -/
def inI64 (x : ℤ) : Prop := -2 ^ 63 ≤ x ∧ x < 2 ^ 63

instance (x : ℤ) : Decidable (inI64 x) := inferInstanceAs (Decidable (_ ∧ _))

/-- The cast `x as i64` of a `u64`, which wraps. -/
def asI64 (x : ℕ) : ℤ :=
  let y : ℤ := x % 2 ^ 64
  if y < 2 ^ 63 then y else y - 2 ^ 64

theorem asI64_of_lt {x : ℕ} (h : x < 2 ^ 63) : asI64 x = x := by
  have hy : (x : ℤ) % 2 ^ 64 = x := by omega
  have hlt : (x : ℤ) < 2 ^ 63 := by omega
  unfold asI64
  rw [hy, if_pos hlt]

/-- `i64` multiplication with overflow checks. -/
def i64Mul (a b : ℤ) : Rust ℤ := if inI64 (a * b) then .ok (a * b) else .error .arithmeticOverflow

/-- `TimeDelta::num_seconds`, which truncates towards zero. -/
def numSeconds (d : TimeDelta) : ℤ := d.tdiv nanosPerSec

/-- `TimeDelta::seconds`, which panics above `i64::MAX / 1000` seconds. -/
def deltaSeconds (s : ℤ) : Rust TimeDelta :=
  if -9223372036854775 ≤ s ∧ s ≤ 9223372036854775 then .ok (s * nanosPerSec)
  else .error .timeDeltaOutOfBounds

/-- `DateTime + TimeDelta` and `NaiveDateTime + TimeDelta`, which panic outside
    the range of representable dates. -/
def addDelta (t : ℤ) (d : TimeDelta) : Rust ℤ :=
  if minUtc ≤ t + d ∧ t + d ≤ maxUtc then .ok (t + d) else .error .dateTimeOverflow

theorem addDelta_ok {t x : ℤ} {d : TimeDelta} (h : addDelta t d = .ok x) : x = t + d := by
  unfold addDelta at h
  split_ifs at h
  cases h; rfl

theorem addDelta_eq {t : ℤ} {d : TimeDelta} (h : minUtc ≤ t + d ∧ t + d ≤ maxUtc) :
    addDelta t d = .ok (t + d) := if_pos h

theorem deltaSeconds_ok {s : ℤ} {d : TimeDelta} (h : deltaSeconds s = .ok d) :
    d = s * nanosPerSec := by
  unfold deltaSeconds at h
  split_ifs at h
  cases h; rfl

theorem deltaSeconds_eq {s : ℤ} (h : -9223372036854775 ≤ s ∧ s ≤ 9223372036854775) :
    deltaSeconds s = .ok (s * nanosPerSec) := if_pos h

theorem i64Mul_ok {a b c : ℤ} (h : i64Mul a b = .ok c) : c = a * b := by
  unfold i64Mul at h
  split_ifs at h
  cases h; rfl

theorem i64Mul_eq {a b : ℤ} (h : inI64 (a * b)) : i64Mul a b = .ok (a * b) := if_pos h

@[simp] theorem rust_ok_bind {α β : Type} (a : α) (f : α → Rust β) :
    ((.ok a : Rust α) >>= f) = f a := rfl

/-- Bind of two Rust computations: both returned. -/
theorem rust_bind_ok {α β : Type} {x : Rust α} {f : α → Rust β} {b : β} (h : x >>= f = .ok b) :
    ∃ a, x = .ok a ∧ f a = .ok b := by
  cases x with
  | error e => cases h
  | ok a => exact ⟨a, rfl, h⟩

/-! ## Dates and times of day -/

/-- `NaiveDate::and_time`. -/
def andTime (date : NaiveDate) (time : NaiveTime) : NaiveDateTime := date * nanosPerDay + time

/-- `NaiveDateTime::date`. -/
def dateOf (t : NaiveDateTime) : NaiveDate := t / nanosPerDay

/-- `NaiveDateTime::time`. -/
def timeOf (t : NaiveDateTime) : NaiveTime := t % nanosPerDay

/-- `NaiveDate::succ_opt`. -/
def succOpt (date : NaiveDate) : Option NaiveDate :=
  if date < maxDate then some (date + 1) else none

/-- `NaiveTime + TimeDelta`, which wraps around midnight. -/
def timeAdd (t : NaiveTime) (d : TimeDelta) : NaiveTime := (t + d) % nanosPerDay

/-- `chrono::Weekday`. -/
inductive Weekday
  | Mon | Tue | Wed | Thu | Fri | Sat | Sun
  deriving DecidableEq, Repr

/-- `Datelike::weekday`; 1970-01-01 was a Thursday. -/
def weekday (date : NaiveDate) : Weekday :=
  match (date + 3) % 7 with
  | 0 => .Mon
  | 1 => .Tue
  | 2 => .Wed
  | 3 => .Thu
  | 4 => .Fri
  | 5 => .Sat
  | _ => .Sun

end EasyJob.Chrono
