import Courier.Calendar.Date
import Courier.Duration

/-!
# Timestamps

An instant in universal time to the nanosecond, in the years -262143 to
+262142.  The last second of a minute may be a leap second: its nanoseconds
then run from one to two thousand million.

**Results.**
* `Timestamp.ofParts?`: the timestamp of a day, a second and nanoseconds.
* `Timestamp.unixSeconds`: whole seconds since 1970, rounded down.
* `Timestamp.add?`: a later instant, if it is still in range.
-/

namespace Courier
namespace Calendar

/-- An instant in universal time. -/
structure Timestamp where
  day : Int
  second : Nat
  nano : Nat
  minDay_le : minDay ≤ day
  day_le : day ≤ maxDay
  second_lt : second < 86400
  nano_lt : nano < 2000000000
  leap : 1000000000 ≤ nano → second % 60 = 59
  deriving DecidableEq

namespace Timestamp

/-- The instant of a day, a second of the day and nanoseconds, if there is one. -/
def ofParts? (day : Int) (second nano : Nat) : Option Timestamp :=
  if h : (minDay ≤ day ∧ day ≤ maxDay) ∧ second < 86400 ∧ nano < 2000000000 ∧
      (1000000000 ≤ nano → second % 60 = 59) then
    some ⟨day, second, nano, h.1.1, h.1.2, h.2.1, h.2.2.1, h.2.2.2⟩
  else none

/-- The last instant. -/
def max : Timestamp :=
  ⟨maxDay, 86399, 999999999, by decide, by decide, by decide, by decide, by decide⟩

/-- The first instant. -/
def min : Timestamp :=
  ⟨minDay, 0, 0, by decide, by decide, by decide, by decide, by decide⟩

/-- Whole seconds since 1970-01-01, rounded down. -/
def unixSeconds (t : Timestamp) : Int :=
  t.day * 86400 + t.second

/-- Whole milliseconds since 1970-01-01, rounded down. -/
def unixMillis (t : Timestamp) : Int :=
  t.unixSeconds * 1000 + (t.nano / 1000000 : Nat)

/-- The instant that many seconds and nanoseconds after 1970-01-01. -/
def ofUnix? (seconds : Int) (nano : Nat) : Option Timestamp :=
  ofParts? (seconds / 86400) (seconds % 86400).toNat nano

/-- The instant a duration later, if it is still in range.  A leap second is
left only by a step that reaches its end. -/
def add? (t : Timestamp) (d : Duration) : Option Timestamp :=
  if 1000000000 ≤ t.nano ∧ d.wholeSeconds = 0 ∧ t.nano + d.subNanos < 2000000000 then
    ofParts? t.day t.second (t.nano + d.subNanos)
  else
    let nano := (if 1000000000 ≤ t.nano then t.nano - 1000000000 else t.nano) + d.subNanos
    ofUnix? (t.unixSeconds + (d.wholeSeconds + nano / 1000000000 : Nat)) (nano % 1000000000)

end Timestamp
end Calendar
end Courier
