import Courier.Text.Numeral

/-!
# Durations

A length of time in nanoseconds, up to the greatest whole number of 64-bit
seconds and the fraction that still fits behind it.  The clock that waits are
measured with counts nanoseconds too, but fewer of them.

**Results.**
* `ofMillis`, `ofMicros`, `ofSecs`: the durations of 64-bit counts.
* `wholeSeconds`, `subNanos`: a duration as seconds and nanoseconds.
* `isSpan`: the durations that can be added to an instant of the calendar.
* `deadline?`: the end of a wait on the clock.
-/

namespace Courier

/-- A length of time in nanoseconds. -/
structure Duration where
  nanos : Nat
  fits : nanos < 0x10000000000000000 * 1000000000
  deriving DecidableEq

namespace Duration

/-- No time at all. -/
def zero : Duration := ⟨0, by decide⟩

/-- A number of milliseconds. -/
def ofMillis (n : UInt64) : Duration :=
  ⟨n.toNat * 1000000, by have := n.toNat_lt; omega⟩

/-- A number of microseconds. -/
def ofMicros (n : UInt64) : Duration :=
  ⟨n.toNat * 1000, by have := n.toNat_lt; omega⟩

/-- A number of seconds. -/
def ofSecs (n : UInt64) : Duration :=
  ⟨n.toNat * 1000000000, by have := n.toNat_lt; omega⟩

/-- Whether no time passes. -/
def isZero (d : Duration) : Bool :=
  d.nanos = 0

/-- The whole seconds of a duration. -/
def wholeSeconds (d : Duration) : Nat :=
  d.nanos / 1000000000

/-- The nanoseconds behind the whole seconds. -/
def subNanos (d : Duration) : Nat :=
  d.nanos % 1000000000

/-- The whole milliseconds of a duration. -/
def wholeMillis (d : Duration) : Nat :=
  d.nanos / 1000000

/-- The longest time that can be added to an instant, 2^63 - 1 milliseconds, in nanoseconds. -/
def maxSpan : Nat := 0x7FFFFFFFFFFFFFFF * 1000000

/-- Whether a duration can be added to an instant. -/
def isSpan (d : Duration) : Bool :=
  d.nanos ≤ maxSpan

/-- The longer of two durations. -/
def max (d e : Duration) : Duration :=
  if d.nanos ≤ e.nanos then e else d

/-- One millisecond. -/
def oneMilli : Duration := ofMillis 1

end Duration

/-- The last second that the clock can count. -/
def maxClockSecond : Nat := 0x7FFFFFFFFFFFFFFF

/-- The instant after a wait, if the clock can count so far. -/
def deadline? (now : Nat) (wait : Duration) : Option Nat :=
  if (now + wait.nanos) / 1000000000 ≤ maxClockSecond then some (now + wait.nanos) else none

end Courier
