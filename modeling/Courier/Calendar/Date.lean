/-!
# The Gregorian calendar

Days are counted from 1970-01-01, in the calendar extended to all years.

**Results.**
* `Date.toDay?`: the day of a date, if the date exists.
* `Date.ofDay`: the date of a day.
-/

namespace Courier
namespace Calendar

/-- A date by year, month and day of the month. -/
structure Date where
  year : Int
  month : Nat
  day : Nat
  deriving DecidableEq, Repr

/-- Whether a year has a 29th of February. -/
def isLeapYear (y : Int) : Bool :=
  y % 4 = 0 && (y % 100 ≠ 0 || y % 400 = 0)

/-- The lengths of the months of a year. -/
def monthLengths (leap : Bool) : List Nat :=
  [31, if leap then 29 else 28, 31, 30, 31, 30, 31, 31, 30, 31, 30, 31]

/-- The first day of a year. -/
def yearStart (y : Int) : Int :=
  365 * (y - 1) + (y - 1) / 4 - (y - 1) / 100 + (y - 1) / 400 - 719162

/-- The year that a day is in. -/
def yearOfDay (n : Int) : Int :=
  let y := (n + 719162) * 400 / 146097 + 1
  if yearStart (y + 1) ≤ n then y + 1
  else if n < yearStart y then y - 1
  else y

/-- The index of the month and the day in it of the `k`-th day, months of the
given lengths following each other. -/
def monthOfOrdinal : List Nat → Nat → Nat × Nat
  | [], k => (0, k)
  | l :: ls, k =>
      if k < l then (0, k)
      else
        let r := monthOfOrdinal ls (k - l)
        (r.1 + 1, r.2)

namespace Date

/-- The day of a date, if the date exists. -/
def toDay? (d : Date) : Option Int :=
  let lengths := monthLengths (isLeapYear d.year)
  if d.month = 0 ∨ d.day = 0 then none
  else
    match lengths[d.month - 1]? with
    | none => none
    | some l =>
        if l < d.day then none
        else
          let before := (lengths.take (d.month - 1)).foldr (· + ·) 0
          some (yearStart d.year + (before + (d.day - 1) : Nat))

/-- The date of a day. -/
def ofDay (n : Int) : Date :=
  let y := yearOfDay n
  let r := monthOfOrdinal (monthLengths (isLeapYear y)) (n - yearStart y).toNat
  { year := y, month := r.1 + 1, day := r.2 + 1 }

end Date

/-- The least year of a timestamp. -/
def minYear : Int := -262143

/-- The greatest year of a timestamp. -/
def maxYear : Int := 262142

/-- The first day of the least year. -/
def minDay : Int := -96465292

/-- The last day of the greatest year. -/
def maxDay : Int := 95026236

theorem minDay_eq_yearStart : minDay = yearStart minYear := by decide

theorem maxDay_eq_yearStart : maxDay + 1 = yearStart (maxYear + 1) := by decide

end Calendar
end Courier
