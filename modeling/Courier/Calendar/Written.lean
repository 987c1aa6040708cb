import Courier.Calendar.Timestamp
import Courier.Text.Numeral

/-!
# Written timestamps

`YYYY-MM-DDTHH:MM:SS[.fraction]Z`: years outside 0 to 9999 have a sign and at
least four digits; the fraction has three, six or nine digits, the fewest that
lose nothing, and is left out when it is zero; a leap second is second 60.

**Results.**
* `Timestamp.text`: the written form.
-/

namespace Courier
namespace Calendar

/-- A year in four digits, or with a sign outside 0 to 9999. -/
def yearText (y : Int) : String :=
  if 0 ≤ y ∧ y ≤ 9999 then Numeral.padded 4 y.toNat
  else (if y < 0 then "-" else "+") ++ Numeral.padded 4 y.natAbs

/-- The fraction of a second with its point, in the fewest of 0, 3, 6 or 9 digits. -/
def fractionText (nano : Nat) : String :=
  if nano = 0 then ""
  else if nano % 1000000 = 0 then "." ++ Numeral.padded 3 (nano / 1000000)
  else if nano % 1000 = 0 then "." ++ Numeral.padded 6 (nano / 1000)
  else "." ++ Numeral.padded 9 nano

/-- A date in the form `YYYY-MM-DD`. -/
def Date.text (d : Date) : String :=
  yearText d.year ++ "-" ++ Numeral.padded 2 d.month ++ "-" ++ Numeral.padded 2 d.day

namespace Timestamp

/-- The second of the minute, 60 in a leap second. -/
def clockSecond (t : Timestamp) : Nat :=
  t.second % 60 + t.nano / 1000000000

/-- The written form of a timestamp. -/
def text (t : Timestamp) : String :=
  (Date.ofDay t.day).text ++ "T" ++
    Numeral.padded 2 (t.second / 3600) ++ ":" ++
    Numeral.padded 2 (t.second / 60 % 60) ++ ":" ++
    Numeral.padded 2 t.clockSecond ++ fractionText (t.nano % 1000000000) ++ "Z"

end Timestamp
end Calendar
end Courier
