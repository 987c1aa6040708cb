/-!
# Decimal numerals

A numeral is an optional sign and one or more ASCII digits.  Which signs are
allowed and which values fit is said by the caller.

**Results.**
* `digits?`: the value of a run of digits.
* `natural?`: an optional `+` and digits, at most a given bound.
* `integer?`: an optional `+` or `-` and digits, within given bounds.
-/

namespace Courier
namespace Numeral

/-- Whether a character is an ASCII digit. -/
def isDigit (c : Char) : Bool :=
  '0' ≤ c && c ≤ '9'

/-- The value of a list of digits read after the value `acc`. -/
def valueFrom (acc : Nat) (cs : List Char) : Nat :=
  cs.foldl (fun n c => n * 10 + (c.toNat - 48)) acc

/-- The value of one or more digits. -/
def digits? (cs : List Char) : Option Nat :=
  if cs ≠ [] ∧ cs.all isDigit then some (valueFrom 0 cs) else none

/-- A numeral with an optional `+`, at most `limit`. -/
def natural? (limit : Nat) (cs : List Char) : Option Nat :=
  let body := match cs with
    | '+' :: r => r
    | r => r
  (digits? body).filter (· ≤ limit)

/-- A numeral with an optional sign, between `least` and `most`. -/
def integer? (least most : Int) (cs : List Char) : Option Int :=
  let value := match cs with
    | '-' :: r => (digits? r).map fun n => -(n : Int)
    | '+' :: r => (digits? r).map Int.ofNat
    | r => (digits? r).map Int.ofNat
  value.filter fun n => least ≤ n ∧ n ≤ most

/-- The least signed 64-bit integer. -/
def minInt64 : Int := -0x8000000000000000

/-- The greatest signed 64-bit integer. -/
def maxInt64 : Int := 0x7FFFFFFFFFFFFFFF

/-- The greatest unsigned 64-bit integer. -/
def maxNat64 : Nat := 0xFFFFFFFFFFFFFFFF

/-- The greatest unsigned 32-bit integer. -/
def maxNat32 : Nat := 0xFFFFFFFF

/-- A number in decimal, padded with zeros to a width. -/
def padded (width n : Nat) : String :=
  let s := toString n
  String.ofList (List.replicate (width - s.length) '0') ++ s

end Numeral
end Courier
