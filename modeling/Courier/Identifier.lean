import Courier.Bytes
import Courier.Calendar.Timestamp

/-!
# Identifiers

Identifiers that are unique and in the order in which they were made: 48 bits of
the time in milliseconds, the version, and random bits, as hexadecimal digits in
five groups.

**Results.**
* `Identifier.make`: the identifier of a time and random bits.
-/

namespace Courier
namespace Identifier

/-- A number in hexadecimal, padded with zeros to a width. -/
def hex (width n : Nat) : String :=
  let digits := Nat.toDigits 16 n
  String.ofList (List.replicate (width - digits.length) '0' ++ digits)

/-- The identifier of a time and 74 random bits: the version stands before the
first twelve of them, the variant before the rest. -/
def make (now : Calendar.Timestamp) (random : Nat) : String :=
  let time := (now.unixMillis % 0x1000000000000).toNat
  let first := random % 0x1000
  let second := random / 0x1000 % 0x4000
  let last := random / 0x4000000 % 0x1000000000000
  hex 8 (time / 0x10000) ++ "-" ++ hex 4 (time % 0x10000) ++ "-7" ++ hex 3 first ++ "-" ++
    hex 4 (0x8000 + second) ++ "-" ++ hex 12 last

end Identifier
end Courier
