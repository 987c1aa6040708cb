/-!
# Binary floating point

A score or a JSON number with a fraction is a 64-bit word: a sign bit, eleven
exponent bits and fifty-two fraction bits.  All of it is integer arithmetic on
that word, so order and equality can be reasoned about.

**Results.**
* `le`: the numeric order, in which nothing compares with a NaN and the two
  zeros are equal.
* `totalLe`: the total order of all words, negative NaNs first, `-0` before `0`.
* `exponent`, `significand`: a finite word is `significand * 2 ^ exponent`.
-/

namespace Courier

/-- A 64-bit floating-point word. -/
structure Binary64 where
  bits : UInt64
  deriving DecidableEq

namespace Binary64

/-- The value of the sign bit. -/
def signBit : Nat := 0x8000000000000000

/-- The value that one unit of the exponent bits has, which the significand of a
word with any of them holds in front of its fraction bits. -/
def hiddenBit : Nat := 0x10000000000000

/-- Whether the sign bit is set. -/
def isNegative (x : Binary64) : Bool :=
  signBit ≤ x.bits.toNat

/-- The word without its sign bit. -/
def magnitude (x : Binary64) : Nat :=
  x.bits.toNat % signBit

/-- The magnitude of the infinities. -/
def infinityWord : Nat := 2047 * hiddenBit

/-- The word with a sign and a magnitude. -/
def ofParts (negative : Bool) (magnitude : Nat) : Binary64 :=
  ⟨UInt64.ofNat ((if negative then signBit else 0) + magnitude)⟩

/-- Positive zero. -/
def zero : Binary64 := ofParts false 0

/-- Positive infinity. -/
def infinity : Binary64 := ofParts false infinityWord

/-- Negative infinity. -/
def negInfinity : Binary64 := ofParts true infinityWord

/-- A quiet NaN. -/
def nan : Binary64 := ofParts false (infinityWord + hiddenBit / 2)

/-- Whether the word is no number. -/
def isNaN (x : Binary64) : Bool :=
  infinityWord < x.magnitude

/-- Whether the word is one of the infinities. -/
def isInfinite (x : Binary64) : Bool :=
  x.magnitude = infinityWord

/-- Whether the word is a number and no infinity. -/
def isFinite (x : Binary64) : Bool :=
  x.magnitude < infinityWord

/-- Whether the word is one of the zeros. -/
def isZero (x : Binary64) : Bool :=
  x.magnitude = 0

/-- The same magnitude with the other sign. -/
def neg (x : Binary64) : Binary64 :=
  ofParts (!x.isNegative) x.magnitude

/-- The place of a number in the numeric order. -/
def orderKey (x : Binary64) : Int :=
  if x.isNegative then -(x.magnitude : Int) else x.magnitude

/-- The numeric order. -/
def le (x y : Binary64) : Bool :=
  !x.isNaN && !y.isNaN && decide (x.orderKey ≤ y.orderKey)

/-- The place of a word in the total order. -/
def totalKey (x : Binary64) : Int :=
  if x.isNegative then -(x.magnitude : Int) - 1 else x.magnitude

/-- The total order of all words. -/
def totalLe (x y : Binary64) : Bool :=
  decide (x.totalKey ≤ y.totalKey)

/-- The integer a finite word scales by a power of two. -/
def significand (x : Binary64) : Nat :=
  if x.magnitude < hiddenBit then x.magnitude else hiddenBit + x.magnitude % hiddenBit

/-- The power of two that scales the significand. -/
def exponent (x : Binary64) : Int :=
  if x.magnitude < hiddenBit then -1074 else (x.magnitude / hiddenBit : Nat) - 1075

end Binary64
end Courier
