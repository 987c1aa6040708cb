import Courier.Binary64.Basic

/-!
# Rounding to binary floating point

Every result is the word nearest to an exact ratio, a half going to the even
neighbour and what lies beyond the last finite word to an infinity.

**Results.**
* `ofRatio`: the word nearest to a ratio.
* `ofInt`, `ofNat`: the word nearest to an integer.
* `add`, `mul`, `div`: correctly rounded arithmetic on magnitudes.
* `decimal?`: a whole number of at most 64 bits scaled by a power of ten.
-/

namespace Courier
namespace Binary64

/-- The integer nearest to `num / den`, a half going to the even neighbour. -/
def roundHalfEven (num den : Nat) : Nat :=
  let k := num / den
  let r := num % den
  if den < 2 * r then k + 1
  else if den = 2 * r then k + k % 2
  else k

/-- `num / den / 2 ^ q` as a fraction of naturals. -/
def scaledDown (num den : Nat) (q : Int) : Nat × Nat :=
  match q with
  | .ofNat k => (num, den * Nat.pow 2 k)
  | .negSucc k => (num * Nat.pow 2 (k + 1), den)

/-- The exponent of the unit in the last place of `num / den`. -/
def unitExponent (num den : Nat) : Int :=
  let q : Int := (num.log2 : Int) - den.log2 - 53
  let f := scaledDown num den q
  max (-1074) (if 2 * hiddenBit * f.2 ≤ f.1 then q + 1 else q)

/-- The magnitude word nearest to `num / den`. -/
def roundMagnitude (num den : Nat) : Nat :=
  if num = 0 then 0
  else
    let q := unitExponent num den
    let f := scaledDown num den q
    min infinityWord (roundHalfEven f.1 f.2 + (q + 1074).toNat * hiddenBit)

/-- The word nearest to `num / den` with a sign; `den` is not zero. -/
def ofRatio (negative : Bool) (num den : Nat) : Binary64 :=
  ofParts negative (roundMagnitude num den)

/-- The word nearest to a natural number. -/
def ofNat (n : Nat) : Binary64 :=
  ofRatio false n 1

/-- The word nearest to an integer. -/
def ofInt (n : Int) : Binary64 :=
  ofRatio (decide (n < 0)) n.natAbs 1

/-- The magnitude of a finite word as a fraction. -/
def ratio (x : Binary64) : Nat × Nat :=
  match x.exponent with
  | .ofNat k => (x.significand * Nat.pow 2 k, 1)
  | .negSucc k => (x.significand, Nat.pow 2 (k + 1))

/-- The sum of two finite words that are not negative. -/
def add (x y : Binary64) : Binary64 :=
  let a := x.ratio
  let b := y.ratio
  ofRatio false (a.1 * b.2 + b.1 * a.2) (a.2 * b.2)

/-- The product of two finite words that are not negative. -/
def mul (x y : Binary64) : Binary64 :=
  let a := x.ratio
  let b := y.ratio
  ofRatio false (a.1 * b.1) (a.2 * b.2)

/-- The quotient of two finite words that are not negative, the second not zero. -/
def div (x y : Binary64) : Binary64 :=
  let a := x.ratio
  let b := y.ratio
  ofRatio false (a.1 * b.2) (a.2 * b.1)

/-- The word nearest to a power of ten. -/
def tenPow (k : Nat) : Binary64 :=
  ofNat (Nat.pow 10 k)

/-- The greatest power of ten that has a finite word. -/
def maxTenPow : Nat := 308

/-- Divides by `10 ^ k`, by the greatest power of ten at a time. -/
def divTenPow (x : Binary64) (k : Nat) : Binary64 :=
  if k ≤ maxTenPow then x.div (tenPow k)
  else if x.isZero then x
  else divTenPow (x.div (tenPow maxTenPow)) (k - maxTenPow)
termination_by k
decreasing_by simp only [maxTenPow] at *; omega

/-- The value of `significand * 10 ^ e`, rounded once for the significand and
once for the scaling; nothing when it is beyond the last finite word. -/
def decimal? (significand : Nat) (e : Int) : Option Binary64 :=
  let x := ofNat significand
  match e with
  | .ofNat k =>
      if k ≤ maxTenPow then (some (x.mul (tenPow k))).filter (·.isFinite)
      else if x.isZero then some x
      else none
  | .negSucc k => some (x.divTenPow (k + 1))

end Binary64
end Courier
