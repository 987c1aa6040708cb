import Courier.Binary64.Round

/-!
# Shortest decimal text

A finite number is written with the fewest significant digits that still round
back to it, and among those with the ones nearest to its exact value.  Where
the point stands and when powers of ten are spelled out is a matter of layout.

**Results.**
* `shortest`: the digits and the power of ten of the first of them.
* `Layout.render`: a number written in a layout.
* `Layout.json`, `Layout.seconds`, `Layout.score`: the three layouts in use.
-/

namespace Courier
namespace Binary64

/-- A decimal: `d₁.d₂d₃… * 10 ^ exponent`, the digits as one natural number. -/
structure Decimal where
  digits : Nat
  exponent : Int
  deriving DecidableEq

/-- `a * 10 ^ e ≤ b` for an integer exponent. -/
def tenPowMulLe (a : Nat) (e : Int) (b : Nat) : Bool :=
  match e with
  | .ofNat k => a * Nat.pow 10 k ≤ b
  | .negSucc k => a ≤ b * Nat.pow 10 (k + 1)

/-- The exponent of the first decimal digit of `num / den`. -/
def decimalExponent (num den : Nat) : Int :=
  let e : Int := ((num.log2 : Int) - den.log2) * 30103 / 100000
  if tenPowMulLe den (e + 1) num then e + 1
  else if tenPowMulLe den e num then e
  else e - 1

/-- `num / den / 10 ^ p` as a fraction of naturals. -/
def scaledDownTen (num den : Nat) (p : Int) : Nat × Nat :=
  match p with
  | .ofNat k => (num, den * Nat.pow 10 k)
  | .negSucc k => (num * Nat.pow 10 (k + 1), den)

/-- The numbers that round to a positive finite word, in quarters of the unit
in its last place: the exact value, and the ends of the interval. -/
structure Interval where
  value : Nat
  low : Nat
  high : Nat
  closed : Bool

/-- The interval of numbers that round to a positive finite word. -/
def interval (x : Binary64) : Interval :=
  let m := x.significand
  { value := 4 * m
    low := 4 * m - (if m = hiddenBit ∧ -1074 < x.exponent then 1 else 2)
    high := 4 * m + 2
    closed := m % 2 == 0 }

/-- Whether `k * step` lies in an interval, all in units of `1 / unit`. -/
def Interval.contains (i : Interval) (unit k step : Nat) : Bool :=
  if i.closed then i.low * unit ≤ k * step && k * step ≤ i.high * unit
  else i.low * unit < k * step && k * step < i.high * unit

/-- The multiple of `10 ^ p` that is in the interval and nearest to the value,
if one of the two neighbours of the value is in it; an exact tie goes to the
even neighbour. -/
def nearestOnGrid (i : Interval) (q : Int) (p : Int) : Option Nat :=
  -- The value is `i.value * 2 ^ (q - 2)`; both scales become integers.
  let two := scaledDown 1 1 (-(q - 2))
  let f := scaledDownTen (two.1) (two.2) p
  -- One quarter unit is `f.1 / f.2` grid steps.
  let lo := i.value * f.1 / f.2
  let hi := lo + 1
  let inLo := i.contains f.1 lo f.2
  let inHi := i.contains f.1 hi f.2
  let below := i.value * f.1 - lo * f.2
  let above := hi * f.2 - i.value * f.1
  if inLo && inHi then
    if below < above then some lo
    else if above < below then some hi
    else some (lo + lo % 2)
  else if inLo then some lo
  else if inHi then some hi
  else none

/-- The first grid, from `10 ^ p` on finer by ten each time, that has a multiple
in the interval. -/
def firstGrid (i : Interval) (q : Int) : Nat → Int → Nat × Int
  | 0, p => ((nearestOnGrid i q p).getD 0, p)
  | n + 1, p =>
      match nearestOnGrid i q p with
      | some k => (k, p)
      | none => firstGrid i q n (p - 1)

/-- A natural number without its trailing zeros, and how many there were. -/
def stripZeros : Nat → Nat → Nat × Nat
  | 0, k => (k, 0)
  | n + 1, k =>
      if k % 10 = 0 ∧ k ≠ 0 then
        let r := stripZeros n (k / 10)
        (r.1, r.2 + 1)
      else (k, 0)

/-- The shortest decimal that rounds to a positive finite word. -/
def shortest (x : Binary64) : Decimal :=
  let r := x.ratio
  let e := decimalExponent r.1 r.2
  let g := firstGrid x.interval x.exponent 16 e
  let s := stripZeros 20 g.1
  { digits := s.1
    exponent := g.2 + s.2 + ((toString s.1).length - 1 : Nat) }

/-- How a number is laid out once its digits are known. -/
structure Layout where
  /-- The least exponent of the first digit that is written positionally. -/
  leastPositional : Option Int
  /-- The least exponent of the first digit that is no longer written positionally. -/
  positionalLimit : Option Int
  /-- What follows a whole number. -/
  wholeSuffix : String
  /-- What stands between `e` and a positive exponent. -/
  exponentSign : String

namespace Layout

/-- The layout of JSON numbers: positional from `1e-5` up to `1e16`. -/
def json : Layout := ⟨some (-5), some 16, ".0", "+"⟩

/-- The layout of a wait in seconds: like JSON, without a sign on positive exponents. -/
def seconds : Layout := ⟨some (-5), some 16, ".0", ""⟩

/-- The layout of scores: always positional, whole numbers without a point. -/
def score : Layout := ⟨none, none, "", ""⟩

/-- Whether the digits of a decimal are written positionally. -/
def isPositional (l : Layout) (e : Int) : Bool :=
  l.leastPositional.all (· ≤ e) && l.positionalLimit.all (e < ·)

/-- A run of zeros. -/
def zeros (n : Nat) : String :=
  String.ofList (List.replicate n '0')

/-- Digits with the point after the digit of weight one. -/
def positional (l : Layout) (ds : List Char) (e : Int) : String :=
  match e with
  | .negSucc k => "0." ++ zeros k ++ String.ofList ds
  | .ofNat k =>
      if ds.length ≤ k + 1 then String.ofList ds ++ zeros (k + 1 - ds.length) ++ l.wholeSuffix
      else String.ofList (ds.take (k + 1)) ++ "." ++ String.ofList (ds.drop (k + 1))

/-- Digits with the point after the first of them, and the exponent. -/
def scientific (l : Layout) (ds : List Char) (e : Int) : String :=
  let tail := if ds.length ≤ 1 then "" else "." ++ String.ofList (ds.drop 1)
  let power := if e < 0 then toString e else l.exponentSign ++ toString e
  String.ofList (ds.take 1) ++ tail ++ "e" ++ power

/-- A finite number without its sign. -/
def renderMagnitude (l : Layout) (x : Binary64) : String :=
  if x.isZero then "0" ++ l.wholeSuffix
  else
    let d := x.shortest
    let ds := (toString d.digits).toList
    if l.isPositional d.exponent then l.positional ds d.exponent
    else l.scientific ds d.exponent

/-- A finite number in a layout. -/
def render (l : Layout) (x : Binary64) : String :=
  (if x.isNegative then "-" else "") ++ l.renderMagnitude (ofParts false x.magnitude)

end Layout

/-- A number as it is written in a score: infinities with a sign, a NaN as `NaN`. -/
def scoreText (x : Binary64) : String :=
  if x.isNaN then "NaN"
  else if x.isInfinite then (if x.isNegative then "-inf" else "+inf")
  else Layout.score.render x

end Binary64
end Courier
