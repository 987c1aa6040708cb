import Courier.Binary64.Round
import Courier.Text.Numeral

/-!
# Floating-point literals

**Results.**
* `Binary64.ofLiteral?`: the number nearest to a decimal literal, an infinity or a NaN.
-/

namespace Courier
namespace Binary64

/-- The word nearest to `digits * 10 ^ e`. -/
def ofScientific (negative : Bool) (digits : Nat) (e : Int) : Binary64 :=
  -- Beyond these exponents the result is an infinity or a zero.
  if digits = 0 then ofParts negative 0
  else if 400 < e then ofParts negative infinityWord
  else if e < -(400 + (toString digits).length : Int) then ofParts negative 0
  else
    match e with
    | .ofNat k => ofRatio negative (digits * Nat.pow 10 k) 1
    | .negSucc k => ofRatio negative digits (Nat.pow 10 (k + 1))

/-- The magnitude of a literal without its sign. -/
def unsignedLiteral? (negative : Bool) (cs : List Char) : Option Binary64 :=
  let mantissa := cs.takeWhile fun c => c ≠ 'e' ∧ c ≠ 'E'
  let power := cs.drop mantissa.length
  let whole := mantissa.takeWhile (· ≠ '.')
  let fraction := (mantissa.drop whole.length).drop 1
  let e : Option Int :=
    if power = [] then some 0 else Numeral.integer? (-1000000) 1000000 (power.drop 1)
  match Numeral.digits? (whole ++ fraction), e with
  | some n, some e => some (ofScientific negative n (e - fraction.length))
  | _, _ => none

/-- The number written by a literal: `inf`, `NaN`, or decimal digits with an
optional point and an optional exponent, with an optional sign. -/
def ofLiteral? (s : String) : Option Binary64 :=
  let negative := s.toList.head? == some '-'
  let body := match s.toList with
    | '-' :: r => r
    | '+' :: r => r
    | r => r
  match (String.ofList body).toLower with
  | "inf" | "infinity" => some (ofParts negative infinityWord)
  | "nan" => some nan
  | _ => unsignedLiteral? negative body

end Binary64
end Courier
