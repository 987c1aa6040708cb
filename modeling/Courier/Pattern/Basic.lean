import Courier.Text.Blank
import Courier.Text.Letter

/-!
# Patterns

Regular expressions over characters.  Of several ways to match, those tried first
are preferred: the left one of two alternatives, and more repetitions before fewer
unless the repetition is lazy.

**Results.**
* `Pattern.ends`: the places at which a match may end, the preferred one first.
* `Pattern.covers`: whether the preferred match takes a whole text.
-/

namespace Courier

/-- A set of characters. -/
inductive CharClass where
  | range (first last : Char)
  /-- The characters with a property. -/
  | property (p : Char → Bool)
  | union (classes : List CharClass)
  | inter (a b : CharClass)
  | minus (a b : CharClass)
  /-- The characters in exactly one of two classes. -/
  | either (a b : CharClass)
  | complement (a : CharClass)

namespace CharClass

/-- An ASCII letter in the other case; any other character stays. -/
def otherCase (c : Char) : Char :=
  if c.toUpper = c then c.toLower else c.toUpper

mutual

/-- Whether a class contains a character; without case, an ASCII letter stands for
both of its forms. -/
def contains (anyCase : Bool) (c : Char) : CharClass → Bool
  | .range first last =>
      let within (d : Char) : Bool := first ≤ d && d ≤ last
      within c || (anyCase && within (otherCase c))
  | .property p => p c
  | .union classes => anyContains anyCase c classes
  | .inter a b => contains anyCase c a && contains anyCase c b
  | .minus a b => contains anyCase c a && !contains anyCase c b
  | .either a b => contains anyCase c a != contains anyCase c b
  | .complement a => !contains anyCase c a

/-- Whether one of the classes contains a character. -/
def anyContains (anyCase : Bool) (c : Char) : List CharClass → Bool
  | [] => false
  | a :: rest => contains anyCase c a || anyContains anyCase c rest

end

/-- The class of one character. -/
def single (c : Char) : CharClass := .range c c

end CharClass

/-- A condition on a place in a text. -/
inductive Anchor where
  | textStart
  | textEnd
  | lineStart
  | lineEnd
  deriving DecidableEq

/-- A regular expression. -/
inductive Pattern where
  | empty
  | char (anyCase : Bool) (c : CharClass)
  | anchor (a : Anchor)
  | seq (a b : Pattern)
  | alt (a b : Pattern)
  /-- Any number of times, as often as possible or as rarely. -/
  | many (greedy : Bool) (a : Pattern)

namespace Anchor

/-- Whether a place in a text meets a condition. -/
def holds (text : List Char) (i : Nat) : Anchor → Bool
  | .textStart => i == 0
  | .textEnd => i == text.length
  | .lineStart => i == 0 || text[i - 1]? == some '\n'
  | .lineEnd => i == text.length || text[i]? == some '\n'

end Anchor

namespace Pattern

/-- Once or not at all. -/
def optional (greedy : Bool) (a : Pattern) : Pattern :=
  if greedy then .alt a .empty else .alt .empty a

/-- The places that repetitions of a step lead to from a place, the preferred first.
Places in `seen` were tried before, and a step that takes nothing ends the
repetition; so no more than one step to a character is taken. -/
def repeatFrom (step : Nat → List Nat) (greedy : Bool) :
    (fuel : Nat) → (seen : List Nat) → Nat → List Nat × List Nat
  | 0, seen, i => ([i], seen)
  | fuel + 1, seen, i =>
      if seen.contains i then ([], seen)
      else
        let (more, seen) := (step i).foldl (fun acc j =>
          if j = i then (acc.1 ++ [i], acc.2)
          else
            let r := repeatFrom step greedy fuel acc.2 j
            (acc.1 ++ r.1, r.2)) ([], i :: seen)
        (if greedy then more ++ [i] else i :: more, seen)

/-- The places at which a match that begins at a place may end, the preferred first. -/
def ends (text : List Char) : Pattern → Nat → List Nat
  | .empty, i => [i]
  | .char anyCase c, i => if text[i]?.any (c.contains anyCase) then [i + 1] else []
  | .anchor a, i => if a.holds text i then [i] else []
  | .seq a b, i => ((ends text a i).flatMap (ends text b)).eraseDups
  | .alt a b, i => (ends text a i ++ ends text b i).eraseDups
  | .many greedy a, i =>
      (repeatFrom (ends text a) greedy (text.length + 1) [] i).1.eraseDups

/-- Whether the preferred match from the start takes a whole text. -/
def covers (p : Pattern) (text : String) : Bool :=
  (p.ends text.toList 0).head? == some text.toList.length

end Pattern
end Courier
