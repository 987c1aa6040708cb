import Courier.Remote.Reply

/-!
# Nested answers

A client reads lists in lists only to a depth.  Where it gives up it tells how many
bytes it had read, the byte that comes next, and how many items were still to come
in each of the lists around.

**Results.**
* `Reply.wireSize`: the bytes of an answer on the wire.
* `Reply.overflow?`: where an answer is too deep.
* `Overflow.fault`: the fault that a client reports.
-/

namespace Courier
namespace Remote

/-- The lists within lists that a client reads. -/
def maxDepth : Nat := 100

/-- Where an answer is too deep. -/
structure Overflow where
  /-- The bytes up to the mark that begins the list that is too deep. -/
  offset : Nat
  /-- The items of that list. -/
  length : Nat
  /-- The items that were still to come in each list around it, from within. -/
  missing : List Nat
  /-- The items of the outermost list. -/
  outermost : Nat

namespace Overflow

/-- The first digit of a number, as a byte. -/
def firstDigit (n : Nat) : Nat :=
  ((toString n).toList.head?.map Char.toNat).getD 0

/-- The fault at an offset before a byte. -/
def faultAt (o : Overflow) (offset next : Nat) : Fault :=
  .refused <|
    "parse error - ParseError: Parse error at " ++ toString offset ++
    "\nUnexpected `" ++ toString next ++
    "`\nUnexpected Maximum recursion depth exceeded\n" ++
    String.join (o.missing.eraseDups.map fun n => "expected " ++ toString n ++ " more elements\n")

/-- The fault when the list is met. -/
def fault (o : Overflow) : Fault :=
  o.faultAt o.offset (firstDigit o.length)

/-- The fault of every later try: the client goes on where it was, but with the bytes
from the first one on. -/
def faultAgain (o : Overflow) : Fault :=
  o.faultAt 1 (firstDigit o.outermost)

end Overflow

namespace Reply

/-- The bytes of a line with a mark before it and its end behind it. -/
def lineSize (n : Nat) : Nat :=
  n + 3

mutual

/-- The bytes of an answer on the wire. -/
def wireSize : Reply → Nat
  | .nil => lineSize 2
  | .int n => lineSize (toString n.toInt).length
  | .bulk b => lineSize (toString b.length).length + b.length + 2
  | .status s => lineSize s.utf8ByteSize
  | .error s => lineSize s.utf8ByteSize
  | .array items => lineSize (toString items.length).length + wireSizeAll items

/-- The bytes of answers on the wire. -/
def wireSizeAll : List Reply → Nat
  | [] => 0
  | r :: rest => wireSize r + wireSizeAll rest

end

mutual

/-- Where an answer has more lists within lists than are left to read. -/
def overflowIn? (left : Nat) : Reply → Option Overflow
  | .array items =>
      match left with
      | 0 => some { offset := 1, length := items.length, missing := [], outermost := items.length }
      | left + 1 =>
          (overflowAmong? left items).map fun o =>
            { o with
              offset := lineSize (toString items.length).length + o.offset
              outermost := items.length }
  | _ => none

/-- Where the first of the items that has more lists within lists than are left to
read has them. -/
def overflowAmong? (left : Nat) : List Reply → Option Overflow
  | [] => none
  | r :: rest =>
      match overflowIn? left r with
      | some o => some { o with missing := o.missing ++ [rest.length + 1] }
      | none =>
          (overflowAmong? left rest).map fun o => { o with offset := wireSize r + o.offset }

end

/-- Where an answer is too deep. -/
def overflow? (r : Reply) : Option Overflow :=
  r.overflowIn? maxDepth

end Reply
end Remote
end Courier
