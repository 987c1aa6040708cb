import Courier.Calendar.Timestamp
import Courier.Text.Blank
import Courier.Text.Numeral

/-!
# Reading timestamps

The accepted texts are those of RFC 3339 and some more: white space may stand
before a number, before a separator and around the offset; months, days and
times may have one digit; a year may have a sign and then any number of digits.
A field out of its own range ends the reading; whether the fields together name
an instant is decided when all of them are read.

**Results.**
* `readTimestamp`: the instant a text names, converted to universal time.
* `TimestampFault.message`: what is wrong with a text.
-/

namespace Courier
namespace Calendar

/-- Why a text is no timestamp. -/
inductive TimestampFault where
  | invalid
  | tooShort
  | outOfRange
  | trailing
  | impossible
  deriving DecidableEq, Repr

/-- The wording of a fault. -/
def TimestampFault.message : TimestampFault → String
  | .invalid => "input contains invalid characters"
  | .tooShort => "premature end of input"
  | .outOfRange => "input is out of range"
  | .trailing => "trailing input"
  | .impossible => "no possible date and time matching input"

/-- The outcome of reading the front of a text, with what follows it. -/
abbrev Reading := Except TimestampFault

/-- Up to `width` digits, one at least. -/
def readDigits (width : Option Nat) (s : List Char) : Reading (Nat × List Char) :=
  match s with
  | [] => .error .tooShort
  | c :: _ =>
      if Numeral.isDigit c then
        let run := match width with
          | some w => (s.take w).takeWhile Numeral.isDigit
          | none => s.takeWhile Numeral.isDigit
        let n := Numeral.valueFrom 0 run
        if Numeral.maxInt64 < n then .error .outOfRange
        else .ok (n, s.drop run.length)
      else .error .invalid

/-- One or two digits after optional white space, for a number within bounds. -/
def readField (least greatest : Nat) (s : List Char) : Reading (Nat × List Char) := do
  let (n, r) ← readDigits (some 2) (Text.trimStart s)
  if least ≤ n ∧ n ≤ greatest then .ok (n, r) else .error .outOfRange

/-- A year after optional white space: up to four digits, or a sign and any
number of them. -/
def readYear (s : List Char) : Reading (Int × List Char) := do
  let (y, r) ← match Text.trimStart s with
    | '-' :: r => (readDigits none r).map fun (n, r) => (-(n : Int), r)
    | '+' :: r => (readDigits none r).map fun (n, r) => ((n : Int), r)
    | r => (readDigits (some 4) r).map fun (n, r) => ((n : Int), r)
  if -0x80000000 ≤ y ∧ y < 0x80000000 then .ok (y, r) else .error .outOfRange

/-- A separator after optional white space. -/
def readSeparator (sep : Char) (s : List Char) : Reading (Unit × List Char) :=
  match Text.trimStart s with
  | [] => .error .tooShort
  | c :: r => if c = sep then .ok ((), r) else .error .invalid

/-- The letter or space between date and time. -/
def readDivider : List Char → Reading (Unit × List Char)
  | [] => .error .tooShort
  | c :: r => if c = 'T' ∨ c = 't' ∨ c = ' ' then .ok ((), r) else .error .invalid

/-- The nanoseconds of a fraction; digits after the ninth count for nothing. -/
def readFraction : List Char → Reading (Nat × List Char)
  | '.' :: r => do
      let (n, rest) ← readDigits (some 9) r
      let width := r.length - rest.length
      .ok (n * Nat.pow 10 (9 - width), rest.dropWhile Numeral.isDigit)
  | s => .ok (0, s)

/-- Two digits that must be there; a lone ASCII character is too short. -/
def readPair : List Char → Except TimestampFault (Char × Char × List Char)
  | a :: b :: r => .ok (a, b, r)
  | [a] => .error (if a.toNat < 0x80 then .tooShort else .invalid)
  | [] => .error .tooShort

/-- The hours of an offset. -/
def readOffsetHours (s : List Char) : Reading (Nat × List Char) := do
  let (a, b, r) ← readPair s
  if Numeral.isDigit a ∧ Numeral.isDigit b then .ok (Numeral.valueFrom 0 [a, b], r)
  else .error .invalid

/-- The minutes of an offset, at most 59. -/
def readOffsetMinutes (s : List Char) : Reading (Nat × List Char) := do
  let (a, b, r) ← readPair s
  if Numeral.isDigit a ∧ Numeral.isDigit b then
    if a ≤ '5' then .ok (Numeral.valueFrom 0 [a, b], r) else .error .outOfRange
  else .error .invalid

/-- Hours and minutes of an offset in seconds, with colons or white space between. -/
def readOffsetSize (s : List Char) : Reading (Nat × List Char) := do
  let (hours, r) ← readOffsetHours s
  let (minutes, r) ← readOffsetMinutes (r.dropWhile fun c => c == ':' || Text.isBlank c)
  .ok (hours * 3600 + minutes * 60, r)

/-- An offset from universal time in seconds: `Z`, `UTC`, or a sign and a size. -/
def readOffset (s : List Char) : Reading (Int × List Char) :=
  let s := Text.trimStart s
  if (s.take 3).map Char.toLower = ['u', 't', 'c'] then .ok (0, s.drop 3)
  else
    match s with
    | [] => .error .tooShort
    | c :: r =>
        if c = 'Z' ∨ c = 'z' then .ok (0, r)
        else if c = '+' then (readOffsetSize r).map fun (n, r) => ((n : Int), r)
        else if c = '-' ∨ c = '−' then (readOffsetSize r).map fun (n, r) => (-(n : Int), r)
        else .error .invalid

/-- The fields of a timestamp text. -/
structure Fields where
  date : Date
  hour : Nat
  minute : Nat
  second : Nat
  nano : Nat
  offset : Int

/-- The fields of a text that has the right form, each in its range. -/
def readFields (s : List Char) : Reading (Fields × List Char) := do
  let (year, s) ← readYear s
  let (_, s) ← readSeparator '-' s
  let (month, s) ← readField 1 12 s
  let (_, s) ← readSeparator '-' s
  let (day, s) ← readField 1 31 s
  let (_, s) ← readDivider s
  let (hour, s) ← readField 0 23 s
  let (_, s) ← readSeparator ':' s
  let (minute, s) ← readField 0 59 s
  let (_, s) ← readSeparator ':' s
  let (second, s) ← readField 0 60 s
  let (nano, s) ← readFraction s
  let (offset, s) ← readOffset s
  .ok ({ date := ⟨year, month, day⟩, hour, minute, second, nano, offset }, s)

/-- The instant that fields name. -/
def Fields.toTimestamp (f : Fields) : Except TimestampFault Timestamp :=
  match f.date.toDay? with
  | none => .error .outOfRange
  | some day =>
      if minDay ≤ day ∧ day ≤ maxDay ∧ f.offset.natAbs < 86400 then
        let leap := f.second / 60
        let local_ := day * 86400 + (f.hour * 3600 + f.minute * 60 + (f.second - leap) : Nat)
        match Timestamp.ofUnix? (local_ - f.offset) (f.nano + leap * 1000000000) with
        | some t => .ok t
        | none => .error .impossible
      else .error .outOfRange

/-- The instant a text names. -/
def readTimestamp (s : String) : Except TimestampFault Timestamp := do
  let (fields, rest) ← readFields s.toList
  if Text.trimStart rest = [] then fields.toTimestamp else .error .trailing

end Calendar
end Courier
