import Courier.Log.Line
import Courier.Pattern.Reader
import Courier.Text.Utf8

/-!
# Log directives

A directive selects log lines by a level: all of them, those of a target, those that
have a field, or those within an activity.  It is a level, a target, or a target with
an activity and a field in brackets, and a level behind an equals sign.

The parts of a directive are found in its text without the white space around it, and
are cut at the places so found from the text with the white space.

**Results.**
* `LogDirective.ofText?`: the directive of a text, if it is well formed.
-/

namespace Courier

/-- A condition on the value of a field. -/
inductive ValueCondition where
  /-- A truth value or a number, which no text equals. -/
  | scalar
  | pattern (text : String) (p : Pattern)

/-- A condition on a field: it is there, or it is there and its value meets a condition. -/
structure FieldCondition where
  name : String
  value : Option ValueCondition

/-- A directive: lines up to a rank are written. -/
structure LogDirective where
  target : Option String := none
  activity : Option String := none
  field : Option FieldCondition := none
  limit : Nat

namespace ValueCondition

/-- Whether two conditions are written alike. -/
def isSame : ValueCondition → ValueCondition → Bool
  | .scalar, .scalar => true
  | .pattern a _, .pattern b _ => a == b
  | _, _ => false

/-- Whether a text meets a condition. -/
def isMet (text : String) : ValueCondition → Bool
  | .scalar => false
  | .pattern _ p => p.covers text

/-- Whether a text is a floating-point numeral: digits with at most one point among
them and an exponent, infinity, or no number, with a sign. -/
def isDecimalText (s : String) : Bool :=
  let body := match s.toList with
    | '+' :: r => r
    | '-' :: r => r
    | r => r
  let word := Text.lowerAscii (String.ofList body)
  let mantissa := body.takeWhile fun c => c ≠ 'e' && c ≠ 'E'
  let exponent := match body.drop (mantissa.length + 1) with
    | '+' :: r => r
    | '-' :: r => r
    | r => r
  let digits := mantissa.filter (· ≠ '.')
  word ∈ ["inf", "infinity", "nan"] ||
    (digits ≠ [] && digits.all Numeral.isDigit && mantissa.length ≤ digits.length + 1 &&
      (mantissa.length = body.length || (exponent ≠ [] && exponent.all Numeral.isDigit)))

/-- Whether a text is a truth value or a number. -/
def isScalarText (s : String) : Bool :=
  s = "true" || s = "false" || isDecimalText s

/-- The condition of a text, if it is well formed. -/
def ofText? (s : String) : Option ValueCondition :=
  if isScalarText s then some .scalar else (Pattern.ofText? s).map (.pattern s)

end ValueCondition

namespace FieldCondition

/-- Whether two conditions are written alike. -/
def isSame (a b : FieldCondition) : Bool :=
  a.name == b.name &&
    match a.value, b.value with
    | some v, some w => v.isSame w
    | none, none => true
    | _, _ => false

/-- The condition of a text: a name, and a value behind an equals sign; what stands
behind a second one counts for nothing. -/
def ofText? (s : String) : Option FieldCondition :=
  match Text.splitOn '=' s.toList with
  | [] => none
  | [name] => some ⟨String.ofList name, none⟩
  | name :: value :: _ =>
      (ValueCondition.ofText? (String.ofList value)).map fun v => ⟨String.ofList name, some v⟩

end FieldCondition

namespace LogDirective

/-- The rank up to which everything is written. -/
def allRanks : Nat := 5

/-- The rank that a level stands for, by name in any case or by number. -/
def rank? (s : String) : Option Nat :=
  let names := [("off", 0), ("error", 1), ("warn", 2), ("info", 3), ("debug", 4), ("trace", 5)]
  match Numeral.natural? allRanks s.toList with
  | some n => some n
  | none => names.lookup (Text.lowerAscii s)

/-- The rank behind an equals sign; nothing there stands for everything. -/
def limit? (s : String) : Option Nat :=
  if s = "" then some allRanks else rank? s

/-- Whether a directive may begin with a character. -/
def isStart (c : Char) : Bool :=
  Text.isAlphanumeric c || c = '-' || c = ':' || c = '_'

/-- The part of a text between two of its bytes. -/
def cut? (text : Bytes) (first last : Nat) : Option String :=
  Utf8.text? ((text.take last).drop first)

/-- The part of a text from one of its bytes on. -/
def rest? (text : Bytes) (first : Nat) : Option String :=
  Utf8.text? (text.drop first)

/-- The bytes of characters. -/
def width (cs : List Char) : Nat :=
  (Utf8.encodeChars cs).length

/-- The directive with the level that stands at a place, behind everything else. -/
def withLevel? (text : Bytes) (d : LogDirective) (place : Nat) (cs : List Char) :
    Option LogDirective :=
  match cs with
  | [] => some { d with limit := allRanks }
  | '=' :: _ => do
      let level ← rest? text (place + 1)
      let limit ← limit? level
      some { d with limit }
  | _ => none

/-- The directive with the field that stands at a place, behind its opening brace. -/
def withField? (text : Bytes) (d : LogDirective) (place : Nat) (cs : List Char) :
    Option LogDirective := do
  let inside := cs.takeWhile (· ≠ '\x7d')
  let last := place + width inside
  match cs.drop inside.length with
  | _ :: ']' :: rest =>
      let s ← cut? text place last
      if s = "" then none
      let field ← FieldCondition.ofText? s
      withLevel? text { d with field := some field } (last + 2) rest
  | _ => none

/-- The directive with the activity that stands at a place, behind its opening
bracket; in front of a field it may be left out. -/
def withActivity? (text : Bytes) (d : LogDirective) (place : Nat) (cs : List Char) :
    Option LogDirective := do
  let inside := cs.takeWhile fun c => c ≠ ']' && c ≠ '\x7b'
  let last := place + width inside
  let name ← cut? text place last
  match cs.drop inside.length with
  | ']' :: rest => withLevel? text { d with activity := some name } (last + 1) rest
  | '\x7b' :: rest =>
      let activity := if name = "" then none else some name
      withField? text { d with activity } (last + 1) rest
  | _ => none

/-- The directive of a level or a target alone. -/
def ofWord (s : String) : LogDirective :=
  match rank? s with
  | some limit => { limit }
  | none => { target := some s, limit := allRanks }

/-- The directive of a text. -/
def ofText? (s : String) : Option LogDirective :=
  let text := Utf8.encode s
  let cs := (Text.trim s).toList
  match cs with
  | [] => none
  | '[' :: rest => withActivity? text { limit := allRanks } 1 rest
  | c :: _ =>
      if !isStart c then none
      else do
        let name := cs.takeWhile fun d => d ≠ '=' && d ≠ '['
        let last := width name
        match cs.drop name.length with
        | [] => some (ofWord s)
        | '[' :: rest => do
            let target ← cut? text 0 last
            withActivity? text { target := some target, limit := allRanks } (last + 1) rest
        | rest => do
            let target ← cut? text 0 last
            withLevel? text { target := some target, limit := allRanks } last rest

end LogDirective
end Courier
