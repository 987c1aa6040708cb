import Courier.Binary64.Shortest
import Courier.Bytes
import Courier.Calendar.Reader
import Courier.Text.Quoted

/-!
# Faults of JSON texts

A fault is a cause and the number of bytes that were not yet consumed when it
was found; the position follows from the whole text.

**Results.**
* `Cause.message`: the wording of a cause.
* `Fault.message`: the cause with its line and column.
-/

namespace Courier
namespace Json

/-- What was found where another type was expected. -/
inductive Found where
  | null
  | bool (b : Bool)
  | integer (n : Int)
  | float (x : Binary64)
  | string (s : String)
  | sequence
  | map

/-- The wording of what was found. -/
def Found.text : Found → String
  | .null => "null"
  | .bool b => "boolean `" ++ (if b then "true" else "false") ++ "`"
  | .integer n => "integer `" ++ toString n ++ "`"
  | .float x => "floating point `" ++ Binary64.Layout.json.render x ++ "`"
  | .string s => "string " ++ Text.quoted s
  | .sequence => "sequence"
  | .map => "map"

/-- Why a text is refused. -/
inductive Cause where
  | eofValue
  | eofList
  | eofObject
  | eofString
  | expectedValue
  | expectedIdent
  | expectedColon
  | expectedListComma
  | expectedObjectComma
  | trailingComma
  | keyNotString
  | trailingCharacters
  | recursionLimit
  | invalidNumber
  | numberOutOfRange
  | invalidEscape
  | controlCharacter
  | loneSurrogate
  | truncatedSurrogate
  | invalidUnicode
  | invalidType (found : Found) (expected : String)
  | invalidInteger (n : Int) (expected : String)
  | missingField (name : String)
  | duplicateField (name : String)
  | invalidLength (n : Nat) (expected : String)
  | invalidTimestamp (fault : Calendar.TimestampFault)

/-- The wording of a cause. -/
def Cause.message : Cause → String
  | .eofValue => "EOF while parsing a value"
  | .eofList => "EOF while parsing a list"
  | .eofObject => "EOF while parsing an object"
  | .eofString => "EOF while parsing a string"
  | .expectedValue => "expected value"
  | .expectedIdent => "expected ident"
  | .expectedColon => "expected `:`"
  | .expectedListComma => "expected `,` or `]`"
  | .expectedObjectComma => "expected `,` or `\x7d`"
  | .trailingComma => "trailing comma"
  | .keyNotString => "key must be a string"
  | .trailingCharacters => "trailing characters"
  | .recursionLimit => "recursion limit exceeded"
  | .invalidNumber => "invalid number"
  | .numberOutOfRange => "number out of range"
  | .invalidEscape => "invalid escape"
  | .controlCharacter => "control character (\\u0000-\\u001F) found while parsing a string"
  | .loneSurrogate => "lone leading surrogate in hex escape"
  | .truncatedSurrogate => "unexpected end of hex escape"
  | .invalidUnicode => "invalid unicode code point"
  | .invalidType found expected => "invalid type: " ++ found.text ++ ", expected " ++ expected
  | .invalidInteger n expected =>
      "invalid value: integer `" ++ toString n ++ "`, expected " ++ expected
  | .missingField name => "missing field `" ++ name ++ "`"
  | .duplicateField name => "duplicate field `" ++ name ++ "`"
  | .invalidLength n expected =>
      "invalid length " ++ toString n ++ ", expected " ++ expected
  | .invalidTimestamp fault => fault.message

/-- A cause and how many bytes were left when it was found. -/
structure Fault where
  cause : Cause
  left : Nat

/-- A fault before the bytes that are left. -/
def Fault.at (cause : Cause) (rest : Bytes) : Fault :=
  ⟨cause, rest.length⟩

/-- A fault at the first of the bytes that are left, or at the end. -/
def Fault.peek (cause : Cause) (rest : Bytes) : Fault :=
  ⟨cause, rest.length - 1⟩

/-- The line and the column behind some bytes: lines are counted from one,
columns are the bytes since the last line break. -/
def position (consumed : Bytes) : Nat × Nat :=
  consumed.foldl (fun p b => if b = 0x0A then (p.1 + 1, 0) else (p.1, p.2 + 1)) (1, 0)

/-- The wording of a fault found in a text. -/
def Fault.message (f : Fault) (text : Bytes) : String :=
  let p := position (text.take (text.length - f.left))
  f.cause.message ++ " at line " ++ toString p.1 ++ " column " ++ toString p.2

end Json
end Courier
