import Courier.Text.Blank
import Courier.Text.Utf8

/-!
# Percent-encoded texts

A percent sign and two hexadecimal digits stand for a byte; a percent sign
without them stands for itself.

**Results.**
* `percentDecode`: the bytes of a percent-encoded text.
* `readForm`: the fields of a form, with `+` for a space.
-/

namespace Courier
namespace Text

/-- The bytes of percent-encoded bytes. -/
def percentDecode : Bytes → Bytes
  | [] => []
  | [b] => [b]
  | [b, c] => [b, c]
  | b :: c :: d :: rest =>
      match b == 0x25, Bytes.hexValue? c, Bytes.hexValue? d with
      | true, some h, some l => UInt8.ofNat (16 * h + l) :: percentDecode rest
      | _, _, _ => b :: percentDecode (c :: d :: rest)

/-- The text of percent-encoded characters, if its bytes are well formed. -/
def percentText? (cs : List Char) : Option String :=
  Utf8.text? (percentDecode (Utf8.encodeChars cs))

/-- The text of one name or value of a form. -/
def formText (cs : List Char) : String :=
  Utf8.textLossy (percentDecode (Utf8.encodeChars (cs.map fun c => if c = '+' then ' ' else c)))

/-- The name and the value of one field of a form. -/
def formField (cs : List Char) : String × String :=
  let name := cs.takeWhile (· ≠ '=')
  (formText name, formText (cs.drop (name.length + 1)))

/-- The fields of a form; empty pieces between ampersands count for nothing. -/
def readForm (cs : List Char) : List (String × String) :=
  ((splitOn '&' cs).filter (· ≠ [])).map formField

/-- The last value of a field of a form. -/
def formValue? (fields : List (String × String)) (name : String) : Option String :=
  (fields.reverse.find? fun f => f.1 = name).map (·.2)

end Text
end Courier
