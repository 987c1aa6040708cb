import Courier.Bytes
import Courier.Text.Glyph

/-!
# Quoted texts

The written form of a text in diagnostics: in double quotes, with a backslash
before a quote or a backslash, short escapes for five controls, and the code
point in braces for every other character that would not show.

**Results.**
* `quoted`: the written form of a text.
* `quotedList`: the written form of a list of texts.
-/

namespace Courier
namespace Text

/-- The written form of one character between double quotes. -/
def quotedChar (c : Char) : String :=
  match c with
  | '"' => "\\\""
  | '\\' => "\\\\"
  | '\n' => "\\n"
  | '\r' => "\\r"
  | '\t' => "\\t"
  | '\x00' => "\\0"
  | c =>
      if 0x20 ≤ c.toNat ∧ c.toNat < 0x7F then c.toString
      else if hasGlyph c then c.toString
      else "\\u\x7b" ++ Bytes.hexText c.toNat ++ "\x7d"

/-- A text in double quotes. -/
def quoted (s : String) : String :=
  "\"" ++ String.join (s.toList.map quotedChar) ++ "\""

/-- A list of texts, each in double quotes, in brackets. -/
def quotedList (xs : List String) : String :=
  "[" ++ ", ".intercalate (xs.map quoted) ++ "]"

end Text
end Courier
