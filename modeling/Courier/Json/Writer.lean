import Courier.Binary64.Shortest
import Courier.Json.Value
import Courier.Text.Utf8

/-!
# Writing JSON

The compact form: no white space, members in the order of the object, and only
quotes, backslashes and controls escaped in strings.

**Results.**
* `Value.write`: the bytes of a value.
* `Encode`: the types that can be written.
-/

namespace Courier
namespace Json

/-- The bytes of one character of a string. -/
def writeChar (c : Char) : Bytes :=
  match c with
  | '"' => [0x5C, 0x22]
  | '\\' => [0x5C, 0x5C]
  | '\x08' => [0x5C, 0x62]
  | '\t' => [0x5C, 0x74]
  | '\n' => [0x5C, 0x6E]
  | '\x0c' => [0x5C, 0x66]
  | '\r' => [0x5C, 0x72]
  | c =>
      if c.toNat < 0x20 then
        [0x5C, 0x75, 0x30, 0x30] ++
          [Bytes.hexDigit (c.toNat / 16), Bytes.hexDigit (c.toNat % 16)].map (UInt8.ofNat ·.toNat)
      else String.utf8EncodeChar c

/-- The bytes of a string in its quotes. -/
def writeString (s : String) : Bytes :=
  0x22 :: (s.toList.flatMap writeChar ++ [0x22])

/-- The bytes of a number. -/
def Number.write : Number → Bytes
  | .integer n _ _ => Bytes.ofAscii (toString n)
  | .float x _ => Bytes.ofAscii (Binary64.Layout.json.render x)

mutual

/-- The bytes of a value. -/
def Value.write : Value → Bytes
  | .null => [0x6E, 0x75, 0x6C, 0x6C]
  | .bool true => [0x74, 0x72, 0x75, 0x65]
  | .bool false => [0x66, 0x61, 0x6C, 0x73, 0x65]
  | .number n => n.write
  | .string s => writeString s
  | .array vs => 0x5B :: (writeItems vs ++ [0x5D])
  | .object ms => 0x7B :: (writeMembers ms ++ [0x7D])

/-- The bytes of items with commas between them. -/
def writeItems : List Value → Bytes
  | [] => []
  | [v] => v.write
  | v :: w :: vs => v.write ++ 0x2C :: writeItems (w :: vs)

/-- The bytes of members with commas between them. -/
def writeMembers : List (String × Value) → Bytes
  | [] => []
  | [(k, v)] => writeString k ++ 0x3A :: v.write
  | (k, v) :: m :: ms => writeString k ++ 0x3A :: (v.write ++ 0x2C :: writeMembers (m :: ms))

end

/-- The bytes of an object. -/
def Object.write (o : Object) : Bytes :=
  0x7B :: (writeMembers o.members ++ [0x7D])

/-- The bytes of a record from the names and the bytes of its fields. -/
def writeRecord (fields : List (String × Bytes)) : Bytes :=
  0x7B :: (List.intercalate [0x2C]
    (fields.map fun f => writeString f.1 ++ 0x3A :: f.2) ++ [0x7D])

/-- Why a value has no JSON form. -/
inductive EncodeFault where
  /-- A map has a key that is no string. -/
  | keyNotString
  deriving DecidableEq

/-- The wording of a fault. -/
def EncodeFault.message : EncodeFault → String
  | .keyNotString => "key must be a string"

/-- The types that can be written. -/
class Encode (α : Type) where
  write : α → Except EncodeFault Bytes

instance : Encode Value := ⟨fun v => .ok v.write⟩

instance : Encode String := ⟨fun s => .ok (writeString s)⟩

/-- A binary64; one that is not finite is written as `null`. -/
instance : Encode Binary64 where
  write x :=
    .ok (if x.isFinite then Bytes.ofAscii (Binary64.Layout.json.render x)
      else Value.null.write)

instance : Encode Bool := ⟨fun b => .ok (Value.bool b).write⟩

instance : Encode Int64 := ⟨fun n => .ok (Bytes.ofAscii (toString n.toInt))⟩

instance : Encode UInt32 := ⟨fun n => .ok (Bytes.ofAscii (toString n.toNat))⟩

instance : Encode UInt8 := ⟨fun n => .ok (Bytes.ofAscii (toString n.toNat))⟩

instance {α : Type} [Encode α] : Encode (Option α) where
  write
    | none => .ok Value.null.write
    | some v => Encode.write v

instance {α : Type} [Encode α] : Encode (List α) where
  write vs := do
    let items ← vs.mapM Encode.write
    .ok (0x5B :: (List.intercalate [0x2C] items ++ [0x5D]))

end Json
end Courier
