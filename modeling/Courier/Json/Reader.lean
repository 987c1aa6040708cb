import Courier.Json.Skip

/-!
# Reading JSON

A reader of a type takes the number of containers that may still be opened.  It
is given the text in front of the value and leaves the text behind it.

**Results.**
* `value`: any value.
* `Decode`: the types that can be read, with strings, integers, booleans,
  floating-point numbers, lists, optional values, objects and timestamps.
* `decode`: the value of a whole text.
-/

namespace Courier
namespace Json

/-- How many containers may be open at a time. -/
def maxDepth : Nat := 127

/-- What is wrong with a value of another type, and where it ends.  A container
is not entered. -/
def wrongType (α : Type) (expected : String) (s : Bytes) : Except Fault α :=
  let refuse (found : Found) (rest : Bytes) : Except Fault α :=
    .error (.at (.invalidType found expected) rest)
  match s with
  | [] => .error (.at .eofValue [])
  | b :: t =>
      if b = 0x6E then (word restOfNull t).bind fun r => refuse .null r.val
      else if b = 0x74 then (word restOfTrue t).bind fun r => refuse (.bool true) r.val
      else if b = 0x66 then (word restOfFalse t).bind fun r => refuse (.bool false) r.val
      else if b = 0x2D ∨ Bytes.isDigit b then
        let found := if b = 0x2D then
            (number false t).map fun (n, r) => (n, r.val)
          else (number true (b :: t)).map fun (n, r) => (n, r.val)
        found.bind fun (n, r) =>
          match n with
          | .integer n _ _ => refuse (.integer n) r
          | .float x _ => refuse (.float x) r
      else if b = 0x22 then (stringBody t).bind fun (x, r) => refuse (.string x) r.val
      else if b = 0x5B then refuse .sequence (b :: t)
      else if b = 0x7B then refuse .map (b :: t)
      else .error (.peek .expectedValue (b :: t))

/-- In front of an element of a list: whether there is one, and the text in
front of it or of the closing bracket. -/
def nextElement (first : Bool) (s : Bytes) : Except Fault (Bool × Tail s) :=
  match front s with
  | .ended => .error (.at .eofList [])
  | .byte b t h =>
      if b = 0x5D then .ok (false, ⟨b :: t, h⟩)
      else if first then .ok (true, ⟨b :: t, h⟩)
      else if b = 0x2C then
        match front t with
        | .ended => .error (.at .eofValue [])
        | .byte c u k =>
            if c = 0x5D then .error (.peek .trailingComma (c :: u))
            else .ok (true, Tail.second h k)
      else .error (.peek .expectedListComma (b :: t))

/-- The text behind a closing bracket. -/
def endList (s : Bytes) : Except Fault (Rest s) :=
  match front s with
  | .ended => .error (.at .eofList [])
  | .byte b t h =>
      if b = 0x5D then .ok (Rest.first h)
      else if b = 0x2C then
        match front t with
        | .byte c u _ =>
            .error (.peek (if c = 0x5D then .trailingComma else .trailingCharacters) (c :: u))
        | .ended => .error (.peek .trailingCharacters [])
      else .error (.peek .trailingCharacters (b :: t))

/-- In front of a member of an object: whether there is one, and the text in
front of its key or of the closing brace. -/
def nextMember (first : Bool) (s : Bytes) : Except Fault (Bool × Tail s) :=
  match front s with
  | .ended => .error (.at .eofObject [])
  | .byte b t h =>
      if b = 0x7D then .ok (false, ⟨b :: t, h⟩)
      else if first then
        if b = 0x22 then .ok (true, ⟨b :: t, h⟩) else .error (.peek .keyNotString (b :: t))
      else if b = 0x2C then
        match front t with
        | .ended => .error (.at .eofValue [])
        | .byte c u k =>
            if c = 0x22 then .ok (true, Tail.second h k)
            else if c = 0x7D then .error (.peek .trailingComma (c :: u))
            else .error (.peek .keyNotString (c :: u))
      else .error (.peek .expectedObjectComma (b :: t))

/-- The text behind a closing brace. -/
def endObject (s : Bytes) : Except Fault (Rest s) :=
  match front s with
  | .ended => .error (.at .eofObject [])
  | .byte b t h =>
      if b = 0x7D then .ok (Rest.first h)
      else if b = 0x2C then .error (.peek .trailingComma (b :: t))
      else .error (.peek .trailingCharacters (b :: t))

/-- The key in front of which `nextMember` stopped. -/
def memberKey : Reader String := fun s =>
  match s with
  | [] => .error (.at .eofObject [])
  | _ :: t => (stringBody t).map fun (k, r) => (k, r.behind)

/-- The text behind a colon. -/
def colon (s : Bytes) : Except Fault (Rest s) :=
  match front s with
  | .ended => .error (.at .eofObject [])
  | .byte b t h =>
      if b = 0x3A then .ok (Rest.first h)
      else .error (.peek .expectedColon (b :: t))

/-- The elements of a list behind its opening bracket, and the text behind the
closing one. `acc` holds the elements so far, last first. -/
def elementsFrom {α : Type} (item : Reader α) (first : Bool) (acc : List α) (s : Bytes) :
    Except Fault (List α × Rest s) :=
  match nextElement first s with
  | .error f => .error f
  | .ok (false, r) => (endList r.val).map fun q => (acc.reverse, r.rest q)
  | .ok (true, r) =>
      match item r.val with
      | .error f => .error f
      | .ok (v, q) =>
          (elementsFrom item false (v :: acc) q.val).map fun (vs, p) => (vs, r.rest (q.trans p))
termination_by s.length
decreasing_by exact Nat.lt_of_lt_of_le q.property r.property

/-- The members of an object behind its opening brace, and the text behind the
closing one. `acc` holds the members so far, last first. -/
def membersFrom {α : Type} (item : Reader α) (first : Bool) (acc : List (String × α))
    (s : Bytes) : Except Fault (List (String × α) × Rest s) :=
  match nextMember first s with
  | .error f => .error f
  | .ok (false, r) => (endObject r.val).map fun q => (acc.reverse, r.rest q)
  | .ok (true, r) =>
      match memberKey r.val with
      | .error f => .error f
      | .ok (k, q) =>
          match colon q.val with
          | .error f => .error f
          | .ok c =>
              match item c.val with
              | .error f => .error f
              | .ok (v, p) =>
                  (membersFrom item false ((k, v) :: acc) p.val).map fun (ms, z) =>
                    (ms, r.rest (q.trans (c.trans (p.trans z))))
termination_by s.length
decreasing_by
  have := p.property
  have := c.property
  have := q.property
  have := r.property
  omega

/-- Reads behind white space, given the first byte of the value and what follows it. -/
def atToken {α : Type}
    (read : (b : UInt8) → (t : Bytes) → Except Fault (α × Rest (b :: t))) : Reader α := fun s =>
  match front s with
  | .ended => .error (.at .eofValue [])
  | .byte b t h => (read b t).map fun (v, r) => (v, r.ofLe h)

/-- Any value, the entries of containers read by `inner?`; without it no
container may be opened. -/
def valueOf (inner? : Option (Reader Value)) : Reader Value :=
  atToken fun b t =>
    if b = 0x6E then (word restOfNull t).map fun r => (.null, r.behind)
    else if b = 0x74 then (word restOfTrue t).map fun r => (.bool true, r.behind)
    else if b = 0x66 then (word restOfFalse t).map fun r => (.bool false, r.behind)
    else if b = 0x2D then
      (number false t).map fun (n, r) => (.number n, r.behind)
    else if Bytes.isDigit b then (number true (b :: t)).map fun (n, r) => (.number n, r)
    else if b = 0x22 then
      (stringBody t).map fun (x, r) => (.string x, r.behind)
    else if b = 0x5B then
      match inner? with
      | none => .error (.peek .recursionLimit (b :: t))
      | some entry =>
          (elementsFrom entry true [] t).map fun (vs, r) =>
            (.array vs, r.behind)
    else if b = 0x7B then
      match inner? with
      | none => .error (.peek .recursionLimit (b :: t))
      | some entry =>
          (membersFrom entry true [] t).map fun (ms, r) =>
            (.object ms, r.behind)
    else .error (.peek .expectedValue (b :: t))

/-- Any value, with at most `depth` containers open at a time. -/
def value : (depth : Nat) → Reader Value
  | 0 => valueOf none
  | depth + 1 => valueOf (some (value depth))

/-- The types that can be read, given how many containers may be opened. -/
class Decode (α : Type) where
  read : (depth : Nat) → Reader α

/-- A value in its canonical form. -/
instance : Decode Value where
  read depth := fun s => (value depth s).map fun (v, r) => (v.normalize, r)

/-- A string, of which `expected` says what it should have been. -/
def stringOf (expected : String) : Reader String :=
  atToken fun b t =>
    if b = 0x22 then
      (stringBody t).map fun (x, r) => (x, r.behind)
    else wrongType _ expected (b :: t)

instance : Decode String where
  read _ := stringOf "a string"

/-- A number with its sign; anything else is not of the `expected` type. -/
def numberOf (expected : String) : Reader Number :=
  atToken fun b t =>
    if b = 0x2D then
      (number false t).map fun (n, r) => (n, r.behind)
    else if Bytes.isDigit b then number true (b :: t)
    else wrongType _ expected (b :: t)

/-- An integer between two bounds. -/
def integerOf (least most : Int) (expected : String) : Reader Int := fun s =>
  match numberOf expected s with
  | .error f => .error f
  | .ok (.integer n _ _, r) =>
      if least ≤ n ∧ n ≤ most then .ok (n, r)
      else .error (.at (.invalidInteger n expected) r.val)
  | .ok (.float x _, r) => .error (.at (.invalidType (.float x) expected) r.val)

/-- A signed 64-bit integer. -/
def int64 : Reader Int := integerOf Numeral.minInt64 Numeral.maxInt64 "i64"

instance : Decode UInt32 where
  read _ := fun s =>
    (integerOf 0 Numeral.maxNat32 "u32" s).map fun (n, r) => (UInt32.ofNat n.toNat, r)

instance : Decode UInt8 where
  read _ := fun s => (integerOf 0 255 "u8" s).map fun (n, r) => (UInt8.ofNat n.toNat, r)

instance : Decode Int64 where
  read _ := fun s => (int64 s).map fun (n, r) => (Int64.ofInt n, r)

/-- A number as the binary64 nearest to it. -/
instance : Decode Binary64 where
  read _ := fun s =>
    (numberOf "f64" s).map fun (n, r) =>
      match n with
      | .integer n _ _ => (Binary64.ofInt n, r)
      | .float x _ => (x, r)

instance : Decode Bool where
  read _ := atToken fun b t =>
    if b = 0x74 then (word restOfTrue t).map fun r => (true, r.behind)
    else if b = 0x66 then (word restOfFalse t).map fun r => (false, r.behind)
    else wrongType _ "a boolean" (b :: t)

/-- A list of values of one type. -/
instance {α : Type} [Decode α] : Decode (List α) where
  read depth := atToken fun b t =>
    if b = 0x5B then
      match depth with
      | 0 => .error (.peek .recursionLimit (b :: t))
      | d + 1 =>
          (elementsFrom (Decode.read d) true [] t).map fun (vs, r) =>
            (vs, r.behind)
    else wrongType _ "a sequence" (b :: t)

/-- `null` or a value. -/
def optional {α : Type} (read : Reader α) : Reader (Option α) := fun s =>
  match front s with
  | .byte b t h =>
      if b = 0x6E then (word restOfNull t).map fun r => (none, r.behind.ofLe h)
      else (read s).map fun (v, r) => (some v, r)
  | .ended => (read s).map fun (v, r) => (some v, r)

instance {α : Type} [Decode α] : Decode (Option α) where
  read depth := optional (Decode.read depth)

/-- An object in its canonical form. -/
instance : Decode Object where
  read depth := atToken fun b t =>
    if b = 0x7B then
      match depth with
      | 0 => .error (.peek .recursionLimit (b :: t))
      | d + 1 =>
          (membersFrom (value d) true [] t).map fun (ms, r) =>
            (Object.ofMembers ms, r.behind)
    else wrongType _ "a map" (b :: t)

/-- A timestamp in a string. -/
instance : Decode Calendar.Timestamp where
  read _ := fun s =>
    match stringOf "an RFC 3339 formatted date and time string" s with
    | .error f => .error f
    | .ok (x, r) =>
        match Calendar.readTimestamp x with
        | .ok t => .ok (t, r)
        | .error f => .error (.at (.invalidTimestamp f) r.val)

/-- The value of a whole text. -/
def decodeWith {α : Type} (read : Reader α) (text : Bytes) : Except Fault α :=
  match read text with
  | .error f => .error f
  | .ok (v, r) =>
      match front r.val with
      | .ended => .ok v
      | .byte b t _ => .error (.peek .trailingCharacters (b :: t))

/-- The value of a whole text. -/
def decode {α : Type} [Decode α] (text : Bytes) : Except Fault α :=
  decodeWith (Decode.read maxDepth) text

end Json
end Courier
