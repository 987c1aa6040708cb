import Courier.Binary64.Round
import Courier.Json.Fault
import Courier.Json.Value
import Courier.Text.Numeral
import Courier.Text.Utf8

/-!
# The tokens of JSON

White space, the three words, strings and numbers.  Every scanner takes what is
left of a text and returns a value with what is left behind it, which is shorter.

**Results.**
* `front`: what follows white space.
* `word`: the rest of `true`, `false` or `null`.
* `stringBody`: a string behind its opening quote.
* `number`: a number behind its sign.
-/

namespace Courier
namespace Json

/-- What is left of `s` when at least one byte was taken. -/
abbrev Rest (s : Bytes) := {t : Bytes // t.length < s.length}

/-- What is left of `s`, which may be all of it. -/
abbrev Tail (s : Bytes) := {t : Bytes // t.length ≤ s.length}

/-- Reads the front of a text. -/
abbrev Reader (α : Type) := (s : Bytes) → Except Fault (α × Rest s)

/-- All of a text. -/
def Tail.all (s : Bytes) : Tail s :=
  ⟨s, Nat.le_refl _⟩

/-- A rest, whether or not a byte was taken. -/
def Rest.toTail {s : Bytes} (r : Rest s) : Tail s :=
  ⟨r.val, Nat.le_of_lt r.property⟩

/-- What is left when a byte is taken first. -/
def Tail.behind {b : UInt8} {s : Bytes} (r : Tail s) : Rest (b :: s) :=
  ⟨r.val, Nat.lt_succ_of_le r.property⟩

/-- What is left when a byte is taken first and more behind it. -/
def Rest.behind {b : UInt8} {s : Bytes} (r : Rest s) : Rest (b :: s) :=
  r.toTail.behind

/-- A tail of a tail is a tail. -/
def Tail.trans {s : Bytes} (q : Tail s) (r : Tail q.val) : Tail s :=
  ⟨r.val, Nat.le_trans r.property q.property⟩

/-- A tail of a rest is a rest. -/
def Rest.tail {s : Bytes} (q : Rest s) (r : Tail q.val) : Rest s :=
  ⟨r.val, Nat.lt_of_le_of_lt r.property q.property⟩

/-- A rest of a tail is a rest. -/
def Tail.rest {s : Bytes} (q : Tail s) (r : Rest q.val) : Rest s :=
  ⟨r.val, Nat.lt_of_lt_of_le r.property q.property⟩

/-- A rest of a rest is a rest. -/
def Rest.trans {s : Bytes} (q : Rest s) (r : Rest q.val) : Rest s :=
  q.tail r.toTail

/-- What is left of a shorter text is left of a longer one. -/
def Rest.ofLe {s t : Bytes} (r : Rest t) (h : t.length ≤ s.length) : Rest s :=
  ⟨r.val, Nat.lt_of_lt_of_le r.property h⟩

/-- What is behind the first byte of a text no longer than another. -/
def Rest.first {b : UInt8} {s t : Bytes} (h : (b :: t).length ≤ s.length) : Rest s :=
  (Tail.all t).behind.ofLe h

/-- A text no longer than what is behind the first byte of another. -/
def Tail.second {b c : UInt8} {s t u : Bytes} (h : (b :: t).length ≤ s.length)
    (k : (c :: u).length ≤ t.length) : Tail s :=
  ⟨c :: u, Nat.le_trans k (Nat.le_of_succ_le h)⟩

/-- Whether a byte is white space between tokens. -/
def isBlank (b : UInt8) : Bool :=
  b == 0x20 || b == 0x09 || b == 0x0A || b == 0x0D

theorem length_dropWhile_le
    (p : UInt8 → Bool)
    (s : Bytes) :
    (s.dropWhile p).length ≤ s.length :=
  (List.dropWhile_suffix p).length_le

/-- What follows the white space at the front of a text: its end, or a byte and
what is behind it. -/
inductive Front (s : Bytes) where
  | ended
  | byte (b : UInt8) (t : Bytes) (h : (b :: t).length ≤ s.length)

/-- What follows the white space at the front. -/
def front (s : Bytes) : Front s :=
  match h : s.dropWhile isBlank with
  | [] => .ended
  | b :: t => .byte b t (h ▸ length_dropWhile_le isBlank s)

/-- The remaining letters of a word. -/
def word : (letters : List UInt8) → (s : Bytes) → Except Fault (Tail s)
  | [], s => .ok (.all s)
  | _ :: _, [] => .error (.at .eofValue [])
  | l :: ls, b :: t =>
      if b = l then (word ls t).map fun r => r.behind.toTail
      else .error (.at .expectedIdent t)

/-- The word `true` behind its first letter. -/
def restOfTrue : List UInt8 := [0x72, 0x75, 0x65]

/-- The word `false` behind its first letter. -/
def restOfFalse : List UInt8 := [0x61, 0x6C, 0x73, 0x65]

/-- The word `null` behind its first letter. -/
def restOfNull : List UInt8 := [0x75, 0x6C, 0x6C]

/-- Four hexadecimal digits. -/
def hexUnit (s : Bytes) : Except Fault (Nat × Tail s) :=
  match s with
  | a :: b :: c :: d :: t =>
      match Bytes.hexValue? a, Bytes.hexValue? b, Bytes.hexValue? c, Bytes.hexValue? d with
      | some a, some b, some c, some d =>
          .ok (((a * 16 + b) * 16 + c) * 16 + d,
            (Tail.all t).behind.behind.behind.behind.toTail)
      | _, _, _, _ => .error (.at .invalidEscape t)
  | _ => .error (.at .eofString [])

/-- One byte that must be there and equal to the given one. -/
def surrogateMark (mark : UInt8) (s : Bytes) : Except Fault (Tail s) :=
  match s with
  | [] => .error (.at .eofString [])
  | b :: t =>
      if b = mark then .ok (Tail.all t).behind.toTail
      else .error (.at .truncatedSurrogate t)

/-- The character of an escape behind `\u`; a high surrogate takes the low one
that must follow it. -/
def unicodeEscape (s : Bytes) : Except Fault (Char × Tail s) := do
  let (n, r) ← hexUnit s
  if 0xDC00 ≤ n ∧ n ≤ 0xDFFF then .error (.at .loneSurrogate r.val)
  else if 0xD800 ≤ n ∧ n ≤ 0xDBFF then
    let r₁ ← surrogateMark 0x5C r.val
    let r₂ ← surrogateMark 0x75 r₁.val
    let (m, r₃) ← hexUnit r₂.val
    if 0xDC00 ≤ m ∧ m ≤ 0xDFFF then
      .ok (Char.ofNat ((n - 0xD800) * 0x400 + (m - 0xDC00) + 0x10000),
        r.trans (r₁.trans (r₂.trans r₃)))
    else .error (.at .loneSurrogate r₃.val)
  else .ok (Char.ofNat n, r)

/-- The character of a one-letter escape. -/
def shortEscape? (b : UInt8) : Option Char :=
  if b = 0x22 then some '"'
  else if b = 0x5C then some '\\'
  else if b = 0x2F then some '/'
  else if b = 0x62 then some '\x08'
  else if b = 0x66 then some '\x0c'
  else if b = 0x6E then some '\n'
  else if b = 0x72 then some '\r'
  else if b = 0x74 then some '\t'
  else none

/-- The character of an escape behind its backslash. -/
def escape (s : Bytes) : Except Fault (Char × Tail s) :=
  match s with
  | [] => .error (.at .eofString [])
  | b :: t =>
      match shortEscape? b with
      | some c => .ok (c, (Tail.all t).behind.toTail)
      | none =>
          if b = 0x75 then (unicodeEscape t).map fun (c, r) => (c, r.behind.toTail)
          else .error (.at .invalidEscape t)

/-- A string behind its opening quote.  `acc` holds the characters so far, last
first, and `bad` the count of decoded bytes from the first ill-formed one on.  That
is reported once the string is complete, at as many bytes before its end. -/
def stringBodyFrom (acc : List Char) (bad : Option Nat) (s : Bytes) :
    Except Fault (String × Rest s) :=
  match s with
  | [] => .error (.at .eofString [])
  | b :: t =>
      if b = 0x22 then
        match bad with
        | none => .ok (String.ofList acc.reverse, (Tail.all t).behind)
        | some decoded => .error ⟨.invalidUnicode, decoded + t.length⟩
      else if b = 0x5C then
        match escape t with
        | .error f => .error f
        | .ok (c, r) =>
            (stringBodyFrom (c :: acc) (bad.map (· + c.utf8Size)) r.val).map fun (x, q) =>
              (x, (r.rest q).behind)
      else if b < 0x20 then .error (.at .controlCharacter t)
      else
        let p := Utf8.front b t
        let width := t.length + 1 - p.2.length
        let acc := match p.1 with
          | some c => c :: acc
          | none => acc
        let bad := match p.1 with
          | some _ => bad.map (· + width)
          | none => some (bad.getD 0 + width)
        (stringBodyFrom acc bad p.2).map fun (x, q) =>
          (x, (q.ofLe (Utf8.front_length_le b t)).behind)
termination_by s.length
decreasing_by
  · exact Nat.lt_succ_of_le r.property
  · exact Nat.lt_succ_of_le (Utf8.front_length_le b t)

/-- A string behind its opening quote. -/
def stringBody (s : Bytes) : Except Fault (String × Rest s) :=
  stringBodyFrom [] none s

/-- The digits that fit an unsigned 64-bit word behind the value `acc`: the
value with them, how many there were, and the digits that are left. -/
def fitDigits (limit acc : Nat) : List UInt8 → Nat × Nat × List UInt8
  | [] => (acc, 0, [])
  | d :: ds =>
      let n := acc * 10 + Bytes.digitValue d
      if limit < n then (acc, 0, d :: ds)
      else
        let r := fitDigits limit n ds
        (r.1, r.2.1 + 1, r.2.2)

/-- The digits at the front. -/
def digitRun (s : Bytes) : List UInt8 :=
  s.takeWhile Bytes.isDigit

/-- What follows the digits at the front. -/
def afterDigits (s : Bytes) : Tail s :=
  ⟨s.dropWhile Bytes.isDigit, length_dropWhile_le _ _⟩

/-- The number `± significand * 10 ^ e` in front of what is left. -/
def scaled (positive : Bool) (significand : Nat) (e : Int) (s : Bytes) :
    Except Fault (Number × Tail s) :=
  let signed (x : Binary64) : Binary64 := if positive then x else x.neg
  match (Binary64.decimal? significand e).bind fun x => Number.ofBinary64? (signed x) with
  | some n => .ok (n, .all s)
  | none => .error (.at .numberOutOfRange s)

/-- A zero of the given sign. -/
def signedZero (positive : Bool) : Number :=
  if positive then .float Binary64.zero (by decide) else .float Binary64.zero.neg (by decide)

/-- The greatest exponent that is taken at its value. -/
def maxExponent : Nat := 0x7FFFFFFF

/-- The exponent behind `e`, the number so far being `± significand * 10 ^ e`. -/
def exponentPart (positive : Bool) (significand : Nat) (e : Int) (s : Bytes) :
    Except Fault (Number × Tail s) :=
  let (up, t) : Bool × Tail s :=
    match s with
    | b :: t =>
        if b = 0x2B then (true, (Tail.all t).behind.toTail)
        else if b = 0x2D then (false, (Tail.all t).behind.toTail)
        else (true, .all (b :: t))
    | [] => (true, .all [])
  match t.val with
  | [] => .error (.at .eofValue [])
  | b :: u =>
      if Bytes.isDigit b then
        let r := afterDigits t.val
        let fit := fitDigits maxExponent 0 (digitRun t.val)
        if fit.2.2 = [] then
          let power : Int := if up then fit.1 else -(fit.1 : Int)
          (scaled positive significand (e + power) r.val).map fun (n, q) => (n, t.trans (r.trans q))
        else if up ∧ significand ≠ 0 then
          .error ⟨.numberOutOfRange, fit.2.2.length - 1 + r.val.length⟩
        else .ok (signedZero positive, t.trans r)
      else .error (.at .invalidNumber u)

/-- Whether a byte starts an exponent. -/
def isExponentMark (b : UInt8) : Bool :=
  b == 0x65 || b == 0x45

/-- An exponent if there is one, else the number as it is. -/
def maybeExponent (positive : Bool) (significand : Nat) (e : Int) (s : Bytes) :
    Except Fault (Number × Tail s) :=
  match s with
  | b :: t =>
      if isExponentMark b then
        (exponentPart positive significand e t).map fun (n, r) => (n, r.behind.toTail)
      else scaled positive significand e (b :: t)
  | [] => scaled positive significand e []

/-- The digits behind the point, and an exponent if there is one. -/
def fractionPart (positive : Bool) (significand : Nat) (e : Int) (s : Bytes) :
    Except Fault (Number × Tail s) :=
  if digitRun s = [] then
    .error (if s = [] then .at .eofValue [] else .peek .invalidNumber s)
  else
    let r := afterDigits s
    let fit := fitDigits Numeral.maxNat64 significand (digitRun s)
    (maybeExponent positive fit.1 (e - fit.2.1) r.val).map fun (n, q) => (n, r.trans q)

/-- An integer of the given sign; a negative one below the signed range, and
minus zero, are floating-point numbers. -/
def whole (positive : Bool) (n : Nat) (s : Bytes) : Except Fault (Number × Tail s) :=
  if positive then
    match Number.ofInt? n with
    | some m => .ok (m, .all s)
    | none => scaled true n 0 s
  else if n = 0 ∨ 0x8000000000000000 < n then scaled false n 0 s
  else
    match Number.ofInt? (-(n : Int)) with
    | some m => .ok (m, .all s)
    | none => scaled false n 0 s

/-- What follows the digits before a point: `extra` of them did not fit the
significand and count as powers of ten. -/
def afterWhole (positive : Bool) (significand extra : Nat) (s : Bytes) :
    Except Fault (Number × Tail s) :=
  match s with
  | b :: t =>
      if b = 0x2E then
        (fractionPart positive significand extra t).map fun (n, r) => (n, r.behind.toTail)
      else if isExponentMark b then
        (exponentPart positive significand extra t).map fun (n, r) => (n, r.behind.toTail)
      else if extra = 0 then whole positive significand (b :: t)
      else scaled positive significand extra (b :: t)
  | [] =>
      if extra = 0 then whole positive significand []
      else scaled positive significand extra []

/-- A number behind its sign. -/
def number (positive : Bool) (s : Bytes) : Except Fault (Number × Rest s) :=
  match s with
  | [] => .error (.at .eofValue [])
  | b :: t =>
      if b = 0x30 then
        if digitRun t = [] then
          (afterWhole positive 0 0 t).map fun (n, r) => (n, r.behind)
        else .error (.peek .invalidNumber t)
      else if Bytes.isDigit b then
        let fit := fitDigits Numeral.maxNat64 0 (digitRun (b :: t))
        let r := afterDigits t
        (afterWhole positive fit.1 fit.2.2.length r.val).map fun (n, q) => (n, (r.trans q).behind)
      else .error (.at .invalidNumber t)

end Json
end Courier
