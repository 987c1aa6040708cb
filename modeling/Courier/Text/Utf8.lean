import Courier.Bytes

/-!
# UTF-8

A byte string is read one character at a time.  Where no character starts, the
reader passes over the longest prefix that begins a well-formed sequence (one
byte at least), so a damaged text is cut into maximal ill-formed parts.

**Results.**
* `front`: the character or the ill-formed part at the front.
* `front_length_le`: what follows is no longer than what followed the first byte.
* `decode?`: the text of a well-formed byte string.
* `decodeLossy`: any byte string, with U+FFFD for each ill-formed part.
* `encode`: the bytes of a text.
-/

namespace Courier
namespace Utf8

/-- Whether a byte continues a sequence. -/
def isTail (b : UInt8) : Bool :=
  0x80 ≤ b && b ≤ 0xBF

/-- How many bytes follow a lead byte, if it is one. -/
def owed (lead : UInt8) : Option Nat :=
  if lead < 0x80 then some 0
  else if 0xC2 ≤ lead && lead ≤ 0xDF then some 1
  else if 0xE0 ≤ lead && lead ≤ 0xEF then some 2
  else if 0xF0 ≤ lead && lead ≤ 0xF4 then some 3
  else none

/-- Whether `b` may be the second byte after `lead`: no overlong form, no
surrogate, nothing above U+10FFFF. -/
def admitsSecond (lead b : UInt8) : Bool :=
  if lead = 0xE0 then 0xA0 ≤ b && b ≤ 0xBF
  else if lead = 0xED then 0x80 ≤ b && b ≤ 0x9F
  else if lead = 0xF0 then 0x90 ≤ b && b ≤ 0xBF
  else if lead = 0xF4 then 0x80 ≤ b && b ≤ 0x8F
  else isTail b

/-- The payload bits of a lead byte that owes `n` bytes. -/
def leadBits (lead : UInt8) (n : Nat) : Nat :=
  lead.toNat % Nat.pow 2 (6 - n)

/-- Reads the `n` remaining bytes of a character whose bits so far are `acc`. -/
def tails : Nat → Nat → Bytes → Option Char × Bytes
  | 0, acc, t => (some (Char.ofNat acc), t)
  | _ + 1, _, [] => (none, [])
  | n + 1, acc, b :: t =>
      if isTail b then tails n (acc * 64 + b.toNat % 64) t else (none, b :: t)

/-- What a byte string starting with `b` has at its front: a character, or
`none` for an ill-formed part; and what follows it. -/
def front (b : UInt8) (t : Bytes) : Option Char × Bytes :=
  match owed b with
  | none => (none, t)
  | some 0 => (some (Char.ofNat b.toNat), t)
  | some (n + 1) =>
      match t with
      | [] => (none, [])
      | c :: t =>
          if admitsSecond b c then tails n (leadBits b (n + 1) * 64 + c.toNat % 64) t
          else (none, c :: t)

theorem tails_length_le
    (n acc : Nat)
    (t : Bytes) :
    (tails n acc t).2.length ≤ t.length := by
  induction n generalizing acc t with
  | zero => simp [tails]
  | succ n ih =>
      cases t with
      | nil => simp [tails]
      | cons b t =>
          simp only [tails]
          split
          · exact Nat.le_trans (ih _ _) (by simp)
          · simp

theorem front_length_le
    (b : UInt8)
    (t : Bytes) :
    (front b t).2.length ≤ t.length := by
  unfold front
  split
  · simp
  · simp
  · cases t with
    | nil => simp
    | cons c t =>
        simp only
        split
        · exact Nat.le_trans (tails_length_le _ _ _) (by simp)
        · simp

/-- The characters of a well-formed byte string. -/
def decode? : Bytes → Option (List Char)
  | [] => some []
  | b :: t =>
      match (front b t).1 with
      | none => none
      | some c => (decode? (front b t).2).map (c :: ·)
termination_by s => s.length
decreasing_by exact Nat.lt_succ_of_le (front_length_le _ _)

/-- The characters of any byte string, U+FFFD standing for each ill-formed part. -/
def decodeLossy : Bytes → List Char
  | [] => []
  | b :: t => (front b t).1.getD '\uFFFD' :: decodeLossy (front b t).2
termination_by s => s.length
decreasing_by exact Nat.lt_succ_of_le (front_length_le _ _)

/-- The text of a well-formed byte string. -/
def text? (s : Bytes) : Option String :=
  (decode? s).map String.ofList

/-- The text of any byte string, U+FFFD standing for each ill-formed part. -/
def textLossy (s : Bytes) : String :=
  String.ofList (decodeLossy s)

/-- The bytes of a list of characters. -/
def encodeChars (cs : List Char) : Bytes :=
  cs.flatMap String.utf8EncodeChar

/-- The bytes of a text. -/
def encode (s : String) : Bytes :=
  encodeChars s.toList

@[simp] theorem encodeChars_nil : encodeChars [] = [] := rfl

@[simp] theorem encodeChars_cons
    (c : Char)
    (cs : List Char) :
    encodeChars (c :: cs) = String.utf8EncodeChar c ++ encodeChars cs := by
  simp [encodeChars]

end Utf8
end Courier
