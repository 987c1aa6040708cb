import Courier.Proofs.Json.Types
import Mathlib.Data.List.Forall2
import Mathlib.Data.Nat.Find

/-!
# JSON texts as they are laid out

A value has many texts.  They differ in the white space between the tokens, in the escapes of
strings, in the order of members and in members that are repeated.  A text is kept here as its
author laid it out, for the whole grammar of JSON: every well-formed text is the text of a
tree.

Not every tree stands for a value: a string may have a surrogate without its partner, and a
number may be out of every range.

**Results.**
* `Literal`, `Literal.number?`: a number as it is spelled, and what its digits mean.
* `Tree`, `Tree.text`: the layout of a text, and its bytes.
* `Tree.value?`: the value that a layout stands for, if there is one.
* `Tree.entriesInduction`: induction on the containers of a layout.
-/

namespace Courier
namespace Json

/-- White space between two tokens, or none. -/
abbrev Blanks := {s : Bytes // ∀ b ∈ s, isBlank b = true}

/-- No white space. -/
def Blanks.none : Blanks := ⟨[], List.forall_mem_nil _⟩

/-- Four hexadecimal digits, each in either case. -/
structure HexUnit where
  a : UInt8
  b : UInt8
  c : UInt8
  d : UInt8
  isHex : ∀ x ∈ [a, b, c, d], (Bytes.hexValue? x).isSome = true

namespace HexUnit

/-- The four digits. -/
def bytes (u : HexUnit) : Bytes :=
  [u.a, u.b, u.c, u.d]

/-- The number that they are. -/
def value (u : HexUnit) : Nat :=
  u.bytes.foldl (fun n x => n * 16 + (Bytes.hexValue? x).getD 0) 0

/-- The first half of a pair of surrogates. -/
def IsHigh (u : HexUnit) : Prop :=
  0xD800 ≤ u.value ∧ u.value ≤ 0xDBFF

/-- The second half of a pair of surrogates. -/
def IsLow (u : HexUnit) : Prop :=
  0xDC00 ≤ u.value ∧ u.value ≤ 0xDFFF

instance (u : HexUnit) : Decidable u.IsHigh := inferInstanceAs (Decidable (_ ∧ _))

instance (u : HexUnit) : Decidable u.IsLow := inferInstanceAs (Decidable (_ ∧ _))

end HexUnit

/-- A piece of a string between its quotes. -/
inductive Piece where
  /-- A character that stands for itself. -/
  | plain (c : Char) (h : 0x20 ≤ c.toNat ∧ c ≠ '"' ∧ c ≠ '\\')
  /-- A backslash and one letter. -/
  | short (e : UInt8) (h : (shortEscape? e).isSome = true)
  /-- An escape of four digits. -/
  | unit (u : HexUnit)
  /-- Two escapes of four digits for one character. -/
  | pair (high low : HexUnit) (h : high.IsHigh ∧ low.IsLow)

namespace Piece

/-- The bytes of a piece. -/
def text : Piece → Bytes
  | plain c _ => String.utf8EncodeChar c
  | short e _ => [0x5C, e]
  | unit u => 0x5C :: 0x75 :: u.bytes
  | pair high low _ => 0x5C :: 0x75 :: (high.bytes ++ 0x5C :: 0x75 :: low.bytes)

/-- The character of a piece; half a pair of surrogates is none. -/
def char? : Piece → Option Char
  | plain c _ => some c
  | short e _ => shortEscape? e
  | unit u => if u.IsHigh ∨ u.IsLow then none else some (Char.ofNat u.value)
  | pair high low _ =>
      some (Char.ofNat ((high.value - 0xD800) * 0x400 + (low.value - 0xDC00) + 0x10000))

end Piece

/-- The bytes of a string in its quotes. -/
def quote (ps : List Piece) : Bytes :=
  0x22 :: (ps.flatMap Piece.text ++ [0x22])

/-- The text that a string stands for. -/
def unescape? (ps : List Piece) : Option String :=
  (ps.mapM Piece.char?).map String.ofList

/-- One or more digits. -/
abbrev Digits := {ds : Bytes // ds ≠ [] ∧ ∀ b ∈ ds, Bytes.isDigit b = true}

/-- The number that digits make behind another number. -/
def appendDigits (n : Nat) (ds : Bytes) : Nat :=
  ds.foldl (fun n d => n * 10 + Bytes.digitValue d) n

/-- The first digits, as many as can stand behind a number without making more of it than a
limit. -/
def heldDigits (limit n : Nat) (ds : Bytes) : Bytes :=
  ds.take (Nat.findGreatest (fun k => appendDigits n (ds.take k) ≤ limit) ds.length)

/-- The floating-point number `± significand * 10 ^ e`, if it is finite. -/
def float? (negative : Bool) (significand : Nat) (e : Int) : Option Number :=
  (Binary64.decimal? significand e).bind fun x =>
    Number.ofBinary64? (if negative then x.neg else x)

/-- The exponent of a number, with a sign or without. -/
structure Exponent where
  mark : UInt8
  isMark : isExponentMark mark = true
  sign : Option UInt8
  isSign : ∀ b ∈ sign, b = 0x2B ∨ b = 0x2D
  digits : Digits

/-- The bytes of an exponent. -/
def Exponent.text (e : Exponent) : Bytes :=
  e.mark :: (e.sign.toList ++ e.digits.val)

/-- Whether an exponent has no minus sign. -/
def Exponent.up (x : Exponent) : Bool :=
  x.sign ≠ some 0x2D

/-- An exponent without its sign. -/
def Exponent.size (x : Exponent) : Nat :=
  appendDigits 0 x.digits.val

/-- The floating-point number `± significand * 10 ^ e` with an exponent behind it.  One that
is not taken at its value makes a zero or a number out of every range. -/
def Exponent.raise? (negative : Bool) (significand : Nat) (e : Int) :
    Option Exponent → Option Number
  | none => float? negative significand e
  | some x =>
      if x.size ≤ maxExponent then
        float? negative significand (e + if x.up then (x.size : Int) else -(x.size : Int))
      else if x.up ∧ significand ≠ 0 then none
      else float? negative 0 0

/-- A number as it is spelled. -/
structure Literal where
  negative : Bool
  whole : Nat
  fraction : Option Digits
  exponent : Option Exponent

namespace Literal

/-- The digits behind the point, with the point. -/
def fractionText (l : Literal) : Bytes :=
  l.fraction.elim [] fun ds => 0x2E :: ds.val

/-- The exponent, if there is one. -/
def exponentText (l : Literal) : Bytes :=
  l.exponent.elim [] Exponent.text

/-- The bytes of a number behind its sign. -/
def body (l : Literal) : Bytes :=
  digitBytes l.whole ++ (l.fractionText ++ l.exponentText)

/-- The bytes of a number. -/
def text (l : Literal) : Bytes :=
  if l.negative then 0x2D :: l.body else l.body

theorem body_cons
    (l : Literal) :
    ∃ b ds, l.body = b :: ds ∧ Bytes.isDigit b = true := by
  obtain ⟨b, ds, hbytes, hb⟩ := digitBytes_cons l.whole
  rw [body, hbytes]
  exact ⟨b, _, rfl, hb⟩

/-- The digits behind the point. -/
def fractionDigits (l : Literal) : Bytes :=
  l.fraction.elim [] Subtype.val

/-- The first digits in front of the point, as many as 64 bits hold. -/
def wholeHeld (l : Literal) : Bytes :=
  heldDigits Numeral.maxNat64 0 (digitBytes l.whole)

/-- The first digits behind the point, as many as 64 bits hold with those in front of it. -/
def fractionHeld (l : Literal) : Bytes :=
  heldDigits Numeral.maxNat64 (appendDigits 0 l.wholeHeld) l.fractionDigits

/-- The number that the digits make which are held. -/
def significand (l : Literal) : Nat :=
  appendDigits (appendDigits 0 l.wholeHeld) l.fractionHeld

/-- The power of ten of the significand: one more for each digit in front of the point that
is not held, one less for each digit behind it that is. -/
def scale (l : Literal) : Int :=
  ((digitBytes l.whole).length - l.wholeHeld.length : Nat) - (l.fractionHeld.length : Int)

/-- The integer of 64 bits that is meant: without a fraction and without an exponent, and
not minus zero. -/
def integer? (l : Literal) : Option Number :=
  if l.fraction.isSome ∨ l.exponent.isSome ∨ (l.negative ∧ l.whole = 0) then none
  else Number.ofInt? (if l.negative then -(l.whole : Int) else l.whole)

/-- The number that is meant.  What is no integer of 64 bits is a floating-point number. -/
def number? (l : Literal) : Option Number :=
  l.integer?.or (Exponent.raise? l.negative l.significand l.scale l.exponent)

end Literal

/-- A value with the white space around it. -/
structure Item (α : Type) where
  before : Blanks
  value : α
  after : Blanks

/-- A member with the white space in front of its key and behind it, and its value. -/
structure Member (α : Type) where
  before : Blanks
  key : List Piece
  gap : Blanks
  item : Item α

/-- The layout of a text.  A container has white space in front of its closing byte, which
is all it has if it is empty. -/
inductive Tree where
  | null
  | bool (b : Bool)
  | number (l : Literal)
  | string (ps : List Piece)
  | array (items : List (Item Tree)) (inner : Blanks)
  | object (members : List (Member Tree)) (inner : Blanks)

/-- The entries of a container, those behind the first one behind a comma each. -/
def joined : (first : Bool) → List Bytes → Bytes
  | _, [] => []
  | first, x :: xs => entry first 0x2C (x ++ joined false xs)

namespace Tree

mutual

/-- The bytes of a layout. -/
def text : Tree → Bytes
  | .null => Value.null.write
  | .bool b => (Value.bool b).write
  | .number l => l.text
  | .string ps => quote ps
  | .array items inner => 0x5B :: (joined true (itemTexts items) ++ (inner.val ++ [0x5D]))
  | .object members inner => 0x7B :: (joined true (memberTexts members) ++ (inner.val ++ [0x7D]))

/-- The bytes of each item. -/
def itemTexts : List (Item Tree) → List Bytes
  | [] => []
  | ⟨before, value, after⟩ :: items =>
      (before.val ++ (value.text ++ after.val)) :: itemTexts items

/-- The bytes of each member. -/
def memberTexts : List (Member Tree) → List Bytes
  | [] => []
  | ⟨before, key, gap, ⟨space, value, after⟩⟩ :: members =>
      (before.val ++ (quote key ++ (gap.val ++
        0x3A :: (space.val ++ (value.text ++ after.val))))) :: memberTexts members

end

mutual

/-- The value that a layout stands for. -/
def value? : Tree → Option Value
  | .null => some .null
  | .bool b => some (.bool b)
  | .number l => l.number?.map .number
  | .string ps => (unescape? ps).map .string
  | .array items _ => (itemValues? items).map .array
  | .object members _ => (memberValues? members).map .object

/-- The values of the items. -/
def itemValues? : List (Item Tree) → Option (List Value)
  | [] => some []
  | ⟨_, value, _⟩ :: items =>
      value.value?.bind fun v => (itemValues? items).map (v :: ·)

/-- The keys and the values of the members. -/
def memberValues? : List (Member Tree) → Option (List (String × Value))
  | [] => some []
  | ⟨_, key, _, ⟨_, value, _⟩⟩ :: members =>
      (unescape? key).bind fun k =>
        value.value?.bind fun v => (memberValues? members).map ((k, v) :: ·)

end

/-- What holds of a layout if it holds of the entries of its containers holds of every
layout. -/
@[elab_as_elim]
theorem entriesInduction
    {motive : Tree → Prop}
    (null : motive .null)
    (bool : ∀ b, motive (.bool b))
    (number : ∀ l, motive (.number l))
    (string : ∀ ps, motive (.string ps))
    (array : ∀ items inner, (∀ i ∈ items, motive i.value) → motive (.array items inner))
    (object : ∀ members inner, (∀ m ∈ members, motive m.item.value) →
      motive (.object members inner))
    (t : Tree) :
    motive t :=
  @Tree.rec motive (fun items => ∀ i ∈ items, motive i.value)
    (fun members => ∀ m ∈ members, motive m.item.value) (fun i => motive i.value)
    (fun m => motive m.item.value) null bool number string array object
    (List.forall_mem_nil _)
    (fun _ _ hi his => List.forall_mem_cons.2 ⟨hi, his⟩)
    (List.forall_mem_nil _)
    (fun _ _ hm hms => List.forall_mem_cons.2 ⟨hm, hms⟩)
    (fun _ _ _ h => h) (fun _ _ _ _ h => h) t

end Tree

/-- The bytes of an item. -/
def Item.text (i : Item Tree) : Bytes :=
  i.before.val ++ (i.value.text ++ i.after.val)

namespace Member

/-- The key of a member, if it is a text. -/
def name? (m : Member Tree) : Option String :=
  unescape? m.key

/-- The bytes of a member. -/
def text (m : Member Tree) : Bytes :=
  m.before.val ++ (quote m.key ++ (m.gap.val ++ 0x3A :: m.item.text))

end Member

namespace Tree

theorem itemTexts_eq
    (items : List (Item Tree)) :
    itemTexts items = items.map Item.text := by
  induction items with
  | nil => rfl
  | cons i items ih =>
      rw [itemTexts, ih]
      rfl

theorem memberTexts_eq
    (members : List (Member Tree)) :
    memberTexts members = members.map Member.text := by
  induction members with
  | nil => rfl
  | cons m members ih =>
      rw [memberTexts, ih]
      rfl

theorem itemValues?_eq_some
    {items : List (Item Tree)}
    {vs : List Value} :
    itemValues? items = some vs ↔
      List.Forall₂ (fun i v => i.value.value? = some v) items vs := by
  induction items generalizing vs with
  | nil => simp [itemValues?, eq_comm]
  | cons i items ih =>
      simp only [itemValues?, Option.bind_eq_some_iff, Option.map_eq_some_iff, ih,
        List.forall₂_cons_left_iff]
      constructor
      · rintro ⟨v, hv, vs', hvs, rfl⟩
        exact ⟨v, vs', hv, hvs, rfl⟩
      · rintro ⟨v, vs', hv, hvs, rfl⟩
        exact ⟨v, hv, vs', hvs, rfl⟩

theorem memberValues?_eq_some
    {members : List (Member Tree)}
    {ms : List (String × Value)} :
    memberValues? members = some ms ↔
      List.Forall₂ (fun m w => m.name? = some w.1 ∧ m.item.value.value? = some w.2) members ms := by
  induction members generalizing ms with
  | nil => simp [memberValues?, eq_comm]
  | cons m members ih =>
      simp only [memberValues?, Option.bind_eq_some_iff, Option.map_eq_some_iff, ih,
        List.forall₂_cons_left_iff]
      constructor
      · rintro ⟨k, hk, v, hv, ms', hms, rfl⟩
        exact ⟨(k, v), ms', ⟨hk, hv⟩, hms, rfl⟩
      · rintro ⟨w, ms', ⟨hk, hv⟩, hms, rfl⟩
        exact ⟨w.1, hk, w.2, hv, ms', hms, rfl⟩

/-- A text starts with a byte that is no white space and closes nothing. -/
theorem startsEntry_text
    (t : Tree) :
    StartsEntry t.text := by
  cases t with
  | null => exact ⟨_, _, by rw [text, Value.write], by decide, by decide⟩
  | bool b =>
      cases b with
      | false => exact ⟨_, _, by rw [text, Value.write], by decide, by decide⟩
      | true => exact ⟨_, _, by rw [text, Value.write], by decide, by decide⟩
  | number l =>
      rw [text, Literal.text]
      split
      · exact ⟨_, _, rfl, by decide, by decide⟩
      · obtain ⟨b, ds, hbody, hb⟩ := l.body_cons
        exact ⟨b, ds, hbody, (isDigit_cases hb).1, (isDigit_cases hb).2.1⟩
  | string ps => exact ⟨_, _, by rw [text, quote], by decide, by decide⟩
  | array items inner => exact ⟨_, _, by rw [text], by decide, by decide⟩
  | object members inner => exact ⟨_, _, by rw [text], by decide, by decide⟩

end Tree

end Json
end Courier
