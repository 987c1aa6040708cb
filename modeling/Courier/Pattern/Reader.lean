import Courier.Bytes
import Courier.Pattern.Basic
import Courier.Text.Numeral

/-!
# Reading patterns

The usual notation of regular expressions: alternatives between bars, repetitions
with a star, a plus or a question mark, groups in parentheses that may set flags,
classes in brackets with ranges, nested classes and set operations, escapes and
anchors.  Repetitions with bounds and conditions on the neighbours of a place are
refused.

**Results.**
* `Pattern.ofText?`: the pattern of a text, if it is well formed.
-/

namespace Courier
namespace Pattern

/-- How the rest of a group is read. -/
structure Flags where
  /-- The case of ASCII letters does not count. -/
  anyCase : Bool := false
  /-- Line breaks count as ends of the text for the anchors. -/
  multiLine : Bool := false
  /-- A dot also stands for a line break. -/
  dotAll : Bool := false
  /-- Repetitions are lazy unless they are marked. -/
  swapGreed : Bool := false

/-- The flags with one of them set or cleared, if there is such a flag. -/
def Flags.set? (f : Flags) (on : Bool) : Char → Option Flags
  | 'i' => some { f with anyCase := on }
  | 'm' => some { f with multiLine := on }
  | 's' => some { f with dotAll := on }
  | 'U' => some { f with swapGreed := on }
  | 'u' => if on then some f else none
  | _ => none

/-- The flags that letters set, and clear behind a minus sign. -/
def Flags.read? (f : Flags) (on : Bool) : List Char → Option Flags
  | [] => some f
  | ['-'] => none
  | c :: cs =>
      if c = '-' then (if on then f.read? false cs else none)
      else
        match f.set? on c with
        | some g => g.read? on cs
        | none => none

/-- What an escape stands for. -/
inductive Escape where
  | char (c : Char)
  | charClass (c : CharClass)
  | anchor (a : Anchor)

/-- The character of some hexadecimal digits, and what follows them. -/
def hexChar? (width : Nat) (cs : List Char) : Option (Char × List Char) := do
  let digits ← (cs.take width).mapM fun c =>
    if c.toNat < 0x80 then Bytes.hexValue? (.ofNat c.toNat) else none
  let n := digits.foldl (fun n d => n * 16 + d) 0
  if digits.length < width || (Char.ofNat n).toNat ≠ n then none
  some (Char.ofNat n, cs.drop width)

/-- A class or what it leaves out. -/
def orComplement (positive : Bool) (p : Char → Bool) : CharClass :=
  if positive then .property p else .complement (.property p)

/-- Whether a character may stand for itself behind a backslash. -/
def isEscapable (c : Char) : Bool :=
  c.toNat < 0x80 && !c.isAlphanum && c ≠ '<' && c ≠ '>'

/-- What stands behind a backslash, and what follows it. -/
def escape? : List Char → Option (Escape × List Char)
  | [] => none
  | c :: cs =>
      match c with
      | 'd' => some (.charClass (orComplement true Text.isDecimal), cs)
      | 'D' => some (.charClass (orComplement false Text.isDecimal), cs)
      | 's' => some (.charClass (orComplement true Text.isBlank), cs)
      | 'S' => some (.charClass (orComplement false Text.isBlank), cs)
      | 'w' => some (.charClass (orComplement true Text.isWordChar), cs)
      | 'W' => some (.charClass (orComplement false Text.isWordChar), cs)
      | 'A' => some (.anchor .textStart, cs)
      | 'z' => some (.anchor .textEnd, cs)
      | 'a' => some (.char '\x07', cs)
      | 'f' => some (.char '\x0c', cs)
      | 'n' => some (.char '\n', cs)
      | 'r' => some (.char '\r', cs)
      | 't' => some (.char '\t', cs)
      | 'v' => some (.char '\x0b', cs)
      | 'x' => (hexChar? 2 cs).map fun p => (.char p.1, p.2)
      | 'u' => (hexChar? 4 cs).map fun p => (.char p.1, p.2)
      | 'U' => (hexChar? 8 cs).map fun p => (.char p.1, p.2)
      | c => if isEscapable c then some (.char c, cs) else none

/-- The ASCII characters with a property. -/
def ascii (p : Char → Bool) : Char → Bool :=
  fun c => c.toNat < 0x80 && p c

/-- Whether a character is an ASCII character that shows. -/
def isVisible (c : Char) : Bool :=
  0x21 ≤ c.toNat && c.toNat ≤ 0x7E

/-- The classes that have names. -/
def namedClasses : List (String × (Char → Bool)) :=
  [("alnum", ascii Char.isAlphanum), ("alpha", ascii Char.isAlpha), ("ascii", ascii fun _ => true),
   ("blank", fun c => c == ' ' || c == '\t'), ("cntrl", ascii fun c => c < ' ' || c == '\x7f'),
   ("digit", ascii Char.isDigit), ("graph", isVisible), ("lower", ascii Char.isLower),
   ("print", fun c => isVisible c || c == ' '),
   ("punct", fun c => isVisible c && !c.isAlphanum),
   ("space", fun c => c == ' ' || (0x09 ≤ c.toNat && c.toNat ≤ 0x0D)),
   ("upper", ascii Char.isUpper), ("word", fun c => ascii Char.isAlphanum c || c == '_'),
   ("xdigit", fun c => ascii Char.isDigit c || ('a' ≤ c && c ≤ 'f') || ('A' ≤ c && c ≤ 'F'))]

/-- The class of a name between colons and brackets, and what follows it. -/
def namedClass? (cs : List Char) : Option (CharClass × List Char) :=
  match cs with
  | '[' :: ':' :: r =>
      let positive := r.head? ≠ some '^'
      let r := if positive then r else r.drop 1
      let name := r.takeWhile (· ≠ ':')
      match r.drop name.length with
      | ':' :: ']' :: rest =>
          (namedClasses.lookup (String.ofList name)).map fun p => (orComplement positive p, rest)
      | _ => none
  | _ => none

/-- One item of a class, and what follows it. -/
def classItem? : List Char → Option (Escape × List Char)
  | [] => none
  | '\\' :: cs => escape? cs
  | c :: cs => some (.char c, cs)

/-- An item or a range of a class, and what follows it. -/
def classRange? (cs : List Char) : Option (CharClass × List Char) := do
  let (first, rest) ← classItem? cs
  let (single, start) ← match first with
    | .char c => some (CharClass.single c, some c)
    | .charClass c => some (c, none)
    | .anchor _ => none
  match rest with
  | '-' :: r =>
      if r.head? = some ']' || r.head? = some '-' || r = [] then some (single, rest)
      else
        let (last, rest) ← classItem? r
        match start, last with
        | some a, .char b => if a ≤ b then some (.range a b, rest) else none
        | _, _ => none
  | _ => some (single, rest)

/-- A set operation on two classes. -/
abbrev ClassOp := CharClass → CharClass → CharClass

/-- The set operation at the front of a text, and what follows it. -/
def classOp? : List Char → Option (ClassOp × List Char)
  | '&' :: '&' :: r => some (.inter, r)
  | '-' :: '-' :: r => some (.minus, r)
  | '~' :: '~' :: r => some (.either, r)
  | _ => none

mutual

/-- A class behind its opening bracket, and what follows it. -/
def classBody? : Nat → List Char → Option (CharClass × List Char)
  | 0, _ => none
  | fuel + 1, cs =>
      let positive := cs.head? ≠ some '^'
      let cs := if positive then cs else cs.drop 1
      let dashes := cs.takeWhile (· = '-')
      let cs := cs.drop dashes.length
      let literal := dashes = [] && cs.head? = some ']'
      let items := (if dashes = [] then [] else [CharClass.single '-']) ++
        (if literal then [CharClass.single ']'] else [])
      let cs := if literal then cs.drop 1 else cs
      (classItems? fuel id items cs).map fun p =>
        (if positive then p.1 else .complement p.1, p.2)

/-- The items of a class up to its closing bracket, and what follows it.  `done`
holds the set operation that still waits for these items. -/
def classItems? : Nat → (CharClass → CharClass) → List CharClass → List Char →
    Option (CharClass × List Char)
  | 0, _, _, _ => none
  | fuel + 1, done, items, cs =>
      match cs with
      | [] => none
      | ']' :: rest => some (done (.union items), rest)
      | c :: r =>
          match classOp? cs with
          | some (op, rest) => classItems? fuel (op (done (.union items))) [] rest
          | none =>
              let next : Option (CharClass × List Char) :=
                if c = '[' then (namedClass? cs).or (classBody? fuel r) else classRange? cs
              match next with
              | some (k, rest) => classItems? fuel done (items ++ [k]) rest
              | none => none

end

/-- A pattern with the repetitions that follow it, and what follows them. -/
def repeated (f : Flags) (p : Pattern) : List Char → Pattern × List Char
  | [] => (p, [])
  | c :: cs =>
      if c = '*' || c = '+' || c = '?' then
        let ofGreed (greedy : Bool) : Pattern :=
          if c = '*' then .many greedy p
          else if c = '+' then .seq p (.many greedy p)
          else optional greedy p
        match cs with
        | '?' :: rest => repeated f (ofGreed f.swapGreed) rest
        | rest => repeated f (ofGreed (!f.swapGreed)) rest
      else (p, c :: cs)

/-- Whether a text is the name of a group. -/
def isGroupName (cs : List Char) : Bool :=
  cs.head?.any (fun c => c = '_' || Text.isAlphabetic c) &&
    cs.all fun c => Text.isAlphanumeric c || c ∈ ['_', '.', '[', ']']

/-- How a group begins behind its parenthesis. -/
inductive GroupStart where
  | group (f : Flags) (rest : List Char)
  /-- Flags for what follows, in parentheses. -/
  | flags (f : Flags) (rest : List Char)

/-- How a group begins behind its parenthesis. -/
def groupStart? (f : Flags) (cs : List Char) : Option GroupStart :=
  match cs with
  | '?' :: r =>
      let named := match r with
        | 'P' :: '<' :: n => some n
        | '<' :: n => some n
        | _ => none
      match named with
      | some n =>
          let name := n.takeWhile (· ≠ '>')
          if isGroupName name && name.length < n.length then
            some (.group f (n.drop (name.length + 1)))
          else none
      | none =>
          let letters := r.takeWhile fun c => c ≠ ':' && c ≠ ')'
          match r.drop letters.length with
          | ':' :: rest => (f.read? true letters).map fun g => .group g rest
          | ')' :: rest =>
              if letters = [] then none else (f.read? true letters).map fun g => .flags g rest
          | _ => none
  | cs => some (.group f cs)

/-- The pattern of an escape. -/
def ofEscape (f : Flags) : Escape → Pattern
  | .char c => .char f.anyCase (.single c)
  | .charClass c => .char f.anyCase c
  | .anchor a => .anchor a

/-- The pattern of a character that is no operator, if it is none. -/
def ofChar? (f : Flags) (c : Char) : Option Pattern :=
  match c with
  | '.' => some (.char false (if f.dotAll then .complement (.union []) else
      .complement (.single '\n')))
  | '^' => some (.anchor (if f.multiLine then .lineStart else .textStart))
  | '$' => some (.anchor (if f.multiLine then .lineEnd else .textEnd))
  | c =>
      if c = '*' || c = '+' || c = '?' || c = '\x7b' then none
      else some (.char f.anyCase (.single c))

mutual

/-- Alternatives up to a closing parenthesis or the end, and what follows them. -/
def alternatives? : Nat → Flags → List Char → Option (Pattern × List Char)
  | 0, _, _ => none
  | fuel + 1, f, cs =>
      match sequence? fuel f .empty cs with
      | some (p, g, '|' :: rest) =>
          (alternatives? fuel g rest).map fun q => (.alt p q.1, q.2)
      | some (p, _, rest) => some (p, rest)
      | none => none

/-- What stands before a bar, a closing parenthesis or the end, behind a pattern that
was read before; the flags at its end, and what follows it. -/
def sequence? : Nat → Flags → Pattern → List Char → Option (Pattern × Flags × List Char)
  | 0, _, _, _ => none
  | fuel + 1, f, before, cs =>
      let goOn (p : Pattern) (rest : List Char) : Option (Pattern × Flags × List Char) :=
        let r := repeated f p rest
        sequence? fuel f (.seq before r.1) r.2
      match cs with
      | [] => some (before, f, [])
      | c :: r =>
          if c = ')' || c = '|' then some (before, f, c :: r)
          else if c = '(' then
            match groupStart? f r with
            | some (.flags g rest) => sequence? fuel g before rest
            | some (.group g rest) =>
                match alternatives? fuel g rest with
                | some (p, ')' :: rest) => goOn p rest
                | _ => none
            | none => none
          else if c = '[' then
            match classBody? fuel r with
            | some (k, rest) => goOn (.char f.anyCase k) rest
            | none => none
          else if c = '\\' then
            match escape? r with
            | some (e, rest) => goOn (ofEscape f e) rest
            | none => none
          else
            match ofChar? f c with
            | some p => goOn p r
            | none => none

end

/-- The pattern of a text.  Every step of the reader takes a character or closes one
that was taken, so that fuel for two steps to a character is enough. -/
def ofText? (s : String) : Option Pattern :=
  match alternatives? (2 * s.length + 4) {} s.toList with
  | some (p, []) => some p
  | _ => none

end Pattern
end Courier
