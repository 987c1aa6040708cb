import Courier.Remote.Server

/-!
# Answers on the wire

Every answer begins with a byte that tells its kind, and a line: a status, an
error, an integer, or the length of the bytes or of the list that follows.

**Results.**
* `Wire.read?`: the first answer of a text, and the rest.
* `Wire.readAll`: the answers of a text.
-/

namespace Courier
namespace Remote
namespace Wire

/-- The first line of a text without its end, and the rest. -/
def line? : Bytes → Option (Bytes × Bytes)
  | 0x0D :: 0x0A :: rest => some ([], rest)
  | b :: rest => (line? rest).map fun p => (b :: p.1, p.2)
  | [] => none

/-- The integer of a line. -/
def integer? (b : Bytes) : Option Int := do
  let cs ← Utf8.decode? b
  Numeral.integer? Numeral.minInt64 Numeral.maxInt64 cs

/-- The bytes of a given length with the end of a line behind them, and the rest. -/
def bulk? (n : Nat) (s : Bytes) : Option (Bytes × Bytes) :=
  match s.drop n with
  | 0x0D :: 0x0A :: rest => if (s.take n).length = n then some (s.take n, rest) else none
  | _ => none

mutual

/-- The first answer of a text, and the rest.  Every answer takes at least one byte,
so that `fuel` may be the length of the text. -/
def readFrom : Nat → Bytes → Option (Reply × Bytes)
  | 0, _ => none
  | _, [] => none
  | fuel + 1, kind :: s =>
      match line? s with
      | none => none
      | some (l, rest) =>
          match Char.ofNat kind.toNat with
          | '+' => some (.status (Utf8.textLossy l), rest)
          | '-' => some (.error (Utf8.textLossy l), rest)
          | ':' => (integer? l).map fun n => (.int (Int64.ofInt n), rest)
          | '$' =>
              match integer? l with
              | some (.ofNat n) => (bulk? n rest).map fun p => (.bulk p.1, p.2)
              | some (.negSucc _) => some (.nil, rest)
              | none => none
          | '*' =>
              match integer? l with
              | some (.ofNat n) => (readItems fuel n rest).map fun p => (.array p.1, p.2)
              | some (.negSucc _) => some (.nil, rest)
              | none => none
          | _ => none

/-- A number of answers, and the rest. -/
def readItems : Nat → Nat → Bytes → Option (List Reply × Bytes)
  | _, 0, s => some ([], s)
  | 0, _ + 1, _ => none
  | fuel + 1, n + 1, s =>
      match readFrom fuel s with
      | none => none
      | some (r, rest) => (readItems fuel n rest).map fun p => (r :: p.1, p.2)

end

/-- The first answer of a text, and the rest. -/
def read? (s : Bytes) : Option (Reply × Bytes) :=
  readFrom (s.length + 1) s

/-- At most a number of answers at the front of a text. -/
def readUpTo : Nat → Bytes → List Reply
  | 0, _ => []
  | n + 1, s =>
      match read? s with
      | none => []
      | some (r, rest) => r :: readUpTo n rest

/-- The answers of a text, up to the first that is not well formed. -/
def readAll (s : Bytes) : List Reply :=
  readUpTo s.length s

/-- The server that gives these answers on a socket, one to a command. -/
def replay (clock : Nat) (socket : Bytes) (answers : List Reply) : Server :=
  { files := [(socket, .socket true)]
    network := .down
    clock
    turns := answers.map fun r => { answers := [r] }
    lines := []
    sent := [] }

end Wire
end Remote
end Courier
