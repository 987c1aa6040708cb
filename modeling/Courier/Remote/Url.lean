import Courier.Text.Blank
import Courier.Text.Numeral

/-!
# URLs

The parts of a URL whose scheme has no rules of its own: a user and a host with
a port behind two slashes, a path, and a query.  The parts stay
percent-encoded.

**Results.**
* `Url.ofText?`: the parts of a URL.
-/

namespace Courier

/-- The parts of a URL. -/
structure Url where
  scheme : String
  username : List Char
  /-- There is no empty password. -/
  password : Option (List Char)
  /-- There is no empty host. -/
  host : Option (List Char)
  port : Option Nat
  /-- The segments of a path that starts with a slash; none for any other path. -/
  segments : Option (List (List Char))
  query : List Char

namespace Url

/-- Whether a character is an ASCII letter. -/
def isLetter (c : Char) : Bool :=
  ('a' ≤ c && c ≤ 'z') || ('A' ≤ c && c ≤ 'Z')

/-- Whether a character may stand in a scheme behind its first letter. -/
def isSchemeChar (c : Char) : Bool :=
  isLetter c || Numeral.isDigit c || c = '+' || c = '-' || c = '.'

/-- Whether a character is a control or a space. -/
def isEdge (c : Char) : Bool :=
  c ≤ ' '

/-- A text without controls and spaces around it and without tabs and line breaks. -/
def clean (s : String) : List Char :=
  let body := ((s.toList.dropWhile isEdge).reverse.dropWhile isEdge).reverse
  body.filter fun c => c ≠ '\t' && c ≠ '\n' && c ≠ '\r'

/-- Whether a character ends the part with the user and the host. -/
def endsAuthority (c : Char) : Bool :=
  c = '/' || c = '?' || c = '#'

/-- What stands before and behind the last at sign; nothing before if there is none. -/
def splitUser (cs : List Char) : Option (List Char) × List Char :=
  let after := (cs.reverse.takeWhile (· ≠ '@')).reverse
  if after.length = cs.length then (none, cs)
  else (some (cs.take (cs.length - after.length - 1)), after)

/-- The host, up to the first colon outside brackets, and the rest. -/
def splitHost (inside : Bool) : List Char → List Char × List Char
  | [] => ([], [])
  | c :: cs =>
      if c = ':' && !inside then ([], c :: cs)
      else
        let inside := if c = '[' then true else if c = ']' then false else inside
        let (h, r) := splitHost inside cs
        (c :: h, r)

/-- Whether a character must not stand in a host. -/
def isForbidden (c : Char) : Bool :=
  c ∈ ['\x00', '\t', '\n', '\r', ' ', '#', '/', ':', '<', '>', '?', '@', '[', '\\', ']', '^', '|']

/-- Whether a piece is one to four hexadecimal digits. -/
def isHexGroup (cs : List Char) : Bool :=
  cs ≠ [] && cs.length ≤ 4 &&
    cs.all fun c => Numeral.isDigit c || ('a' ≤ c && c ≤ 'f') || ('A' ≤ c && c ≤ 'F')

/-- Whether a piece is a number below 256 without leading zeros. -/
def isByteNumeral (cs : List Char) : Bool :=
  match Numeral.digits? cs with
  | some n => n < 256 && (toString n).length = cs.length
  | none => false

/-- Whether a piece is four numbers with dots between them. -/
def isDotted (cs : List Char) : Bool :=
  let pieces := Text.splitOn '.' cs
  pieces.length = 4 && pieces.all isByteNumeral

/-- How many groups of 16 bits pieces stand for; only the last may be dotted. -/
def groupCount? : List (List Char) → Option Nat
  | [] => some 0
  | [p] => if isHexGroup p then some 1 else if isDotted p then some 2 else none
  | p :: ps => if isHexGroup p then (groupCount? ps).map (· + 1) else none

/-- The pieces before and behind the first double colon. -/
def splitDouble : List Char → Option (List Char × List Char)
  | [] => none
  | [_] => none
  | c :: d :: cs =>
      if c = ':' && d = ':' then some ([], cs)
      else (splitDouble (d :: cs)).map fun p => (c :: p.1, p.2)

/-- The pieces between colons; an empty text has none. -/
def pieces (cs : List Char) : List (List Char) :=
  if cs = [] then [] else Text.splitOn ':' cs

/-- Whether a text is an address of eight groups of 16 bits, of which one run of
zeros may be left out. -/
def isLongAddress (cs : List Char) : Bool :=
  match splitDouble cs with
  | none => groupCount? (pieces cs) == some 8
  | some (l, r) =>
      match groupCount? (pieces l), groupCount? (pieces r) with
      | some m, some n => (pieces l).all isHexGroup && m + n ≤ 7
      | _, _ => false

/-- Whether a text can be a host: in brackets a long address, else anything
without forbidden characters. -/
def isHost (cs : List Char) : Bool :=
  match cs with
  | '[' :: r => r.getLast? == some ']' && isLongAddress r.dropLast
  | cs => !cs.any isForbidden

/-- The number behind a colon, if there is one, and what follows it; nothing for a
bad port.  Only a backslash may follow. -/
def port? : List Char → Option (Option Nat × List Char)
  | ':' :: cs =>
      let ds := cs.takeWhile Numeral.isDigit
      let rest := cs.drop ds.length
      if rest ≠ [] && rest.head? ≠ some '\\' then none
      else if ds = [] then some (none, rest)
      else ((Numeral.digits? ds).filter (· < 65536)).map fun n => (some n, rest)
  | _ => some (none, [])

/-- The steps of a path: a dot stays, two dots go back. -/
def isDot (cs : List Char) : Bool :=
  String.ofList (cs.map Char.toLower) ∈ [".", "%2e"]

/-- Whether a segment goes back. -/
def isDoubleDot (cs : List Char) : Bool :=
  String.ofList (cs.map Char.toLower) ∈ ["..", ".%2e", "%2e.", "%2e%2e"]

/-- Whether a segment names a drive: a letter and a colon or a bar, alone or with a
backslash behind them. -/
def isDrive : List Char → Bool
  | c :: mark :: rest =>
      isLetter c && (mark = ':' || mark = '|') && (rest = [] || rest.head? = some '\\')
  | _ => false

/-- The segments, last first, when the last one is left; nothing leads out of a drive. -/
def leave : List (List Char) → List (List Char)
  | [] => []
  | s :: kept => if isDrive s then s :: kept else kept

/-- The segments that are left when dots are followed, behind those kept so far in
reverse order. -/
def follow (kept : List (List Char)) : List (List Char) → List (List Char)
  | [] => kept.reverse
  | s :: rest =>
      let tail : List (List Char) := if rest = [] then [[]] else []
      if isDoubleDot s then follow (tail ++ leave kept) rest
      else if isDot s then follow (tail ++ kept) rest
      else follow (s :: kept) rest

/-- The segments of a path that starts with a slash. -/
def segments? (path : List Char) : Option (List (List Char)) :=
  match path with
  | '/' :: r => some (follow [] (Text.splitOn '/' r))
  | _ => none

/-- The part of a URL between the two slashes and its path. -/
structure Authority where
  username : List Char
  password : Option (List Char)
  host : Option (List Char)
  port : Option Nat
  /-- What follows the port: nothing, or a text that starts with a backslash. -/
  rest : List Char

/-- The user, the password, the host and the port.  An empty user needs a host
unless the URL ends there, and other credentials always do. -/
def authority? (cs : List Char) (atEnd : Bool) : Option Authority := do
  let (user, hostPort) := splitUser cs
  if user = some [] && hostPort = [] && !atEnd then none
  let info := user.getD []
  let username := info.takeWhile (· ≠ ':')
  let secret := info.drop (username.length + 1)
  let password := if secret = [] then none else some secret
  let (host, behind) := splitHost false hostPort
  if !isHost host then none
  let (port, rest) ← port? behind
  if host = [] && (behind ≠ [] || username ≠ [] || password.isSome) then none
  some { username, password, host := if host = [] then none else some host, port, rest }

/-- The path and the query. -/
def pathAndQuery (cs : List Char) : List Char × List Char :=
  let body := cs.takeWhile (· ≠ '#')
  let path := body.takeWhile (· ≠ '?')
  (path, body.drop (path.length + 1))

/-- The parts of a URL. -/
def ofText? (s : String) : Option Url := do
  let cs := clean s
  let name := cs.takeWhile isSchemeChar
  if !(name.head?.any isLetter) then none
  match cs.drop name.length with
  | ':' :: rest =>
      let scheme := Text.lowerAscii (String.ofList name)
      match rest with
      | '/' :: '/' :: r =>
          let front := r.takeWhile fun c => !endsAuthority c
          let behind := r.drop front.length
          let a ← authority? front (behind = [])
          let start := if a.rest = [] then [] else '/' :: a.rest
          let (path, query) := pathAndQuery (start ++ behind)
          some { scheme, username := a.username, password := a.password, host := a.host,
                 port := a.port, segments := segments? path, query }
      | r =>
          let (path, query) := pathAndQuery r
          some { scheme, username := [], password := none, host := none, port := none,
                 segments := segments? path, query }
  | _ => none

end Url
end Courier
