import Courier.Remote.Url
import Courier.Text.Percent

/-!
# Addresses of servers

A server is reached over the network or through a socket file.  Its URL may
carry the credentials with which a connection is opened.

**Results.**
* `Endpoint.ofUrl`: the address and the credentials of a URL.
* `AddressFault.message`: the wording of a fault in a URL.
-/

namespace Courier
namespace Remote

/-- Where a server listens. -/
inductive Address where
  | network (host : String) (port : Nat)
  | socket (path : Bytes)
  deriving DecidableEq

/-- What is wrong with the URL of a server. -/
inductive AddressFault where
  | unreadable
  | noHost
  | encryption
  | database
  | username
  | password
  | noPath
  deriving DecidableEq

/-- The wording of a fault in a URL. -/
def AddressFault.message (f : AddressFault) : String :=
  let reason := match f with
    | .unreadable => "Redis URL did not parse"
    | .noHost => "Missing hostname"
    | .encryption => "can't connect with TLS, the feature is not enabled"
    | .database => "Invalid database number"
    | .username => "Username is not valid UTF-8 string"
    | .password => "Password is not valid UTF-8 string"
    | .noPath => "Missing path"
  "invalid store url: " ++ reason ++ "- InvalidClientConfig"

/-- Where a server listens, and the credentials it asks for. -/
structure Endpoint where
  address : Address
  username : Option String
  password : Option String
  deriving DecidableEq

namespace Endpoint

/-- Whether a text names a database. -/
def isDatabase (cs : List Char) : Bool :=
  (Numeral.integer? Numeral.minInt64 Numeral.maxInt64 cs).isSome

/-- The text of a credential, or a fault if it is none. -/
def credential (fault : AddressFault) (cs : List Char) : Except AddressFault String :=
  match Text.percentText? cs with
  | some s => .ok s
  | none => .error fault

/-- A path without slashes around it. -/
def databasePath (u : Url) : List Char :=
  let path := List.intercalate ['/'] (u.segments.getD [])
  ((path.dropWhile (· = '/')).reverse.dropWhile (· = '/')).reverse

/-- The port on which servers listen by default. -/
def defaultPort : Nat := 6379

/-- The endpoint of a URL with a host. -/
def ofNetwork (u : Url) : Except AddressFault Endpoint := do
  let some host := u.host | .error .noHost
  if u.scheme = "rediss" then .error .encryption
  let db := databasePath u
  if db ≠ [] && !isDatabase db then .error .database
  let username ←
    if u.username = [] then .ok none else (credential .username u.username).map some
  let password ← match u.password with
    | none => .ok none
    | some p => (credential .password p).map some
  let address := .network (String.ofList host) (u.port.getD defaultPort)
  .ok { address, username, password }

/-- Whether a byte is an ASCII letter. -/
def isLetter (b : UInt8) : Bool :=
  (0x41 ≤ b && b ≤ 0x5A) || (0x61 ≤ b && b ≤ 0x7A)

/-- Whether a file name ends in a drive: a letter and a colon or a bar. -/
def endsInDrive (name : Bytes) : Bool :=
  match name.reverse with
  | mark :: letter :: _ :: _ => isLetter letter && (mark == 0x3A || mark == 0x7C)
  | _ => false

/-- The file name of a path; a slash follows a drive. -/
def fileName (segments : List (List Char)) : Bytes :=
  let name := segments.flatMap fun s => 0x2F :: Text.percentDecode (Utf8.encodeChars s)
  if endsInDrive name then name ++ [0x2F] else name

/-- The endpoint of a URL that names a socket file. -/
def ofSocket (u : Url) : Except AddressFault Endpoint := do
  let some segments := u.segments | .error .noPath
  if !(u.host.all (· = "localhost".toList)) then .error .noPath
  let fields := Text.readForm u.query
  if (Text.formValue? fields "db").any fun db => !isDatabase db.toList then .error .database
  .ok { address := .socket (fileName segments)
        username := Text.formValue? fields "user"
        password := Text.formValue? fields "pass" }

/-- The endpoint of a URL. -/
def ofUrl (url : String) : Except AddressFault Endpoint :=
  match Url.ofText? url with
  | none => .error .unreadable
  | some u =>
      if u.scheme = "redis" ∨ u.scheme = "rediss" then ofNetwork u
      else if u.scheme = "unix" ∨ u.scheme = "redis+unix" then ofSocket u
      else .error .unreadable

end Endpoint
end Remote
end Courier
