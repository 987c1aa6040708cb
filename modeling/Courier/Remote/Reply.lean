import Courier.Store.Basic
import Courier.Text.Numeral
import Courier.Text.Quoted
import Courier.Text.Utf8

/-!
# Replies

What a server answers, and how an answer is read as the type that a command
expects.  An answer that signals an error, or that does not fit, refuses the
command; the connection can still be used.

**Results.**
* `Reply.outcome`: an answer, or the error that it signals.
* `Reply.integer`, `Reply.natural`, `Reply.text`, `Reply.bytes`: readings.
* `Reply.describe`: how an answer is shown in diagnostics.
* `Fault.toStore`: the failure of the store that a fault means.
-/

namespace Courier
namespace Remote

/-- Why a command failed. -/
inductive Fault where
  /-- The connection was lost, or could not be opened. -/
  | lost (reason : String)
  /-- The command was refused, or its answer does not fit. -/
  | refused (reason : String)
  deriving DecidableEq, Repr

namespace Fault

/-- The failure of the store that a fault means. -/
def toStore : Fault → StoreError
  | .lost reason => .connection reason
  | .refused reason => .command reason

/-- Whether the connection cannot be used after a fault. -/
def isLost : Fault → Bool
  | .lost _ => true
  | .refused _ => false

/-- The server closed the connection instead of answering. -/
def endOfStream : Fault := .lost "unexpected end of file"

/-- The server had closed the connection before the command was sent. -/
def brokenPipe : Fault := .lost "Broken pipe (os error 32)"

/-- No answer came in time. -/
def silence : Fault := .lost "Resource temporarily unavailable (os error 11)"

/-- A time limit of zero cannot be set. -/
def zeroTimeout : Fault := .lost "cannot set a 0 duration timeout"

/-- The answer is no text. -/
def notText : Fault := .refused "Cannot convert from UTF-8- TypeError"

/-- The answer is no text that could be a number. -/
def notNumeral : Fault := .refused "Invalid UTF-8- TypeError"

/-- The answer to a batch is neither a list nor nothing. -/
def notBatch : Fault :=
  .refused "Invalid response when parsing multi response- ResponseError"

end Fault

/-- An answer of a server. -/
inductive Reply where
  | nil
  | int (n : Int64)
  | bulk (b : Bytes)
  | status (s : String)
  | error (s : String)
  | array (items : List Reply)

instance : Inhabited Reply := ⟨.nil⟩

namespace Reply

/-- The kinds of errors that have names of their own. -/
def errorNames : List (String × String) :=
  [("ERR", "ResponseError"), ("EXECABORT", "ExecAbortError"), ("LOADING", "BusyLoadingError"),
   ("NOSCRIPT", "NoScriptError"), ("MOVED", "Moved"), ("ASK", "Ask"), ("TRYAGAIN", "TryAgain"),
   ("CLUSTERDOWN", "ClusterDown"), ("CROSSSLOT", "CrossSlot"), ("MASTERDOWN", "MasterDown"),
   ("READONLY", "ReadOnly"), ("NOTBUSY", "NotBusy")]

/-- The wording of an error that a server signals: its code up to the first space,
by name where it has one, and what stands behind the space. -/
def errorText (s : String) : String :=
  let code := s.toList.takeWhile (· ≠ ' ')
  let rest := s.toList.drop (code.length + 1)
  let hasRest := code.length < s.toList.length
  match errorNames.lookup (String.ofList code) with
  | some name =>
      "An error was signalled by the server" ++
        (if hasRest then " - " ++ name ++ ": " ++ String.ofList rest else "- " ++ name)
  | none =>
      String.ofList code ++ ": " ++
        (if hasRest then String.ofList rest else "Unknown extension error encountered")

mutual

/-- The first error that an answer signals, in lists as well. -/
def signalled? : Reply → Option String
  | .error s => some s
  | .array items => firstSignalled? items
  | _ => none

/-- The first error that one of the answers signals. -/
def firstSignalled? : List Reply → Option String
  | [] => none
  | r :: rest =>
      match signalled? r with
      | some s => some s
      | none => firstSignalled? rest

end

/-- An answer, or the fault that it signals. -/
def outcome (r : Reply) : Except Fault Reply :=
  match r.signalled? with
  | some s => .error (.refused (errorText s))
  | none => .ok r

mutual

/-- How an answer is shown in diagnostics. -/
def describe : Reply → String
  | .nil => "nil"
  | .int n => "int(" ++ toString n.toInt ++ ")"
  | .bulk b =>
      match Utf8.text? b with
      | some s => "string-data('" ++ Text.quoted s ++ "')"
      | none => "binary-data([" ++ ", ".intercalate (b.map fun x => toString x.toNat) ++ "])"
  | .status s => if s = "OK" then "ok" else "status(" ++ Text.quoted s ++ ")"
  | .error s => "error(" ++ Text.quoted s ++ ")"
  | .array items => "bulk(" ++ ", ".intercalate (describeAll items) ++ ")"

/-- How answers are shown in diagnostics. -/
def describeAll : List Reply → List String
  | [] => []
  | r :: rest => describe r :: describeAll rest

end

/-- The fault that an answer has another type than the command expects. -/
def misfit (r : Reply) (detail : String) : Fault :=
  .refused ("Response was of incompatible type - TypeError: " ++ Text.quoted detail ++
    " (response was " ++ r.describe ++ ")")

/-- The fault that an answer is no number. -/
def notNumber (r : Reply) : Fault :=
  r.misfit "Response type not convertible to numeric."

/-- The number of an answer: an integer, or a numeral as `read` reads it.  The status
`OK` is never read. -/
def number {α : Type} (ofInt : Int64 → α) (read : List Char → Option α) (r : Reply) :
    Except Fault α :=
  let parsed (s : String) : Except Fault α :=
    match read s.toList with
    | some v => .ok v
    | none => .error (r.misfit "Could not convert from string.")
  match r with
  | .int n => .ok (ofInt n)
  | .status s => if s = "OK" then .error r.notNumber else parsed s
  | .bulk b =>
      match Utf8.text? b with
      | some s => parsed s
      | none => .error .notNumeral
  | _ => .error r.notNumber

/-- A signed 64-bit integer. -/
def integer : Reply → Except Fault Int64 :=
  number id fun cs =>
    (Numeral.integer? Numeral.minInt64 Numeral.maxInt64 cs).map Int64.ofInt

/-- A natural number of 64 bits; a negative integer wraps around. -/
def natural : Reply → Except Fault Nat :=
  number (·.toUInt64.toNat) (Numeral.natural? Numeral.maxNat64)

/-- A byte; an integer wraps around. -/
def byte : Reply → Except Fault UInt8 :=
  number (fun n => .ofNat n.toUInt64.toNat) fun cs => (Numeral.natural? 255 cs).map .ofNat

/-- A text. -/
def text (r : Reply) : Except Fault String :=
  match r with
  | .bulk b =>
      match Utf8.text? b with
      | some s => .ok s
      | none => .error .notText
  | .status s => .ok s
  | _ => .error (r.misfit "Response type not string compatible.")

/-- The fault that an answer is no list. -/
def notList (r : Reply) : Fault :=
  r.misfit "Response type not vector compatible."

/-- A byte string, also as a list of bytes; nothing is empty. -/
def bytes (r : Reply) : Except Fault Bytes :=
  match r with
  | .bulk b => .ok b
  | .array items => items.mapM byte
  | .nil => .ok []
  | _ => .error r.notList

/-- A list as `item` reads each item; nothing is empty, and a single value stands for
a list of one. -/
def list {α : Type} (item : Reply → Except Fault α) (r : Reply) : Except Fault (List α) :=
  match r with
  | .bulk b => (item (.bulk b)).map fun v => [v]
  | .array items => items.mapM item
  | .nil => .ok []
  | _ => .error r.notList

/-- Nothing, or an answer as `read` reads it. -/
def optional {α : Type} (read : Reply → Except Fault α) : Reply → Except Fault (Option α)
  | .nil => .ok none
  | r => (read r).map some

/-- A list of exactly two. -/
def pair {α β : Type} (first : Reply → Except Fault α) (second : Reply → Except Fault β)
    (r : Reply) : Except Fault (α × β) :=
  match r with
  | .array [a, b] => do
      let x ← first a
      let y ← second b
      .ok (x, y)
  | .array _ => .error (r.misfit "Bulk response of wrong dimension")
  | _ => .error (r.misfit "Not a bulk response")

/-- Whatever the answer is. -/
def ignored : Reply → Except Fault Unit :=
  fun _ => .ok ()

/-- The answer to a batch: a list, or nothing. -/
def batch : Reply → Except Fault Unit
  | .nil => .ok ()
  | .array _ => .ok ()
  | _ => .error .notBatch

end Reply
end Remote
end Courier
