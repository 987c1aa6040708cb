import Courier.Json.Scan

/-!
# Values that are passed over

The value of an unknown field is checked for its form only: surrogates need no
partner, text need not be UTF-8, numbers have no range and nesting no limit.
The containers that are still open are kept on a stack.

**Results.**
* `skipString`, `skipNumber`: a string behind its quote, a number behind its sign.
* `Skip.step`: one token of the value.
* `skipValue`: the whole value.
-/

namespace Courier
namespace Json

/-- Passes over the escape behind a backslash. -/
def skipEscape (s : Bytes) : Except Fault (Tail s) :=
  match s with
  | [] => .error (.at .eofString [])
  | b :: t =>
      if (shortEscape? b).isSome then .ok (Tail.all t).behind.toTail
      else if b = 0x75 then (hexUnit t).map fun (_, r) => r.behind.toTail
      else .error (.at .invalidEscape t)

/-- Passes over a string behind its opening quote. -/
def skipString (s : Bytes) : Except Fault (Rest s) :=
  match s with
  | [] => .error (.at .eofString [])
  | b :: t =>
      if b = 0x22 then .ok (Tail.all t).behind
      else if b = 0x5C then
        match skipEscape t with
        | .error f => .error f
        | .ok r => (skipString r.val).map fun q => (r.rest q).behind
      else if b < 0x20 then .error (.at .controlCharacter (b :: t))
      else (skipString t).map (·.behind)
termination_by s.length
decreasing_by
  · exact Nat.lt_succ_of_le r.property
  · exact Nat.lt_succ_self _

/-- Passes over an exponent behind its mark. -/
def skipExponent (s : Bytes) : Except Fault (Tail s) :=
  let t : Tail s :=
    match s with
    | b :: t => if b = 0x2B ∨ b = 0x2D then (Tail.all t).behind.toTail else .all (b :: t)
    | [] => .all []
  match t.val with
  | [] => .error (.at .invalidNumber [])
  | b :: u =>
      if Bytes.isDigit b then .ok (t.trans (afterDigits t.val))
      else .error (.at .invalidNumber u)

/-- Passes over an exponent if there is one. -/
def skipMaybeExponent (s : Bytes) : Except Fault (Tail s) :=
  match s with
  | b :: t =>
      if isExponentMark b then (skipExponent t).map (·.behind.toTail)
      else .ok (.all (b :: t))
  | [] => .ok (.all [])

/-- Passes over a fraction if there is one, and an exponent if there is one. -/
def skipFraction (s : Bytes) : Except Fault (Tail s) :=
  match s with
  | b :: t =>
      if b = 0x2E then
        if digitRun t = [] then .error (.peek .invalidNumber t)
        else
          let r := afterDigits t
          (skipMaybeExponent r.val).map fun q => (r.trans q).behind.toTail
      else skipMaybeExponent (b :: t)
  | [] => .ok (.all [])

/-- Passes over a number behind its sign. -/
def skipNumber (s : Bytes) : Except Fault (Rest s) :=
  match s with
  | [] => .error (.at .invalidNumber [])
  | b :: t =>
      if b = 0x30 then
        if digitRun t = [] then
          (skipFraction t).map (·.behind)
        else .error (.peek .invalidNumber t)
      else if Bytes.isDigit b then
        let r := afterDigits t
        (skipFraction r.val).map fun q => (r.trans q).behind
      else .error (.at .invalidNumber t)

/-- A container that is still open. -/
inductive Frame where
  | list
  | object
  deriving DecidableEq

namespace Frame

/-- The byte that closes a container. -/
def closer : Frame → UInt8
  | .list => 0x5D
  | .object => 0x7D

/-- The text ends inside a container. -/
def eof : Frame → Cause
  | .list => .eofList
  | .object => .eofObject

/-- Neither a comma nor the closing byte follows an entry. -/
def expectedComma : Frame → Cause
  | .list => .expectedListComma
  | .object => .expectedObjectComma

end Frame

/-- What the next token is expected to be. -/
inductive Skip where
  /-- A value. -/
  | value
  /-- The first entry of the container just opened, or its end. -/
  | opened (frame : Frame)
  /-- A key, its colon and a value. -/
  | key
  /-- A comma or the end of the innermost container. -/
  | after

namespace Skip

/-- What comes after a token: an end, or more with the containers that are open. -/
inductive Next (s : Bytes) where
  | done (rest : Rest s)
  | more (mode : Skip) (open_ : List Frame) (rest : Rest s)

/-- A value has ended in front of `r`. -/
def ended {s : Bytes} (open_ : List Frame) (r : Rest s) : Next s :=
  if open_ = [] then .done r else .more .after open_ r

/-- What an entry of a container starts with. -/
def entry : Frame → Skip
  | .list => .value
  | .object => .key

/-- The first token of a value. -/
def valueStep (open_ : List Frame) (s : Bytes) : Except Fault (Next s) :=
  match front s with
  | .ended => .error (.at .eofValue [])
  | .byte b t h =>
      let finish (r : Rest (b :: t)) : Next s := ended open_ (r.ofLe h)
      if b = 0x6E then (word restOfNull t).map fun r => finish r.behind
      else if b = 0x74 then (word restOfTrue t).map fun r => finish r.behind
      else if b = 0x66 then (word restOfFalse t).map fun r => finish r.behind
      else if b = 0x2D then (skipNumber t).map fun r => finish r.behind
      else if Bytes.isDigit b then (skipNumber (b :: t)).map finish
      else if b = 0x22 then (skipString t).map fun r => finish r.behind
      else if b = 0x5B then .ok (.more (.opened .list) open_ (Rest.first h))
      else if b = 0x7B then .ok (.more (.opened .object) open_ (Rest.first h))
      else .error (.peek .expectedValue (b :: t))

/-- A key with its colon. -/
def keyStep (open_ : List Frame) (s : Bytes) : Except Fault (Next s) :=
  match front s with
  | .ended => .error (.at .eofObject [])
  | .byte b t h =>
      if b = 0x22 then
        match skipString t with
        | .error f => .error f
        | .ok r =>
            match front r.val with
            | .ended => .error (.at .eofObject [])
            | .byte c u k =>
                if c = 0x3A then
                  .ok (.more .value open_ ((r.trans (Rest.first k)).behind.ofLe h))
                else .error (.peek .expectedColon (c :: u))
      else .error (.peek .keyNotString (b :: t))

/-- One token. -/
def step : Skip → List Frame → (s : Bytes) → Except Fault (Next s)
  | .value, open_, s => valueStep open_ s
  | .key, open_, s => keyStep open_ s
  | .opened frame, open_, s =>
      match front s with
      | .ended => .error (.at frame.eof [])
      | .byte b _ h =>
          if b = frame.closer then .ok (ended open_ (Rest.first h))
          else
            match frame with
            | .list => valueStep (frame :: open_) s
            | .object => keyStep (frame :: open_) s
  | .after, [], s =>
      -- Nothing is open: the value has ended.
      .error (.at .eofValue s)
  | .after, frame :: open_, s =>
      match front s with
      | .ended => .error (.at frame.eof [])
      | .byte b t h =>
          if b = 0x2C then .ok (.more (entry frame) (frame :: open_) (Rest.first h))
          else if b = frame.closer then .ok (ended open_ (Rest.first h))
          else .error (.peek frame.expectedComma (b :: t))

/-- All tokens up to the end of the value. -/
def run (mode : Skip) (open_ : List Frame) (s : Bytes) : Except Fault (Rest s) :=
  match step mode open_ s with
  | .error f => .error f
  | .ok (.done r) => .ok r
  | .ok (.more mode open_ r) =>
      (run mode open_ r.val).map r.trans
termination_by s.length
decreasing_by exact r.property

end Skip

/-- Passes over one value of any depth. -/
def skipValue : Reader Unit := fun s =>
  (Skip.run .value [] s).map fun r => ((), r)

end Json
end Courier
