import Courier.Remote.Server

/-!
# Answers to a subscriber

A subscriber's connection carries confirmations of its commands and the
messages of its channels and patterns, in any order.  Messages that arrive
before a confirmation are kept.

**Results.**
* `toRaw?`: the message that an answer carries.
* `awaitConfirmations`: reads up to the last confirmation that is due.
-/

namespace Courier
namespace Remote

/-- The word that says what an answer on a subscriber's connection is. -/
def kindOf? : Reply → Option String
  | .array (.bulk b :: _) => some (Utf8.textLossy b)
  | _ => none

/-- The channel of a message, or a question mark for one that is no text. -/
def channelText : Reply → String
  | .bulk b => (Utf8.text? b).getD "?"
  | _ => "?"

/-- The payload of a message, empty if it is no byte string. -/
def payloadBytes : Reply → Bytes
  | .bulk b => b
  | _ => []

/-- The message that an answer carries. -/
def toRaw? : Reply → Option RawMessage
  | .array (kind :: items) =>
      match kind.text.toOption, items with
      | some "message", channel :: payload :: _ =>
          some ⟨channelText channel, none, payloadBytes payload⟩
      | some "pmessage", pattern :: channel :: payload :: _ =>
          some ⟨channelText channel, pattern.text.toOption, payloadBytes payload⟩
      | _, _ => none
  | _ => none

/-- What came of reading answers up to the last confirmation. -/
structure Awaited where
  result : Except Fault Unit
  /-- The messages that were met, in order. -/
  met : List RawMessage
  /-- The connection behind the last answer that was read. -/
  line : Line

/-- Reads answers until a number of confirmations of a kind have come.  A fault ends
the reading. -/
def awaitConfirmations (kind : String) (due : Nat) (l : Line) : Awaited :=
  match due with
  | 0 => ⟨.ok (), [], l⟩
  | n + 1 =>
      match h : l.read with
      | (.error f, m) => ⟨.error f, [], m⟩
      | (.ok v, m) =>
          if kindOf? v = some kind then awaitConfirmations kind n m
          else
            let a := awaitConfirmations kind (n + 1) m
            { a with met := (toRaw? v).toList ++ a.met }
termination_by l.unread.length
decreasing_by
  · exact Line.length_of_read_ok h
  · exact Line.length_of_read_ok h

end Remote
end Courier
