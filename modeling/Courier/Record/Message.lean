import Courier.Calendar.Written
import Courier.Record.Codec

/-!
# Messages

What is delivered on a channel.  A payload that is no message is delivered all
the same, as a message that carries its text.

**Results.**
* `Message.receive`: the message of a payload, and the failure if it was none.
* `Message.raw`: the text of a payload that was no message.
-/

namespace Courier

/-- A message on a channel. -/
structure Message where
  channel : String
  data : Json.Object
  timestamp : Calendar.Timestamp
  deriving BEq

namespace Message

/-- What a message is called in failures of the codec. -/
def kind : String := "message"

/-- The key under which a payload that is no message is carried. -/
def rawKey : String := "raw"

/-- What is known of a message while it is read. -/
structure Draft where
  channel : Option String := none
  data : Option Json.Object := none
  timestamp : Option Calendar.Timestamp := none

/-- How a message is read: every field is required. -/
def record : Json.Record Draft Message where
  name := "Message"
  fields :=
    [.of "channel" true (·.channel) fun v d => { d with channel := some v },
     .of "data" true (·.data) fun v d => { d with data := some v },
     .of "timestamp" true (·.timestamp) fun v d => { d with timestamp := some v }]
  start := {}
  finish d :=
    { channel := d.channel.getD ""
      data := d.data.getD .empty
      timestamp := d.timestamp.getD .min }

instance : Json.Decode Message where
  read := record.read

/-- The bytes of a message. -/
def write (m : Message) : Bytes :=
  Json.writeRecord
    [("channel", Json.writeString m.channel),
     ("data", m.data.write),
     ("timestamp", Json.writeString m.timestamp.text)]

instance : Json.Encode Message where
  write m := .ok m.write

/-- The message that carries the text of a payload that is none. -/
def fallback (channel : String) (payload : Bytes) (now : Calendar.Timestamp) : Message :=
  { channel
    data := .single rawKey (.string (Utf8.textLossy payload))
    timestamp := now }

/-- The message of a payload that arrived on a channel, and the failure of the
codec if the payload was none. -/
def receive (channel : String) (payload : Bytes) (now : Calendar.Timestamp) :
    Message × Option CodecError :=
  match Codec.decode (α := Message) kind payload with
  | .ok m => (m, none)
  | .error e => (fallback channel payload now, some e)

/-- The text under the key of raw payloads. -/
def raw (m : Message) : Option String :=
  match m.data.get? rawKey with
  | some (.string s) => some s
  | _ => none

end Message
end Courier
