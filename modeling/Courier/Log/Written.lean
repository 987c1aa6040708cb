import Courier.Calendar.Written
import Courier.Json.Writer
import Courier.Log.Config
import Courier.Log.Line

/-!
# Written log lines

A line is one JSON object, or a text for readers: the time, the level, the part
of the program that speaks, and the fields.

**Results.**
* `LogLine.written`: a line in a form.
-/

namespace Courier

/-- The name of a thread. -/
def LogThread.name : LogThread → String
  | .main => "main"
  | .worker => "worker"
  | .named name => name

namespace LogLine

/-- The bytes of a value. -/
def valueBytes : LogValue → Bytes
  | .text s => Json.writeString s
  | .number n => Bytes.ofAscii (toString n)

/-- The text of a value. -/
def valueText : LogValue → String
  | .text s => s
  | .number n => toString n

/-- A line as a JSON object. -/
def json (l : LogLine) (now : Calendar.Timestamp) : String :=
  Utf8.textLossy <| Json.writeRecord
    [("timestamp", Json.writeString now.text),
     ("level", Json.writeString l.level.name),
     ("fields", Json.writeRecord (l.fields.map fun f => (f.1, valueBytes f.2))),
     ("threadName", Json.writeString l.thread.name)]

/-- A line as a text for readers. -/
def pretty (l : LogLine) (now : Calendar.Timestamp) : String :=
  let fields := l.fields.map fun f => f.1 ++ ": " ++ valueText f.2
  now.text ++ " " ++ l.level.name ++ " " ++ l.target ++ ": " ++ ", ".intercalate fields ++
    " on " ++ l.thread.name

/-- A line in a form. -/
def written (l : LogLine) (now : Calendar.Timestamp) : LogFormat → String
  | .json => l.json now
  | .pretty => l.pretty now

end LogLine
end Courier
