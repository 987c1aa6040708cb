/-!
# Log lines

What a program tells about itself: a level, the part of the program that
speaks, the thread, and named values.

**Results.**
* `LogLevel.rank`: the order of levels.
* `LogLine`: a line.
-/

namespace Courier

/-- How much a line matters. -/
inductive LogLevel where
  | error
  | warn
  | info
  | debug
  | trace
  deriving DecidableEq, Repr

namespace LogLevel

/-- The place of a level in the order from what matters most. -/
def rank : LogLevel → Nat
  | error => 1
  | warn => 2
  | info => 3
  | debug => 4
  | trace => 5

/-- The name of a level. -/
def name : LogLevel → String
  | error => "ERROR"
  | warn => "WARN"
  | info => "INFO"
  | debug => "DEBUG"
  | trace => "TRACE"

end LogLevel

/-- A value in a log line. -/
inductive LogValue where
  | text (s : String)
  | number (n : Int)
  deriving DecidableEq

/-- A thread that writes log lines. -/
inductive LogThread where
  /-- The thread with which the program begins. -/
  | main
  /-- A thread for work that may block. -/
  | worker
  /-- A thread with a name of its own. -/
  | named (name : String)
  deriving DecidableEq

/-- An activity within which lines are written. -/
structure LogSpan where
  name : String
  /-- The part of the program to which the activity belongs. -/
  target : String
  level : LogLevel
  fields : List (String × String)
  deriving DecidableEq

/-- A log line. -/
structure LogLine where
  level : LogLevel
  /-- The part of the program that speaks. -/
  target : String
  /-- The activity within which it speaks. -/
  span : Option LogSpan := none
  thread : LogThread
  fields : List (String × LogValue)
  deriving DecidableEq

namespace LogLine

/-- The fields of a line that says something. -/
def saying (message : String) (fields : List (String × LogValue)) : List (String × LogValue) :=
  ("message", .text message) :: fields

end LogLine
end Courier
