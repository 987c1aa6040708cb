import Courier.Settings

/-!
# The settings of the log

Which lines are written, and in which form.

**Results.**
* `LogFormat.ofName`: the form of a name.
* `LogConfig.read`: the settings in variables.
-/

namespace Courier

/-- The form of log lines. -/
inductive LogFormat where
  | json
  | pretty
  deriving DecidableEq, Repr

/-- The form of a name in any case, with or without white space around it;
unknown names stand for JSON. -/
def LogFormat.ofName (name : String) : LogFormat :=
  let plain := Text.lowerAscii (Text.trim name)
  if plain = "pretty" ∨ plain = "text" then .pretty else .json

/-- The settings of the log. -/
structure LogConfig where
  /-- The directives that select lines. -/
  filter : String := "info"
  format : LogFormat := .json
  deriving DecidableEq

namespace LogConfig

/-- The variable that holds the directives. -/
def filterVariable : String := "RUST_LOG"

/-- The variable that names the form. -/
def formatVariable : String := "SKEIN_LOG_FORMAT"

/-- The settings in variables.  Directives that are all blank count as not set. -/
def read (vars : Variables) : LogConfig :=
  let dflt : LogConfig := {}
  { filter := ((vars filterVariable).filter fun f => !Text.isAllBlank f).getD dflt.filter
    format := ((vars formatVariable).map LogFormat.ofName).getD dflt.format }

end LogConfig
end Courier
