import Courier.Duration
import Courier.Text.Blank
import Courier.Text.Numeral
import Courier.Text.Quoted

/-!
# Settings

Settings are read from named variables.  A number may have white space around
it; a variable that is not set leaves the default.

**Results.**
* `Settings.number`: a number from a variable.
* `SettingsError.message`: the wording of a failure.
-/

namespace Courier

/-- The variables that settings are read from. -/
abbrev Variables := String → Option String

/-- Why settings were not read. -/
inductive SettingsError where
  /-- The variable holds no value of its kind. -/
  | invalid (name value : String)
  /-- The variable must be set. -/
  | missing (name : String)
  deriving DecidableEq, Repr

/-- The wording of a failure. -/
def SettingsError.message : SettingsError → String
  | .invalid name value => "invalid value for " ++ name ++ ": " ++ Text.quoted value
  | .missing name => name ++ " must be set"

namespace Settings

/-- The value of a variable as `read` reads it without the white space around
it, or the default if it is not set. -/
def value {α : Type} (vars : Variables) (name : String) (default : α)
    (read : List Char → Option α) : Except SettingsError α :=
  match vars name with
  | none => .ok default
  | some raw =>
      match read (Text.trim raw).toList with
      | some v => .ok v
      | none => .error (.invalid name raw)

/-- A natural number up to a limit. -/
def natural (limit : Nat) (cs : List Char) : Option Nat :=
  Numeral.natural? limit cs

/-- A signed 64-bit integer. -/
def int64 (cs : List Char) : Option Int64 :=
  (Numeral.integer? Numeral.minInt64 Numeral.maxInt64 cs).map Int64.ofInt

/-- A number of milliseconds. -/
def millis (cs : List Char) : Option Duration :=
  (natural Numeral.maxNat64 cs).map fun n => .ofMillis (.ofNat n)

end Settings
end Courier
