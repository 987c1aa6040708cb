import Courier.Store.Config

/-!
# The settings of the promoter

The store, the queues whose delayed jobs are promoted, and the time between two
rounds.

**Results.**
* `PromoterSettings.read`: the settings in variables.
* `PromoterConfig`: what a promoter needs to know.
-/

namespace Courier

/-- What a promoter needs to know. -/
structure PromoterConfig where
  /-- The time between two rounds. -/
  interval : Duration := .ofMillis 1000
  /-- The queues promoted in each round. -/
  queues : List String := []
  name : String := "delayed-promoter"
  deriving DecidableEq

/-- The settings of the promoter. -/
structure PromoterSettings where
  store : StoreConfig
  queues : List String
  interval : Duration
  deriving DecidableEq

namespace PromoterSettings

/-- The variable that lists the queues. -/
def queuesVariable : String := "SKEIN_QUEUES"

/-- The variable that holds the interval in milliseconds. -/
def intervalVariable : String := "SKEIN_PROMOTE_INTERVAL_MS"

/-- The names in a list with commas, without the white space around them and
without the blank ones. -/
def names (list : String) : List String :=
  ((Text.splitOn ',' list.toList).map fun piece => Text.trim (String.ofList piece)).filter (· ≠ "")

/-- A positive number of milliseconds. -/
def interval? (cs : List Char) : Option Duration :=
  (Settings.millis cs).filter fun d => !d.isZero

/-- The settings in variables: the store first, then the queues, then the interval. -/
def read (vars : Variables) : Except SettingsError PromoterSettings := do
  let store ← StoreConfig.read vars
  let queues := names ((vars queuesVariable).getD "")
  if queues = [] then .error (.missing queuesVariable)
  let interval ← Settings.value vars intervalVariable (.ofMillis 1000) interval?
  .ok { store, queues, interval }

/-- What the promoter of these settings needs to know. -/
def promoter (s : PromoterSettings) : PromoterConfig :=
  { interval := s.interval, queues := s.queues, name := "skein-promoter" }

end PromoterSettings
end Courier
