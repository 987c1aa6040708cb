import Courier.Settings

/-!
# The settings of a remote store

Where the store is and how it is reached.  Every setting has a default.

**Results.**
* `StoreConfig.ofUrl`: the defaults at an address.
* `StoreConfig.read`: the settings in variables.
-/

namespace Courier

/-- Where a store is and how it is reached. -/
structure StoreConfig where
  url : String := "redis://localhost:6379"
  /-- The greatest number of connections, idle or in use. -/
  poolSize : Nat := 10
  /-- The number of the database. -/
  db : Int64 := 0
  /-- How often the store is tried at first. -/
  connAttempts : UInt32 := 10
  /-- How long a connection is waited for, and the pause between attempts. -/
  connTimeout : Duration := .ofMillis 1000
  deriving DecidableEq

namespace StoreConfig

/-- The defaults at an address. -/
def ofUrl (url : String) : StoreConfig := { url }

/-- The settings in variables, read in this order. -/
def read (vars : Variables) : Except SettingsError StoreConfig := do
  let dflt : StoreConfig := {}
  let url := (vars "REDIS_URL").getD dflt.url
  let poolSize ← Settings.value vars "REDIS_POOL_SIZE" dflt.poolSize
    (Settings.natural Numeral.maxNat64)
  let db ← Settings.value vars "REDIS_DB" dflt.db Settings.int64
  let connAttempts ← Settings.value vars "REDIS_CONN_ATTEMPTS" dflt.connAttempts fun cs =>
    (Settings.natural Numeral.maxNat32 cs).map .ofNat
  let connTimeout ← Settings.value vars "REDIS_CONN_TIMEOUT_MS" dflt.connTimeout Settings.millis
  .ok { url, poolSize, db, connAttempts, connTimeout }

end StoreConfig
end Courier
