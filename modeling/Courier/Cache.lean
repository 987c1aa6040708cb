import Courier.Record.Codec
import Courier.Store.Basic

/-!
# The cache

Values of any kind that JSON can hold, under keys of a store, with or without a
time to live.

**Results.**
* `Cache.put`, `Cache.get`: writing and reading a value.
* `Cache.setIfAbsent`: writing a value once.
* `Cache.incrementBy`: counters, which are read like other integers.
-/

namespace Courier

/-- Why a call to the cache failed. -/
inductive CacheError where
  | store (e : StoreError)
  | serialization (e : CodecError)
  deriving DecidableEq

/-- The wording of a failure. -/
def CacheError.message : CacheError → String
  | .store e => e.message
  | .serialization e => "cached value serialization error: " ++ e.message

/-- A call to the cache over a store with states in `σ`. -/
abbrev CacheM (σ : Type) := ExceptT CacheError (StateM σ)

namespace Cache

variable {σ : Type}

/-- What a value is called in failures of the codec. -/
def kind : String := "cached value"

/-- Makes a call to the store. -/
def onStore {α : Type} (call : StoreM σ α) : CacheM σ α :=
  call.adapt .store

/-- Passes on the answer of the codec. -/
def onCodec {α : Type} (r : Except CodecError α) : CacheM σ α :=
  ExceptT.mk (pure (r.mapError .serialization))

variable [Store σ]

/-- Puts a value under a key, in place of any value and time to live. -/
def put {α : Type} [Json.Encode α] (key : String) (v : α) (ttl : Option Duration) :
    CacheM σ Unit := do
  let bytes ← onCodec (Codec.encode kind v)
  onStore (Store.set key bytes ttl)

/-- The value under a key. -/
def get {α : Type} [Json.Decode α] (key : String) : CacheM σ (Option α) := do
  match ← onStore (Store.get key) with
  | none => pure none
  | some bytes => do
      let v ← onCodec (Codec.decode kind bytes)
      pure (some v)

/-- Removes a key; whether it was there. -/
def delete (key : String) : CacheM σ Bool := do
  let n ← onStore (Store.delete [key])
  pure (0 < n)

/-- Removes the keys that match a pattern; which they were. -/
def deleteMatching (pattern : String) : CacheM σ (List String) := do
  let keys ← onStore (Store.keysMatching pattern)
  if keys = [] then pure []
  else
    let _ ← onStore (Store.delete keys)
    pure keys

/-- Whether a key is there. -/
def contains (key : String) : CacheM σ Bool :=
  onStore (Store.contains key)

/-- Puts a value under a key that is absent; whether it was put. -/
def setIfAbsent {α : Type} [Json.Encode α] (key : String) (v : α) (ttl : Option Duration) :
    CacheM σ Bool := do
  let bytes ← onCodec (Codec.encode kind v)
  onStore (Store.setIfAbsent key bytes ttl)

/-- Adds to the integer under a key; the new value. -/
def incrementBy (key : String) (amount : Int64) : CacheM σ Int64 :=
  onStore (Store.increment key amount)

/-- Adds one to the integer under a key; the new value. -/
def increment (key : String) : CacheM σ Int64 :=
  incrementBy key 1

end Cache
end Courier
