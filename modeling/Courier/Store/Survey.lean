import Courier.Store.Basic

/-!
# Looking at a whole store

Everything that can be asked about the keys of a store, and everything that has
arrived for a subscriber.

**Results.**
* `Store.survey`: what every key holds.
* `Store.drain`: what has arrived for a subscriber.
-/

namespace Courier

/-- What a key holds of each kind. -/
structure KeySurvey where
  key : String
  listLen : Nat
  /-- The members of the sorted set in order. -/
  sorted : List Bytes
  sortedLen : Nat
  value : Option Bytes
  deriving DecidableEq

namespace Store

variable {σ : Type} [Store σ]

/-- What a key holds. -/
def surveyKey (key : String) : StoreM σ KeySurvey := do
  let sorted ← rangeByScore key .negInfinity .infinity
  let listLen ← Store.listLen key
  let sortedLen ← Store.sortedLen key
  let value ← Store.get key
  pure { key, listLen, sorted, sortedLen, value }

/-- What every key holds, in the order of keys. -/
def survey : StoreM σ (List KeySurvey) := do
  let keys ← keysMatching "*"
  keys.mapM surveyKey

/-- Takes at most a number of messages without waiting; the failure at which it
stopped, if it was one. -/
def drainUpTo (id : SubscriberId) : Nat → StateM σ (List RawMessage × Option StoreError)
  | 0 => pure ([], none)
  | n + 1 => do
      match ← (nextMessage id .zero : StoreM σ (Option RawMessage)).run with
      | .ok (some m) =>
          let (ms, e) ← drainUpTo id n
          pure (m :: ms, e)
      | .ok none => pure ([], none)
      | .error e => pure ([], some e)

/-- Takes every message that has arrived for a subscriber. -/
def drain (id : SubscriberId) : StateM σ (List RawMessage × Option StoreError) := do
  let state ← getThe σ
  drainUpTo id (backlog id state + 1)

end Store
end Courier
