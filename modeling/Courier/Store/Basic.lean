import Courier.Binary64.Basic
import Courier.Bytes
import Courier.Duration

/-!
# Key-value stores

What queues, the broker and the cache need from a store: lists, sorted sets,
plain values that may expire, atomic batches, and publish and subscribe.  A
store is a type of states; a call is a function on the state that keeps it also
when it fails.

**Results.**
* `Store`: the calls of a store.
* `StoreError.message`: the wording of a failure.
-/

namespace Courier

/-- Why a call to a store failed. -/
inductive StoreError where
  /-- The store was not reached, or the connection broke. -/
  | connection (reason : String)
  /-- The store refused the call. -/
  | command (reason : String)
  /-- The connection was closed for good. -/
  | closed
  /-- A deadline lies beyond the last instant of the clock; the call was abandoned. -/
  | deadlineOverflow
  deriving DecidableEq, Repr

/-- The wording of a failure. -/
def StoreError.message : StoreError → String
  | .connection reason => "store connection error: " ++ reason
  | .command reason => "store command error: " ++ reason
  | .closed => "store connection closed"
  | .deadlineOverflow => "overflow when adding duration to instant"

/-- One operation of a batch. -/
inductive BatchOp where
  | pushFront (key : String) (value : Bytes)
  | sortedAdd (key : String) (member : Bytes) (score : Binary64)
  | sortedRemove (key : String) (member : Bytes)
  deriving DecidableEq

/-- A payload as it arrived on a subscriber's connection. -/
structure RawMessage where
  channel : String
  pattern : Option String
  payload : Bytes
  deriving DecidableEq

/-- The number of a subscriber's connection. -/
abbrev SubscriberId := Nat

/-- A call to a store with states in `σ`. -/
abbrev StoreM (σ : Type) := ExceptT StoreError (StateM σ)

/-- The call of a function on states. -/
def StoreM.of {σ α : Type} (f : σ → Except StoreError α × σ) : StoreM σ α :=
  ExceptT.mk fun s => f s

/-- What a call answers in a state, and the state after it. -/
def StoreM.answer {σ α : Type} (call : StoreM σ α) (s : σ) : Except StoreError α × σ :=
  ExceptT.run call s

/-- Makes a call to a store that is part of a larger state. -/
def StoreM.within {σ τ α : Type} (part : τ → σ) (replace : τ → σ → τ) (call : StoreM σ α) :
    StoreM τ α :=
  .of fun t =>
    let (r, s) := call.answer (part t)
    (r, replace t s)

/-- The calls of a store with states in `σ`. -/
class Store (σ : Type) where
  /-- Puts a value at the front of a list; the new length. -/
  pushFront : String → Bytes → StoreM σ Nat
  /-- Takes the value at the back of a list. -/
  popBack : String → StoreM σ (Option Bytes)
  /-- Takes the value at the back of a list, waiting for one. -/
  blockingPopBack : String → Duration → StoreM σ (Option Bytes)
  /-- The length of a list. -/
  listLen : String → StoreM σ Nat
  /-- Removes keys of any kind; how many there were. -/
  delete : List String → StoreM σ Nat
  /-- Gives a member of a sorted set a score. -/
  sortedAdd : String → Bytes → Binary64 → StoreM σ Unit
  /-- The members with scores between two bounds, by score and then by bytes. -/
  rangeByScore : String → Binary64 → Binary64 → StoreM σ (List Bytes)
  /-- Removes a member of a sorted set; whether it was there. -/
  sortedRemove : String → Bytes → StoreM σ Bool
  /-- The number of members of a sorted set. -/
  sortedLen : String → StoreM σ Nat
  /-- Applies all operations at once. -/
  executeBatch : List BatchOp → StoreM σ Unit
  /-- Publishes a payload; how many copies were received. -/
  publish : String → Bytes → StoreM σ Nat
  /-- Opens a subscriber's connection. -/
  subscriber : StoreM σ SubscriberId
  /-- Sets a plain value, to expire after a time if one is given. -/
  set : String → Bytes → Option Duration → StoreM σ Unit
  /-- Sets a plain value if the key is absent; whether it was set. -/
  setIfAbsent : String → Bytes → Option Duration → StoreM σ Bool
  /-- The plain value of a key. -/
  get : String → StoreM σ (Option Bytes)
  /-- Whether a key is there. -/
  contains : String → StoreM σ Bool
  /-- Adds to an integer; the new value. -/
  increment : String → Int64 → StoreM σ Int64
  /-- The keys that match a pattern, in order. -/
  keysMatching : String → StoreM σ (List String)
  /-- Adds channels to those a subscriber listens to. -/
  subscribe : SubscriberId → List String → StoreM σ Unit
  /-- Adds patterns to those a subscriber listens to. -/
  psubscribe : SubscriberId → List String → StoreM σ Unit
  /-- Removes channels from those a subscriber listens to. -/
  unsubscribe : SubscriberId → List String → StoreM σ Unit
  /-- Removes patterns from those a subscriber listens to. -/
  punsubscribe : SubscriberId → List String → StoreM σ Unit
  /-- The next payload of a subscriber, waiting for one. -/
  nextMessage : SubscriberId → Duration → StoreM σ (Option RawMessage)
  /-- A bound on the payloads that a subscriber can take without waiting. -/
  backlog : SubscriberId → σ → Nat
  /-- Drops a subscriber's connection. -/
  release : SubscriberId → σ → σ

end Courier
