import Courier.Store.Data
import Courier.Store.Exchange

/-!
# The in-memory store

The data behind one lock, the exchange behind another, and a clock that counts
nanoseconds.  A call that is abandoned while it holds the data leaves the lock
unusable; publish and subscribe go on.

**Results.**
* `Memory.set`, `Memory.setIfAbsent`: may be abandoned at a deadline beyond the clock.
* `Memory.popAmid`: a waiting pop amid the pushes of others.
* `Store Memory`: the in-memory store is a store.
-/

namespace Courier

/-- The state of an in-memory store. -/
structure Memory where
  data : Data
  exchange : Exchange
  /-- The instant now, in nanoseconds. -/
  clock : Nat
  /-- A call was abandoned while it held the data. -/
  poisoned : Bool

/-- A push that another client makes at an instant. -/
structure Arrival where
  at_ : Nat
  key : String
  value : Bytes
  deriving DecidableEq

namespace Memory

/-- A new store, when the clock shows `now`. -/
def empty (now : Nat) : Memory := ⟨.empty, .empty, now, false⟩

/-- Lets time pass. -/
def advance (m : Memory) (wait : Duration) : Memory :=
  { m with clock := m.clock + wait.nanos }

/-- The answer once the data cannot be locked any more. -/
def lockPoisoned : StoreError := .command "lock poisoned"

/-- Makes a call on the data, if they can be locked. -/
def onData {α : Type} (m : Memory) (f : Data → Except StoreError α × Data) :
    Except StoreError α × Memory :=
  if m.poisoned then (.error lockPoisoned, m)
  else
    let (r, d) := f m.data
    (r, { m with data := d })

/-- Makes a call on the data that cannot fail. -/
def useData {α : Type} (m : Memory) (f : Data → α × Data) : Except StoreError α × Memory :=
  m.onData fun d =>
    let (a, d) := f d
    (.ok a, d)

/-- Puts a value at the front of a list; the new length. -/
def pushFront (m : Memory) (key : String) (value : Bytes) : Except StoreError Nat × Memory :=
  m.useData fun d =>
    let d := d.pushFront key value
    ((d.list key).length, d)

/-- Takes the value at the back of a list. -/
def popBack (m : Memory) (key : String) : Except StoreError (Option Bytes) × Memory :=
  m.useData (·.popBack key)

/-- Lets the pushes of others arrive. -/
def arrive (m : Memory) (arrivals : List Arrival) : Memory :=
  arrivals.foldl (fun m a =>
    let m := { m with clock := max m.clock a.at_ }
    (m.pushFront a.key a.value).2) m

/-- Takes the value at the back of a list, waiting until a deadline while the
pushes of others arrive in order.  Pushes that are still to come when the wait is
over arrive after it. -/
def popUntil (m : Memory) (key : String) (deadline : Nat) :
    List Arrival → Except StoreError (Option Bytes) × Memory
  | [] =>
      match m.popBack key with
      | (.ok none, m) => (.ok none, { m with clock := max m.clock deadline })
      | answer => answer
  | a :: rest =>
      match m.popBack key with
      | (.ok none, m) =>
          if deadline < a.at_ then
            (.ok none, arrive { m with clock := max m.clock deadline } (a :: rest))
          else (m.arrive [a]).popUntil key deadline rest
      | (r, m) => (r, m.arrive (a :: rest))

/-- Takes the value at the back of a list, waiting for one amid the pushes of
others.  A deadline beyond the clock abandons the call before it holds the data. -/
def popAmid (m : Memory) (key : String) (wait : Duration) (arrivals : List Arrival) :
    Except StoreError (Option Bytes) × Memory :=
  match deadline? m.clock wait with
  | none => (.error .deadlineOverflow, m.arrive arrivals)
  | some deadline => m.popUntil key deadline arrivals

/-- Takes the value at the back of a list, waiting for one. -/
def blockingPopBack (m : Memory) (key : String) (wait : Duration) :
    Except StoreError (Option Bytes) × Memory :=
  m.popAmid key wait []

/-- The length of a list. -/
def listLen (m : Memory) (key : String) : Except StoreError Nat × Memory :=
  m.useData fun d => ((d.list key).length, d)

/-- Removes keys of any kind; how many there were. -/
def delete (m : Memory) (keys : List String) : Except StoreError Nat × Memory :=
  m.useData (·.removeAll m.clock keys)

/-- Gives a member of a sorted set a score. -/
def sortedAdd (m : Memory) (key : String) (member : Bytes) (score : Binary64) :
    Except StoreError Unit × Memory :=
  m.useData fun d => ((), d.sortedAdd key member score)

/-- The members with scores between two bounds, in order. -/
def rangeByScore (m : Memory) (key : String) (min max : Binary64) :
    Except StoreError (List Bytes) × Memory :=
  m.useData fun d => ((d.sortedSet key).range min max, d)

/-- Removes a member of a sorted set; whether it was there. -/
def sortedRemove (m : Memory) (key : String) (member : Bytes) : Except StoreError Bool × Memory :=
  m.useData (·.sortedRemove key member)

/-- The number of members of a sorted set. -/
def sortedLen (m : Memory) (key : String) : Except StoreError Nat × Memory :=
  m.useData fun d => ((d.sortedSet key).length, d)

/-- Applies all operations of a batch at once. -/
def executeBatch (m : Memory) (ops : List BatchOp) : Except StoreError Unit × Memory :=
  m.useData fun d => ((), d.applyAll ops)

/-- Puts a plain value under a key whose data are given.  A deadline beyond the
clock abandons the call while it holds the data. -/
def store (m : Memory) (d : Data) (key : String) (value : Bytes) (ttl : Option Duration) :
    Except StoreError Unit × Memory :=
  match Entry.new? m.clock value ttl with
  | some e => (.ok (), { m with data := { d with values := d.values.insert key e } })
  | none => (.error .deadlineOverflow, { m with data := d, poisoned := true })

/-- Sets a plain value in place of whatever is under the key. -/
def set (m : Memory) (key : String) (value : Bytes) (ttl : Option Duration) :
    Except StoreError Unit × Memory :=
  if m.poisoned then (.error lockPoisoned, m)
  else m.store (m.data.remove m.clock key).2 key value ttl

/-- Sets a plain value if the key is absent; whether it was set. -/
def setIfAbsent (m : Memory) (key : String) (value : Bytes) (ttl : Option Duration) :
    Except StoreError Bool × Memory :=
  if m.poisoned then (.error lockPoisoned, m)
  else
    let (there, d) := m.data.contains m.clock key
    if there then (.ok false, { m with data := d })
    else
      let (r, m) := m.store d key value ttl
      (r.map fun _ => true, m)

/-- The plain value of a key. -/
def get (m : Memory) (key : String) : Except StoreError (Option Bytes) × Memory :=
  m.useData (·.get m.clock key)

/-- Whether a key is there. -/
def contains (m : Memory) (key : String) : Except StoreError Bool × Memory :=
  m.useData (·.contains m.clock key)

/-- Adds to an integer; the new value. -/
def increment (m : Memory) (key : String) (amount : Int64) : Except StoreError Int64 × Memory :=
  m.onData (·.increment m.clock key amount)

/-- The keys that match a pattern, in order. -/
def keysMatching (m : Memory) (pattern : String) : Except StoreError (List String) × Memory :=
  m.useData fun d => (d.keysMatching m.clock pattern, d)

/-- Makes a call on the exchange that cannot fail. -/
def onExchange {α : Type} (m : Memory) (f : Exchange → α × Exchange) :
    Except StoreError α × Memory :=
  let (a, x) := f m.exchange
  (.ok a, { m with exchange := x })

/-- Publishes a payload; how many copies were received. -/
def publish (m : Memory) (channel : String) (payload : Bytes) : Except StoreError Nat × Memory :=
  m.onExchange (·.publish channel payload)

/-- Opens a subscriber's slot. -/
def subscriber (m : Memory) : Except StoreError SubscriberId × Memory :=
  m.onExchange (·.subscriber)

/-- The next payload of a subscriber; if there is none the whole wait passes. -/
def nextMessage (m : Memory) (id : SubscriberId) (wait : Duration) :
    Except StoreError (Option RawMessage) × Memory :=
  match m.exchange.nextMessage id with
  | (.ok none, x) => (.ok none, { m with exchange := x }.advance wait)
  | (r, x) => (r, { m with exchange := x })

/-- Ends a store that nobody calls any more: its subscribers come to their ends. -/
def shut (m : Memory) : Memory :=
  { m with exchange := m.exchange.shut }

instance : Store Memory where
  pushFront key value := .of (·.pushFront key value)
  popBack key := .of (·.popBack key)
  blockingPopBack key wait := .of (·.blockingPopBack key wait)
  listLen key := .of (·.listLen key)
  delete keys := .of (·.delete keys)
  sortedAdd key member score := .of (·.sortedAdd key member score)
  rangeByScore key min max := .of (·.rangeByScore key min max)
  sortedRemove key member := .of (·.sortedRemove key member)
  sortedLen key := .of (·.sortedLen key)
  executeBatch ops := .of (·.executeBatch ops)
  publish channel payload := .of (·.publish channel payload)
  subscriber := .of (·.subscriber)
  set key value ttl := .of (·.set key value ttl)
  setIfAbsent key value ttl := .of (·.setIfAbsent key value ttl)
  get key := .of (·.get key)
  contains key := .of (·.contains key)
  increment key amount := .of (·.increment key amount)
  keysMatching pattern := .of (·.keysMatching pattern)
  subscribe id channels := .of (·.onExchange fun x => ((), x.subscribe id channels))
  psubscribe id patterns := .of (·.onExchange fun x => ((), x.psubscribe id patterns))
  unsubscribe id channels := .of (·.onExchange fun x => ((), x.unsubscribe id channels))
  punsubscribe id patterns := .of (·.onExchange fun x => ((), x.punsubscribe id patterns))
  nextMessage id wait := .of (·.nextMessage id wait)
  backlog id m := m.exchange.backlog id
  release id m := { m with exchange := m.exchange.release id }

end Memory
end Courier
