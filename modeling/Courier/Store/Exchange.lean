import Courier.Glob
import Courier.Store.Basic

/-!
# Publish and subscribe in memory

Every subscriber has a slot: the channels and patterns it listens to and an
inbox.  A published payload is copied into the inbox of each live slot, once
for its channel and once for each pattern that matches.

**Results.**
* `Exchange.publish`: copies a payload to the live slots.
* `Exchange.nextMessage`: takes what arrived first.
-/

namespace Courier

/-- What the exchange keeps for one subscriber. -/
structure Slot where
  id : SubscriberId
  channels : List String
  patterns : List String
  inbox : List RawMessage
  /-- The subscriber has gone away; the slot is swept by a later call. -/
  released : Bool
  deriving DecidableEq

namespace Slot

/-- The copies of a payload that a slot receives. -/
def copies (s : Slot) (channel : String) (payload : Bytes) : List RawMessage :=
  (if channel ∈ s.channels then [⟨channel, none, payload⟩] else []) ++
    (s.patterns.filter fun p => Glob.accepts p channel).map
      fun p => ⟨channel, some p, payload⟩

/-- Puts the copies of a payload behind what is in the inbox. -/
def deliver (s : Slot) (channel : String) (payload : Bytes) : Slot :=
  { s with inbox := s.inbox ++ s.copies channel payload }

end Slot

/-- Adds a name to a list that has each name once. -/
def addName (names : List String) (name : String) : List String :=
  if name ∈ names then names else names ++ [name]

/-- The slots of all subscribers. -/
structure Exchange where
  slots : List Slot
  /-- The number that the next subscriber gets. -/
  next : SubscriberId
  /-- Whether payloads can still be published. -/
  isOpen : Bool
  deriving DecidableEq

namespace Exchange

/-- An exchange without subscribers. -/
def empty : Exchange := ⟨[], 0, true⟩

/-- The slots whose subscribers are still there. -/
def live (x : Exchange) : List Slot :=
  x.slots.filter fun s => !s.released

/-- Copies a payload to the live slots and sweeps the others; the number of copies. -/
def publish (x : Exchange) (channel : String) (payload : Bytes) : Nat × Exchange :=
  (x.live.foldr (fun s n => (s.copies channel payload).length + n) 0,
    { x with slots := x.live.map fun s => s.deliver channel payload })

/-- Opens a slot that listens to nothing, sweeping those released. -/
def subscriber (x : Exchange) : SubscriberId × Exchange :=
  (x.next, { x with slots := x.live ++ [⟨x.next, [], [], [], false⟩], next := x.next + 1 })

/-- The slot of a subscriber. -/
def slot? (x : Exchange) (id : SubscriberId) : Option Slot :=
  x.slots.find? fun s => s.id = id

/-- Changes the slot of a subscriber. -/
def update (x : Exchange) (id : SubscriberId) (f : Slot → Slot) : Exchange :=
  { x with slots := x.slots.map fun s => if s.id = id then f s else s }

/-- Adds channels to those a subscriber listens to. -/
def subscribe (x : Exchange) (id : SubscriberId) (channels : List String) : Exchange :=
  x.update id fun s => { s with channels := channels.foldl addName s.channels }

/-- Adds patterns to those a subscriber listens to. -/
def psubscribe (x : Exchange) (id : SubscriberId) (patterns : List String) : Exchange :=
  x.update id fun s => { s with patterns := patterns.foldl addName s.patterns }

/-- Removes channels from those a subscriber listens to. -/
def unsubscribe (x : Exchange) (id : SubscriberId) (channels : List String) : Exchange :=
  x.update id fun s => { s with channels := s.channels.filter (· ∉ channels) }

/-- Removes patterns from those a subscriber listens to. -/
def punsubscribe (x : Exchange) (id : SubscriberId) (patterns : List String) : Exchange :=
  x.update id fun s => { s with patterns := s.patterns.filter (· ∉ patterns) }

/-- Takes the first payload of an inbox.  An empty inbox gives nothing while
payloads may still come, and is at its end once they cannot. -/
def nextMessage (x : Exchange) (id : SubscriberId) :
    Except StoreError (Option RawMessage) × Exchange :=
  match (x.slot? id).map (·.inbox) with
  | some (m :: rest) => (.ok (some m), x.update id fun s => { s with inbox := rest })
  | some [] => (if x.isOpen then .ok none else .error .closed, x)
  | none => (.error .closed, x)

/-- The number of payloads in an inbox. -/
def backlog (x : Exchange) (id : SubscriberId) : Nat :=
  match x.slot? id with
  | some s => s.inbox.length
  | none => 0

/-- Marks the slot of a subscriber that has gone away. -/
def release (x : Exchange) (id : SubscriberId) : Exchange :=
  x.update id fun s => { s with released := true }

/-- Ends publishing; what is in the inboxes can still be taken. -/
def shut (x : Exchange) : Exchange :=
  { x with isOpen := false }

end Exchange
end Courier
