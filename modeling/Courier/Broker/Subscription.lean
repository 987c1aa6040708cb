import Courier.Record.Message
import Courier.Store.Basic
import Courier.Text.Quoted

/-!
# Subscriptions

A subscription owns a connection of the store.  Its forwarder reads payloads
from the connection, makes one message of each and puts it into a bounded
buffer, from which the consumer reads.  The consumer reaches the forwarder only
by requests, which are served before the next payload is read and while a
message waits for room in the buffer.

**Results.**
* `Subscription.step`: one step of the forwarder.
* `Subscription.read`, `Subscription.receive`: what the consumer reads.
* `Subscription.remove`, `Subscription.close`: requests of the consumer.
-/

namespace Courier

/-- What a subscription listens to. -/
inductive SubscriptionKind where
  | channels
  | patterns
  deriving DecidableEq, Repr

/-- The word for what a subscription listens to. -/
def SubscriptionKind.text : SubscriptionKind → String
  | .channels => "channels"
  | .patterns => "patterns"

/-- Why a call to the broker failed. -/
inductive BrokerError where
  | store (e : StoreError)
  | serialization (e : CodecError)
  /-- There is nothing to subscribe to. -/
  | noTargets (kind : SubscriptionKind)
  /-- The targets to remove are of the other kind. -/
  | targetKind (actual requested : SubscriptionKind)
  /-- The subscription was closed, or its forwarder has stopped. -/
  | closed
  deriving DecidableEq

/-- The wording of a failure. -/
def BrokerError.message : BrokerError → String
  | .store e => e.message
  | .serialization e => "message serialization error: " ++ e.message
  | .noTargets kind => "no " ++ kind.text ++ " to subscribe to"
  | .targetKind actual requested =>
      "subscription targets " ++ actual.text ++ ", not " ++ requested.text
  | .closed => "subscription is closed"

/-- What the consumer asks of the forwarder. -/
inductive Request where
  | remove (targets : List String)
  | close
  deriving DecidableEq

/-- What the consumer finds when it reads. -/
inductive Reading where
  | message (m : Message)
  /-- Nothing yet; more may come. -/
  | nothing
  /-- Nothing any more. -/
  | ended

/-- A subscription: the consumer's side, the forwarder's side, and what lies
between them. -/
structure Subscription where
  kind : SubscriptionKind
  targets : List String
  connection : SubscriberId
  /-- Requests that the forwarder has not served yet. -/
  requests : List Request
  /-- Replies that the consumer has not read yet. -/
  replies : List (Except StoreError Unit)
  /-- The message for which the forwarder waits for room. -/
  held : Option Message
  /-- Messages that the consumer has not read yet. -/
  buffer : List Message
  /-- The forwarder has stopped and the connection is released. -/
  stopped : Bool
  /-- The consumer has closed the subscription. -/
  closed : Bool

namespace Subscription

/-- How many messages the buffer holds. -/
def capacity : Nat := 100

/-- A subscription whose connection listens to the targets. -/
def start (kind : SubscriptionKind) (targets : List String) (connection : SubscriberId) :
    Subscription :=
  { kind, targets, connection, requests := [], replies := [], held := none, buffer := [],
    stopped := false, closed := false }

/-- The message of a payload, in the channel on which it arrived if it is none itself. -/
def decode (raw : RawMessage) (now : Calendar.Timestamp) : Message :=
  (Message.receive raw.channel raw.payload now).1

/-- What the consumer reads from the buffer. -/
def read (s : Subscription) : Reading × Subscription :=
  match s.buffer with
  | m :: rest => (.message m, { s with buffer := rest })
  | [] => (if s.stopped then .ended else .nothing, s)

/-- Whether a failure means that the connection is gone. -/
def isFatal : StoreError → Bool
  | .connection _ => true
  | .closed => true
  | _ => false

variable {σ : Type} [Store σ]

/-- The forwarder stops: what it holds is lost and the connection is released. -/
def stop (s : Subscription) : StateM σ Subscription := do
  modify (Store.release s.connection)
  pure { s with held := none, stopped := true }

/-- Removes targets from those of the connection. -/
def dropTargets (s : Subscription) (targets : List String) : StoreM σ Unit :=
  match s.kind with
  | .channels => Store.unsubscribe s.connection targets
  | .patterns => Store.punsubscribe s.connection targets

/-- The forwarder serves a request. -/
def serve (s : Subscription) : Request → StateM σ Subscription
  | .close => s.stop
  | .remove targets => do
      let r ← (s.dropTargets targets).run
      let s := { s with replies := s.replies ++ [r] }
      match r with
      | .ok () => pure s
      | .error e => if isFatal e then s.stop else pure s

/-- The forwarder serves the first request; without one it does what it is told. -/
def serveOr (s : Subscription) (idle : StateM σ Subscription) : StateM σ Subscription :=
  match s.requests with
  | [] => idle
  | r :: rest => { s with requests := rest }.serve r

/-- The forwarder reads the connection. -/
def poll (s : Subscription) (now : Calendar.Timestamp) : StateM σ Subscription := do
  match ← (Store.nextMessage s.connection .zero).run with
  | .ok (some raw) => pure { s with held := some (decode raw now) }
  | .ok none => pure s
  | .error _ => s.stop

/-- One step of the forwarder.  A message that it holds goes into the buffer if
there is room; otherwise requests are served first and then the connection is read. -/
def step (s : Subscription) (now : Calendar.Timestamp) : StateM σ Subscription :=
  if s.stopped then pure s
  else
    match s.held with
    | some m =>
        if s.buffer.length < capacity then
          pure { s with held := none, buffer := s.buffer ++ [m] }
        else s.serveOr (pure s)
    | none => s.serveOr (s.poll now)

/-- A number of steps of the forwarder. -/
def steps (s : Subscription) (now : Calendar.Timestamp) : Nat → StateM σ Subscription
  | 0 => pure s
  | n + 1 => do
      let s ← s.step now
      s.steps now n

/-- A number of steps after which the forwarder has served the requests, and has
read the connection empty or waits for room: two for each payload that can be
read, one for each request, and one for each of a held message and the last look
at the connection. -/
def stepBound (s : Subscription) (state : σ) : Nat :=
  2 * Store.backlog s.connection state + s.requests.length + 2

/-- Lets the forwarder go on until it waits for something. -/
def settle (s : Subscription) (now : Calendar.Timestamp) : StateM σ Subscription := do
  let state ← get
  s.steps now (s.stepBound state)

/-- The consumer reads, and the forwarder goes on. -/
def receive (s : Subscription) (now : Calendar.Timestamp) : StateM σ (Reading × Subscription) := do
  let (r, s) := s.read
  let s ← s.settle now
  pure (r, s)

/-- The consumer reads messages while there are any, up to a number. -/
def receiveUpTo (s : Subscription) (now : Calendar.Timestamp) :
    Nat → StateM σ (List Message × Subscription)
  | 0 => pure ([], s)
  | n + 1 => do
      match ← s.receive now with
      | (.message m, s) =>
          let (ms, s) ← s.receiveUpTo now n
          pure (m :: ms, s)
      | (_, s) => pure ([], s)

/-- The consumer reads every message that has arrived: those in the buffer, the one
that is held, and those that the connection still has. -/
def receiveAll (s : Subscription) (now : Calendar.Timestamp) :
    StateM σ (List Message × Subscription) := do
  let state ← get
  s.receiveUpTo now (s.buffer.length + 1 + Store.backlog s.connection state)

/-- The targets that a request of the consumer names; no names stand for all. -/
def named (s : Subscription) (targets : List String) : List String :=
  if targets = [] then s.targets else targets

/-- The consumer's side after the reply to a request to remove targets.  Without
a reply the forwarder had stopped before. -/
def settled (s : Subscription) (targets : List String) : Except BrokerError Unit × Subscription :=
  match s.replies with
  | [] => (.error .closed, s)
  | .error e :: rest => (.error (.store e), { s with replies := rest })
  | .ok () :: rest =>
      (.ok (), { s with replies := rest, targets := s.targets.filter (· ∉ targets) })

/-- The consumer stops listening to targets; no names stand for all of them. -/
def remove (s : Subscription) (requested : SubscriptionKind) (targets : List String)
    (now : Calendar.Timestamp) : StateM σ (Except BrokerError Unit × Subscription) := do
  if requested ≠ s.kind then pure (.error (.targetKind s.kind requested), s)
  else if s.closed then pure (.error .closed, s)
  else
    let targets := s.named targets
    if targets = [] then pure (.ok (), s)
    else if s.stopped then pure (.error .closed, s)
    else
      let s ← { s with requests := s.requests ++ [Request.remove targets] }.settle now
      pure (s.settled targets)

/-- The consumer closes the subscription; what is in the buffer can still be read. -/
def close (s : Subscription) (now : Calendar.Timestamp) : StateM σ Subscription := do
  if s.closed then pure s
  else
    let s ← { s with requests := s.requests ++ [Request.close] }.settle now
    pure { s with closed := true }

/-- The name of a kind in the description of a subscription. -/
def kindName : SubscriptionKind → String
  | .channels => "Channels"
  | .patterns => "Patterns"

/-- The description of a subscription. -/
def describe (s : Subscription) : String :=
  "Subscription \x7b kind: " ++ kindName s.kind ++ ", targets: " ++ Text.quotedList s.targets ++
    ", closed: " ++ (if s.closed then "true" else "false") ++ " \x7d"

end Subscription
end Courier
