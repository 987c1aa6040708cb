import Courier.Broker.Subscription

/-!
# The message broker

Publishes messages on the channels of a store and opens subscriptions to them.
A message reaches those who listen when it is published, and nobody else.

**Results.**
* `Broker.publish`, `Broker.publishRaw`: a message, or a payload as it is.
* `Broker.subscribe`: a subscription to channels or patterns.
-/

namespace Courier

/-- A call to the broker over a store with states in `σ`. -/
abbrev BrokerM (σ : Type) := ExceptT BrokerError (StateM σ)

namespace Broker

variable {σ : Type} [Store σ]

/-- Publishes a payload as it is; how many copies were received. -/
def publishRaw (channel : String) (payload : Bytes) : BrokerM σ Nat :=
  (Store.publish channel payload : StoreM σ Nat).adapt .store

/-- Publishes data on a channel as a message of the current time. -/
def publish (channel : String) (data : Json.Object) (now : Calendar.Timestamp) :
    BrokerM σ Nat := do
  let message : Message := { channel, data, timestamp := now }
  let bytes ← ExceptT.mk (pure ((Codec.encode Message.kind message).mapError .serialization))
  publishRaw channel bytes

/-- Lets a connection listen to targets. -/
def listen (kind : SubscriptionKind) (connection : SubscriberId) (targets : List String) :
    StoreM σ Unit :=
  match kind with
  | .channels => Store.subscribe connection targets
  | .patterns => Store.psubscribe connection targets

/-- Subscribes to targets of a kind.  The connection is released where the store
does not confirm them. -/
def subscribe (kind : SubscriptionKind) (targets : List String) : BrokerM σ Subscription := do
  if targets = [] then throw (.noTargets kind)
  else
    let connection ← (Store.subscriber : StoreM σ SubscriberId).adapt .store
    match ← ExceptT.lift (listen kind connection targets : StoreM σ Unit).run with
    | .ok () => pure (.start kind targets connection)
    | .error e =>
        modify (Store.release connection)
        throw (.store e)

end Broker
end Courier
