import Courier.Store.Basic

/-!
# Stores with planned failures

A store in front of another one.  A failure planned for a kind of call is the
answer of the next call of that kind, which then does not reach the store
behind; failures of one kind come in the order in which they were planned.

**Results.**
* `Faulty.plan`: plans a failure.
* `Store (Faulty σ)`: a store with planned failures is a store.
-/

namespace Courier

/-- The kinds of calls to a store. -/
inductive StoreCall where
  | pushFront
  | popBack
  | blockingPopBack
  | listLen
  | delete
  | sortedAdd
  | rangeByScore
  | sortedRemove
  | sortedLen
  | executeBatch
  | publish
  | subscriber
  | set
  | setIfAbsent
  | get
  | contains
  | increment
  | keysMatching
  | subscribe
  | psubscribe
  | unsubscribe
  | punsubscribe
  | nextMessage
  deriving DecidableEq, Repr

/-- A store with failures planned for calls to it. -/
structure Faulty (σ : Type) where
  store : σ
  planned : List (StoreCall × StoreError)

namespace Faulty

variable {σ : Type}

/-- A store without planned failures. -/
def ofStore (s : σ) : Faulty σ := ⟨s, []⟩

/-- Plans a failure behind those planned before. -/
def plan (f : Faulty σ) (kind : StoreCall) (e : StoreError) : Faulty σ :=
  { f with planned := f.planned ++ [(kind, e)] }

/-- Makes a call to the store behind. -/
def behind {α : Type} (call : StoreM σ α) : StoreM (Faulty σ) α :=
  call.within (·.store) fun f s => { f with store := s }

/-- Makes a call of a kind, unless a failure is planned for it. -/
def guarded {α : Type} (kind : StoreCall) (call : StoreM σ α) : StoreM (Faulty σ) α :=
  .of fun f =>
    match f.planned.find? fun p => p.1 = kind with
    | some p => (.error p.2, { f with planned := f.planned.eraseP fun p => p.1 = kind })
    | none => (behind call).answer f

instance [Store σ] : Store (Faulty σ) where
  pushFront key value := guarded .pushFront (Store.pushFront key value)
  popBack key := guarded .popBack (Store.popBack key)
  blockingPopBack key wait := guarded .blockingPopBack (Store.blockingPopBack key wait)
  listLen key := guarded .listLen (Store.listLen key)
  delete keys := guarded .delete (Store.delete keys)
  sortedAdd key member score := guarded .sortedAdd (Store.sortedAdd key member score)
  rangeByScore key min max := guarded .rangeByScore (Store.rangeByScore key min max)
  sortedRemove key member := guarded .sortedRemove (Store.sortedRemove key member)
  sortedLen key := guarded .sortedLen (Store.sortedLen key)
  executeBatch ops := guarded .executeBatch (Store.executeBatch ops)
  publish channel payload := guarded .publish (Store.publish channel payload)
  subscriber := guarded .subscriber Store.subscriber
  set key value ttl := guarded .set (Store.set key value ttl)
  setIfAbsent key value ttl := guarded .setIfAbsent (Store.setIfAbsent key value ttl)
  get key := guarded .get (Store.get key)
  contains key := guarded .contains (Store.contains key)
  increment key amount := guarded .increment (Store.increment key amount)
  keysMatching pattern := guarded .keysMatching (Store.keysMatching pattern)
  subscribe id channels := guarded .subscribe (Store.subscribe id channels)
  psubscribe id patterns := guarded .psubscribe (Store.psubscribe id patterns)
  unsubscribe id channels := guarded .unsubscribe (Store.unsubscribe id channels)
  punsubscribe id patterns := guarded .punsubscribe (Store.punsubscribe id patterns)
  nextMessage id wait := guarded .nextMessage (Store.nextMessage id wait)
  backlog id f := Store.backlog id f.store
  release id f := { f with store := Store.release id f.store }

end Faulty
end Courier
