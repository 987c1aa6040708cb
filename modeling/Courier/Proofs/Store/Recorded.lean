import Courier.Proofs.Store.View

/-!
# Stores that write down what they return

A store in front of another one: it passes every call on, and writes down the
payloads that it returned to its subscribers.  A program does on it what it does
on the store behind.

**Results.**
* `Store (Recorded σ)`: a store that writes down payloads is a store.
* `Recorded.Alike`: two programs do the same on a store and on one that writes down.
* `Recorded.Alike.bind`: programs are alike if their parts are.
-/

namespace Courier

/-- A store, and the payloads that it has returned to its subscribers. -/
structure Recorded (σ : Type) where
  store : σ
  returned : List RawMessage

namespace Recorded

variable {σ α β : Type}

/-- Makes a call to the store behind. -/
def behind (call : StoreM σ α) : StoreM (Recorded σ) α :=
  call.within (·.store) fun r s => { r with store := s }

/-- Makes a call to the store behind and writes down the payload that it returned. -/
def recording (call : StoreM σ (Option RawMessage)) : StoreM (Recorded σ) (Option RawMessage) :=
  .of fun r =>
    let (answer, s) := call.answer r.store
    (answer, ⟨s, r.returned ++ taken answer⟩)

theorem recording_answer
    (call : StoreM σ (Option RawMessage))
    (r : Recorded σ) :
    (recording call).answer r =
      ((call.answer r.store).1,
        ⟨(call.answer r.store).2, r.returned ++ taken (call.answer r.store).1⟩) := rfl

instance [Store σ] : Store (Recorded σ) where
  pushFront key value := behind (Store.pushFront key value)
  popBack key := behind (Store.popBack key)
  blockingPopBack key wait := behind (Store.blockingPopBack key wait)
  listLen key := behind (Store.listLen key)
  delete keys := behind (Store.delete keys)
  sortedAdd key member score := behind (Store.sortedAdd key member score)
  rangeByScore key min max := behind (Store.rangeByScore key min max)
  sortedRemove key member := behind (Store.sortedRemove key member)
  sortedLen key := behind (Store.sortedLen key)
  executeBatch ops := behind (Store.executeBatch ops)
  publish channel payload := behind (Store.publish channel payload)
  subscriber := behind Store.subscriber
  set key value ttl := behind (Store.set key value ttl)
  setIfAbsent key value ttl := behind (Store.setIfAbsent key value ttl)
  get key := behind (Store.get key)
  contains key := behind (Store.contains key)
  increment key amount := behind (Store.increment key amount)
  keysMatching pattern := behind (Store.keysMatching pattern)
  subscribe id channels := behind (Store.subscribe id channels)
  psubscribe id patterns := behind (Store.psubscribe id patterns)
  unsubscribe id channels := behind (Store.unsubscribe id channels)
  punsubscribe id patterns := behind (Store.punsubscribe id patterns)
  nextMessage id wait := recording (Store.nextMessage id wait)
  backlog id r := Store.backlog id r.store
  release id r := { r with store := Store.release id r.store }

/-- A program does on a store that writes down what another one does on the store
behind. -/
def Alike (p : StateM (Recorded σ) α) (q : StateM σ α) : Prop :=
  ∀ r, (p.run r).1 = (q.run r.store).1 ∧ (p.run r).2.store = (q.run r.store).2

theorem Alike.pure
    (a : α) :
    Alike (σ := σ) (Pure.pure a) (Pure.pure a) :=
  fun _ => ⟨rfl, rfl⟩

theorem Alike.bind
    {p : StateM (Recorded σ) α}
    {q : StateM σ α}
    {f : α → StateM (Recorded σ) β}
    {g : α → StateM σ β}
    (hp : Alike p q)
    (hf : ∀ a, Alike (f a) (g a)) :
    Alike (p >>= f) (q >>= g) := by
  intro r
  obtain ⟨hvalue, hstate⟩ := hp r
  have hleft : (p >>= f).run r = (f (p.run r).1).run (p.run r).2 := rfl
  have hright : (q >>= g).run r.store = (g (q.run r.store).1).run (q.run r.store).2 := rfl
  rw [hleft, hright, ← hvalue, ← hstate]
  exact hf _ _

theorem alike_behind
    (call : StoreM σ α) :
    Alike (behind call).run call.run :=
  fun _ => ⟨rfl, rfl⟩

theorem alike_recording
    (call : StoreM σ (Option RawMessage)) :
    Alike (recording call).run call.run :=
  fun _ => ⟨rfl, rfl⟩

end Recorded
end Courier
