import Courier.Proofs.Store.View
import Courier.Store.Memory

/-!
# Calls on a store

The calls of a store as data, so that statements can speak of all of them and of
runs in which they follow one another, subscribers go away and time passes.  For
the store in memory, what its calls do where the data can be locked and where they
cannot is given here, and when a deadline lies beyond the clock.

**Results.**
* `Store.Call`, `Store.Move`: the calls, and what happens in a run.
* `Memory.perform`, `Memory.step`, `Memory.after`: the store in memory in a run.
* `Duration.Beyond`, `LivesBeyond`: deadlines that the clock does not reach.
* `Memory.onData_of_not_poisoned`, `Memory.onData_of_poisoned`: calls on the data.
* `Memory.popBack_eq`, `Memory.blockingPopBack_eq`: calls that take from a list.
* `Memory.store_eq`: setting a plain value.
-/

namespace Courier

namespace Store

inductive Call where
  | pushFront (key : String) (value : Bytes)
  | popBack (key : String)
  | blockingPopBack (key : String) (wait : Duration)
  | listLen (key : String)
  | delete (keys : List String)
  | sortedAdd (key : String) (member : Bytes) (score : Binary64)
  | rangeByScore (key : String) (min max : Binary64)
  | sortedRemove (key : String) (member : Bytes)
  | sortedLen (key : String)
  | executeBatch (ops : List BatchOp)
  | publish (channel : String) (payload : Bytes)
  | subscriber
  | set (key : String) (value : Bytes) (ttl : Option Duration)
  | setIfAbsent (key : String) (value : Bytes) (ttl : Option Duration)
  | get (key : String)
  | contains (key : String)
  | increment (key : String) (amount : Int64)
  | keysMatching (pattern : String)
  | subscribe (id : SubscriberId) (channels : List String)
  | psubscribe (id : SubscriberId) (patterns : List String)
  | unsubscribe (id : SubscriberId) (channels : List String)
  | punsubscribe (id : SubscriberId) (patterns : List String)
  | nextMessage (id : SubscriberId) (wait : Duration)

namespace Call

/-- What a call answers when it succeeds. -/
abbrev Result : Call → Type
  | .pushFront .. => Nat
  | .popBack .. => Option Bytes
  | .blockingPopBack .. => Option Bytes
  | .listLen .. => Nat
  | .delete .. => Nat
  | .sortedAdd .. => Unit
  | .rangeByScore .. => List Bytes
  | .sortedRemove .. => Bool
  | .sortedLen .. => Nat
  | .executeBatch .. => Unit
  | .publish .. => Nat
  | .subscriber => SubscriberId
  | .set .. => Unit
  | .setIfAbsent .. => Bool
  | .get .. => Option Bytes
  | .contains .. => Bool
  | .increment .. => Int64
  | .keysMatching .. => List String
  | .subscribe .. => Unit
  | .psubscribe .. => Unit
  | .unsubscribe .. => Unit
  | .punsubscribe .. => Unit
  | .nextMessage .. => Option RawMessage

end Call

/-- What happens to a store: a call, a subscriber that goes away, or time that passes. -/
inductive Move where
  | call (call : Call)
  | release (id : SubscriberId)
  | pass (time : Duration)

end Store

/-- The end of a wait that begins now lies beyond the last instant of the clock. -/
def Duration.Beyond (wait : Duration) (now : Nat) : Prop :=
  maxClockSecond < (now + wait.nanos) / 1000000000

instance (wait : Duration) (now : Nat) : Decidable (wait.Beyond now) :=
  inferInstanceAs (Decidable (_ < _))

/-- A value that is set now with a time to live would expire beyond the last instant
of the clock. -/
def LivesBeyond (ttl : Option Duration) (now : Nat) : Prop :=
  ∃ d, ttl = some d ∧ d.isZero = false ∧ d.Beyond now

/-- The instant at which a value that is set now expires: never without a time to
live, or with none of it. -/
def expiry (now : Nat) (ttl : Option Duration) : Option Nat :=
  (ttl.filter (!·.isZero)).map fun d => now + d.nanos

section Deadlines

variable {now : Nat} {wait : Duration} {ttl : Option Duration}

theorem deadline?_of_beyond
    (h : wait.Beyond now) :
    deadline? now wait = none :=
  if_neg (Nat.not_le.2 h)

theorem deadline?_of_not_beyond
    (h : ¬ wait.Beyond now) :
    deadline? now wait = some (now + wait.nanos) :=
  if_pos (Nat.not_lt.1 h)

theorem not_livesBeyond_none :
    ¬ LivesBeyond none now := by
  rintro ⟨d, hd, -⟩
  exact absurd hd (by simp)

theorem livesBeyond_some :
    LivesBeyond (some wait) now ↔ wait.isZero = false ∧ wait.Beyond now := by
  constructor
  · rintro ⟨d, hd, h⟩
    obtain rfl := Option.some.inj hd
    exact h
  · intro h
    exact ⟨wait, rfl, h⟩

instance (ttl : Option Duration) (now : Nat) : Decidable (LivesBeyond ttl now) :=
  match ttl with
  | none => .isFalse not_livesBeyond_none
  | some _ => decidable_of_iff' _ livesBeyond_some

theorem new?_of_livesBeyond
    (h : LivesBeyond ttl now)
    (value : Bytes) :
    Entry.new? now value ttl = none := by
  obtain ⟨d, rfl, hzero, hbeyond⟩ := h
  simp [Entry.new?, Option.filter_some, hzero, deadline?_of_beyond hbeyond]

theorem new?_of_not_livesBeyond
    (h : ¬ LivesBeyond ttl now)
    (value : Bytes) :
    Entry.new? now value ttl = some ⟨value, expiry now ttl⟩ := by
  cases ttl with
  | none => rfl
  | some d =>
      cases hzero : d.isZero with
      | true => simp [Entry.new?, expiry, Option.filter_some, hzero]
      | false =>
          have hbeyond : ¬ d.Beyond now := fun hb => h (livesBeyond_some.2 ⟨hzero, hb⟩)
          simp [Entry.new?, expiry, Option.filter_some, hzero, deadline?_of_not_beyond hbeyond]

end Deadlines

namespace Memory

variable {α : Type}

/-- What a call answers, and the store after it. -/
def perform (m : Memory) : (call : Store.Call) → Except StoreError call.Result × Memory
  | .pushFront key value => m.pushFront key value
  | .popBack key => m.popBack key
  | .blockingPopBack key wait => m.blockingPopBack key wait
  | .listLen key => m.listLen key
  | .delete keys => m.delete keys
  | .sortedAdd key member score => m.sortedAdd key member score
  | .rangeByScore key min max => m.rangeByScore key min max
  | .sortedRemove key member => m.sortedRemove key member
  | .sortedLen key => m.sortedLen key
  | .executeBatch ops => m.executeBatch ops
  | .publish channel payload => m.publish channel payload
  | .subscriber => m.subscriber
  | .set key value ttl => m.set key value ttl
  | .setIfAbsent key value ttl => m.setIfAbsent key value ttl
  | .get key => m.get key
  | .contains key => m.contains key
  | .increment key amount => m.increment key amount
  | .keysMatching pattern => m.keysMatching pattern
  | .subscribe id channels => m.onExchange fun x => ((), x.subscribe id channels)
  | .psubscribe id patterns => m.onExchange fun x => ((), x.psubscribe id patterns)
  | .unsubscribe id channels => m.onExchange fun x => ((), x.unsubscribe id channels)
  | .punsubscribe id patterns => m.onExchange fun x => ((), x.punsubscribe id patterns)
  | .nextMessage id wait => m.nextMessage id wait

/-- The store after a move. -/
def step (m : Memory) : Store.Move → Memory
  | .call call => (m.perform call).2
  | .release id => Store.release id m
  | .pass time => m.advance time

def run (m : Memory) (moves : List Store.Move) : Memory :=
  moves.foldl step m

/-- A store after a run that begins when the clock shows `now`. -/
def after (now : Nat) (moves : List Store.Move) : Memory :=
  (empty now).run moves

theorem after_concat
    (now : Nat)
    (moves : List Store.Move)
    (move : Store.Move) :
    after now (moves ++ [move]) = (after now moves).step move := by
  rw [after, run, List.foldl_append]
  rfl

section Poisoned

variable {m : Memory} (h : m.poisoned = true)
include h

theorem onData_of_poisoned
    (f : Data → Except StoreError α × Data) :
    m.onData f = (.error lockPoisoned, m) := by
  rw [onData, if_pos h]

theorem useData_of_poisoned
    (f : Data → α × Data) :
    m.useData f = (.error lockPoisoned, m) := by
  rw [useData, onData_of_poisoned h]

theorem popBack_of_poisoned
    (key : String) :
    m.popBack key = (.error lockPoisoned, m) := by
  rw [popBack, useData_of_poisoned h]

/-- The deadline of a wait is counted before the data are to be locked. -/
theorem blockingPopBack_of_poisoned
    (key : String)
    (wait : Duration) :
    m.blockingPopBack key wait =
      (.error (if wait.Beyond m.clock then .deadlineOverflow else lockPoisoned), m) := by
  rw [blockingPopBack, popAmid]
  by_cases hwait : wait.Beyond m.clock
  · rw [deadline?_of_beyond hwait, if_pos hwait]
    rfl
  · rw [deadline?_of_not_beyond hwait, if_neg hwait]
    simp only [popUntil, popBack_of_poisoned h]

theorem set_of_poisoned
    (key : String)
    (value : Bytes)
    (ttl : Option Duration) :
    m.set key value ttl = (.error lockPoisoned, m) := by
  rw [set, if_pos h]

theorem setIfAbsent_of_poisoned
    (key : String)
    (value : Bytes)
    (ttl : Option Duration) :
    m.setIfAbsent key value ttl = (.error lockPoisoned, m) := by
  rw [setIfAbsent, if_pos h]

end Poisoned

section Unlocked

variable {m : Memory} (h : m.poisoned = false)

section

include h

theorem onData_of_not_poisoned
    (f : Data → Except StoreError α × Data) :
    m.onData f = ((f m.data).1, { m with data := (f m.data).2 }) := by
  simp [onData, h]

theorem useData_of_not_poisoned
    (f : Data → α × Data) :
    m.useData f = (.ok (f m.data).1, { m with data := (f m.data).2 }) := by
  rw [useData, onData_of_not_poisoned h]

theorem popBack_eq
    (key : String) :
    m.popBack key =
      (.ok (m.data.list key).getLast?, { m with data := (m.data.popBack key).2 }) := by
  rw [popBack, useData_of_not_poisoned h, Data.popBack_fst]

end

theorem blockingPopBack_overflow
    {wait : Duration}
    (hd : deadline? m.clock wait = none)
    (key : String) :
    m.blockingPopBack key wait = (.error .deadlineOverflow, m) := by
  rw [blockingPopBack, popAmid, hd]
  rfl

include h

/-- Time passes up to the deadline where there is nothing to take. -/
theorem blockingPopBack_eq
    {wait : Duration}
    {deadline : Nat}
    (hd : deadline? m.clock wait = some deadline)
    (key : String) :
    m.blockingPopBack key wait =
      (.ok (m.data.list key).getLast?,
        { m with
          data := (m.data.popBack key).2
          clock := if m.data.list key = [] then max m.clock deadline else m.clock }) := by
  simp only [blockingPopBack, popAmid, hd, popUntil, popBack_eq h]
  cases hl : (m.data.list key).getLast? with
  | none => rw [if_pos (List.getLast?_eq_none_iff.1 hl)]
  | some entry =>
      have hne : m.data.list key ≠ [] := by
        intro hnil
        rw [hnil] at hl
        exact absurd hl (by simp)
      rw [if_neg hne]

theorem set_eq
    (key : String)
    (value : Bytes)
    (ttl : Option Duration) :
    m.set key value ttl = m.store (m.data.remove m.clock key).2 key value ttl := by
  simp [set, h]

theorem setIfAbsent_eq
    (key : String)
    (value : Bytes)
    (ttl : Option Duration) :
    m.setIfAbsent key value ttl =
      if (m.data.contains m.clock key).1 then
        (.ok false, { m with data := (m.data.contains m.clock key).2 })
      else
        ((m.store (m.data.contains m.clock key).2 key value ttl).1.map fun _ => true,
          (m.store (m.data.contains m.clock key).2 key value ttl).2) := by
  simp [setIfAbsent, h]

end Unlocked

/-- A plain value is set unless it would expire beyond the clock. -/
theorem store_eq
    (m : Memory)
    (d : Data)
    (key : String)
    (value : Bytes)
    (ttl : Option Duration) :
    m.store d key value ttl =
      if LivesBeyond ttl m.clock then
        (.error .deadlineOverflow, { m with data := d, poisoned := true })
      else
        (.ok (), { m with
          data := { d with values := d.values.insert key ⟨value, expiry m.clock ttl⟩ } }) := by
  rw [store]
  by_cases hbeyond : LivesBeyond ttl m.clock
  · rw [new?_of_livesBeyond hbeyond, if_pos hbeyond]
  · rw [new?_of_not_livesBeyond hbeyond, if_neg hbeyond]

end Memory
end Courier
