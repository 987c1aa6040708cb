import Courier.Proofs.Store.Exchange
import Courier.Proofs.Store.Locking

/-!
# What the moves of others do to a slot

A connection belongs to one client.  The others call the store, open connections and
use their own; of all this a slot notices only what is published, and only as long as
its client is there.

**Results.**
* `Store.Move.connection?`, `Store.Move.copiesFor`: the connection that a move uses, and
  the copies that a slot gets by it.
* `Exchange.Shift`, `Memory.shift_step`: all that a move does to the exchange.
* `Exchange.Shift.slot?`: a live slot after a move of others.
* `Exchange.Silent`, `Exchange.Shift.silent`: a connection that has been given up.
* `Exchange.Numbered`, `Memory.numbered_after`: new connections have new numbers.
-/

namespace Courier

namespace Store.Move

/-- The connection that a move uses. -/
def connection? : Move → Option SubscriberId
  | .call (.subscribe id _) => some id
  | .call (.psubscribe id _) => some id
  | .call (.unsubscribe id _) => some id
  | .call (.punsubscribe id _) => some id
  | .call (.nextMessage id _) => some id
  | .release id => some id
  | _ => none

/-- The copies that a slot gets by a move. -/
def copiesFor (slot : Slot) : Move → List RawMessage
  | .call (.publish channel payload) => slot.copies channel payload
  | _ => []

end Store.Move

namespace Exchange

/-- All that a move does to an exchange. -/
inductive Shift (x : Exchange) : Store.Move → Exchange → Prop
  | kept {move : Store.Move}
      (unpublished : ∀ slot, move.copiesFor slot = []) :
      Shift x move x
  | published (channel : String) (payload : Bytes) :
      Shift x (.call (.publish channel payload)) (x.publish channel payload).2
  | opened :
      Shift x (.call .subscriber) x.subscriber.2
  | updated {move : Store.Move} {id : SubscriberId} {f : Slot → Slot}
      (used : move.connection? = some id)
      (unpublished : ∀ slot, move.copiesFor slot = [])
      (keepsId : ∀ s, (f s).id = s.id) :
      Shift x move (x.update id f)

/-- Taking from an inbox changes at most that inbox. -/
theorem nextMessage_snd
    (x : Exchange)
    (id : SubscriberId) :
    (x.nextMessage id).2 = x ∨
      ∃ rest, (x.nextMessage id).2 = x.update id fun s => { s with inbox := rest } := by
  rw [nextMessage]
  split
  · exact Or.inr ⟨_, rfl⟩
  · exact Or.inl rfl
  · exact Or.inl rfl

end Exchange

namespace Memory

variable {α : Type}

theorem exchange_onData
    (m : Memory)
    (f : Data → Except StoreError α × Data) :
    (m.onData f).2.exchange = m.exchange := by
  rw [onData]
  split
  · rfl
  · rfl

theorem exchange_store
    (m : Memory)
    (d : Data)
    (key : String)
    (value : Bytes)
    (ttl : Option Duration) :
    (m.store d key value ttl).2.exchange = m.exchange := by
  rw [store]
  split
  · rfl
  · rfl

theorem exchange_set
    (m : Memory)
    (key : String)
    (value : Bytes)
    (ttl : Option Duration) :
    (m.set key value ttl).2.exchange = m.exchange := by
  rw [set]
  split
  · rfl
  · exact exchange_store m _ key value ttl

theorem exchange_setIfAbsent
    (m : Memory)
    (key : String)
    (value : Bytes)
    (ttl : Option Duration) :
    (m.setIfAbsent key value ttl).2.exchange = m.exchange := by
  cases hlock : m.poisoned with
  | true => rw [setIfAbsent_of_poisoned hlock]
  | false =>
      rw [setIfAbsent_eq hlock]
      split
      · rfl
      · exact exchange_store m _ key value ttl

theorem exchange_blockingPopBack
    (m : Memory)
    (key : String)
    (wait : Duration) :
    (m.blockingPopBack key wait).2.exchange = m.exchange := by
  cases hlock : m.poisoned with
  | true => rw [blockingPopBack_of_poisoned hlock]
  | false =>
      cases hd : deadline? m.clock wait with
      | none => rw [blockingPopBack_overflow hd]
      | some deadline => rw [blockingPopBack_eq hlock hd]

theorem exchange_nextMessage
    (m : Memory)
    (id : SubscriberId)
    (wait : Duration) :
    (m.nextMessage id wait).2.exchange = (m.exchange.nextMessage id).2 := by
  rw [nextMessage]
  split
  · next h => rw [h]; rfl
  · next h => rw [h]

/-- A call on the data leaves the exchange as it is. -/
theorem exchange_perform
    (m : Memory)
    {call : Store.Call}
    (h : call.OnData) :
    (m.perform call).2.exchange = m.exchange := by
  cases call with
  | set key value ttl => exact m.exchange_set key value ttl
  | setIfAbsent key value ttl => exact m.exchange_setIfAbsent key value ttl
  | blockingPopBack key wait => exact m.exchange_blockingPopBack key wait
  | publish _ _ | subscriber | subscribe _ _ | psubscribe _ _ | unsubscribe _ _
  | punsubscribe _ _ | nextMessage _ _ => exact h.elim
  | _ => exact m.exchange_onData _

theorem shift_of_onData
    (m : Memory)
    {call : Store.Call}
    (h : call.OnData)
    (hunpublished : ∀ slot, (Store.Move.call call).copiesFor slot = []) :
    m.exchange.Shift (.call call) (m.step (.call call)).exchange := by
  have hexchange : (m.step (.call call)).exchange = m.exchange := m.exchange_perform h
  rw [hexchange]
  exact .kept hunpublished

theorem shift_nextMessage
    (m : Memory)
    (id : SubscriberId)
    (wait : Duration) :
    m.exchange.Shift (.call (.nextMessage id wait))
      (m.step (.call (.nextMessage id wait))).exchange := by
  have hexchange : (m.step (.call (.nextMessage id wait))).exchange =
      (m.exchange.nextMessage id).2 := m.exchange_nextMessage id wait
  rw [hexchange]
  rcases m.exchange.nextMessage_snd id with hsame | ⟨rest, hrest⟩
  · rw [hsame]
    exact .kept fun _ => rfl
  · rw [hrest]
    exact .updated rfl (fun _ => rfl) fun _ => rfl

/-- **A move.**  It publishes a payload, opens a connection, changes the slot of the
connection that it uses, or leaves the exchange as it is. -/
theorem shift_step
    (m : Memory)
    (move : Store.Move) :
    m.exchange.Shift move (m.step move).exchange := by
  cases move with
  | pass time => exact .kept fun _ => rfl
  | release id => exact .updated rfl (fun _ => rfl) fun _ => rfl
  | call call =>
      cases call with
      | publish channel payload => exact .published channel payload
      | subscriber => exact .opened
      | subscribe id channels => exact .updated rfl (fun _ => rfl) fun _ => rfl
      | psubscribe id patterns => exact .updated rfl (fun _ => rfl) fun _ => rfl
      | unsubscribe id channels => exact .updated rfl (fun _ => rfl) fun _ => rfl
      | punsubscribe id patterns => exact .updated rfl (fun _ => rfl) fun _ => rfl
      | nextMessage id wait => exact m.shift_nextMessage id wait
      | _ => exact m.shift_of_onData trivial fun _ => rfl

end Memory

namespace Exchange

/-- No client of a connection is there any more. -/
def Silent (x : Exchange) (id : SubscriberId) : Prop :=
  ∀ s ∈ x.slots, s.id = id → s.released = true

/-- The connections that are open have numbers below the next one. -/
def Numbered (x : Exchange) : Prop :=
  ∀ s ∈ x.slots, s.id < x.next

theorem silent_release
    (x : Exchange)
    (id : SubscriberId) :
    (x.release id).Silent id := by
  intro s hs hid
  obtain ⟨t, -, rfl⟩ := List.mem_map.1 hs
  split
  · rfl
  · next hne =>
      rw [if_neg hne] at hid
      exact absurd hid hne

/-- The slot of a connection that has just been opened. -/
theorem slot?_opened
    {x : Exchange}
    (h : x.Numbered) :
    x.subscriber.2.slot? x.next = some ⟨x.next, [], [], [], false⟩ := by
  have hnone : x.live.find? (fun s => decide (s.id = x.next)) = none := by
    rw [List.find?_eq_none]
    intro s hs
    have hlt := h s (mem_live.1 hs).1
    simp [Nat.ne_of_lt hlt]
  rw [slot?, subscriber, List.find?_append, hnone]
  simp

namespace Shift

variable {x y : Exchange} {move : Store.Move} (h : x.Shift move y)
include h

/-- A live slot after a move that does not use its connection. -/
theorem slot?
    {id : SubscriberId}
    {slot : Slot}
    (hmove : move.connection? ≠ some id)
    (hslot : x.slot? id = some slot)
    (hlive : slot.released = false) :
    y.slot? id = some { slot with inbox := slot.inbox ++ move.copiesFor slot } := by
  cases h with
  | kept unpublished => rw [unpublished, List.append_nil, hslot]
  | published channel payload => exact slot?_publish hslot hlive channel payload
  | opened =>
      have hnone : (Store.Move.call .subscriber).copiesFor slot = [] := rfl
      rw [slot?_subscriber hslot hlive, hnone, List.append_nil]
  | updated used unpublished keepsId =>
      have hne : id ≠ _ := fun heq => hmove (heq ▸ used)
      rw [slot?_update_of_ne x hne _ keepsId, unpublished, List.append_nil, hslot]

theorem next_le :
    x.next ≤ y.next := by
  cases h with
  | kept unpublished => exact Nat.le_refl _
  | published channel payload => exact Nat.le_refl _
  | opened => exact Nat.le_succ _
  | updated used unpublished keepsId => exact Nat.le_refl _

/-- Every slot after a move is new or was there before. -/
theorem of_mem
    {s : Slot}
    (hs : s ∈ y.slots) :
    (s.id = x.next ∧ y.next = x.next + 1) ∨
      ∃ t ∈ x.slots, s.id = t.id ∧ (move.connection? ≠ some t.id → s.released = t.released) := by
  cases h with
  | kept unpublished => exact Or.inr ⟨s, hs, rfl, fun _ => rfl⟩
  | published channel payload =>
      obtain ⟨t, ht, rfl⟩ := List.mem_map.1 hs
      exact Or.inr ⟨t, (mem_live.1 ht).1, rfl, fun _ => rfl⟩
  | opened =>
      rcases List.mem_append.1 hs with hs | hs
      · exact Or.inr ⟨s, (mem_live.1 hs).1, rfl, fun _ => rfl⟩
      · rw [List.mem_singleton.1 hs]
        exact Or.inl ⟨rfl, rfl⟩
  | @updated _ id f used unpublished keepsId =>
      obtain ⟨t, ht, rfl⟩ := List.mem_map.1 hs
      refine Or.inr ⟨t, ht, ?_, ?_⟩
      · split
        · exact keepsId t
        · rfl
      · intro hmove
        have hne : t.id ≠ id := by
          rintro rfl
          exact hmove used
        rw [if_neg hne]

/-- A connection that has been given up stays so: its number is not used again. -/
theorem silent
    {id : SubscriberId}
    (hmove : move.connection? ≠ some id)
    (hknown : id < x.next)
    (hsilent : x.Silent id) :
    y.Silent id := by
  intro s hs hid
  rcases h.of_mem hs with ⟨hnew, -⟩ | ⟨t, ht, hsame, hreleased⟩
  · rw [hid] at hnew
    exact absurd hknown (hnew ▸ Nat.lt_irrefl _)
  · have htid : t.id = id := hsame.symm.trans hid
    rw [hreleased (htid ▸ hmove)]
    exact hsilent t ht htid

theorem numbered
    (hnumbered : x.Numbered) :
    y.Numbered := by
  intro s hs
  rcases h.of_mem hs with ⟨hnew, hnext⟩ | ⟨t, ht, hsame, -⟩
  · rw [hnew, hnext]
    exact Nat.lt_succ_self _
  · rw [hsame]
    exact Nat.lt_of_lt_of_le (hnumbered t ht) h.next_le

end Shift
end Exchange

/-- After every run the connections that are open have numbers below the next one. -/
theorem Memory.numbered_after
    (now : Nat)
    (moves : List Store.Move) :
    (Memory.after now moves).exchange.Numbered := by
  induction moves using List.reverseRecOn with
  | nil => exact fun s hs => absurd hs (List.not_mem_nil)
  | append_singleton moves move ih =>
      rw [Memory.after_concat]
      exact ((Memory.after now moves).shift_step move).numbered ih

end Courier
