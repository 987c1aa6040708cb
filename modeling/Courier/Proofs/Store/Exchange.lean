import Courier.Store.Memory
import Mathlib.Data.List.Basic
import Mathlib.Data.List.Nodup

/-!
# What is seen of an exchange

A subscriber is seen as its slot and as what is in its inbox.  Publishing and
opening sweep the slots of those that have gone away; every other call changes
one slot.

**Results.**
* `Exchange.inbox`: the payloads that a subscriber has still to take.
* `Exchange.slot?_update`, `Exchange.inbox_update`: a call that changes one slot.
* `Exchange.nextMessage_of_cons`, `Exchange.nextMessage_of_nil`: a call that takes.
* `Exchange.slot?_sweep`: the slots of live subscribers are not swept.
* `Exchange.slot?_publish`, `Exchange.slot?_subscriber`: the slots of live subscribers.
* `Exchange.inbox_publish`: what a published payload adds to an inbox.
* `Exchange.inbox_subscriber`: opening changes no inbox of those that live.
-/

namespace Courier
namespace Exchange

/-- The payloads that a subscriber has still to take. -/
def inbox (x : Exchange) (id : SubscriberId) : List RawMessage :=
  ((x.slot? id).map (·.inbox)).getD []

theorem inbox_of_slot?
    {x : Exchange}
    {id : SubscriberId}
    {s : Slot}
    (hs : x.slot? id = some s) :
    x.inbox id = s.inbox := by
  rw [inbox, hs]
  rfl

theorem mem_of_slot?
    {x : Exchange}
    {id : SubscriberId}
    {s : Slot}
    (hs : x.slot? id = some s) :
    s ∈ x.slots ∧ s.id = id :=
  ⟨List.mem_of_find?_eq_some hs, by simpa using List.find?_some hs⟩

theorem slot?_of_mem
    {x : Exchange}
    {s : Slot}
    (hnodup : (x.slots.map (·.id)).Nodup)
    (hs : s ∈ x.slots) :
    x.slot? s.id = some s := by
  rw [slot?]
  generalize x.slots = slots at hnodup hs
  induction slots with
  | nil => exact absurd hs (by simp)
  | cons r slots ih =>
      obtain ⟨hr, hrest⟩ := List.nodup_cons.1 hnodup
      rcases List.mem_cons.1 hs with rfl | hmem
      · exact List.find?_cons_of_pos (by simp)
      · have hne : r.id ≠ s.id := by
          intro heq
          exact hr (List.mem_map.2 ⟨s, hmem, heq.symm⟩)
        rw [List.find?_cons_of_neg (by simpa using hne)]
        exact ih hrest hmem

theorem inbox_eq_nil
    {x : Exchange}
    {id : SubscriberId}
    (h : ∀ s ∈ x.slots, s.id = id → s.inbox = []) :
    x.inbox id = [] := by
  cases hs : x.slot? id with
  | none =>
      rw [inbox, hs]
      rfl
  | some s =>
      obtain ⟨hmem, hid⟩ := mem_of_slot? hs
      rw [inbox_of_slot? hs]
      exact h s hmem hid

theorem slot?_map
    (x : Exchange)
    {f : Slot → Slot}
    (hf : ∀ s, (f s).id = s.id)
    (id : SubscriberId) :
    slot? { x with slots := x.slots.map f } id = (x.slot? id).map f := by
  have hsame : ((fun s : Slot => decide (s.id = id)) ∘ f) = fun s => decide (s.id = id) := by
    funext s
    simp [hf]
  rw [slot?, List.find?_map, hsame, slot?]

theorem slot?_update
    (x : Exchange)
    (id : SubscriberId)
    (f : Slot → Slot)
    (hf : ∀ s, (f s).id = s.id) :
    (x.update id f).slot? id = (x.slot? id).map f := by
  rw [update, slot?_map x (fun s => by split <;> simp [hf])]
  cases hs : x.slot? id with
  | none => rfl
  | some s => rw [Option.map_some, Option.map_some, if_pos (mem_of_slot? hs).2]

theorem slot?_update_of_ne
    (x : Exchange)
    {id other : SubscriberId}
    (hne : other ≠ id)
    (f : Slot → Slot)
    (hf : ∀ s, (f s).id = s.id) :
    (x.update id f).slot? other = x.slot? other := by
  rw [update, slot?_map x (fun s => by split <;> simp [hf])]
  cases hs : x.slot? other with
  | none => rfl
  | some s =>
      have hid : s.id ≠ id := by
        rw [(mem_of_slot? hs).2]
        exact hne
      rw [Option.map_some, if_neg hid]

theorem backlog_eq
    (x : Exchange)
    (id : SubscriberId) :
    x.backlog id = (x.inbox id).length := by
  rw [backlog, inbox]
  cases x.slot? id with
  | none => rfl
  | some s => rfl

theorem inbox_update_of_ne
    (x : Exchange)
    {id other : SubscriberId}
    (hne : other ≠ id)
    (f : Slot → Slot)
    (hid : ∀ s, (f s).id = s.id) :
    (x.update id f).inbox other = x.inbox other := by
  rw [inbox, slot?_update_of_ne x hne f hid, inbox]

/-- What does not touch the inbox of a slot does not touch any inbox. -/
theorem inbox_update
    (x : Exchange)
    (id other : SubscriberId)
    (f : Slot → Slot)
    (hid : ∀ s, (f s).id = s.id)
    (hinbox : ∀ s, (f s).inbox = s.inbox) :
    (x.update id f).inbox other = x.inbox other := by
  by_cases hother : other = id
  · subst hother
    rw [inbox, slot?_update x other f hid, inbox]
    cases x.slot? other with
    | none => rfl
    | some s => exact hinbox s
  · exact inbox_update_of_ne x hother f hid

theorem inbox_release
    (x : Exchange)
    (id other : SubscriberId) :
    (x.release id).inbox other = x.inbox other :=
  inbox_update x id other _ (fun _ => rfl) fun _ => rfl

theorem nextMessage_of_cons
    {x : Exchange}
    {id : SubscriberId}
    {raw : RawMessage}
    {rest : List RawMessage}
    (h : x.inbox id = raw :: rest) :
    x.nextMessage id = (.ok (some raw), x.update id fun s => { s with inbox := rest }) ∧
      (x.update id fun s => { s with inbox := rest }).inbox id = rest := by
  cases hs : x.slot? id with
  | none =>
      rw [inbox, hs] at h
      exact absurd h (by simp)
  | some s =>
      have hinbox : s.inbox = raw :: rest := by
        rw [inbox, hs] at h
        exact h
      have hslot := slot?_update x id (fun s => { s with inbox := rest }) fun _ => rfl
      refine ⟨?_, ?_⟩
      · rw [nextMessage, hs, Option.map_some, hinbox]
      · rw [inbox, hslot, hs]
        rfl

theorem nextMessage_of_nil
    {x : Exchange}
    {id : SubscriberId}
    (h : x.inbox id = []) :
    x.nextMessage id = (.ok none, x) ∨ x.nextMessage id = (.error .closed, x) := by
  cases hs : x.slot? id with
  | none =>
      rw [nextMessage, hs]
      exact Or.inr rfl
  | some s =>
      have hinbox : s.inbox = [] := by
        rw [inbox, hs] at h
        exact h
      rw [nextMessage, hs, Option.map_some, hinbox]
      cases x.isOpen with
      | false => exact Or.inr rfl
      | true => exact Or.inl rfl

/-- An exchange without the slots of those that have gone away. -/
def sweep (x : Exchange) : Exchange :=
  { x with slots := x.live }

theorem mem_live
    {x : Exchange}
    {s : Slot} :
    s ∈ x.live ↔ s ∈ x.slots ∧ s.released = false := by
  simp [live]

theorem slot?_sweep
    {x : Exchange}
    {id : SubscriberId}
    {s : Slot}
    (hs : x.slot? id = some s)
    (hlive : s.released = false) :
    x.sweep.slot? id = some s := by
  rw [slot?] at hs
  rw [slot?, sweep, live]
  generalize x.slots = slots at hs
  induction slots with
  | nil => exact absurd hs (by simp)
  | cons r slots ih =>
      by_cases hr : r.id = id
      · rw [List.find?_cons_of_pos (by simp [hr])] at hs
        obtain rfl : r = s := by simpa using hs
        rw [List.filter_cons_of_pos (by simp [hlive]), List.find?_cons_of_pos (by simp [hr])]
      · rw [List.find?_cons_of_neg (by simp [hr])] at hs
        cases hreleased : r.released with
        | true =>
            rw [List.filter_cons_of_neg (by simp [hreleased])]
            exact ih hs
        | false =>
            rw [List.filter_cons_of_pos (by simp [hreleased]),
              List.find?_cons_of_neg (by simp [hr])]
            exact ih hs

theorem slot?_publish
    {x : Exchange}
    {id : SubscriberId}
    {s : Slot}
    (hs : x.slot? id = some s)
    (hlive : s.released = false)
    (channel : String)
    (payload : Bytes) :
    (x.publish channel payload).2.slot? id = some (s.deliver channel payload) := by
  have hmap := slot?_map x.sweep (f := fun s => s.deliver channel payload) (fun _ => rfl) id
  rw [slot?_sweep hs hlive] at hmap
  exact hmap

theorem slot?_subscriber
    {x : Exchange}
    {id : SubscriberId}
    {s : Slot}
    (hs : x.slot? id = some s)
    (hlive : s.released = false) :
    x.subscriber.2.slot? id = some s := by
  have hswept : x.live.find? (fun s => decide (s.id = id)) = some s := slot?_sweep hs hlive
  rw [slot?, subscriber, List.find?_append, hswept]
  rfl

/-- A live subscriber gets its copies of a payload behind what it has. -/
theorem inbox_publish
    {x : Exchange}
    {id : SubscriberId}
    {s : Slot}
    (hs : x.slot? id = some s)
    (hlive : s.released = false)
    (channel : String)
    (payload : Bytes) :
    (x.publish channel payload).2.inbox id = x.inbox id ++ s.copies channel payload := by
  rw [inbox_of_slot? (slot?_publish hs hlive channel payload), inbox_of_slot? hs]
  rfl

theorem inbox_subscriber
    {x : Exchange}
    {id : SubscriberId}
    {s : Slot}
    (hs : x.slot? id = some s)
    (hlive : s.released = false) :
    x.subscriber.2.inbox id = x.inbox id := by
  rw [inbox_of_slot? (slot?_subscriber hs hlive), inbox_of_slot? hs]

end Exchange
end Courier
