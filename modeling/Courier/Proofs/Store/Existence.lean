import Courier.Proofs.Store.Current
import Courier.Proofs.Text.Order

/-!
# Which keys exist

A key is there if one of the three maps has it.  That says something about what the key
holds only because lists and sorted sets cease to exist when they become empty.  Every
operation sees to it, so that all calls that can tell whether a key is there agree.

**Results.**
* `Data.Tidy`: no list and no sorted set is empty, and no member is listed twice.
* `Memory.kept_onData` and so on: what a call keeps of the data, a store keeps.
* `Data.Tidy.pushFront` and so on, `Memory.tidy_perform`, `Memory.tidy_run`: it stays so.
* `Data.Tidy.holds_iff`: a key is there if it holds something.
* `Data.mem_keysLike`, `Data.pairwise_keysLike`: listing the keys that are there.
* `existence_agrees`: all of it, after every run.
-/

namespace Courier

namespace KeyMap

variable {β : Type}

/-- Every value of a map has a property. -/
def All (P : β → Prop) (m : KeyMap β) : Prop :=
  ∀ k v, m.get? k = some v → P v

theorem all_empty
    (P : β → Prop) :
    (empty : KeyMap β).All P :=
  fun k v h => absurd h (by simp)

variable {P : β → Prop} {m : KeyMap β} (h : m.All P)
include h

theorem All.insert
    (k : String)
    {v : β}
    (hv : P v) :
    (m.insert k v).All P := by
  intro l w hw
  rw [get?_insert] at hw
  split at hw
  · obtain rfl := Option.some.inj hw
    exact hv
  · exact h l w hw

theorem All.set
    (k : String)
    {v : Option β}
    (hv : ∀ w, v = some w → P w) :
    (m.set k v).All P := by
  intro l w hw
  rw [get?_set] at hw
  split at hw
  · exact hv w hw
  · exact h l w hw

theorem All.erase
    (k : String) :
    (m.erase k).All P := by
  intro l w hw
  rw [get?_erase] at hw
  split at hw
  · exact absurd hw (by simp)
  · exact h l w hw

end KeyMap

namespace SortedSet

theorem add_ne_nil
    (s : SortedSet)
    (member : Bytes)
    (score : Binary64) :
    s.add member score ≠ [] := by
  cases s with
  | nil => exact List.cons_ne_nil _ _
  | cons e es =>
      rw [add]
      split
      · exact List.cons_ne_nil _ _
      · exact List.cons_ne_nil _ _

theorem nodup_members_remove
    {s : SortedSet}
    (h : s.members.Nodup)
    (member : Bytes) :
    (s.remove member).members.Nodup := by
  rw [members_remove]
  exact h.filter _

end SortedSet

namespace Data

/-- No list and no sorted set is empty, and no member of a sorted set is listed twice. -/
structure Tidy (d : Data) : Prop where
  lists : d.lists.All (· ≠ [])
  sorted : d.sorted.All fun s : SortedSet => s ≠ [] ∧ s.members.Nodup

theorem tidy_empty : Data.empty.Tidy :=
  ⟨KeyMap.all_empty _, KeyMap.all_empty _⟩

namespace Tidy

variable {d : Data} (h : d.Tidy)
include h

theorem setValues
    (values : KeyMap Entry) :
    Tidy { d with values } :=
  ⟨h.lists, h.sorted⟩

theorem pushFront
    (key : String)
    (value : Bytes) :
    (d.pushFront key value).Tidy :=
  ⟨h.lists.insert key (List.cons_ne_nil _ _), h.sorted⟩

theorem popBack
    (key : String) :
    (d.popBack key).2.Tidy := by
  rw [Data.popBack]
  split
  · exact h
  · refine ⟨h.lists.set key fun rest hrest => ?_, h.sorted⟩
    split at hrest
    · exact absurd hrest (by simp)
    · next hne =>
        obtain rfl := Option.some.inj hrest
        exact hne

theorem sortedAdd
    (key : String)
    (member : Bytes)
    (score : Binary64) :
    (d.sortedAdd key member score).Tidy := by
  refine ⟨h.lists, h.sorted.insert key ⟨SortedSet.add_ne_nil _ _ _, ?_⟩⟩
  refine SortedSet.nodup_members_add ?_ member score
  rw [sortedSet]
  cases hget : d.sorted.get? key with
  | none => exact List.nodup_nil
  | some s => exact (h.sorted key s hget).2

theorem sortedRemove
    (key : String)
    (member : Bytes) :
    (d.sortedRemove key member).2.Tidy := by
  rw [Data.sortedRemove]
  split
  · exact h
  · next s hget =>
      refine ⟨h.lists, h.sorted.set key fun rest hrest => ?_⟩
      split at hrest
      · exact absurd hrest (by simp)
      · next hne =>
          obtain rfl := Option.some.inj hrest
          exact ⟨hne, SortedSet.nodup_members_remove (h.sorted key s hget).2 member⟩

theorem apply
    (op : BatchOp) :
    (d.apply op).Tidy := by
  cases op with
  | pushFront key value => exact h.pushFront key value
  | sortedAdd key member score => exact h.sortedAdd key member score
  | sortedRemove key member => exact h.sortedRemove key member

theorem applyAll
    (ops : List BatchOp) :
    (d.applyAll ops).Tidy := by
  induction ops generalizing d with
  | nil => exact h
  | cons op ops ih => exact ih (h.apply op)

theorem purge
    (now : Nat)
    (key : String) :
    (d.purge now key).Tidy := by
  obtain ⟨values, hpurge⟩ := d.purge_eq now key
  rw [hpurge]
  exact h.setValues values

theorem clear
    (key : String) :
    (d.clear key).Tidy :=
  ⟨h.lists.erase key, h.sorted.erase key⟩

theorem remove
    (now : Nat)
    (key : String) :
    (d.remove now key).2.Tidy := by
  rw [remove_snd]
  exact (h.purge now key).clear key

theorem removeAll
    (now : Nat)
    (keys : List String) :
    (d.removeAll now keys).2.Tidy := by
  induction keys generalizing d with
  | nil => exact h
  | cons k ks ih => exact ih (h.remove now k)

theorem increment
    (now : Nat)
    (key : String)
    (amount : Int64) :
    (d.increment now key amount).2.Tidy := by
  have hpurged := h.purge now key
  rw [increment_eq]
  simp only [count]
  split
  · exact hpurged
  · split
    · exact hpurged.setValues _
    · split
      · exact hpurged.setValues _
      · exact hpurged.setValues _

theorem contains_lists_iff
    (key : String) :
    d.lists.contains key = true ↔ d.list key ≠ [] := by
  rw [KeyMap.contains, list]
  cases hget : d.lists.get? key with
  | none => simp
  | some vs => simpa using h.lists key vs hget

theorem contains_sorted_iff
    (key : String) :
    d.sorted.contains key = true ↔ d.sortedSet key ≠ [] := by
  rw [KeyMap.contains, sortedSet]
  cases hget : d.sorted.get? key with
  | none => simp
  | some s => simpa using (h.sorted key s hget).1

/-- A key is there if it holds something of some kind. -/
theorem holds_iff
    (key : String) :
    d.holds key = true ↔
      d.list key ≠ [] ∨ d.sortedSet key ≠ [] ∨ ∃ e, d.values.get? key = some e := by
  rw [holds, Bool.or_eq_true, Bool.or_eq_true, h.contains_lists_iff, h.contains_sorted_iff,
    KeyMap.contains_iff, or_assoc]

end Tidy

theorem mem_keysLike
    {d : Data}
    {pattern key : String} :
    key ∈ d.keysLike pattern ↔ d.holds key = true ∧ Glob.accepts pattern key = true := by
  rw [keysLike, Text.mem_sorted, List.mem_filter]
  simp only [List.mem_append, KeyMap.mem_keys_iff, holds, Bool.or_eq_true]

theorem pairwise_keysLike
    (d : Data)
    (pattern : String) :
    (d.keysLike pattern).Pairwise (· < ·) :=
  Text.pairwise_sorted _

end Data

namespace Memory

variable {m : Memory}

section Kept

variable {P : Data → Prop}

/-- What a call keeps of the data, a store keeps. -/
theorem kept_onData
    {α : Type}
    {f : Data → Except StoreError α × Data}
    (h : P m.data)
    (hf : P (f m.data).2) :
    P (m.onData f).2.data := by
  cases hlock : m.poisoned with
  | true => rwa [onData_of_poisoned hlock]
  | false => rwa [onData_of_not_poisoned hlock]

theorem kept_useData
    {α : Type}
    {f : Data → α × Data}
    (h : P m.data)
    (hf : P (f m.data).2) :
    P (m.useData f).2.data :=
  kept_onData h hf

theorem kept_store
    {d : Data}
    {key : String}
    {value : Bytes}
    (hd : P d)
    (hput : ∀ expiresAt, P (d.put key ⟨value, expiresAt⟩))
    (m : Memory)
    (ttl : Option Duration) :
    P (m.store d key value ttl).2.data := by
  rw [store_eq]
  split
  · exact hd
  · exact hput _

theorem kept_set
    {key : String}
    {value : Bytes}
    (h : P m.data)
    (hremoved : P (m.data.remove m.clock key).2)
    (hput : ∀ expiresAt, P ((m.data.remove m.clock key).2.put key ⟨value, expiresAt⟩))
    (ttl : Option Duration) :
    P (m.set key value ttl).2.data := by
  cases hlock : m.poisoned with
  | true => rwa [set_of_poisoned hlock]
  | false =>
      rw [set_eq hlock]
      exact kept_store hremoved hput m ttl

theorem kept_setIfAbsent
    {key : String}
    {value : Bytes}
    (h : P m.data)
    (hpurged : P (m.data.purge m.clock key))
    (hput : ∀ expiresAt, P ((m.data.purge m.clock key).put key ⟨value, expiresAt⟩))
    (ttl : Option Duration) :
    P (m.setIfAbsent key value ttl).2.data := by
  cases hlock : m.poisoned with
  | true => rwa [setIfAbsent_of_poisoned hlock]
  | false =>
      rw [setIfAbsent_eq hlock]
      split
      · exact hpurged
      · exact kept_store hpurged hput m ttl

end Kept

section Tidy

variable (h : m.data.Tidy)
include h

theorem tidy_blockingPopBack
    (key : String)
    (wait : Duration) :
    (m.blockingPopBack key wait).2.data.Tidy := by
  cases hlock : m.poisoned with
  | true => rwa [blockingPopBack_of_poisoned hlock]
  | false =>
      cases hd : deadline? m.clock wait with
      | none => rwa [blockingPopBack_overflow hd]
      | some deadline =>
          rw [blockingPopBack_eq hlock hd]
          exact h.popBack key

theorem tidy_nextMessage
    (id : SubscriberId)
    (wait : Duration) :
    (m.nextMessage id wait).2.data.Tidy := by
  rw [nextMessage]
  split
  · exact h
  · exact h

theorem tidy_perform
    (call : Store.Call) :
    (m.perform call).2.data.Tidy := by
  cases call
  all_goals simp only [perform]
  case pushFront key value => exact kept_useData h (h.pushFront key value)
  case popBack key => exact kept_useData h (h.popBack key)
  case blockingPopBack key wait => exact tidy_blockingPopBack h key wait
  case listLen key => exact kept_useData h h
  case delete keys => exact kept_useData h (h.removeAll m.clock keys)
  case sortedAdd key member score => exact kept_useData h (h.sortedAdd key member score)
  case rangeByScore key min max => exact kept_useData h h
  case sortedRemove key member => exact kept_useData h (h.sortedRemove key member)
  case sortedLen key => exact kept_useData h h
  case executeBatch ops => exact kept_useData h (h.applyAll ops)
  case set key value ttl =>
    have hremoved := h.remove m.clock key
    exact kept_set h hremoved (fun _ => hremoved.setValues _) ttl
  case setIfAbsent key value ttl =>
    have hpurged := h.purge m.clock key
    exact kept_setIfAbsent h hpurged (fun _ => hpurged.setValues _) ttl
  case get key => exact kept_useData h (h.purge m.clock key)
  case contains key => exact kept_useData h (h.purge m.clock key)
  case increment key amount => exact kept_onData h (h.increment m.clock key amount)
  case keysMatching pattern => exact kept_useData h h
  case nextMessage id wait => exact tidy_nextMessage h id wait
  all_goals exact h

theorem tidy_run
    (moves : List Store.Move) :
    (m.run moves).data.Tidy := by
  induction moves generalizing m with
  | nil => exact h
  | cons move moves ih =>
      refine ih (m := m.step move) ?_
      cases move with
      | call call => exact tidy_perform h call
      | release id => exact h
      | pass time => exact h

end Tidy

/-- A store answers that a key is there. -/
def There (m : Memory) (key : String) : Prop :=
  (m.contains key).1 = .ok true

instance (m : Memory) : DecidablePred m.There :=
  fun key => inferInstanceAs (Decidable ((m.contains key).1 = .ok true))

theorem there_iff
    {key : String} :
    m.There key ↔ m.poisoned = false ∧ (m.data.current m.clock).holds key = true := by
  rw [There, contains]
  cases hlock : m.poisoned with
  | true => simp [useData_of_poisoned hlock]
  | false => simp [useData_of_not_poisoned hlock, Data.contains_fst]

theorem delete_fst
    (m : Memory)
    (keys : List String) :
    (m.delete keys).1 =
      if m.poisoned then .error lockPoisoned else .ok (keys.toFinset.filter m.There).card := by
  rw [delete]
  cases hlock : m.poisoned with
  | true => rw [useData_of_poisoned hlock, if_pos rfl]
  | false =>
      have hthere : ∀ key, m.There key ↔ (m.data.current m.clock).holds key = true := fun key => by
        rw [there_iff, hlock, and_iff_right rfl]
      rw [useData_of_not_poisoned hlock, (m.data.removeAll_eq m.clock keys).1, Data.clearAll_fst]
      simp [hthere]

theorem delete_one_iff
    {key : String} :
    (m.delete [key]).1 = .ok 1 ↔ m.There key := by
  rw [delete_fst]
  cases hlock : m.poisoned with
  | true => simp [there_iff, hlock]
  | false =>
      by_cases hthere : m.There key
      · simp [hthere, Finset.filter_singleton]
      · simp [hthere, Finset.filter_singleton]

theorem setIfAbsent_false_iff
    {key : String}
    {value : Bytes}
    {ttl : Option Duration} :
    (m.setIfAbsent key value ttl).1 = .ok false ↔ m.There key := by
  rw [there_iff]
  cases hlock : m.poisoned with
  | true => simp [setIfAbsent_of_poisoned hlock]
  | false =>
      rw [setIfAbsent_eq hlock, Data.contains_fst, store_eq]
      split
      · next hholds => simp [hholds]
      · next hholds =>
          split
          · simp [hholds, Except.map]
          · simp [hholds, Except.map]

/-- A key is there if it holds entries, members or a value. -/
theorem holds_something_iff
    (h : m.data.Tidy)
    {key : String} :
    ((∃ n, (m.listLen key).1 = .ok (n + 1)) ∨ (∃ n, (m.sortedLen key).1 = .ok (n + 1)) ∨
      ∃ value, (m.get key).1 = .ok (some value)) ↔ m.There key := by
  have hlength : ∀ {α : Type} (l : List α), (∃ n, l.length = n + 1) ↔ l ≠ [] := by
    intro α l
    cases l with
    | nil => simp
    | cons a l => simp
  rw [there_iff, listLen, sortedLen, get]
  cases hlock : m.poisoned with
  | true => simp [useData_of_poisoned hlock]
  | false =>
      have hcurrent : (m.data.current m.clock).Tidy := h.setValues _
      rw [and_iff_right rfl, hcurrent.holds_iff]
      simp only [useData_of_not_poisoned hlock, Except.ok.injEq, hlength]
      refine or_congr Iff.rfl (or_congr Iff.rfl ?_)
      show (∃ value, ((m.data.purge m.clock key).values.get? key).map (·.value) = some value) ↔ _
      rw [Data.get?_purge]
      cases (m.data.current m.clock).values.get? key with
      | none => simp
      | some e => simp

theorem keysMatching_lists
    (m : Memory)
    (pattern : String) :
    ∃ keys,
      (m.keysMatching pattern).1 = (if m.poisoned then .error lockPoisoned else .ok keys) ∧
        keys.Pairwise (fun a b => Utf8.encode a < Utf8.encode b) ∧
        ∀ key, key ∈ keys ↔ m.There key ∧ Glob.accepts pattern key = true := by
  rw [keysMatching]
  cases hlock : m.poisoned with
  | true =>
      refine ⟨[], ?_, List.Pairwise.nil, fun key => ?_⟩
      · rw [useData_of_poisoned hlock, if_pos rfl]
      · simp [there_iff, hlock]
  | false =>
      refine ⟨(m.data.current m.clock).keysLike pattern, ?_, ?_, fun key => ?_⟩
      · rw [useData_of_not_poisoned hlock]
        rfl
      · exact (Data.pairwise_keysLike _ pattern).imp Utf8.encode_lt_encode
      · rw [Data.mem_keysLike, there_iff, hlock, and_iff_right rfl]

end Memory

namespace Store

/-- **All calls agree on which keys are there.**  After every run no list and no sorted
set is empty and no member of a sorted set is listed twice.  A key is there, as the call
that asks for it answers, exactly if removing it alone counts one, if setting a value
where there is none is declined, and if it holds entries, members or a value.  The keys
that match a pattern are listed in the order of their bytes, each once, and removing keys
counts each of those that are there once.  Where the data cannot be locked no key is there
by any of these calls, and the two that list and count are refused. -/
theorem existence_agrees
    (now : Nat)
    (moves : List Move) :
    let m := Memory.after now moves
    m.data.Tidy ∧
      (∀ key, (m.delete [key]).1 = .ok 1 ↔ m.There key) ∧
      (∀ key value ttl, (m.setIfAbsent key value ttl).1 = .ok false ↔ m.There key) ∧
      (∀ key,
        ((∃ n, (m.listLen key).1 = .ok (n + 1)) ∨ (∃ n, (m.sortedLen key).1 = .ok (n + 1)) ∨
          ∃ value, (m.get key).1 = .ok (some value)) ↔ m.There key) ∧
      (∀ pattern, ∃ keys,
        (m.keysMatching pattern).1 =
            (if m.poisoned then .error Memory.lockPoisoned else .ok keys) ∧
          keys.Pairwise (fun a b => Utf8.encode a < Utf8.encode b) ∧
          ∀ key, key ∈ keys ↔ m.There key ∧ Glob.accepts pattern key = true) ∧
      ∀ keys,
        (m.delete keys).1 =
          if m.poisoned then .error Memory.lockPoisoned
          else .ok (keys.toFinset.filter m.There).card := by
  intro m
  have h : m.data.Tidy := Memory.tidy_run Data.tidy_empty moves
  exact ⟨h, fun key => Memory.delete_one_iff, fun key value ttl => Memory.setIfAbsent_false_iff,
    fun key => Memory.holds_something_iff h, m.keysMatching_lists, m.delete_fst⟩

end Store
end Courier
