import Courier.Proofs.Store.Existence
import Mathlib.Data.List.Induction

/-!
# One kind of data under a key

The maps of lists, of sorted sets and of plain values know nothing of each other, so
that nothing but the operations keeps a key from being in two of them.  Setting a plain
value clears what is there, setting one where there is none declines, and counting
refuses what is not a plain value.  Pushing to a list and adding to a sorted set do not
look at the other maps.

**Results.**
* `DataKind`, `Data.has`, `Data.Mixed`: the kinds of data, and keys that hold two of them.
* `BatchOp.Mixes`, `Store.Call.Mixes`: adding to a key that holds another kind of data.
* `Data.mixed_apply`, `Data.mixed_applyAll`: one operation, and a batch of them.
* `Memory.mixed_set` and so on: the keys that hold two kinds after each call that writes.
* `Memory.mixed_perform`, `Store.mixed_after`: one call, and a whole run.
* `Store.mixed_only_by_adding`: all of it, after every run.
* `Store.list_beside_value`: two calls after which a key holds two kinds.
-/

namespace Courier

namespace KeyMap

variable {β : Type}

theorem contains_insert
    (m : KeyMap β)
    (k l : String)
    (v : β) :
    (m.insert k v).contains l = true ↔ l = k ∨ m.contains l = true := by
  rw [contains, get?_insert, contains]
  split
  · next hk => simp [hk]
  · next hk => simp [Ne.symm hk]

theorem contains_erase
    (m : KeyMap β)
    (k l : String) :
    (m.erase k).contains l = true ↔ l ≠ k ∧ m.contains l = true := by
  rw [contains, get?_erase, contains]
  split
  · next hk => simp [hk]
  · next hk => simp [Ne.symm hk]

/-- Setting a key that is there adds no key. -/
theorem contains_of_contains_set
    {m : KeyMap β}
    {k l : String}
    {v : Option β}
    (hk : m.contains k = true)
    (hl : (m.set k v).contains l = true) :
    m.contains l = true := by
  rw [contains, get?_set] at hl
  split at hl
  · next heq => exact heq ▸ hk
  · exact hl

end KeyMap

/-- The kinds of data that a key can hold. -/
inductive DataKind where
  | list
  | sortedSet
  | value
  deriving DecidableEq

/-- The key and the kind of data that an operation of a batch adds. -/
def BatchOp.adds : BatchOp → Option (String × DataKind)
  | .pushFront key _ => some (key, .list)
  | .sortedAdd key _ _ => some (key, .sortedSet)
  | .sortedRemove _ _ => none

namespace Data

/-- Whether a key holds data of a kind. -/
def has (d : Data) (key : String) : DataKind → Bool
  | .list => d.lists.contains key
  | .sortedSet => d.sorted.contains key
  | .value => d.values.contains key

/-- A key holds data of two kinds. -/
def Mixed (d : Data) (key : String) : Prop :=
  ∃ kind other, other ≠ kind ∧ d.has key kind = true ∧ d.has key other = true

end Data

/-- An operation adds to a key that holds data of another kind. -/
def BatchOp.Mixes (d : Data) (key : String) (op : BatchOp) : Prop :=
  ∃ kind other, op.adds = some (key, kind) ∧ other ≠ kind ∧ d.has key other = true

namespace Data

variable {d e : Data} {key l : String}

/-- A key that holds nothing new holds two kinds only if it did so before. -/
theorem Mixed.of_within
    (h : ∀ kind, e.has l kind = true → d.has l kind = true)
    (hmixed : e.Mixed l) :
    d.Mixed l := by
  obtain ⟨kind, other, hne, hkind, hother⟩ := hmixed
  exact ⟨kind, other, hne, h kind hkind, h other hother⟩

/-- Where data of one kind are added to one key, only that key can come to hold two
kinds, and it holds another kind already. -/
theorem Mixed.of_added
    {kind : DataKind}
    (h : ∀ k, e.has l k = true → (l = key ∧ k = kind) ∨ d.has l k = true)
    (hmixed : e.Mixed l) :
    d.Mixed l ∨ l = key ∧ ∃ other, other ≠ kind ∧ d.has l other = true := by
  obtain ⟨k, other, hne, hk, hother⟩ := hmixed
  rcases h k hk with ⟨rfl, rfl⟩ | hk
  · rcases h other hother with ⟨-, rfl⟩ | hother
    · exact absurd rfl hne
    · exact Or.inr ⟨rfl, other, hne, hother⟩
  · rcases h other hother with ⟨rfl, rfl⟩ | hother
    · exact Or.inr ⟨rfl, k, hne.symm, hk⟩
    · exact Or.inl ⟨k, other, hne, hk, hother⟩

theorem has_pushFront
    (d : Data)
    (key l : String)
    (value : Bytes)
    (kind : DataKind) :
    (d.pushFront key value).has l kind = true ↔
      (l = key ∧ kind = .list) ∨ d.has l kind = true := by
  cases kind with
  | list => simp [has, pushFront, KeyMap.contains_insert]
  | sortedSet => simp [has, pushFront]
  | value => simp [has, pushFront]

theorem has_sortedAdd
    (d : Data)
    (key l : String)
    (member : Bytes)
    (score : Binary64)
    (kind : DataKind) :
    (d.sortedAdd key member score).has l kind = true ↔
      (l = key ∧ kind = .sortedSet) ∨ d.has l kind = true := by
  cases kind with
  | list => simp [has, sortedAdd]
  | sortedSet => simp [has, sortedAdd, KeyMap.contains_insert]
  | value => simp [has, sortedAdd]

theorem has_popBack
    (d : Data)
    (key : String)
    (kind : DataKind)
    (h : (d.popBack key).2.has l kind = true) :
    d.has l kind = true := by
  rw [popBack] at h
  cases hget : d.lists.get? key with
  | none => rwa [hget] at h
  | some vs =>
      rw [hget] at h
      have hkey : d.lists.contains key = true := KeyMap.contains_iff.2 ⟨vs, hget⟩
      cases kind with
      | list => exact KeyMap.contains_of_contains_set hkey h
      | sortedSet => exact h
      | value => exact h

theorem has_sortedRemove
    (d : Data)
    (key : String)
    (member : Bytes)
    (kind : DataKind)
    (h : (d.sortedRemove key member).2.has l kind = true) :
    d.has l kind = true := by
  rw [sortedRemove] at h
  cases hget : d.sorted.get? key with
  | none => rwa [hget] at h
  | some s =>
      rw [hget] at h
      have hkey : d.sorted.contains key = true := KeyMap.contains_iff.2 ⟨s, hget⟩
      cases kind with
      | list => exact h
      | sortedSet => exact KeyMap.contains_of_contains_set hkey h
      | value => exact h

/-- What an operation adds is there after it, together with what was there. -/
theorem has_apply_of_adds
    {op : BatchOp}
    {kind : DataKind}
    (h : op.adds = some (key, kind))
    (k : DataKind) :
    (d.apply op).has l k = true ↔ (l = key ∧ k = kind) ∨ d.has l k = true := by
  cases op with
  | pushFront at_ value =>
      obtain ⟨rfl, rfl⟩ := Prod.mk.inj (Option.some.inj h)
      exact d.has_pushFront _ l value k
  | sortedAdd at_ member score =>
      obtain ⟨rfl, rfl⟩ := Prod.mk.inj (Option.some.inj h)
      exact d.has_sortedAdd _ l member score k
  | sortedRemove at_ member => exact absurd h (by simp [BatchOp.adds])

/-- An operation that adds makes a key hold two kinds exactly if it did so before, or
if it holds another kind than the one that is added. -/
theorem mixed_apply_of_adds
    {op : BatchOp}
    {kind : DataKind}
    (h : op.adds = some (key, kind)) :
    (d.apply op).Mixed l ↔ d.Mixed l ∨ op.Mixes d l := by
  constructor
  · intro hmixed
    rcases hmixed.of_added fun k => (has_apply_of_adds h k).1 with
      hmixed | ⟨rfl, other, hne, hother⟩
    · exact Or.inl hmixed
    · exact Or.inr ⟨kind, other, h, hne, hother⟩
  · rintro (hmixed | ⟨k, other, hadds, hne, hother⟩)
    · exact hmixed.of_within fun k hk => (has_apply_of_adds h k).2 (Or.inr hk)
    · exact ⟨k, other, hne, (has_apply_of_adds hadds k).2 (Or.inl ⟨rfl, rfl⟩),
        (has_apply_of_adds hadds other).2 (Or.inr hother)⟩

/-- After one operation a key holds two kinds only if it did so before, or if it held
another kind than the one that the operation adds. -/
theorem mixed_apply
    {op : BatchOp}
    (h : (d.apply op).Mixed l) :
    d.Mixed l ∨ op.Mixes d l := by
  cases op with
  | pushFront key value => exact (mixed_apply_of_adds rfl).1 h
  | sortedAdd key member score => exact (mixed_apply_of_adds rfl).1 h
  | sortedRemove key member => exact Or.inl (h.of_within (d.has_sortedRemove key member))

theorem mixed_applyAll
    (ops : List BatchOp)
    (h : (d.applyAll ops).Mixed l) :
    d.Mixed l ∨
      ∃ before op rest, ops = before ++ op :: rest ∧ op.Mixes (d.applyAll before) l := by
  induction ops generalizing d with
  | nil => exact Or.inl h
  | cons op ops ih =>
      rcases ih (d := d.apply op) h with hmixed | ⟨before, later, rest, rfl, hmixes⟩
      · rcases mixed_apply hmixed with hmixed | hmixes
        · exact Or.inl hmixed
        · exact Or.inr ⟨[], op, ops, rfl, hmixes⟩
      · exact Or.inr ⟨op :: before, later, rest, rfl, hmixes⟩

theorem has_current
    {now : Nat}
    (kind : DataKind)
    (h : (d.current now).has l kind = true) :
    d.has l kind = true := by
  cases kind with
  | list => exact h
  | sortedSet => exact h
  | value =>
      obtain ⟨entry, hentry⟩ := KeyMap.contains_iff.1 h
      rw [get?_current, Option.filter_eq_some_iff] at hentry
      exact KeyMap.contains_iff.2 ⟨entry, hentry.1⟩

theorem has_current_purge
    (d : Data)
    {now : Nat}
    (key : String)
    (kind : DataKind)
    (h : ((d.purge now key).current now).has l kind = true) :
    (d.current now).has l kind = true := by
  rwa [current_purge] at h

theorem has_current_popBack
    (d : Data)
    {now : Nat}
    (key : String)
    (kind : DataKind)
    (h : ((d.popBack key).2.current now).has l kind = true) :
    (d.current now).has l kind = true := by
  refine (d.current now).has_popBack key kind ?_
  rw [popBack_current]
  exact h

/-- No key comes to hold two kinds by the passing of time. -/
theorem mixed_current_of_le
    {now later : Nat}
    (hle : now ≤ later)
    (h : (d.current later).Mixed l) :
    (d.current now).Mixed l := by
  rw [← d.current_current hle] at h
  exact h.of_within has_current

theorem has_put
    (d : Data)
    (key : String)
    (entry : Entry)
    (kind : DataKind) :
    (d.put key entry).has l kind = true ↔
      (l = key ∧ kind = .value) ∨ d.has l kind = true := by
  cases kind with
  | list => simp [has, put]
  | sortedSet => simp [has, put]
  | value => simp [has, put, KeyMap.contains_insert]

/-- A plain value under a key without a list and a sorted set mixes nothing. -/
theorem mixed_put
    (hlist : d.has key .list = false)
    (hsorted : d.has key .sortedSet = false)
    (entry : Entry) :
    (d.put key entry).Mixed l ↔ d.Mixed l := by
  constructor
  · intro h
    rcases h.of_added fun k => (d.has_put key entry k).1 with h | ⟨rfl, other, hne, hother⟩
    · exact h
    · cases other with
      | list => exact absurd hother (by simp [hlist])
      | sortedSet => exact absurd hother (by simp [hsorted])
      | value => exact absurd rfl hne
  · intro h
    exact h.of_within fun k hk => (d.has_put key entry k).2 (Or.inr hk)

theorem has_clear
    (d : Data)
    (key : String)
    (kind : DataKind) :
    (d.clear key).has l kind = true ↔ l ≠ key ∧ d.has l kind = true := by
  cases kind with
  | list => exact d.lists.contains_erase key l
  | sortedSet => exact d.sorted.contains_erase key l
  | value => exact d.values.contains_erase key l

theorem mixed_clear
    (d : Data)
    (key : String) :
    (d.clear key).Mixed l ↔ l ≠ key ∧ d.Mixed l := by
  simp only [Mixed, has_clear]
  constructor
  · rintro ⟨kind, other, hne, ⟨hl, hkind⟩, -, hother⟩
    exact ⟨hl, kind, other, hne, hkind, hother⟩
  · rintro ⟨hl, kind, other, hne, hkind, hother⟩
    exact ⟨kind, other, hne, ⟨hl, hkind⟩, hl, hother⟩

theorem mixed_clearAll
    (d : Data)
    (keys : List String) :
    (d.clearAll keys).2.Mixed l ↔ l ∉ keys ∧ d.Mixed l := by
  induction keys generalizing d with
  | nil => simp [clearAll]
  | cons key keys ih =>
      show ((d.clear key).clearAll keys).2.Mixed l ↔ _
      rw [ih, mixed_clear, List.mem_cons, not_or]
      tauto

/-- Setting a value leaves its key with that value alone. -/
theorem mixed_put_clear
    (d : Data)
    (key : String)
    (entry : Entry) :
    ((d.clear key).put key entry).Mixed l ↔ l ≠ key ∧ d.Mixed l := by
  have hcleared : ∀ kind, (d.clear key).has key kind = false := by
    intro kind
    rw [Bool.eq_false_iff]
    intro hkind
    exact ((d.has_clear key kind).1 hkind).1 rfl
  rw [mixed_put (hcleared _) (hcleared _), mixed_clear]

/-- Counting mixes nothing: it refuses a key with a list or a sorted set. -/
theorem mixed_count
    (d : Data)
    (key : String)
    (amount : Int64) :
    (d.count key amount).2.Mixed l ↔ d.Mixed l := by
  rw [count]
  split
  · exact Iff.rfl
  · next hplain =>
      rw [Bool.or_eq_true, not_or, Bool.not_eq_true, Bool.not_eq_true] at hplain
      obtain ⟨hlist, hsorted⟩ := hplain
      have hput := mixed_put (l := l) hlist hsorted
      simp only
      split
      · exact hput _
      · split
        · -- The second entry takes the place of the first.
          exact (mixed_put (d := d.put key _) hlist hsorted _).trans (hput _)
        · exact hput _

end Data

namespace Memory

/-- Whether a key holds data of a kind, expired values apart. -/
def has (m : Memory) (key : String) (kind : DataKind) : Bool :=
  (m.data.current m.clock).has key kind

/-- A key holds data of two kinds, expired values apart. -/
def Mixed (m : Memory) (key : String) : Prop :=
  (m.data.current m.clock).Mixed key

end Memory

namespace Store.Call

/-- The operations that a call applies to the data as a batch does. -/
def ops : Call → List BatchOp
  | .pushFront key value => [.pushFront key value]
  | .sortedAdd key member score => [.sortedAdd key member score]
  | .executeBatch ops => ops
  | _ => []

/-- A call adds, at some point of its batch, to a key that holds data of another kind. -/
def Mixes (m : Memory) (key : String) (call : Call) : Prop :=
  m.poisoned = false ∧
    ∃ before op rest, call.ops = before ++ op :: rest ∧
      op.Mixes ((m.data.current m.clock).applyAll before) key

end Store.Call

namespace Memory

variable {α : Type} {m : Memory} {key l : String}

/-- A call that adds to the data of one key. -/
theorem mixed_adding
    {f : Data → α × Data}
    (op : BatchOp)
    {kind : DataKind}
    (hf : (f m.data).2 = m.data.apply op)
    (hadds : op.adds = some (key, kind)) :
    (m.useData f).2.Mixed l ↔
      m.Mixed l ∨
        m.poisoned = false ∧ l = key ∧ ∃ other, other ≠ kind ∧ m.has key other = true := by
  cases hlock : m.poisoned with
  | true => simp [useData_of_poisoned hlock]
  | false =>
      have hmixes : op.Mixes (m.data.current m.clock) l ↔
          l = key ∧ ∃ other, other ≠ kind ∧ m.has key other = true := by
        constructor
        · rintro ⟨k, other, hk, hne, hother⟩
          obtain ⟨rfl, rfl⟩ := Prod.mk.inj (Option.some.inj (hadds.symm.trans hk))
          exact ⟨rfl, other, hne, hother⟩
        · rintro ⟨rfl, other, hne, hother⟩
          exact ⟨kind, other, hadds, hne, hother⟩
      rw [useData_of_not_poisoned hlock, and_iff_right rfl, ← hmixes]
      show ((f m.data).2.current m.clock).Mixed l ↔ _
      have hcurrent : (m.data.current m.clock).apply op = (m.data.apply op).current m.clock :=
        m.data.applyAll_current m.clock [op]
      rw [hf, ← hcurrent]
      exact Data.mixed_apply_of_adds hadds

theorem mixed_pushFront
    (m : Memory)
    (key : String)
    (value : Bytes) :
    (m.pushFront key value).2.Mixed l ↔
      m.Mixed l ∨
        m.poisoned = false ∧ l = key ∧ ∃ other, other ≠ .list ∧ m.has key other = true :=
  mixed_adding (.pushFront key value) rfl rfl

theorem mixed_sortedAdd
    (m : Memory)
    (key : String)
    (member : Bytes)
    (score : Binary64) :
    (m.sortedAdd key member score).2.Mixed l ↔
      m.Mixed l ∨
        m.poisoned = false ∧ l = key ∧ ∃ other, other ≠ .sortedSet ∧ m.has key other = true :=
  mixed_adding (.sortedAdd key member score) rfl rfl

/-- A plain value that is set takes the place of all data of its key, even if the call is
then abandoned. -/
theorem mixed_set
    (m : Memory)
    (key : String)
    (value : Bytes)
    (ttl : Option Duration) :
    (m.set key value ttl).2.Mixed l ↔ m.Mixed l ∧ (m.poisoned = true ∨ l ≠ key) := by
  cases hlock : m.poisoned with
  | true => simp [set_of_poisoned hlock]
  | false =>
      have hremoved := m.data.current_remove m.clock key
      rw [set_eq hlock, store_eq, and_comm]
      split
      · show ((m.data.remove m.clock key).2.current m.clock).Mixed l ↔ _
        rw [hremoved, Data.mixed_clear]
        simp [Mixed]
      · show (((m.data.remove m.clock key).2.put key _).current m.clock).Mixed l ↔ _
        rw [Data.current_put (isExpired_expiry value m.clock ttl), hremoved, Data.mixed_put_clear]
        simp [Mixed]

theorem mixed_setIfAbsent
    (m : Memory)
    (key : String)
    (value : Bytes)
    (ttl : Option Duration) :
    (m.setIfAbsent key value ttl).2.Mixed l ↔ m.Mixed l := by
  cases hlock : m.poisoned with
  | true => rw [setIfAbsent_of_poisoned hlock]
  | false =>
      have hpurged := m.data.current_purge m.clock key
      rw [setIfAbsent_eq hlock, store_eq, Data.contains_fst, Data.contains_snd]
      split
      · show ((m.data.purge m.clock key).current m.clock).Mixed l ↔ _
        rw [hpurged]
        exact Iff.rfl
      · next habsent =>
          simp only [Data.holds, Bool.or_eq_true, not_or, Bool.not_eq_true] at habsent
          split
          · show ((m.data.purge m.clock key).current m.clock).Mixed l ↔ _
            rw [hpurged]
            exact Iff.rfl
          · show (((m.data.purge m.clock key).put key _).current m.clock).Mixed l ↔ _
            rw [Data.current_put (isExpired_expiry value m.clock ttl), hpurged]
            exact Data.mixed_put habsent.1.1 habsent.1.2 _

theorem mixed_increment
    (m : Memory)
    (key : String)
    (amount : Int64) :
    (m.increment key amount).2.Mixed l ↔ m.Mixed l := by
  rw [increment]
  cases hlock : m.poisoned with
  | true => rw [onData_of_poisoned hlock]
  | false =>
      have hcount := Data.mixed_count (l := l) (m.data.current m.clock) key amount
      rw [Data.count_current] at hcount
      rw [onData_of_not_poisoned hlock]
      exact hcount

theorem mixed_delete
    (m : Memory)
    (keys : List String) :
    (m.delete keys).2.Mixed l ↔ m.Mixed l ∧ (m.poisoned = true ∨ l ∉ keys) := by
  rw [delete]
  cases hlock : m.poisoned with
  | true => simp [useData_of_poisoned hlock]
  | false =>
      rw [useData_of_not_poisoned hlock]
      show ((m.data.removeAll m.clock keys).2.current m.clock).Mixed l ↔ _
      rw [(m.data.removeAll_eq m.clock keys).2, Data.mixed_clearAll, and_comm]
      simp [Mixed]

/-- A call on the data without the values that have expired adds nothing to a key. -/
theorem mixed_of_mixed_useData
    {f : Data → α × Data}
    (hf : ∀ kind, ((f m.data).2.current m.clock).has l kind = true → m.has l kind = true)
    (h : (m.useData f).2.Mixed l) :
    m.Mixed l := by
  cases hlock : m.poisoned with
  | true => rwa [useData_of_poisoned hlock] at h
  | false =>
      rw [useData_of_not_poisoned hlock] at h
      exact h.of_within hf

theorem mixed_of_mixed_blockingPopBack
    (m : Memory)
    (key : String)
    (wait : Duration)
    (h : (m.blockingPopBack key wait).2.Mixed l) :
    m.Mixed l := by
  cases hlock : m.poisoned with
  | true => rwa [blockingPopBack_of_poisoned hlock] at h
  | false =>
      cases hd : deadline? m.clock wait with
      | none => rwa [blockingPopBack_overflow hd] at h
      | some deadline =>
          rw [blockingPopBack_eq hlock hd] at h
          have hle : m.clock ≤ if m.data.list key = [] then max m.clock deadline else m.clock := by
            split
            · exact Nat.le_max_left _ _
            · exact Nat.le_refl _
          exact (Data.mixed_current_of_le hle h).of_within (m.data.has_current_popBack key)

theorem mixed_of_mixed_nextMessage
    (m : Memory)
    (id : SubscriberId)
    (wait : Duration)
    (h : (m.nextMessage id wait).2.Mixed l) :
    m.Mixed l := by
  rw [nextMessage] at h
  split at h
  · exact Data.mixed_current_of_le (Nat.le_add_right _ _) h
  · exact h

theorem mixed_of_mixed_executeBatch
    (m : Memory)
    (ops : List BatchOp)
    (h : (m.executeBatch ops).2.Mixed l) :
    m.Mixed l ∨ (Store.Call.executeBatch ops).Mixes m l := by
  rw [executeBatch] at h
  cases hlock : m.poisoned with
  | true =>
      rw [useData_of_poisoned hlock] at h
      exact Or.inl h
  | false =>
      rw [useData_of_not_poisoned hlock] at h
      have happlied : ((m.data.current m.clock).applyAll ops).Mixed l := by
        rw [Data.applyAll_current]
        exact h
      exact (Data.mixed_applyAll ops happlied).imp_right fun hmixes => ⟨hlock, hmixes⟩

/-- **A call.**  After it a key holds two kinds of data only if it did so before, or if
the call added to it while it held another kind. -/
theorem mixed_perform
    (m : Memory)
    (call : Store.Call)
    (h : (m.perform call).2.Mixed l) :
    m.Mixed l ∨ call.Mixes m l := by
  cases call
  all_goals simp only [perform] at h
  case pushFront key value =>
    refine ((m.mixed_pushFront key value).1 h).imp_right ?_
    rintro ⟨hlock, rfl, other, hne, hother⟩
    exact ⟨hlock, [], _, [], rfl, .list, other, rfl, hne, hother⟩
  case sortedAdd key member score =>
    refine ((m.mixed_sortedAdd key member score).1 h).imp_right ?_
    rintro ⟨hlock, rfl, other, hne, hother⟩
    exact ⟨hlock, [], _, [], rfl, .sortedSet, other, rfl, hne, hother⟩
  case executeBatch ops => exact m.mixed_of_mixed_executeBatch ops h
  all_goals refine Or.inl ?_
  case popBack key =>
    exact mixed_of_mixed_useData (m.data.has_current_popBack key) h
  case sortedRemove key member =>
    refine mixed_of_mixed_useData (fun kind hkind => ?_) h
    refine (m.data.current m.clock).has_sortedRemove key member kind ?_
    rw [Data.sortedRemove_current]
    exact hkind
  case blockingPopBack key wait => exact m.mixed_of_mixed_blockingPopBack key wait h
  case nextMessage id wait => exact m.mixed_of_mixed_nextMessage id wait h
  case delete keys => exact ((m.mixed_delete keys).1 h).1
  case set key value ttl => exact ((m.mixed_set key value ttl).1 h).1
  case setIfAbsent key value ttl => exact (m.mixed_setIfAbsent key value ttl).1 h
  case increment key amount => exact (m.mixed_increment key amount).1 h
  case get key => exact mixed_of_mixed_useData (m.data.has_current_purge key) h
  case contains key => exact mixed_of_mixed_useData (m.data.has_current_purge key) h
  case listLen key => exact mixed_of_mixed_useData (fun _ => id) h
  case sortedLen key => exact mixed_of_mixed_useData (fun _ => id) h
  case rangeByScore key min max => exact mixed_of_mixed_useData (fun _ => id) h
  case keysMatching pattern => exact mixed_of_mixed_useData (fun _ => id) h
  all_goals exact h

theorem mixed_step
    (m : Memory)
    (move : Store.Move)
    (h : (m.step move).Mixed l) :
    m.Mixed l ∨ ∃ call, move = .call call ∧ call.Mixes m l := by
  cases move with
  | call call => exact (m.mixed_perform call h).imp_right fun hmixes => ⟨call, rfl, hmixes⟩
  | release id => exact Or.inl h
  | pass time => exact Or.inl (Data.mixed_current_of_le (Nat.le_add_right _ _) h)

theorem not_mixed_empty
    (now : Nat)
    (key : String) :
    ¬ (empty now).Mixed key := by
  rintro ⟨kind, other, -, hkind, -⟩
  have hempty : Data.empty.has key kind = true := Data.has_current kind hkind
  cases kind with
  | list => exact Bool.false_ne_true hempty
  | sortedSet => exact Bool.false_ne_true hempty
  | value => exact Bool.false_ne_true hempty

end Memory

namespace Store

/-- **A run.**  A key holds two kinds of data after a run exactly if some call added to
it while it held another kind, and it has held two kinds ever since. -/
theorem mixed_after
    (now : Nat)
    (moves : List Move)
    (key : String) :
    (Memory.after now moves).Mixed key ↔
      ∃ before call rest, moves = before ++ .call call :: rest ∧
        call.Mixes (Memory.after now before) key ∧
        ∀ part, part <+: rest → (Memory.after now (before ++ .call call :: part)).Mixed key := by
  constructor
  · induction moves using List.reverseRecOn with
    | nil => exact fun h => absurd h (Memory.not_mixed_empty now key)
    | append_singleton moves move ih =>
        intro h
        have hstep := h
        rw [Memory.after_concat] at hstep
        rcases (Memory.after now moves).mixed_step move hstep with hmixed | ⟨call, rfl, hmixes⟩
        · obtain ⟨before, call, rest, rfl, hmixes, hsince⟩ := ih hmixed
          refine ⟨before, call, rest ++ [move], by simp, hmixes, fun part hpart => ?_⟩
          rcases List.prefix_concat_iff.1 hpart with rfl | hpart
          · simpa using h
          · exact hsince part hpart
        · refine ⟨moves, call, [], rfl, hmixes, fun part hpart => ?_⟩
          obtain rfl := List.prefix_nil.1 hpart
          exact h
  · rintro ⟨before, call, rest, rfl, -, hsince⟩
    exact hsince rest (List.prefix_refl rest)

/-- **A key holds two kinds of data only by pushing to a list or adding to a sorted set.**
After every run a key is in two of the lists, the sorted sets and the plain values that
have not expired exactly if a call pushed to its list or added to its sorted set, alone or
in a batch, while it held another kind of data, and it has held two kinds ever since.
Pushing to a list and adding to a sorted set do so to every key that holds another kind.
Setting a value where there is none and counting mix no key, setting a value leaves its
key with that value alone, and removing keys leaves nothing under them; only where the
data cannot be locked all stays as it is. -/
theorem mixed_only_by_adding
    (now : Nat)
    (moves : List Move) :
    let m := Memory.after now moves
    (∀ key, m.Mixed key ↔
      ∃ before call rest, moves = before ++ .call call :: rest ∧
        call.Mixes (Memory.after now before) key ∧
        ∀ part, part <+: rest → (Memory.after now (before ++ .call call :: part)).Mixed key) ∧
    (∀ key value l, (m.pushFront key value).2.Mixed l ↔
      m.Mixed l ∨
        m.poisoned = false ∧ l = key ∧ ∃ other, other ≠ .list ∧ m.has key other = true) ∧
    (∀ key member score l, (m.sortedAdd key member score).2.Mixed l ↔
      m.Mixed l ∨
        m.poisoned = false ∧ l = key ∧ ∃ other, other ≠ .sortedSet ∧ m.has key other = true) ∧
    (∀ key value ttl l, (m.set key value ttl).2.Mixed l ↔
      m.Mixed l ∧ (m.poisoned = true ∨ l ≠ key)) ∧
    (∀ key value ttl l, (m.setIfAbsent key value ttl).2.Mixed l ↔ m.Mixed l) ∧
    (∀ key amount l, (m.increment key amount).2.Mixed l ↔ m.Mixed l) ∧
    ∀ keys l, (m.delete keys).2.Mixed l ↔ m.Mixed l ∧ (m.poisoned = true ∨ l ∉ keys) := by
  intro m
  exact ⟨mixed_after now moves, fun key value l => m.mixed_pushFront key value,
    fun key member score l => m.mixed_sortedAdd key member score,
    fun key value ttl l => m.mixed_set key value ttl,
    fun key value ttl l => m.mixed_setIfAbsent key value ttl,
    fun key amount l => m.mixed_increment key amount,
    fun keys l => m.mixed_delete keys⟩

/-- A plain value and a list are kept under one key, and both calls succeed. -/
theorem list_beside_value :
    let m := Memory.after 0 [.call (.set "k" [0x76] none), .call (.pushFront "k" [0x78])]
    m.Mixed "k" ∧
      ((Memory.after 0 [.call (.set "k" [0x76] none)]).pushFront "k" [0x78]).1 = .ok 1 ∧
      (m.get "k").1 = .ok (some [0x76]) ∧
      (m.popBack "k").1 = .ok (some [0x78]) :=
  ⟨⟨.list, .value, by decide, by decide, by decide⟩, by decide, by decide, by decide⟩

end Store
end Courier
