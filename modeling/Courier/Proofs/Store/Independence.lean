import Courier.Proofs.Store.Existence
import Courier.Proofs.Store.Locking

/-!
# Calls that name different keys

What the three maps hold under a key is the slot of that key, and data are known from
their slots.  An operation stays within some keys if it changes no slot of another key,
and if neither its answer nor what it leaves in the slots of these keys depends on the
others.  Operations that stay within disjoint keys can be exchanged.  Every call on the
data stays within the keys that it names, apart from the listing of keys; but a call that
is abandoned while it holds the data makes the store refuse every later call, whatever
keys that one names.

**Results.**
* `Data.Slot`, `Data.under`, `Data.ext_under`: what is kept under a key.
* `Data.under_purge` and so on: the slots after an operation.
* `Data.Within`, `Data.Within.exchange`: operations that stay within keys.
* `Call.keys`, `Memory.actsWithin`: the keys that a call names, which it stays within.
* `Call.under_perform`: a call leaves the slots of other keys alone.
* `independent_unless_abandoned`: when calls that name different keys can be exchanged.
* `long_life_felt_elsewhere`: calls that name different keys and cannot.
-/

namespace Courier

namespace Data

/-- What the three maps hold under a key. -/
structure Slot where
  list : Option (List Bytes)
  sorted : Option SortedSet
  value : Option Entry

/-- The slot of a key. -/
def under (d : Data) (key : String) : Slot :=
  ⟨d.lists.get? key, d.sorted.get? key, d.values.get? key⟩

namespace Slot

/-- A slot that holds nothing. -/
def empty : Slot := ⟨none, none, none⟩

/-- A slot without its plain value if that has expired. -/
def fresh (s : Slot) (now : Nat) : Slot :=
  { s with value := s.value.filter fun e => !e.isExpired now }

/-- Whether a slot holds something of any kind. -/
def occupied (s : Slot) : Bool :=
  s.list.isSome || s.sorted.isSome || s.value.isSome

/-- The slot after a value has been taken from the back of its list. -/
def popped (s : Slot) : Slot :=
  { s with list := s.list.bind fun vs => if vs.dropLast = [] then none else some vs.dropLast }

/-- The slot after a member has been removed from its sorted set. -/
def without (s : Slot) (member : Bytes) : Slot :=
  { s with
    sorted := s.sorted.bind fun es =>
      if es.remove member = [] then none else some (es.remove member) }

end Slot

/-- Data are known from their slots. -/
theorem ext_under
    {d e : Data}
    (h : ∀ key, d.under key = e.under key) :
    d = e := by
  have hlists : d.lists = e.lists := KeyMap.ext_get? fun key => congrArg Slot.list (h key)
  have hsorted : d.sorted = e.sorted := KeyMap.ext_get? fun key => congrArg Slot.sorted (h key)
  exact ext_values hlists hsorted fun key => congrArg Slot.value (h key)

section Slots

variable (d : Data) (key l : String)

theorem under_pushFront
    (value : Bytes) :
    (d.pushFront key value).under l =
      if key = l then { d.under l with list := some (value :: d.list l) } else d.under l := by
  simp only [under, pushFront, KeyMap.get?_insert]
  split
  · next h => rw [h]
  · rfl

theorem under_popBack :
    (d.popBack key).2.under l = if key = l then (d.under l).popped else d.under l := by
  rw [popBack]
  split
  · next hget =>
      split
      · next h => rw [under, Slot.popped, ← h, hget, Option.bind_none]
      · rfl
  · next vs hget =>
      simp only [under, Slot.popped, KeyMap.get?_set]
      split
      · next h => rw [← h, hget, Option.bind_some]
      · rfl

theorem under_sortedAdd
    (member : Bytes)
    (score : Binary64) :
    (d.sortedAdd key member score).under l =
      if key = l then { d.under l with sorted := some ((d.sortedSet l).add member score) }
      else d.under l := by
  simp only [under, sortedAdd, KeyMap.get?_insert]
  split
  · next h => rw [h]
  · rfl

theorem under_sortedRemove
    (member : Bytes) :
    (d.sortedRemove key member).2.under l =
      if key = l then (d.under l).without member else d.under l := by
  rw [sortedRemove]
  split
  · next hget =>
      split
      · next h => rw [under, Slot.without, ← h, hget, Option.bind_none]
      · rfl
  · next s hget =>
      simp only [under, Slot.without, KeyMap.get?_set]
      split
      · next h => rw [← h, hget, Option.bind_some]
      · rfl

theorem under_purge
    (now : Nat) :
    (d.purge now key).under l = if key = l then (d.under l).fresh now else d.under l := by
  simp only [under, lists_purge, sorted_purge, Slot.fresh]
  split
  · next h => rw [← h, get?_purge, get?_current]
  · next h =>
      rw [purge]
      cases d.values.get? key with
      | none => rfl
      | some e =>
          cases he : e.isExpired now with
          | false => simp [he]
          | true => simp [he, KeyMap.get?_erase, h]

theorem under_clear :
    (d.clear key).under l = if key = l then .empty else d.under l := by
  simp only [under, clear, KeyMap.get?_erase]
  split
  · rfl
  · rfl

theorem under_put
    (e : Entry) :
    (d.put key e).under l = if key = l then { d.under l with value := some e } else d.under l := by
  simp only [under, put, KeyMap.get?_insert]
  split
  · rfl
  · rfl

theorem under_remove
    (now : Nat) :
    (d.remove now key).2.under l = if key = l then .empty else d.under l := by
  rw [remove_snd, under_clear, under_purge]
  split
  · rfl
  · rfl

end Slots

/-- Data hold the same under some keys. -/
def AgreesOn (keys : List String) (d e : Data) : Prop :=
  ∀ key ∈ keys, d.under key = e.under key

/-- An operation changes nothing under other keys than some, and neither its answer nor
what it leaves under these depends on the others. -/
structure Within {α : Type} (keys : List String) (f : Data → α × Data) : Prop where
  elsewhere : ∀ d key, key ∉ keys → (f d).2.under key = d.under key
  answer : ∀ d e, AgreesOn keys d e → (f d).1 = (f e).1
  inside : ∀ d e, AgreesOn keys d e → AgreesOn keys (f d).2 (f e).2

namespace Within

variable {α β : Type} {keys others : List String} {f : Data → α × Data} {g : Data → β × Data}

/-- An operation that answers from one slot and changes it alone. -/
theorem of_slot
    {key : String}
    (answer : Slot → α)
    (change : Slot → Slot)
    (hanswer : ∀ d, (f d).1 = answer (d.under key))
    (hchange : ∀ d l, (f d).2.under l = if key = l then change (d.under l) else d.under l) :
    Within [key] f where
  elsewhere d l hl := by
    rw [hchange, if_neg (fun h => hl (List.mem_singleton.2 h.symm))]
  answer d e h := by
    rw [hanswer, hanswer, h key (List.mem_singleton.2 rfl)]
  inside d e h l hl := by
    rw [hchange, hchange, h l hl]

/-- An operation that only looks at one slot. -/
theorem look
    (key : String)
    (answer : Slot → α) :
    Within [key] fun d => (answer (d.under key), d) :=
  of_slot answer id (fun _ => rfl) fun _ _ => (ite_self _).symm

theorem mono
    (hf : Within keys f)
    (hsubset : keys ⊆ others) :
    Within others f where
  elsewhere d key hkey := hf.elsewhere d key fun h => hkey (hsubset h)
  answer d e h := hf.answer d e fun key hkey => h key (hsubset hkey)
  inside d e h key hkey := by
    by_cases hin : key ∈ keys
    · exact hf.inside d e (fun l hl => h l (hsubset hl)) key hin
    · rw [hf.elsewhere d key hin, hf.elsewhere e key hin, h key hkey]

/-- An operation that has nothing to do. -/
theorem nothing
    (keys : List String)
    (a : α) :
    Within keys fun d => (a, d) where
  elsewhere _ _ _ := rfl
  answer _ _ _ := rfl
  inside _ _ h := h

/-- Operations one after the other, the second one knowing the answer of the first. -/
theorem bind
    {h : α → Data → β × Data}
    (hf : Within keys f)
    (hh : ∀ a, Within keys (h a)) :
    Within keys fun d => h (f d).1 (f d).2 where
  elsewhere d key hkey := by
    rw [(hh _).elsewhere _ key hkey, hf.elsewhere d key hkey]
  answer d e hde := by
    rw [hf.answer d e hde]
    exact (hh _).answer _ _ (hf.inside d e hde)
  inside d e hde := by
    rw [hf.answer d e hde]
    exact (hh _).inside _ _ (hf.inside d e hde)

theorem map
    (hf : Within keys f)
    (h : α → β) :
    Within keys fun d => (h (f d).1, (f d).2) :=
  hf.bind fun a => nothing keys (h a)

/-- An operation that depends on something that the slots of its keys tell. -/
theorem read
    {r : Data → β}
    {h : β → Data → α × Data}
    (hr : ∀ d e, AgreesOn keys d e → r d = r e)
    (hh : ∀ b, Within keys (h b)) :
    Within keys fun d => h (r d) d where
  elsewhere d key hkey := (hh _).elsewhere d key hkey
  answer d e hde := by
    rw [hr d e hde]
    exact (hh _).answer d e hde
  inside d e hde := by
    rw [hr d e hde]
    exact (hh _).inside d e hde

/-- **Operations that stay within disjoint keys can be exchanged.**  Each answers what it
answers when it comes first, and they leave the same data in either order. -/
theorem exchange
    (hf : Within keys f)
    (hg : Within others g)
    (hdisjoint : ∀ key ∈ keys, key ∉ others)
    (d : Data) :
    (f (g d).2).1 = (f d).1 ∧ (g (f d).2).1 = (g d).1 ∧ (g (f d).2).2 = (f (g d).2).2 := by
  have hkeys : AgreesOn keys (g d).2 d := fun key hkey => hg.elsewhere d key (hdisjoint key hkey)
  have hothers : AgreesOn others (f d).2 d := fun key hkey =>
    hf.elsewhere d key fun h => hdisjoint key h hkey
  refine ⟨hf.answer _ _ hkeys, hg.answer _ _ hothers, ext_under fun key => ?_⟩
  by_cases hin : key ∈ keys
  · rw [hg.elsewhere _ key (hdisjoint key hin), hf.inside _ _ hkeys key hin]
  · rw [hf.elsewhere _ key hin]
    by_cases hother : key ∈ others
    · exact hg.inside _ _ hothers key hother
    · rw [hg.elsewhere _ key hother, hg.elsewhere _ key hother, hf.elsewhere d key hin]

end Within

section Operations

variable (key : String) (now : Nat)

theorem within_pushFront
    (value : Bytes) :
    Within [key] fun d => (((d.pushFront key value).list key).length, d.pushFront key value) :=
  Within.of_slot (fun s => (value :: s.list.getD []).length)
    (fun s => { s with list := some (value :: s.list.getD []) })
    (fun d => congrArg List.length ((d.list_pushFront key key value).trans (if_pos rfl)))
    fun d l => d.under_pushFront key l value

theorem within_popBack :
    Within [key] fun d => d.popBack key :=
  Within.of_slot (fun s => (s.list.getD []).getLast?) Slot.popped
    (fun d => d.popBack_fst key) fun d l => d.under_popBack key l

theorem within_sortedAdd
    (member : Bytes)
    (score : Binary64) :
    Within [key] fun d => ((), d.sortedAdd key member score) :=
  Within.of_slot (fun _ => ())
    (fun s => { s with sorted := some ((s.sorted.getD []).add member score) })
    (fun _ => rfl) fun d l => d.under_sortedAdd key l member score

theorem within_sortedRemove
    (member : Bytes) :
    Within [key] fun d => d.sortedRemove key member := by
  refine Within.of_slot
    (fun s => s.sorted.any fun es => decide ((es.remove member).length ≠ es.length))
    (Slot.without · member) (fun d => ?_) fun d l => d.under_sortedRemove key l member
  rw [sortedRemove]
  split
  · next hget => rw [under, hget, Option.any_none]
  · next s hget => rw [under, hget, Option.any_some]

theorem within_purge :
    Within [key] fun d => ((), d.purge now key) :=
  Within.of_slot (fun _ => ()) (Slot.fresh · now) (fun _ => rfl) fun d l => d.under_purge key l now

/-- The slot of a key after a purge of the same key. -/
theorem under_purge_self
    (d : Data) :
    (d.purge now key).under key = (d.under key).fresh now :=
  (d.under_purge key key now).trans (if_pos rfl)

theorem within_contains :
    Within [key] fun d => d.contains now key :=
  Within.of_slot (fun s => (s.fresh now).occupied) (Slot.fresh · now)
    (fun d => congrArg Slot.occupied (under_purge_self key now d))
    fun d l => d.under_purge key l now

theorem within_remove :
    Within [key] fun d => d.remove now key :=
  Within.of_slot (fun s => (s.fresh now).occupied) (fun _ => .empty)
    (fun d => congrArg Slot.occupied (under_purge_self key now d))
    fun d l => d.under_remove key l now

theorem within_get :
    Within [key] fun d => d.get now key :=
  Within.of_slot (fun s => (s.fresh now).value.map Entry.value) (Slot.fresh · now)
    (fun d => congrArg (fun s : Slot => s.value.map Entry.value) (under_purge_self key now d))
    fun d l => d.under_purge key l now

theorem within_put
    {α : Type}
    (e : Entry)
    (a : α) :
    Within [key] fun d => (a, d.put key e) :=
  Within.of_slot (fun _ => a) (fun s => { s with value := some e }) (fun _ => rfl)
    fun d l => d.under_put key l e

theorem within_removeAll
    (keys : List String) :
    Within keys fun d => d.removeAll now keys := by
  induction keys with
  | nil => exact Within.nothing [] 0
  | cons k ks ih =>
      have hfirst : Within (k :: ks) fun d => d.remove now k := (within_remove k now).mono (by simp)
      exact hfirst.bind fun existed =>
        (ih.mono (List.subset_cons_self k ks)).map fun n => n + (if existed then 1 else 0)

end Operations

end Data

/-- The key that an operation of a batch is about. -/
def BatchOp.key : BatchOp → String
  | .pushFront key _ => key
  | .sortedAdd key _ _ => key
  | .sortedRemove key _ => key

namespace Data

theorem within_apply
    (op : BatchOp) :
    Within [op.key] fun d => ((), d.apply op) := by
  cases op with
  | pushFront key value => exact (within_pushFront key value).map fun _ => ()
  | sortedAdd key member score => exact within_sortedAdd key member score
  | sortedRemove key member => exact (within_sortedRemove key member).map fun _ => ()

theorem within_applyAll
    (ops : List BatchOp) :
    Within (ops.map BatchOp.key) fun d => ((), d.applyAll ops) := by
  induction ops with
  | nil => exact Within.nothing [] ()
  | cons op ops ih =>
      have hfirst : Within ((op :: ops).map BatchOp.key) fun d => ((), d.apply op) :=
        (within_apply op).mono (by simp)
      exact hfirst.bind fun _ => ih.mono (by simp)

/-- What counting does once it is settled whether the key holds something else, and what
its counter is. -/
def countFrom (key : String) (amount : Int64) (seen : Bool × Entry) (d : Data) :
    Except StoreError Int64 × Data :=
  if seen.1 then (.error (notInteger key), d)
  else
    match counter? seen.2.value with
    | none => (.error (notInteger key), d.put key seen.2)
    | some n =>
        let next := n + amount.toInt
        if Numeral.minInt64 ≤ next ∧ next ≤ Numeral.maxInt64 then
          (.ok (Int64.ofInt next), (d.put key seen.2).put key
            { seen.2 with value := Bytes.ofAscii (toString next) })
        else (.error (.command "increment would overflow"), d.put key seen.2)

theorem within_countFrom
    (key : String)
    (amount : Int64)
    (seen : Bool × Entry) :
    Within [key] (countFrom key amount seen) := by
  obtain ⟨other, entry⟩ := seen
  cases other with
  | true => exact Within.nothing [key] _
  | false =>
      unfold countFrom
      cases counter? entry.value with
      | none =>
          simp only [Bool.false_eq_true, if_false]
          exact within_put key entry _
      | some n =>
          simp only [Bool.false_eq_true, if_false]
          split
          · exact (within_put key entry ()).bind fun _ => within_put key _ _
          · exact within_put key entry _

theorem within_count
    (key : String)
    (amount : Int64) :
    Within [key] fun d => d.count key amount := by
  refine Within.read (h := countFrom key amount)
    (r := fun d => (d.lists.contains key || d.sorted.contains key, d.counterEntry key)) ?_
    (within_countFrom key amount)
  intro d e h
  have hkey := h key (List.mem_singleton.2 rfl)
  have hlists : d.lists.get? key = e.lists.get? key := congrArg Slot.list hkey
  have hsorted : d.sorted.get? key = e.sorted.get? key := congrArg Slot.sorted hkey
  have hvalues : d.values.get? key = e.values.get? key := congrArg Slot.value hkey
  simp only [KeyMap.contains, counterEntry, hlists, hsorted, hvalues]

theorem within_increment
    (key : String)
    (now : Nat)
    (amount : Int64) :
    Within [key] fun d => d.increment now key amount :=
  (within_purge key now).bind fun _ => within_count key amount

end Data

namespace Store
namespace Call

/-- The keys that a call on the data names. -/
def keys : Call → List String
  | .pushFront key _ | .popBack key | .blockingPopBack key _ | .listLen key
  | .sortedAdd key _ _ | .rangeByScore key _ _ | .sortedRemove key _ | .sortedLen key
  | .set key _ _ | .setIfAbsent key _ _ | .get key | .contains key | .increment key _ => [key]
  | .delete keys => keys
  | .executeBatch ops => ops.map BatchOp.key
  | _ => []

/-- A call on the data that looks only at the keys that it names, which is every one but
the listing of keys. -/
def Named (call : Call) : Prop :=
  call.OnData ∧ ∀ pattern, call ≠ .keysMatching pattern

end Call
end Store

namespace Memory

/-- A call at an instant: the clock has its reading of before when the next one comes. -/
def atOnce (m : Memory) (call : Store.Call) : Except StoreError call.Result × Memory :=
  ((m.perform call).1, { (m.perform call).2 with clock := m.clock })

/-- Two calls at one instant can be exchanged: each answers the same whether it comes
first or second, and they leave the same store. -/
def Exchangeable (m : Memory) (a b : Store.Call) : Prop :=
  ((m.atOnce b).2.atOnce a).1 = (m.atOnce a).1 ∧
    ((m.atOnce a).2.atOnce b).1 = (m.atOnce b).1 ∧
    ((m.atOnce a).2.atOnce b).2 = ((m.atOnce b).2.atOnce a).2

variable {m : Memory}

theorem Exchangeable.symm
    {a b : Store.Call}
    (h : m.Exchangeable a b) :
    m.Exchangeable b a :=
  ⟨h.2.1, h.1, h.2.2.symm⟩

section Effect

variable (now : Nat)

/-- A call is an operation that stays within some keys, where it can lock the data and is
not abandoned while it holds them. -/
def ActsWithin (call : Store.Call) : Prop :=
  ∃ f : Data → Except StoreError call.Result × Data, Data.Within call.keys f ∧
    ∀ m : Memory, m.poisoned = false → m.clock = now → ¬ call.Breaks m →
      m.atOnce call = ((f m.data).1, { m with data := (f m.data).2 })

variable {now}

theorem actsWithin_of_onData
    {call : Store.Call}
    {f : Data → Except StoreError call.Result × Data}
    (hf : Data.Within call.keys f)
    (hperform : ∀ m : Memory, m.clock = now → m.perform call = m.onData f) :
    ActsWithin now call := by
  refine ⟨f, hf, fun m hlock hclock _ => ?_⟩
  rw [atOnce, hperform m hclock, onData_of_not_poisoned hlock]

theorem actsWithin_of_useData
    {call : Store.Call}
    {f : Data → call.Result × Data}
    (hf : Data.Within call.keys f)
    (hperform : ∀ m : Memory, m.clock = now → m.perform call = m.useData f) :
    ActsWithin now call :=
  actsWithin_of_onData (hf.map Except.ok) hperform

theorem actsWithin_blockingPopBack
    (key : String)
    (wait : Duration) :
    ActsWithin now (.blockingPopBack key wait) := by
  by_cases hwait : wait.Beyond now
  · refine ⟨_, Data.Within.nothing [key] (.error .deadlineOverflow), ?_⟩
    rintro m hlock rfl -
    rw [atOnce, perform, blockingPopBack_overflow (deadline?_of_beyond hwait)]
  · refine ⟨_, (Data.within_popBack key).map Except.ok, ?_⟩
    rintro m hlock rfl -
    rw [atOnce, perform, blockingPopBack_eq hlock (deadline?_of_not_beyond hwait),
      Data.popBack_fst]

theorem actsWithin_set
    (key : String)
    (value : Bytes)
    (ttl : Option Duration) :
    ActsWithin now (.set key value ttl) := by
  refine ⟨_, (Data.within_remove key now).bind fun _ =>
    Data.within_put key ⟨value, expiry now ttl⟩ (.ok ()), ?_⟩
  rintro m hlock rfl hbreaks
  rw [atOnce, perform, set_eq hlock, store_eq, if_neg fun h => hbreaks ⟨hlock, h⟩]
  rfl

theorem actsWithin_setIfAbsent
    (key : String)
    (value : Bytes)
    (ttl : Option Duration) :
    ActsWithin now (.setIfAbsent key value ttl) := by
  let finish (there : Bool) (d : Data) : Except StoreError Bool × Data :=
    if there then (.ok false, d) else (.ok true, d.put key ⟨value, expiry now ttl⟩)
  have hfinish : ∀ there, Data.Within [key] (finish there) := by
    intro there
    cases there with
    | true => exact Data.Within.nothing [key] _
    | false => exact Data.within_put key _ _
  refine ⟨_, (Data.within_contains key now).bind hfinish, ?_⟩
  rintro m hlock rfl hbreaks
  rw [atOnce, perform, setIfAbsent_eq hlock]
  cases hthere : (m.data.contains m.clock key).1 with
  | true => rfl
  | false =>
      rw [store_eq, if_neg fun h => hbreaks ⟨hlock, hthere, h⟩]
      rfl

/-- **Every call stays within the keys that it names**, apart from the listing of keys. -/
theorem actsWithin
    (now : Nat)
    {call : Store.Call}
    (h : call.Named) :
    ActsWithin now call := by
  obtain ⟨hdata, hlisting⟩ := h
  cases call
  case pushFront key value =>
    exact actsWithin_of_useData (Data.within_pushFront key value) fun _ _ => rfl
  case popBack key => exact actsWithin_of_useData (Data.within_popBack key) fun _ _ => rfl
  case blockingPopBack key wait => exact actsWithin_blockingPopBack key wait
  case listLen key =>
    exact actsWithin_of_useData
      (Data.Within.look key fun s => (s.list.getD []).length) fun _ _ => rfl
  case delete keys =>
    exact actsWithin_of_useData (Data.within_removeAll now keys) fun m hclock => hclock ▸ rfl
  case sortedAdd key member score =>
    exact actsWithin_of_useData (Data.within_sortedAdd key member score) fun _ _ => rfl
  case rangeByScore key min max =>
    exact actsWithin_of_useData
      (Data.Within.look key fun s => (s.sorted.getD []).range min max) fun _ _ => rfl
  case sortedRemove key member =>
    exact actsWithin_of_useData (Data.within_sortedRemove key member) fun _ _ => rfl
  case sortedLen key =>
    exact actsWithin_of_useData
      (Data.Within.look key fun s => (s.sorted.getD []).length) fun _ _ => rfl
  case executeBatch ops =>
    exact actsWithin_of_useData (Data.within_applyAll ops) fun _ _ => rfl
  case set key value ttl => exact actsWithin_set key value ttl
  case setIfAbsent key value ttl => exact actsWithin_setIfAbsent key value ttl
  case get key =>
    exact actsWithin_of_useData (Data.within_get key now) fun m hclock => hclock ▸ rfl
  case contains key =>
    exact actsWithin_of_useData (Data.within_contains key now) fun m hclock => hclock ▸ rfl
  case increment key amount =>
    exact actsWithin_of_onData (Data.within_increment key now amount) fun m hclock => hclock ▸ rfl
  case keysMatching pattern => exact absurd rfl (hlisting pattern)
  all_goals exact absurd hdata id

end Effect

theorem clock_onData
    {α : Type}
    (m : Memory)
    (f : Data → Except StoreError α × Data) :
    (m.onData f).2.clock = m.clock := by
  cases h : m.poisoned with
  | true => rw [onData_of_poisoned h]
  | false => rw [onData_of_not_poisoned h]

section Refused

variable {call : Store.Call} (hdata : call.OnData)
include hdata

/-- Where the data cannot be locked, a call on them changes nothing. -/
theorem perform_of_poisoned
    (h : m.poisoned = true) :
    (m.perform call).2 = m := by
  cases call
  case blockingPopBack key wait => exact congrArg Prod.snd (blockingPopBack_of_poisoned h key wait)
  case set key value ttl => exact congrArg Prod.snd (set_of_poisoned h key value ttl)
  case setIfAbsent key value ttl =>
    exact congrArg Prod.snd (setIfAbsent_of_poisoned h key value ttl)
  case increment key amount => exact congrArg Prod.snd (onData_of_poisoned h _)
  case publish | subscriber | subscribe | psubscribe | unsubscribe | punsubscribe | nextMessage =>
    exact absurd hdata id
  all_goals exact congrArg Prod.snd (useData_of_poisoned h _)

/-- Time passes only for a pop that finds nothing to take. -/
theorem clock_perform
    (m : Memory) :
    (m.perform call).2.clock = m.clock ∨
      ∃ key wait, call = .blockingPopBack key wait ∧ m.data.list key = [] := by
  cases h : m.poisoned with
  | true => exact .inl (congrArg clock (perform_of_poisoned hdata h))
  | false =>
      cases call
      case blockingPopBack key wait =>
        by_cases hlist : m.data.list key = []
        · exact .inr ⟨key, wait, rfl, hlist⟩
        · left
          rw [perform]
          cases hd : deadline? m.clock wait with
          | none => rw [blockingPopBack_overflow hd]
          | some deadline => simp only [blockingPopBack_eq h hd, if_neg hlist]
      case set key value ttl =>
        left
        rw [perform, set_eq h, store_eq]
        split
        · rfl
        · rfl
      case setIfAbsent key value ttl =>
        left
        rw [perform, setIfAbsent_eq h, store_eq]
        split
        · rfl
        · split
          · rfl
          · rfl
      case increment key amount => exact .inl (m.clock_onData _)
      case publish | subscriber | subscribe | psubscribe | unsubscribe | punsubscribe
          | nextMessage =>
        exact absurd hdata id
      all_goals exact .inl (m.clock_onData _)

end Refused

theorem not_poisoned_of_breaks
    {call : Store.Call}
    (h : call.Breaks m) :
    m.poisoned = false := by
  cases call
  case set => exact h.1
  case setIfAbsent => exact h.1
  all_goals exact absurd h id

/-- What a call that is abandoned has done before concerns only the keys that it names. -/
theorem under_perform_of_breaks
    {call : Store.Call}
    (h : call.Breaks m)
    {key : String}
    (hkey : key ∉ call.keys) :
    (m.perform call).2.data.under key = m.data.under key := by
  cases call
  case set l value ttl =>
    rw [perform, set_eq h.1, store_eq, if_pos h.2]
    exact (Data.within_remove l m.clock).elsewhere m.data key hkey
  case setIfAbsent l value ttl =>
    rw [perform, setIfAbsent_eq h.1, if_neg (by rw [h.2.1]; decide), store_eq, if_pos h.2.2]
    exact (Data.within_contains l m.clock).elsewhere m.data key hkey
  all_goals exact absurd h id

/-- **A call leaves alone what is kept under the keys that it does not name.** -/
theorem under_perform
    (m : Memory)
    {call : Store.Call}
    (hdata : call.OnData)
    {key : String}
    (hkey : key ∉ call.keys) :
    (m.perform call).2.data.under key = m.data.under key := by
  by_cases hlisting : ∃ pattern, call = .keysMatching pattern
  · obtain ⟨pattern, rfl⟩ := hlisting
    exact kept_useData (P := fun d => d.under key = m.data.under key) rfl rfl
  · cases h : m.poisoned with
    | true => rw [perform_of_poisoned hdata h]
    | false =>
        by_cases hbreaks : call.Breaks m
        · exact under_perform_of_breaks hbreaks hkey
        · obtain ⟨f, hf, heffect⟩ :=
            actsWithin m.clock ⟨hdata, fun pattern heq => hlisting ⟨pattern, heq⟩⟩
          have hdone := congrArg (data ·.2) (heffect m h rfl hbreaks)
          exact (congrArg (Data.under · key) hdone).trans (hf.elsewhere m.data key hkey)

section Two

variable {a b : Store.Call}

theorem waitsBeyond_congr
    {n : Memory}
    (hclock : n.clock = m.clock) :
    a.WaitsBeyond n ↔ a.WaitsBeyond m := by
  cases a
  case blockingPopBack key wait => exact iff_of_eq (congrArg wait.Beyond hclock)
  all_goals exact Iff.rfl

/-- Whether a call is abandoned while it holds the data is told by the keys that it names. -/
theorem breaks_of_agreesOn
    {d : Data}
    (hdata : Data.AgreesOn a.keys d m.data) :
    a.Breaks { m with data := d } ↔ a.Breaks m := by
  cases a
  case setIfAbsent key value ttl =>
    have hthere := (Data.within_contains key m.clock).answer _ _ hdata
    simp only [Store.Call.Breaks, hthere]
  all_goals exact Iff.rfl

/-- A call that is abandoned before it holds the data can be exchanged with any other. -/
theorem exchangeable_of_waitsBeyond
    (h : b.WaitsBeyond m) :
    m.Exchangeable a b := by
  cases b
  case blockingPopBack key wait =>
    have habandoned : ∀ n : Memory, n.clock = m.clock →
        n.atOnce (.blockingPopBack key wait) = (.error .deadlineOverflow, n) := by
      intro n hclock
      have hwait : wait.Beyond n.clock := hclock.symm ▸ h
      rw [atOnce, perform, blockingPopBack_overflow (deadline?_of_beyond hwait)]
    have hafter := habandoned (m.atOnce a).2 rfl
    rw [Exchangeable, habandoned m rfl, hafter]
    exact ⟨rfl, rfl, rfl⟩
  all_goals exact absurd h id

/-- After a call that was abandoned while it held the data, another one is refused that
would not have been refused before. -/
theorem not_exchangeable_of_breaks
    (ha : a.Breaks m)
    (hb : b.OnData)
    (hwait : ¬ b.WaitsBeyond m) :
    ¬ m.Exchangeable a b := by
  rintro ⟨-, hanswer, -⟩
  have hpoisoned : (m.atOnce a).2.poisoned = true := (a.poisoned_perform m).2 (.inr ha)
  have hwait' : ¬ b.WaitsBeyond (m.atOnce a).2 := fun h => hwait ((waitsBeyond_congr rfl).1 h)
  have hrefused : ((m.atOnce a).2.atOnce b).1 = .error lockPoisoned :=
    (b.refused_iff _).2 ⟨hpoisoned, hb, hwait'⟩
  have hlocked := ((b.refused_iff m).1 (hanswer.symm.trans hrefused)).1
  rw [not_poisoned_of_breaks ha] at hlocked
  exact absurd hlocked (by decide)

section Named

variable (ha : a.Named) (hb : b.Named) (hdisjoint : ∀ key ∈ a.keys, key ∉ b.keys)
include ha hb hdisjoint

/-- Calls that name different keys, and are not abandoned while they hold the data, are
exchanged like the operations that they are. -/
theorem exchangeable_of_not_breaks
    (hlock : m.poisoned = false)
    (hbreaksa : ¬ a.Breaks m)
    (hbreaksb : ¬ b.Breaks m) :
    m.Exchangeable a b := by
  obtain ⟨f, hf, hfirst⟩ := actsWithin m.clock ha
  obtain ⟨g, hg, hsecond⟩ := actsWithin m.clock hb
  have hafter : ¬ a.Breaks { m with data := (g m.data).2 } := fun h =>
    hbreaksa ((breaks_of_agreesOn fun key hkey =>
      hg.elsewhere m.data key (hdisjoint key hkey)).1 h)
  have hbefore : ¬ b.Breaks { m with data := (f m.data).2 } := fun h =>
    hbreaksb ((breaks_of_agreesOn fun key hkey =>
      hf.elsewhere m.data key fun hin => hdisjoint key hin hkey).1 h)
  obtain ⟨hanswera, hanswerb, hdata⟩ := hf.exchange hg hdisjoint m.data
  simp only [Exchangeable, hfirst m hlock rfl hbreaksa, hsecond m hlock rfl hbreaksb,
    hfirst { m with data := (g m.data).2 } hlock rfl hafter,
    hsecond { m with data := (f m.data).2 } hlock rfl hbefore]
  exact ⟨hanswera, hanswerb, congrArg (fun d => { m with data := d }) hdata⟩

theorem exchangeable_iff :
    m.Exchangeable a b ↔
      ¬ (a.Breaks m ∧ ¬ b.WaitsBeyond m) ∧ ¬ (b.Breaks m ∧ ¬ a.WaitsBeyond m) := by
  constructor
  · intro h
    refine ⟨fun hbreaks => ?_, fun hbreaks => ?_⟩
    · exact not_exchangeable_of_breaks hbreaks.1 hb.1 hbreaks.2 h
    · exact not_exchangeable_of_breaks hbreaks.1 ha.1 hbreaks.2 h.symm
  · rintro ⟨hfirst, hsecond⟩
    cases hlock : m.poisoned with
    | true =>
        have hnothing : ∀ {call : Store.Call}, call.OnData → (m.atOnce call).2 = m := by
          intro call hdata
          rw [atOnce, perform_of_poisoned hdata hlock]
        rw [Exchangeable, hnothing ha.1, hnothing hb.1]
        exact ⟨rfl, rfl, (hnothing ha.1).symm⟩
    | false =>
        by_cases hbreaksa : a.Breaks m
        · exact exchangeable_of_waitsBeyond (not_not.1 fun h => hfirst ⟨hbreaksa, h⟩)
        · by_cases hbreaksb : b.Breaks m
          · exact (exchangeable_of_waitsBeyond (not_not.1 fun h => hsecond ⟨hbreaksb, h⟩)).symm
          · exact exchangeable_of_not_breaks ha hb hdisjoint hlock hbreaksa hbreaksb

end Named
end Two
end Memory

namespace Store

/-- **Calls that name different keys are independent unless one is abandoned.**  In every
state of the store a call on the data leaves the list, the sorted set and the plain value
with its instant alone of every key that it does not name, and takes no time unless it is
a pop that finds nothing.  Two calls that name disjoint sets of keys, none of them the
listing of keys, answer the same at one instant in either order and leave the same store,
exactly unless one of them is abandoned while it holds the data and the other one comes so
far as to lock them. -/
theorem independent_unless_abandoned
    (m : Memory) :
    (∀ call : Call, call.OnData →
      (∀ key, key ∉ call.keys → (m.perform call).2.data.under key = m.data.under key) ∧
        ((m.perform call).2.clock = m.clock ∨
          ∃ key wait, call = .blockingPopBack key wait ∧ m.data.list key = [])) ∧
      ∀ a b : Call, a.Named → b.Named → (∀ key ∈ a.keys, key ∉ b.keys) →
        (m.Exchangeable a b ↔
          ¬ (a.Breaks m ∧ ¬ b.WaitsBeyond m) ∧ ¬ (b.Breaks m ∧ ¬ a.WaitsBeyond m)) := by
  refine ⟨fun call hdata => ⟨fun key hkey => ?_, ?_⟩, fun a b ha hb hdisjoint => ?_⟩
  · exact Memory.under_perform m hdata hkey
  · exact Memory.clock_perform hdata m
  · exact Memory.exchangeable_iff ha hb hdisjoint

/-- A value is to live for the longest time under one key, and another key is read: nothing
is found there if that comes first, and it is refused if it comes second. -/
theorem long_life_felt_elsewhere :
    let m := Memory.after 0 []
    let set : Call := .set "a" [0x76] (some longestSecs)
    let get : Call := .get "b"
    (∀ key ∈ set.keys, key ∉ get.keys) ∧
      (m.atOnce get).1 = .ok none ∧
      ((m.atOnce set).2.atOnce get).1 = .error Memory.lockPoisoned ∧
      ¬ m.Exchangeable set get := by
  intro m set get
  have halone : (m.atOnce get).1 = .ok none := by decide
  have hafter : ((m.atOnce set).2.atOnce get).1 = .error Memory.lockPoisoned := by decide
  refine ⟨by decide, halone, hafter, fun h => ?_⟩
  have hsame := h.2.1
  rw [halone, hafter] at hsame
  exact absurd hsame (by simp)

end Store
end Courier
