import Courier.Proofs.Store.Current
import Courier.Proofs.Store.Locking

/-!
# Values that expire

The store in memory keeps values that have expired, and its calls deal with them in
different ways: some drop one first, some pass over it, some remove it with everything
else under its key.  A punctual store has no such values.  Time alone removes them, each
at the instant at which it expires, and no call ever looks at an instant.  Nobody can
tell the two stores apart.

**Results.**
* `Entry.Due`, `Data.Has`: the values to be removed, and the keys that are there.
* `Punctual`: the punctual store.
* `Memory.settled`: the punctual store that a store in memory stands for.
* `Memory.perform_settled`, `Memory.run_settled`: they answer alike, call by call and in
  a run.
* `Memory.live_set`, `Memory.live_setIfAbsent`, `Memory.live_increment`: what becomes of
  a value and of the instant at which it expires.
* `expiry_unobservable`: all of it, for every run within the clock.
-/

namespace Courier

/-- The instant at which a value expires has come. -/
def Entry.Due (e : Entry) (now : Nat) : Prop :=
  ∃ at_, e.expiresAt = some at_ ∧ at_ ≤ now

theorem Entry.isExpired_iff_due
    {e : Entry}
    {now : Nat} :
    e.isExpired now = true ↔ e.Due now := by
  rw [isExpired, Option.any_eq_true]
  simp only [decide_eq_true_eq, Due]

instance (e : Entry) (now : Nat) : Decidable (e.Due now) :=
  decidable_of_iff _ Entry.isExpired_iff_due

/-- What is set now is not due. -/
theorem Entry.not_due_expiry
    (value : Bytes)
    (now : Nat)
    (ttl : Option Duration) :
    ¬ (Entry.mk value (expiry now ttl)).Due now := by
  rw [← isExpired_iff_due, isExpired_expiry]
  exact Bool.false_ne_true

namespace Data

/-- A list, a sorted set or a plain value is under a key. -/
def Has (d : Data) (key : String) : Prop :=
  (∃ vs, d.lists.get? key = some vs) ∨ (∃ s, d.sorted.get? key = some s) ∨
    ∃ e, d.values.get? key = some e

theorem holds_iff_has
    {d : Data}
    {key : String} :
    d.holds key = true ↔ d.Has key := by
  rw [holds, Bool.or_eq_true, Bool.or_eq_true, KeyMap.contains_iff, KeyMap.contains_iff,
    KeyMap.contains_iff, or_assoc, Has]

instance (d : Data) (key : String) : Decidable (d.Has key) :=
  decidable_of_iff _ holds_iff_has

theorem decide_has
    (d : Data)
    (key : String) :
    decide (d.Has key) = d.holds key := by
  rw [Bool.eq_iff_iff, decide_eq_true_iff, holds_iff_has]

/-- The data without the values that are due. -/
def undue (d : Data) (now : Nat) : Data :=
  { d with values := d.values.filter fun e => ¬ e.2.Due now }

theorem get?_undue
    (d : Data)
    (now : Nat)
    (key : String) :
    (d.undue now).values.get? key = (d.values.get? key).filter fun e => ¬ e.Due now :=
  KeyMap.get?_filter _ _ key

theorem not_due_of_undue
    {d : Data}
    {now : Nat}
    {key : String}
    {e : Entry}
    (h : (d.undue now).values.get? key = some e) :
    ¬ e.Due now := by
  rw [get?_undue, Option.filter_eq_some_iff] at h
  exact of_decide_eq_true h.2

theorem current_eq_undue
    (d : Data)
    (now : Nat) :
    d.current now = d.undue now := by
  refine ext_values rfl rfl fun key => ?_
  rw [get?_current, get?_undue]
  simp only [← Entry.isExpired_iff_due, Bool.not_eq_true, Bool.decide_eq_false]

end Data

/-- A store that holds no value at or beyond the instant at which it expires. -/
structure Punctual where
  data : Data
  exchange : Exchange
  /-- The instant now, in nanoseconds. -/
  clock : Nat

namespace Punctual

/-- A new store, when the clock shows `now`. -/
def empty (now : Nat) : Punctual := ⟨.empty, .empty, now⟩

/-- Lets time pass, which removes the values that expire meanwhile. -/
def advance (p : Punctual) (wait : Duration) : Punctual :=
  { p with data := p.data.undue (p.clock + wait.nanos), clock := p.clock + wait.nanos }

/-- Makes a call on the data. -/
def onData {α : Type} (p : Punctual) (f : Data → Except StoreError α × Data) :
    Except StoreError α × Punctual :=
  let (r, d) := f p.data
  (r, { p with data := d })

/-- Makes a call on the data that cannot fail. -/
def useData {α : Type} (p : Punctual) (f : Data → α × Data) :
    Except StoreError α × Punctual :=
  p.onData fun d =>
    let (a, d) := f d
    (.ok a, d)

/-- Makes a call on the exchange that cannot fail. -/
def onExchange {α : Type} (p : Punctual) (f : Exchange → α × Exchange) :
    Except StoreError α × Punctual :=
  let (a, x) := f p.exchange
  (.ok a, { p with exchange := x })

/-- Takes the value at the back of a list; if there is none the whole wait passes. -/
def blockingPopBack (p : Punctual) (key : String) (wait : Duration) :
    Except StoreError (Option Bytes) × Punctual :=
  match p.data.popBack key with
  | (none, d) => (.ok none, { p with data := d }.advance wait)
  | (some value, d) => (.ok (some value), { p with data := d })

/-- The next payload of a subscriber; if there is none the whole wait passes. -/
def nextMessage (p : Punctual) (id : SubscriberId) (wait : Duration) :
    Except StoreError (Option RawMessage) × Punctual :=
  match p.exchange.nextMessage id with
  | (.ok none, x) => (.ok none, { p with exchange := x }.advance wait)
  | (r, x) => (r, { p with exchange := x })

/-- Sets a plain value in place of whatever is under the key. -/
def set (p : Punctual) (key : String) (value : Bytes) (ttl : Option Duration) :
    Except StoreError Unit × Punctual :=
  p.useData fun d => ((), (d.clear key).put key ⟨value, expiry p.clock ttl⟩)

/-- Sets a plain value if the key is absent; whether it was set. -/
def setIfAbsent (p : Punctual) (key : String) (value : Bytes) (ttl : Option Duration) :
    Except StoreError Bool × Punctual :=
  p.useData fun d =>
    if d.Has key then (false, d) else (true, d.put key ⟨value, expiry p.clock ttl⟩)

/-- What a call answers, and the store after it. -/
def perform (p : Punctual) : (call : Store.Call) → Except StoreError call.Result × Punctual
  | .pushFront key value =>
      p.useData fun d => (((d.pushFront key value).list key).length, d.pushFront key value)
  | .popBack key => p.useData (·.popBack key)
  | .blockingPopBack key wait => p.blockingPopBack key wait
  | .listLen key => p.useData fun d => ((d.list key).length, d)
  | .delete keys => p.useData fun d => ((keys.toFinset.filter d.Has).card, keys.foldl Data.clear d)
  | .sortedAdd key member score => p.useData fun d => ((), d.sortedAdd key member score)
  | .rangeByScore key min max => p.useData fun d => ((d.sortedSet key).range min max, d)
  | .sortedRemove key member => p.useData (·.sortedRemove key member)
  | .sortedLen key => p.useData fun d => ((d.sortedSet key).length, d)
  | .executeBatch ops => p.useData fun d => ((), d.applyAll ops)
  | .publish channel payload => p.onExchange (·.publish channel payload)
  | .subscriber => p.onExchange (·.subscriber)
  | .set key value ttl => p.set key value ttl
  | .setIfAbsent key value ttl => p.setIfAbsent key value ttl
  | .get key => p.useData fun d => ((d.values.get? key).map (·.value), d)
  | .contains key => p.useData fun d => (d.Has key, d)
  | .increment key amount => p.onData (·.count key amount)
  | .keysMatching pattern => p.useData fun d => (d.keysLike pattern, d)
  | .subscribe id channels => p.onExchange fun x => ((), x.subscribe id channels)
  | .psubscribe id patterns => p.onExchange fun x => ((), x.psubscribe id patterns)
  | .unsubscribe id channels => p.onExchange fun x => ((), x.unsubscribe id channels)
  | .punsubscribe id patterns => p.onExchange fun x => ((), x.punsubscribe id patterns)
  | .nextMessage id wait => p.nextMessage id wait

/-- The store after a move. -/
def step (p : Punctual) : Store.Move → Punctual
  | .call call => (p.perform call).2
  | .release id => { p with exchange := p.exchange.release id }
  | .pass time => p.advance time

def run (p : Punctual) (moves : List Store.Move) : Punctual :=
  moves.foldl step p

/-- A store after a run that begins when the clock shows `now`. -/
def after (now : Nat) (moves : List Store.Move) : Punctual :=
  (empty now).run moves

end Punctual

namespace Memory

/-- The punctual store that a store in memory stands for. -/
def settled (m : Memory) : Punctual :=
  ⟨m.data.undue m.clock, m.exchange, m.clock⟩

/-- The plain value of a key that has not expired, and the instant at which it does. -/
def live (m : Memory) (key : String) : Option Entry :=
  (m.data.values.get? key).filter fun e => ¬ e.Due m.clock

/-- No deadline in a run lies beyond the clock. -/
def WithinClock (m : Memory) : List Store.Move → Prop
  | [] => True
  | .call call :: moves =>
      ¬ call.Breaks m ∧ ¬ call.WaitsBeyond m ∧ WithinClock (m.step (.call call)) moves
  | .release id :: moves => WithinClock (m.step (.release id)) moves
  | .pass time :: moves => WithinClock (m.step (.pass time)) moves

variable {m : Memory}

theorem settled_eq
    (m : Memory) :
    m.settled = ⟨m.data.current m.clock, m.exchange, m.clock⟩ := by
  rw [settled, Data.current_eq_undue]

theorem settled_advance
    (m : Memory)
    (wait : Duration) :
    (m.advance wait).settled = m.settled.advance wait := by
  have hle : m.clock ≤ m.clock + wait.nanos := Nat.le_add_right _ _
  simp only [settled_eq, advance, Punctual.advance, ← Data.current_eq_undue,
    Data.current_current _ hle]

section Simulation

variable (h : m.poisoned = false)
include h

theorem onData_settled
    {α : Type}
    {f g : Data → Except StoreError α × Data}
    (hfg : g (m.data.current m.clock) = ((f m.data).1, (f m.data).2.current m.clock)) :
    m.settled.onData g = ((m.onData f).1, (m.onData f).2.settled) := by
  rw [onData_of_not_poisoned h]
  simp only [Punctual.onData, settled_eq, hfg]

theorem useData_settled
    {α : Type}
    {f g : Data → α × Data}
    (hfg : g (m.data.current m.clock) = ((f m.data).1, (f m.data).2.current m.clock)) :
    m.settled.useData g = ((m.useData f).1, (m.useData f).2.settled) := by
  refine onData_settled h ?_
  simp only [hfg]

theorem set_settled
    {key : String}
    {value : Bytes}
    {ttl : Option Duration}
    (hbreaks : ¬ (Store.Call.set key value ttl).Breaks m) :
    m.settled.set key value ttl = ((m.set key value ttl).1, (m.set key value ttl).2.settled) := by
  have hlives : ¬ LivesBeyond ttl m.clock := fun hl => hbreaks ⟨h, hl⟩
  have hdata := Data.current_put (isExpired_expiry value m.clock ttl)
    (m.data.remove m.clock key).2 key
  rw [Data.current_remove] at hdata
  rw [set_eq h, store_eq, if_neg hlives, settled_eq, settled_eq]
  show _ = (_, Punctual.mk (((m.data.remove m.clock key).2.put key _).current m.clock) _ _)
  rw [hdata]
  rfl

theorem setIfAbsent_settled
    {key : String}
    {value : Bytes}
    {ttl : Option Duration}
    (hbreaks : ¬ (Store.Call.setIfAbsent key value ttl).Breaks m) :
    m.settled.setIfAbsent key value ttl =
      ((m.setIfAbsent key value ttl).1, (m.setIfAbsent key value ttl).2.settled) := by
  have hthere := m.data.contains_fst m.clock key
  rw [setIfAbsent_eq h, hthere, Data.contains_snd]
  simp only [Punctual.setIfAbsent, Punctual.useData, Punctual.onData, settled_eq,
    ← Data.holds_iff_has]
  by_cases hholds : (m.data.current m.clock).holds key = true
  · simp only [hholds, if_true, Data.current_purge]
  · have hlives : ¬ LivesBeyond ttl m.clock := by
      intro hl
      exact hbreaks ⟨h, by rw [hthere]; exact Bool.eq_false_iff.2 hholds, hl⟩
    have hdata := Data.current_put (isExpired_expiry value m.clock ttl)
      (m.data.purge m.clock key) key
    rw [Data.current_purge] at hdata
    simp only [if_neg hholds, store_eq, if_neg hlives, ← hdata]
    rfl

theorem blockingPopBack_settled
    {key : String}
    {wait : Duration}
    (hwait : ¬ wait.Beyond m.clock) :
    m.settled.blockingPopBack key wait =
      ((m.blockingPopBack key wait).1, (m.blockingPopBack key wait).2.settled) := by
  rw [blockingPopBack_eq h (deadline?_of_not_beyond hwait), Nat.max_eq_right (Nat.le_add_right _ _),
    ← Data.popBack_fst]
  simp only [Punctual.blockingPopBack, settled_eq, Data.popBack_current]
  cases hentry : (m.data.popBack key).1 with
  | none =>
      have hnil : m.data.list key = [] := by
        rw [Data.popBack_fst] at hentry
        exact List.getLast?_eq_none_iff.1 hentry
      have hadvance := settled_advance { m with data := (m.data.popBack key).2 } wait
      rw [settled_eq, settled_eq] at hadvance
      rw [if_pos hnil]
      exact congrArg (Prod.mk _) hadvance.symm
  | some entry =>
      have hcons : m.data.list key ≠ [] := by
        intro hnil
        rw [Data.popBack_fst, hnil] at hentry
        exact absurd hentry (by simp)
      rw [if_neg hcons]

end Simulation

theorem nextMessage_settled
    (m : Memory)
    (id : SubscriberId)
    (wait : Duration) :
    m.settled.nextMessage id wait =
      ((m.nextMessage id wait).1, (m.nextMessage id wait).2.settled) := by
  rcases hnext : m.exchange.nextMessage id with ⟨r, x⟩
  simp only [Punctual.nextMessage, nextMessage, settled, hnext]
  rcases r with e | _ | raw
  · rfl
  · exact congrArg (Prod.mk _) (settled_advance { m with exchange := x } wait).symm
  · rfl

/-- A call on a store in memory that is not abandoned does what it does on the punctual
store that it stands for. -/
theorem perform_settled
    (h : m.poisoned = false)
    (call : Store.Call)
    (hbreaks : ¬ call.Breaks m)
    (hwaits : ¬ call.WaitsBeyond m) :
    m.settled.perform call = ((m.perform call).1, (m.perform call).2.settled) := by
  cases call
  all_goals simp only [Punctual.perform, perform]
  case pushFront key value => exact useData_settled h (by rfl)
  case popBack key => exact useData_settled h (Data.popBack_current _ _ key)
  case blockingPopBack key wait => exact blockingPopBack_settled h hwaits
  case listLen key => exact useData_settled h (by rfl)
  case delete keys =>
    obtain ⟨hcount, hdata⟩ := m.data.removeAll_eq m.clock keys
    refine useData_settled h (Prod.ext ?_ ?_)
    · simp only [hcount, Data.clearAll_fst, Data.holds_iff_has]
    · rw [hdata, Data.clearAll_snd]
  case sortedAdd key member score => exact useData_settled h (by rfl)
  case rangeByScore key min max => exact useData_settled h (by rfl)
  case sortedRemove key member =>
    exact useData_settled h (Data.sortedRemove_current _ _ key member)
  case sortedLen key => exact useData_settled h (by rfl)
  case executeBatch ops =>
    exact useData_settled h (congrArg (Prod.mk ()) (Data.applyAll_current _ _ ops))
  case set key value ttl => exact set_settled h hbreaks
  case setIfAbsent key value ttl => exact setIfAbsent_settled h hbreaks
  case get key =>
    refine useData_settled h (Prod.ext ?_ (Data.current_purge _ _ key).symm)
    exact congrArg (Option.map _) (m.data.get?_purge m.clock key).symm
  case contains key =>
    refine useData_settled h (Prod.ext ?_ (Data.current_purge _ _ key).symm)
    exact (Data.decide_has _ key).trans (m.data.contains_fst m.clock key).symm
  case increment key amount => exact onData_settled h (m.data.count_current m.clock key amount)
  case keysMatching pattern => exact useData_settled h (by rfl)
  case nextMessage id wait => exact m.nextMessage_settled id wait
  all_goals rfl

theorem perform_not_poisoned
    (h : m.poisoned = false)
    {call : Store.Call}
    (hbreaks : ¬ call.Breaks m) :
    (m.perform call).2.poisoned = false := by
  refine Bool.eq_false_iff.2 fun hpoisoned => ?_
  rcases (call.poisoned_perform m).1 hpoisoned with hp | hb
  · rw [h] at hp
    exact absurd hp (by decide)
  · exact hbreaks hb

/-- A run within the clock is the same run of the punctual store. -/
theorem run_settled
    (h : m.poisoned = false)
    {moves : List Store.Move}
    (hmoves : m.WithinClock moves) :
    m.settled.run moves = (m.run moves).settled ∧ (m.run moves).poisoned = false := by
  induction moves generalizing m with
  | nil => exact ⟨rfl, h⟩
  | cons move moves ih =>
      cases move with
      | call call =>
          obtain ⟨hbreaks, hwaits, hrest⟩ := hmoves
          have hstep : m.settled.step (.call call) = (m.step (.call call)).settled :=
            congrArg Prod.snd (perform_settled h call hbreaks hwaits)
          show (m.settled.step (.call call)).run moves = _ ∧ _
          rw [hstep]
          exact ih (perform_not_poisoned h hbreaks) hrest
      | release id => exact ih (m := m.step (.release id)) h hmoves
      | pass time =>
          have hstep : m.settled.step (.pass time) = (m.step (.pass time)).settled :=
            (m.settled_advance time).symm
          show (m.settled.step (.pass time)).run moves = _ ∧ _
          rw [hstep]
          exact ih (m := m.step (.pass time)) h hmoves

theorem withinClock_concat
    {moves : List Store.Move}
    {call : Store.Call}
    (h : m.WithinClock (moves ++ [.call call])) :
    m.WithinClock moves ∧ ¬ call.Breaks (m.run moves) ∧ ¬ call.WaitsBeyond (m.run moves) := by
  induction moves generalizing m with
  | nil =>
      obtain ⟨hbreaks, hwaits, -⟩ := h
      exact ⟨trivial, hbreaks, hwaits⟩
  | cons move moves ih =>
      cases move with
      | call first =>
          obtain ⟨hbreaks, hwaits, hrest⟩ := h
          obtain ⟨hmoves, hlast⟩ := ih hrest
          exact ⟨⟨hbreaks, hwaits, hmoves⟩, hlast⟩
      | release id => exact ih (m := m.step (.release id)) h
      | pass time => exact ih (m := m.step (.pass time)) h

theorem live_eq
    (m : Memory)
    (key : String) :
    m.live key = (m.data.current m.clock).values.get? key := by
  rw [Data.current_eq_undue, Data.get?_undue, live]

/-- Setting a value replaces the one before and the instant at which it expires. -/
theorem live_set
    {key : String}
    {value : Bytes}
    {ttl : Option Duration}
    (h : (m.set key value ttl).1 = .ok ()) :
    (m.set key value ttl).2.live key = some ⟨value, expiry m.clock ttl⟩ := by
  obtain ⟨hlock, hlives⟩ := (Store.Call.set_returns_iff m key value ttl).1 h
  rw [set_eq hlock, store_eq, if_neg hlives]
  simp [live, KeyMap.get?_insert, Option.filter_some, Entry.not_due_expiry]

/-- Where a value is there already, nothing changes. -/
theorem live_setIfAbsent
    {key : String}
    {value : Bytes}
    {ttl : Option Duration}
    (h : (m.setIfAbsent key value ttl).1 = .ok false)
    (l : String) :
    (m.setIfAbsent key value ttl).2.live l = m.live l := by
  cases hlock : m.poisoned with
  | true => rw [setIfAbsent_of_poisoned hlock]
  | false =>
      rw [setIfAbsent_eq hlock] at h ⊢
      split at h
      · next hthere =>
          rw [if_pos hthere, live_eq, live_eq, Data.contains_snd]
          exact congrArg (KeyMap.get? · l) (congrArg Data.values (m.data.current_purge m.clock key))
      · rw [store_eq] at h
        split at h
        · exact absurd h (by simp [Except.map])
        · exact absurd h (by simp [Except.map])

/-- A counter keeps the instant at which it expires, and a new one never does. -/
theorem live_increment
    {key : String}
    {amount n : Int64}
    (h : (m.increment key amount).1 = .ok n) :
    (m.increment key amount).2.live key =
      some ⟨Bytes.ofAscii (toString n.toInt), (m.live key).bind (·.expiresAt)⟩ := by
  cases hlock : m.poisoned with
  | true =>
      rw [increment, onData_of_poisoned hlock] at h
      exact absurd h (by simp)
  | false =>
      have hcount := m.data.count_current m.clock key amount
      rw [increment, onData_of_not_poisoned hlock] at h ⊢
      have hvalue := Data.get?_count (d := m.data.current m.clock)
        ((congrArg Prod.fst hcount).trans h)
      rw [hcount] at hvalue
      rw [live_eq, live_eq]
      exact hvalue

end Memory

namespace Store

/-- **Nobody can tell that expired values stay for a while.**  In every run in which no
deadline lies beyond the clock, each call answers what it answers on the punctual store,
which holds no value at or beyond the instant at which it expires.  Setting a value
replaces that of its key and the instant at which it expires, setting one where there is
one already changes neither, and a counter keeps the instant of its value and never
expires if it is new. -/
theorem expiry_unobservable
    (now : Nat)
    (moves : List Move)
    (call : Call)
    (h : (Memory.empty now).WithinClock (moves ++ [.call call])) :
    let m := Memory.after now moves
    let p := Punctual.after now moves
    (m.perform call).1 = (p.perform call).1 ∧
      (∀ key e, p.data.values.get? key = some e → ¬ e.Due p.clock) ∧
      (∀ key, m.live key = p.data.values.get? key) ∧
      (∀ key value ttl, (m.set key value ttl).1 = .ok () →
        (m.set key value ttl).2.live key = some ⟨value, expiry m.clock ttl⟩) ∧
      (∀ key value ttl, (m.setIfAbsent key value ttl).1 = .ok false →
        ∀ l, (m.setIfAbsent key value ttl).2.live l = m.live l) ∧
      ∀ key amount n, (m.increment key amount).1 = .ok n →
        (m.increment key amount).2.live key =
          some ⟨Bytes.ofAscii (toString n.toInt), (m.live key).bind (·.expiresAt)⟩ := by
  intro m p
  obtain ⟨hmoves, hbreaks, hwaits⟩ := Memory.withinClock_concat h
  obtain ⟨hrun, hlock⟩ := Memory.run_settled (m := .empty now) rfl hmoves
  have hp : p = m.settled := hrun
  have hcall := Memory.perform_settled hlock call hbreaks hwaits
  refine ⟨?_, ?_, ?_, ?_, ?_, ?_⟩
  · rw [hp]
    exact (congrArg Prod.fst hcall).symm
  · rw [hp]
    exact fun key e he => Data.not_due_of_undue he
  · rw [hp]
    exact fun key => (Data.get?_undue m.data m.clock key).symm
  · exact fun key value ttl hset => Memory.live_set hset
  · exact fun key value ttl hset l => Memory.live_setIfAbsent hset l
  · exact fun key amount n hn => Memory.live_increment hn

/-- A value is set for one millisecond, and two milliseconds pass. -/
def lapse : List Move :=
  [.call (.set "k" [0x76] (some .oneMilli)), .pass (.ofMillis 2)]

/-- An expired value is no obstacle to setting one where there is none, although it is
still there. -/
theorem expired_no_obstacle :
    (Memory.empty 0).WithinClock (lapse ++ [.call (.setIfAbsent "k" [0x77] none)]) ∧
      (Memory.after 0 lapse).data.values.contains "k" = true ∧
      ((Memory.after 0 lapse).setIfAbsent "k" [0x77] none).1 = .ok true := by
  have hwithin :
      (Memory.empty 0).WithinClock (lapse ++ [.call (.setIfAbsent "k" [0x77] none)]) := by
    refine ⟨?_, id, ?_, id, trivial⟩
    · exact fun h => absurd h.2 (by decide)
    · exact fun h => absurd h.2.2 (by decide)
  refine ⟨hwithin, by decide, ?_⟩
  exact (expiry_unobservable 0 lapse (.setIfAbsent "k" [0x77] none) hwithin).1.trans (by decide)

end Store
end Courier
