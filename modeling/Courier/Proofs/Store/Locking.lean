import Courier.Proofs.Store.Calls
import Mathlib.Data.List.Induction

/-!
# Deadlines beyond the clock

A wait or a time to live may end beyond the last instant that the clock can count.
A pop that would wait so long is abandoned before it holds the data, and nothing
else takes notice.  A value that would live so long is another matter: the call that
sets it is abandoned while it holds the data, and no later call on the data of that
store is answered any more.

**Results.**
* `Call.Breaks`, `Call.WaitsBeyond`: the calls that are abandoned.
* `Call.poisoned_perform`, `poisoned_after`: when the data cannot be locked.
* `Call.refused_iff`: the calls that are refused then.
* `Call.set_returns_iff`, `Call.setIfAbsent_returns_iff`,
  `Call.blockingPopBack_returns_iff`: when the calls with a deadline return.
* `usable_within_clock`: all of it, after every run.
* `long_life_disables_store`: a time to live after which nothing can be read.
-/

namespace Courier
namespace Store
namespace Call

/-- The calls that lock the data; the others go to the exchange. -/
def OnData : Call → Prop
  | .publish .. | .subscriber | .subscribe .. | .psubscribe .. | .unsubscribe ..
  | .punsubscribe .. | .nextMessage .. => False
  | _ => True

/-- A call is abandoned while it holds the data. -/
def Breaks (m : Memory) : Call → Prop
  | .set _ _ ttl => m.poisoned = false ∧ LivesBeyond ttl m.clock
  | .setIfAbsent key _ ttl =>
      m.poisoned = false ∧ (m.data.contains m.clock key).1 = false ∧ LivesBeyond ttl m.clock
  | _ => False

/-- A call is abandoned before it holds the data. -/
def WaitsBeyond (m : Memory) : Call → Prop
  | .blockingPopBack _ wait => wait.Beyond m.clock
  | _ => False

end Call
end Store

namespace Memory

variable {α : Type}

theorem poisoned_onData
    (m : Memory)
    (f : Data → Except StoreError α × Data) :
    (m.onData f).2.poisoned = m.poisoned := by
  cases h : m.poisoned with
  | true => rw [onData_of_poisoned h, h]
  | false => rw [onData_of_not_poisoned h, h]

theorem poisoned_useData
    (m : Memory)
    (f : Data → α × Data) :
    (m.useData f).2.poisoned = m.poisoned :=
  m.poisoned_onData _

theorem useData_refused_iff
    (m : Memory)
    (f : Data → α × Data) :
    (m.useData f).1 = .error lockPoisoned ↔ m.poisoned = true := by
  cases h : m.poisoned with
  | true => simp [useData_of_poisoned h]
  | false => simp [useData_of_not_poisoned h]

theorem poisoned_blockingPopBack
    (m : Memory)
    (key : String)
    (wait : Duration) :
    (m.blockingPopBack key wait).2.poisoned = m.poisoned := by
  cases h : m.poisoned with
  | true => rw [blockingPopBack_of_poisoned h, h]
  | false =>
      cases hd : deadline? m.clock wait with
      | none => rw [blockingPopBack_overflow hd, h]
      | some deadline => rw [blockingPopBack_eq h hd, h]

theorem poisoned_nextMessage
    (m : Memory)
    (id : SubscriberId)
    (wait : Duration) :
    (m.nextMessage id wait).2.poisoned = m.poisoned := by
  rw [nextMessage]
  split
  · rfl
  · rfl

theorem poisoned_store_iff
    (m : Memory)
    (d : Data)
    (key : String)
    (value : Bytes)
    (ttl : Option Duration) :
    (m.store d key value ttl).2.poisoned = true ↔
      m.poisoned = true ∨ LivesBeyond ttl m.clock := by
  rw [store_eq]
  split
  · next h => simp [h]
  · next h => simp [h]

/-- No failure of a counter reads like the refusal of a poisoned store. -/
theorem notInteger_ne_lockPoisoned
    (key : String) :
    Data.notInteger key ≠ lockPoisoned := by
  intro h
  have htext : key ++ " holds a non-integer value" = "lock poisoned" := StoreError.command.inj h
  have hsuffix : " holds a non-integer value".toList <:+ "lock poisoned".toList :=
    ⟨key.toList, by rw [← String.toList_append, htext]⟩
  exact absurd hsuffix (by decide)

theorem increment_ne_lockPoisoned
    (d : Data)
    (now : Nat)
    (key : String)
    (amount : Int64) :
    (d.increment now key amount).1 ≠ .error lockPoisoned := by
  intro h
  simp only [Data.increment] at h
  split at h
  · exact notInteger_ne_lockPoisoned key (Except.error.inj h)
  · split at h
    · exact notInteger_ne_lockPoisoned key (Except.error.inj h)
    · split at h
      · exact absurd h (by simp)
      · exact absurd (Except.error.inj h) (by decide)

theorem increment_refused_iff
    (m : Memory)
    (key : String)
    (amount : Int64) :
    (m.increment key amount).1 = .error lockPoisoned ↔ m.poisoned = true := by
  rw [increment]
  cases h : m.poisoned with
  | true => simp [onData_of_poisoned h]
  | false => simp [onData_of_not_poisoned h, increment_ne_lockPoisoned]

theorem nextMessage_ne_lockPoisoned
    (m : Memory)
    (id : SubscriberId)
    (wait : Duration) :
    (m.nextMessage id wait).1 ≠ .error lockPoisoned := by
  rw [nextMessage]
  split
  · simp
  · next hr =>
      intro h
      simp only at h
      subst h
      rw [Exchange.nextMessage] at hr
      split at hr
      · simp at hr
      · split at hr
        · simp at hr
        · simp [lockPoisoned] at hr
      · simp [lockPoisoned] at hr

end Memory

namespace Store
namespace Call

variable (m : Memory)

/-- The data can be locked until a call is abandoned while it holds them. -/
theorem poisoned_perform
    (call : Call) :
    (m.perform call).2.poisoned = true ↔ m.poisoned = true ∨ call.Breaks m := by
  cases call with
  | set key value ttl =>
      show (m.set key value ttl).2.poisoned = true ↔ _
      cases h : m.poisoned with
      | true => simp [Memory.set_of_poisoned h, h]
      | false => simp [Memory.set_eq h, Memory.poisoned_store_iff, Breaks, h]
  | setIfAbsent key value ttl =>
      show (m.setIfAbsent key value ttl).2.poisoned = true ↔ _
      cases h : m.poisoned with
      | true => simp [Memory.setIfAbsent_of_poisoned h, h]
      | false =>
          rw [Memory.setIfAbsent_eq h]
          cases hthere : (m.data.contains m.clock key).1 with
          | true => simp [Breaks, hthere, h]
          | false => simp [Memory.poisoned_store_iff, Breaks, hthere, h]
  | blockingPopBack key wait =>
      simp only [Breaks, or_false, Memory.perform, Memory.poisoned_blockingPopBack]
  | nextMessage id wait =>
      simp only [Breaks, or_false, Memory.perform, Memory.poisoned_nextMessage]
  | increment key amount =>
      simp only [Breaks, or_false, Memory.perform, Memory.increment, Memory.poisoned_onData]
  | publish _ _ | subscriber | subscribe _ _ | psubscribe _ _ | unsubscribe _ _
  | punsubscribe _ _ =>
      simp only [Breaks, or_false]
      exact Iff.rfl
  | _ =>
      simp only [Breaks, or_false, Memory.perform]
      exact iff_of_eq (congrArg (· = true) (m.poisoned_useData _))

/-- Once the data cannot be locked, every call on them is refused, and no other call
ever is.  Only a pop that would wait beyond the clock does not come so far. -/
theorem refused_iff
    (call : Call) :
    (m.perform call).1 = .error Memory.lockPoisoned ↔
      m.poisoned = true ∧ call.OnData ∧ ¬ call.WaitsBeyond m := by
  have hne : StoreError.deadlineOverflow ≠ Memory.lockPoisoned := by decide
  cases call with
  | set key value ttl =>
      show (m.set key value ttl).1 = _ ↔ _
      cases h : m.poisoned with
      | true => simp [Memory.set_of_poisoned h, OnData, WaitsBeyond]
      | false =>
          rw [Memory.set_eq h, Memory.store_eq]
          split
          · simp [hne]
          · simp
  | setIfAbsent key value ttl =>
      show (m.setIfAbsent key value ttl).1 = _ ↔ _
      cases h : m.poisoned with
      | true => simp [Memory.setIfAbsent_of_poisoned h, OnData, WaitsBeyond]
      | false =>
          rw [Memory.setIfAbsent_eq h, Memory.store_eq]
          split
          · simp
          · split
            · simp [Except.map, hne]
            · simp [Except.map]
  | blockingPopBack key wait =>
      show (m.blockingPopBack key wait).1 = _ ↔ _
      cases h : m.poisoned with
      | true =>
          rw [Memory.blockingPopBack_of_poisoned h]
          split
          · next hwait => simp [hne, WaitsBeyond, hwait]
          · next hwait => simp [OnData, WaitsBeyond, hwait]
      | false =>
          cases hd : deadline? m.clock wait with
          | none => simp [Memory.blockingPopBack_overflow hd, hne]
          | some deadline => simp [Memory.blockingPopBack_eq h hd]
  | nextMessage id wait =>
      simp only [OnData, false_and, and_false, iff_false]
      exact m.nextMessage_ne_lockPoisoned id wait
  | increment key amount =>
      simp only [OnData, WaitsBeyond, not_false_eq_true, and_true]
      exact m.increment_refused_iff key amount
  | publish _ _ | subscriber | subscribe _ _ | psubscribe _ _ | unsubscribe _ _
  | punsubscribe _ _ =>
      simp only [OnData, false_and, and_false, iff_false]
      exact fun h => nomatch h
  | _ =>
      simp only [OnData, WaitsBeyond, not_false_eq_true, and_true, Memory.perform]
      exact m.useData_refused_iff _

theorem set_returns_iff
    (key : String)
    (value : Bytes)
    (ttl : Option Duration) :
    (m.set key value ttl).1 = .ok () ↔ m.poisoned = false ∧ ¬ LivesBeyond ttl m.clock := by
  cases h : m.poisoned with
  | true => simp [Memory.set_of_poisoned h]
  | false =>
      rw [Memory.set_eq h, Memory.store_eq]
      split
      · next hbeyond => simp [hbeyond]
      · next hbeyond => simp [hbeyond]

theorem setIfAbsent_returns_iff
    (key : String)
    (value : Bytes)
    (ttl : Option Duration) :
    (∃ set, (m.setIfAbsent key value ttl).1 = .ok set) ↔
      m.poisoned = false ∧
        ((m.data.contains m.clock key).1 = true ∨ ¬ LivesBeyond ttl m.clock) := by
  cases h : m.poisoned with
  | true => simp [Memory.setIfAbsent_of_poisoned h]
  | false =>
      rw [Memory.setIfAbsent_eq h, Memory.store_eq]
      split
      · next hthere => simp [hthere]
      · next hthere =>
          split
          · next hbeyond => simp [hthere, hbeyond, Except.map]
          · next hbeyond => simp [hbeyond, Except.map]

theorem blockingPopBack_returns_iff
    (key : String)
    (wait : Duration) :
    (∃ entry, (m.blockingPopBack key wait).1 = .ok entry) ↔
      m.poisoned = false ∧ ¬ wait.Beyond m.clock := by
  cases h : m.poisoned with
  | true => simp [Memory.blockingPopBack_of_poisoned h]
  | false =>
      by_cases hwait : wait.Beyond m.clock
      · simp [Memory.blockingPopBack_overflow (deadline?_of_beyond hwait), hwait]
      · simp [Memory.blockingPopBack_eq h (deadline?_of_not_beyond hwait), hwait]

end Call

theorem poisoned_step
    (m : Memory)
    (move : Move) :
    (m.step move).poisoned = true ↔
      m.poisoned = true ∨ ∃ call, move = .call call ∧ call.Breaks m := by
  cases move with
  | call call =>
      rw [Memory.step, call.poisoned_perform]
      simp
  | release id => simp [Memory.step, Store.release]
  | pass time => simp [Memory.step, Memory.advance]

/-- The data of a store cannot be locked exactly if a call was abandoned while it
held them. -/
theorem poisoned_after
    (now : Nat)
    (moves : List Move) :
    (Memory.after now moves).poisoned = true ↔
      ∃ before call rest, moves = before ++ .call call :: rest ∧
        call.Breaks (Memory.after now before) := by
  induction moves using List.reverseRecOn with
  | nil =>
      constructor
      · intro h
        exact absurd h Bool.false_ne_true
      · rintro ⟨before, call, rest, h, -⟩
        exact absurd h (by simp)
  | append_singleton moves move ih =>
      rw [Memory.after_concat, poisoned_step]
      constructor
      · rintro (h | ⟨call, rfl, hbreaks⟩)
        · obtain ⟨before, call, rest, rfl, hbreaks⟩ := ih.1 h
          exact ⟨before, call, rest ++ [move], by simp, hbreaks⟩
        · exact ⟨moves, call, [], rfl, hbreaks⟩
      · rintro ⟨before, call, rest, hmoves, hbreaks⟩
        rcases rest.eq_nil_or_concat with rfl | ⟨rest, last, rfl⟩
        · obtain ⟨rfl, hmove⟩ := List.append_inj' hmoves rfl
          exact Or.inr ⟨call, by simpa using hmove, hbreaks⟩
        · refine Or.inl (ih.2 ⟨before, call, rest, ?_, hbreaks⟩)
          have hsplit : moves ++ [move] = (before ++ .call call :: rest) ++ [last] := by
            simpa using hmoves
          exact (List.append_inj' hsplit rfl).1

/-- **A store stays usable as long as no value is to live beyond the clock.**  After
every run from its beginning, setting a value, setting one where there is none and
waiting for an entry return exactly if the data can be locked and the deadline, where
one is needed, can be counted.  The data cannot be locked exactly if a call before was
abandoned while it held them, which is a set with a time to live that ends beyond the
last instant of the clock; and then every call on the data is refused, apart from a
pop that is abandoned before it comes so far. -/
theorem usable_within_clock
    (now : Nat)
    (moves : List Move) :
    let m := Memory.after now moves
    (∀ key value ttl,
      (m.set key value ttl).1 = .ok () ↔ m.poisoned = false ∧ ¬ LivesBeyond ttl m.clock) ∧
    (∀ key value ttl,
      (∃ set, (m.setIfAbsent key value ttl).1 = .ok set) ↔
        m.poisoned = false ∧
          ((m.data.contains m.clock key).1 = true ∨ ¬ LivesBeyond ttl m.clock)) ∧
    (∀ key wait,
      (∃ entry, (m.blockingPopBack key wait).1 = .ok entry) ↔
        m.poisoned = false ∧ ¬ wait.Beyond m.clock) ∧
    (m.poisoned = true ↔
      ∃ before call rest, moves = before ++ .call call :: rest ∧
        call.Breaks (Memory.after now before)) ∧
    ∀ call : Call,
      (m.perform call).1 = .error Memory.lockPoisoned ↔
        m.poisoned = true ∧ call.OnData ∧ ¬ call.WaitsBeyond m := by
  intro m
  exact ⟨Call.set_returns_iff m, Call.setIfAbsent_returns_iff m,
    Call.blockingPopBack_returns_iff m, poisoned_after now moves, Call.refused_iff m⟩

/-- The longest whole number of seconds. -/
def longestSecs : Duration :=
  .ofSecs 0xFFFFFFFFFFFFFFFF

/-- A value that is to live for the longest time is not set, and then nothing can be
pushed or read any more; a wait as long is abandoned, too. -/
theorem long_life_disables_store :
    let m := Memory.after 0 [.call (.set "k" [0x76] (some longestSecs))]
    ((Memory.after 0 []).set "k" [0x76] (some longestSecs)).1 = .error .deadlineOverflow ∧
      ((Memory.after 0 []).setIfAbsent "k" [0x76] (some longestSecs)).1 =
        .error .deadlineOverflow ∧
      ((Memory.after 0 []).blockingPopBack "q" longestSecs).1 = .error .deadlineOverflow ∧
      (m.pushFront "q" [0x78]).1 = .error Memory.lockPoisoned ∧
      (m.get "k").1 = .error Memory.lockPoisoned := by
  decide

end Store
end Courier
