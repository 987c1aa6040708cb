import Courier.Proofs.Queue.Effect

/-!
# Calls on one queue and the entries of another

The jobs of a queue that wait for their time are kept under a key that is the
name of the queue with a suffix, and that key is itself a name that a queue may
have.  Most calls touch only the list of their queue or only the sorted set
beside it, so that a queue of that name takes no notice.  The two calls that
drop jobs remove a key of any kind, and with it what another queue keeps there.

**Results.**
* `Call.run`, `Call.deletes`: the calls, and the key that a call removes.
* `Call.liveEntries_run`, `Call.delayedEntries_run`: what a call leaves of another queue.
* `calls_disturb_only_by_deleting`: both, in every state of the store.
* `clearing_disturbs_other_queue`: queues that do disturb each other.
-/

namespace Courier
namespace Queue

/-- A call on a queue whose name is given apart. -/
inductive Call where
  | push (job : Job) (fresh : String) (now : Calendar.Timestamp)
  | pop (wait : Duration)
  | popNonBlocking
  | size
  | clear
  | schedule (job : Job) (readyAt : Calendar.Timestamp) (fresh : String)
      (now : Calendar.Timestamp)
  | promote (now : Calendar.Timestamp)
  | delayedSize
  | clearDelayed

/-- The live entries of a queue from front to back. -/
def liveEntries (m : Memory) (queue : String) : List Bytes :=
  m.data.list queue

/-- The delayed entries of a queue with their scores. -/
def delayedEntries (m : Memory) (queue : String) : SortedSet :=
  m.data.sortedSet (delayedKey queue)

namespace Call

/-- The store after a call on a queue. -/
def run (queue : String) (m : Memory) : Call → Memory
  | push job fresh now => ((Queue.push queue job fresh now).run m).2
  | pop wait => (answer (Queue.pop queue wait) m).2
  | popNonBlocking => (answer (Queue.popNonBlocking queue) m).2
  | size => (answer (Queue.size queue) m).2
  | clear => (answer (Queue.clear queue) m).2
  | schedule job readyAt fresh now => ((pushDelayedAt queue job readyAt fresh now).run m).2
  | promote now => (answer (Queue.promote queue now) m).2
  | delayedSize => (answer (Queue.delayedSize queue) m).2
  | clearDelayed => (answer (Queue.clearDelayed queue) m).2

/-- The key that a call removes, whatever is kept under it. -/
def deletes (queue : String) : Call → Option String
  | clear => some queue
  | clearDelayed => some (delayedKey queue)
  | _ => none

theorem run_of_poisoned
    {m : Memory}
    (h : m.poisoned = true)
    (queue : String)
    (call : Call) :
    call.run queue m = m := by
  cases call with
  | pop wait => exact pop_of_poisoned h queue wait
  | popNonBlocking => exact popNonBlocking_of_poisoned h queue
  | _ =>
      cases m
      simp only at h
      subst h
      rfl

section Unlocked

variable {m : Memory} (h : m.poisoned = false)
include h

/-- The live entries of another queue stay, unless their key is removed. -/
theorem liveEntries_run
    {queue other : String}
    (hother : queue ≠ other)
    (call : Call) :
    liveEntries (call.run queue m) other =
      if call.deletes queue = some other then [] else liveEntries m other := by
  cases call with
  | push job fresh now =>
      simp only [run, push_run h, liveEntries, Data.list_pushFront, hother, deletes, reduceCtorEq,
        if_false]
  | pop wait =>
      obtain ⟨clock, hanswer⟩ := pop_answer h queue wait
      simp only [run, hanswer, deletes, reduceCtorEq, if_false]
      split
      · rfl
      · simp only [liveEntries, Data.list_popBack, hother, if_false]
  | popNonBlocking =>
      simp only [run, popNonBlocking_answer h, liveEntries, Data.list_popBack, hother, deletes,
        reduceCtorEq, if_false]
  | size =>
      simp only [run, size_answer h, deletes, reduceCtorEq, if_false]
  | clear =>
      simp only [run, clear_answer h, liveEntries, Data.list_remove, deletes, Option.some.injEq]
  | schedule job readyAt fresh now =>
      simp only [run, pushDelayedAt_run h, liveEntries, Data.list_sortedAdd, deletes, reduceCtorEq,
        if_false]
  | promote now =>
      simp only [run, promote_answer h, liveEntries, list_applyAll_moves, hother, deletes,
        reduceCtorEq, if_false]
  | delayedSize =>
      simp only [run, delayedSize_answer h, deletes, reduceCtorEq, if_false]
  | clearDelayed =>
      simp only [run, clearDelayed_answer h, liveEntries, Data.list_remove, deletes,
        Option.some.injEq]

/-- The delayed entries of another queue stay, unless their key is removed. -/
theorem delayedEntries_run
    {queue other : String}
    (hother : queue ≠ other)
    (call : Call) :
    delayedEntries (call.run queue m) other =
      if call.deletes queue = some (delayedKey other) then [] else delayedEntries m other := by
  have hkeys : ¬ delayedKey queue = delayedKey other := fun hk => hother (delayedKey_inj.1 hk)
  cases call with
  | push job fresh now =>
      simp only [run, push_run h, delayedEntries, Data.sortedSet_pushFront, deletes, reduceCtorEq,
        if_false]
  | pop wait =>
      obtain ⟨clock, hanswer⟩ := pop_answer h queue wait
      simp only [run, hanswer, deletes, reduceCtorEq, if_false]
      split
      · rfl
      · simp only [delayedEntries, Data.sortedSet_popBack]
  | popNonBlocking =>
      simp only [run, popNonBlocking_answer h, delayedEntries, Data.sortedSet_popBack, deletes,
        reduceCtorEq, if_false]
  | size =>
      simp only [run, size_answer h, deletes, reduceCtorEq, if_false]
  | clear =>
      simp only [run, clear_answer h, delayedEntries, Data.sortedSet_remove, deletes,
        Option.some.injEq]
  | schedule job readyAt fresh now =>
      simp only [run, pushDelayedAt_run h, delayedEntries, Data.sortedSet_sortedAdd, hkeys, deletes,
        reduceCtorEq, if_false]
  | promote now =>
      simp only [run, promote_answer h, delayedEntries, sortedSet_applyAll_moves, hkeys, deletes,
        reduceCtorEq, if_false]
  | delayedSize =>
      simp only [run, delayedSize_answer h, deletes, reduceCtorEq, if_false]
  | clearDelayed =>
      simp only [run, clearDelayed_answer h, delayedEntries, Data.sortedSet_remove, deletes,
        Option.some.injEq]

end Unlocked
end Call

/-- **Calls on one queue disturb another one only by removing its key.**  In every
state of the store, two calls apart, the live entries and the delayed entries of
another queue are the same before and after.  Dropping the live jobs of a queue
whose name is the delayed key of another drops the delayed jobs of that one, and
dropping the delayed jobs of a queue drops the live jobs of the queue whose name
is its delayed key; nothing else is lost, and nothing where the data cannot be
locked. -/
theorem calls_disturb_only_by_deleting
    (m : Memory)
    (queue other : String)
    (hother : queue ≠ other)
    (call : Call) :
    liveEntries (call.run queue m) other =
        (if call.deletes queue = some other ∧ m.poisoned = false then []
          else liveEntries m other) ∧
      delayedEntries (call.run queue m) other =
        (if call.deletes queue = some (delayedKey other) ∧ m.poisoned = false then []
          else delayedEntries m other) := by
  cases h : m.poisoned with
  | true => simp [Call.run_of_poisoned h]
  | false =>
      rw [Call.liveEntries_run h hother, Call.delayedEntries_run h hother]
      simp

/-- A job with an identifier and a creation time. -/
def reminder : Job :=
  { id := "j", type := "t", payload := .empty, createdAt := some .min, retries := 0 }

/-- A store in which a job of the queue `jobs` waits for its time. -/
def waiting : Memory :=
  Call.run "jobs" (.empty 0) (.schedule reminder .max "" .min)

theorem waiting_not_poisoned :
    waiting.poisoned = false := rfl

theorem delayedEntries_waiting :
    delayedEntries waiting "jobs" = [(readyScore .max, reminder.write)] := by
  rw [waiting, delayedEntries, Call.run, pushDelayedAt_run rfl, Data.sortedSet_sortedAdd,
    if_pos rfl]
  rfl

/-- A push on the queue whose name is the delayed key of another one disturbs neither
of them. -/
theorem push_on_delayedKey_keeps_waiting :
    "jobs:delayed" ≠ "jobs" ∧
      delayedEntries (Call.run "jobs:delayed" waiting (.push reminder "" .min)) "jobs" =
        [(readyScore .max, reminder.write)] := by
  have hne : "jobs:delayed" ≠ "jobs" := by decide
  obtain ⟨_, hdelayed⟩ :=
    calls_disturb_only_by_deleting waiting "jobs:delayed" "jobs" hne (.push reminder "" .min)
  rw [if_neg (by simp [Call.deletes]), delayedEntries_waiting] at hdelayed
  exact ⟨hne, hdelayed⟩

/-- Dropping the live jobs of the queue `jobs:delayed` drops the job of the queue
`jobs` that waits for its time, and dropping the delayed jobs of `jobs` drops the
live job of `jobs:delayed`. -/
theorem clearing_disturbs_other_queue :
    "jobs:delayed" ≠ "jobs" ∧
      delayedEntries waiting "jobs" ≠ [] ∧
      delayedEntries (Call.run "jobs:delayed" waiting .clear) "jobs" = [] ∧
      liveEntries (Call.run "jobs:delayed" (.empty 0) (.push reminder "" .min))
        "jobs:delayed" ≠ [] ∧
      liveEntries (Call.run "jobs" (Call.run "jobs:delayed" (.empty 0) (.push reminder "" .min))
        .clearDelayed) "jobs:delayed" = [] := by
  have hne : "jobs:delayed" ≠ "jobs" := by decide
  have hkey : delayedKey "jobs" = "jobs:delayed" := by decide
  refine ⟨hne, ?_, ?_, ?_, ?_⟩
  · rw [delayedEntries_waiting]
    exact List.cons_ne_nil _ _
  · rw [Call.delayedEntries_run waiting_not_poisoned hne, Call.deletes, hkey, if_pos rfl]
  · rw [liveEntries, Call.run, push_run rfl, Data.list_pushFront, if_pos rfl]
    exact List.cons_ne_nil _ _
  · have hpushed :
        (Call.run "jobs:delayed" (.empty 0) (.push reminder "" .min)).poisoned = false := rfl
    rw [Call.liveEntries_run hpushed hne.symm, Call.deletes, hkey, if_pos rfl]

end Queue
end Courier
