import Courier.Proofs.Queue.Interleaving

/-!
# Clients that wait for a job

A pop that is given time does not hold the store while it waits.  It fixes its
deadline, looks for an entry, and looks again whenever it wakes, until it finds
one or its deadline has passed; between two looks the others may do anything.
Beginning to wait and each look are therefore actions of their own, beside
those of clients that do not wait, the clearing of a queue, and the passing of
time.

**Results.**
* `Crowd.step`, `Crowd.run`: one move and a sequence of them.
* `Crowd.report`: what a move lets a pop report.
* `Crowd.Sound.step`, `Crowd.Sound.run`: the data can be locked after every move.
* `Crowd.Sound.pop_eq`: waiting while nobody else moves is a pop.
-/

namespace Courier
namespace Queue

theorem deadline_eq
    {now deadline : Nat}
    {wait : Duration}
    (hwait : wait.isZero = false)
    (hd : deadline? now wait = some deadline) :
    deadline = now + wait.nanos ∧ now < deadline := by
  have hpos : wait.nanos ≠ 0 := by simpa [Duration.isZero] using hwait
  rw [deadline?] at hd
  split at hd
  · obtain rfl : now + wait.nanos = deadline := by simpa using hd
    exact ⟨rfl, by omega⟩
  · exact absurd hd (by simp)

/-- A client that waits for a job of a queue until an instant. -/
structure Waiter where
  client : Nat
  queue : String
  deadline : Nat

/-- A move of one of many clients, some of which wait. -/
inductive Move where
  | act (a : Action)
  | clear (queue : String)
  | await (client : Nat) (queue : String) (wait : Duration)
  | look (client : Nat)
  | pass (time : Duration)

/-- Clients of one store, and those of them that wait. -/
structure Crowd where
  clients : Clients
  waiters : List Waiter

namespace Crowd

def start (clock : Nat) : Crowd := ⟨.start clock, []⟩

def store (s : Crowd) : Memory :=
  s.clients.store

def live (s : Crowd) (queue : String) : List Bytes :=
  s.clients.live queue

def waiter (s : Crowd) (client : Nat) : Option Waiter :=
  s.waiters.find? fun w => w.client = client

def otherWaiters (s : Crowd) (client : Nat) : List Waiter :=
  s.waiters.filter fun w => w.client ≠ client

/-- The same clients in front of another state of the store. -/
def withStore (s : Crowd) (m : Memory) : Crowd :=
  { s with clients := { s.clients with store := m } }

/-- What a client that waits reports when it looks; nothing while it goes on waiting. -/
def found (s : Crowd) (w : Waiter) : Option (Except QueueError (Option Job)) :=
  match (s.store.popBack w.queue).1 with
  | .ok (some entry) => some (popped (some entry))
  | .ok none => if w.deadline ≤ s.store.clock then some (.ok none) else none
  | .error e => some (.error (.store e))

/-- The effect of a move. -/
def step (s : Crowd) : Move → Crowd
  | .act a => { s with clients := s.clients.step a }
  | .clear queue => s.withStore (answer (Queue.clear queue) s.store).2
  | .await client queue wait =>
      match deadline? s.store.clock wait with
      | none => s
      | some deadline => { s with waiters := ⟨client, queue, deadline⟩ :: s.otherWaiters client }
  | .look client =>
      match s.waiter client with
      | none => s
      | some w =>
          { s.withStore (s.store.popBack w.queue).2 with
            waiters := if s.found w = none then s.waiters else s.otherWaiters client }
  | .pass time => s.withStore (s.store.advance time)

def run (s : Crowd) (moves : List Move) : Crowd :=
  moves.foldl step s

/-- The queue of the pop that a move ends, and what that pop reports. -/
def report (s : Crowd) : Move → Option (String × Except QueueError (Option Job))
  | .act (.pop queue wait) => some (queue, (answer (Queue.pop queue wait) s.store).1)
  | .act (.popNonBlocking queue) => some (queue, (answer (Queue.popNonBlocking queue) s.store).1)
  | .await _ queue wait =>
      if deadline? s.store.clock wait = none then some (queue, .error (.store .deadlineOverflow))
      else none
  | .look client => (s.waiter client).bind fun w => (s.found w).map fun r => (w.queue, r)
  | _ => none

@[simp] theorem run_nil
    (s : Crowd) :
    s.run [] = s := rfl

@[simp] theorem run_cons
    (s : Crowd)
    (m : Move)
    (moves : List Move) :
    s.run (m :: moves) = (s.step m).run moves := rfl

theorem run_append
    (s : Crowd)
    (before after : List Move) :
    s.run (before ++ after) = (s.run before).run after := by
  simp [run, List.foldl_append]

def Sound (s : Crowd) : Prop :=
  s.clients.Sound

theorem sound_start
    (clock : Nat) :
    (start clock).Sound :=
  Clients.sound_start clock

namespace Sound

variable {s : Crowd} (hs : s.Sound)
include hs

theorem unlocked :
    s.store.poisoned = false :=
  hs.not_poisoned

theorem withStore
    {m : Memory}
    (hp : m.poisoned = false)
    (hn : ∀ key, (m.data.sortedSet key).members.Nodup) :
    (s.withStore m).Sound where
  not_poisoned := hp
  nodup_members := hn
  nodup_entries := hs.nodup_entries

theorem popBack
    (queue : String) :
    (s.store.popBack queue) =
      (.ok (s.live queue).getLast?, { s.store with data := (s.store.data.popBack queue).2 }) :=
  Memory.popBack_eq hs.unlocked queue

theorem found_of_entry
    {w : Waiter}
    {entry : Bytes}
    (hl : (s.live w.queue).getLast? = some entry) :
    s.found w = some (popped (some entry)) := by
  rw [found, hs.popBack, hl]

theorem found_early
    {w : Waiter}
    (hl : (s.live w.queue).getLast? = none)
    (hw : s.store.clock < w.deadline) :
    s.found w = none := by
  rw [found, hs.popBack, hl]
  exact if_neg (Nat.not_le.2 hw)

theorem found_late
    {w : Waiter}
    (hl : (s.live w.queue).getLast? = none)
    (hw : w.deadline ≤ s.store.clock) :
    s.found w = some (.ok none) := by
  rw [found, hs.popBack, hl]
  exact if_pos hw

theorem step
    (m : Move) :
    (s.step m).Sound := by
  cases m with
  | act a => exact Clients.Sound.step hs a
  | clear queue =>
      rw [Crowd.step, clear_answer hs.unlocked]
      refine hs.withStore hs.unlocked fun key => ?_
      rw [Data.sortedSet_remove]
      split
      · exact List.nodup_nil
      · exact hs.nodup_members key
  | await client queue wait =>
      rw [Crowd.step]
      cases deadline? s.store.clock wait with
      | none => exact hs
      | some deadline => exact hs
  | look client =>
      rw [Crowd.step]
      cases s.waiter client with
      | none => exact hs
      | some w =>
          simp only [hs.popBack]
          refine hs.withStore hs.unlocked fun key => ?_
          rw [Data.sortedSet_popBack]
          exact hs.nodup_members key
  | pass time => exact hs.withStore hs.unlocked hs.nodup_members

theorem run
    (moves : List Move) :
    (s.run moves).Sound := by
  induction moves generalizing s with
  | nil => exact hs
  | cons m moves ih => exact ih (hs.step m)

omit hs in
theorem step_await
    {queue : String}
    {wait : Duration}
    {deadline : Nat}
    (hd : deadline? s.store.clock wait = some deadline)
    (client : Nat) :
    s.step (.await client queue wait) =
      { s with waiters := ⟨client, queue, deadline⟩ :: s.otherWaiters client } := by
  rw [Crowd.step, hd]

theorem step_look
    {client : Nat}
    {w : Waiter}
    (hw : s.waiter client = some w) :
    s.step (.look client) =
      { s.withStore { s.store with data := (s.store.data.popBack w.queue).2 } with
        waiters := if s.found w = none then s.waiters else s.otherWaiters client } := by
  simp only [Crowd.step, hw, hs.popBack]

omit hs in
theorem report_look
    {client : Nat}
    {w : Waiter}
    (hw : s.waiter client = some w) :
    s.report (.look client) = (s.found w).map fun r => (w.queue, r) := by
  rw [report, hw, Option.bind_some]

theorem pop_eq_of_entry
    {queue : String}
    {wait : Duration}
    {deadline : Nat}
    {entry : Bytes}
    (hwait : wait.isZero = false)
    (hd : deadline? s.store.clock wait = some deadline)
    (hl : (s.live queue).getLast? = some entry)
    (client : Nat) :
    (s.run [.await client queue wait, .look client]).store =
        (answer (Queue.pop queue wait) s.store).2 ∧
      (s.run [.await client queue wait]).report (.look client) =
        some (queue, (answer (Queue.pop queue wait) s.store).1) := by
  let w : Waiter := ⟨client, queue, deadline⟩
  let t : Crowd := { s with waiters := w :: s.otherWaiters client }
  have ht : t.Sound := hs
  have hstep : s.step (.await client queue wait) = t := step_await hd client
  have hw : t.waiter client = some w := List.find?_cons_of_pos (by simp [w])
  have hpop := waitingPop_answer hs.unlocked queue hwait
  rw [hd] at hpop
  simp only at hpop
  have hne : s.store.data.list queue ≠ [] := by
    intro hnil
    rw [show s.live queue = [] from hnil] at hl
    exact absurd hl (by simp)
  constructor
  · rw [run_cons, run_cons, run_nil, hstep, ht.step_look hw, hpop, if_neg hne]
    rfl
  · rw [run_cons, run_nil, hstep, report_look hw, ht.found_of_entry (w := w) hl, hpop]
    show _ = some (queue, popped (s.live queue).getLast?)
    rw [hl]
    rfl

theorem pop_eq_of_empty
    {queue : String}
    {wait : Duration}
    {deadline : Nat}
    (hwait : wait.isZero = false)
    (hd : deadline? s.store.clock wait = some deadline)
    (hl : (s.live queue).getLast? = none)
    (client : Nat) :
    (s.run [.await client queue wait, .look client, .pass wait, .look client]).store =
        (answer (Queue.pop queue wait) s.store).2 ∧
      (s.run [.await client queue wait, .look client, .pass wait]).report (.look client) =
        some (queue, (answer (Queue.pop queue wait) s.store).1) := by
  obtain ⟨hend, hlater⟩ := deadline_eq hwait hd
  let w : Waiter := ⟨client, queue, deadline⟩
  let t : Crowd := { s with waiters := w :: s.otherWaiters client }
  let u : Crowd := t.withStore { s.store with data := (s.store.data.popBack queue).2 }
  let v : Crowd := u.withStore (u.store.advance wait)
  have ht : t.Sound := hs
  have hw : t.waiter client = some w := List.find?_cons_of_pos (by simp [w])
  have hawait : s.step (.await client queue wait) = t := step_await hd client
  -- The first look finds nothing; the second comes when the deadline has passed.
  have hlook : t.step (.look client) = u := by
    rw [ht.step_look hw, ht.found_early (w := w) hl hlater, if_pos rfl]
    rfl
  have hrun : s.run [.await client queue wait, .look client, .pass wait] = v := by
    rw [run_cons, run_cons, run_cons, run_nil, hawait, hlook]
    rfl
  have hv : v.Sound := hrun ▸ hs.run _
  have hnil : s.store.data.list queue = [] := List.getLast?_eq_none_iff.1 hl
  have hwv : v.waiter client = some w := hw
  have hlate : v.found w = some (.ok none) := by
    refine hv.found_late ?_ (Nat.le_of_eq hend)
    show ((s.store.data.popBack queue).2.list queue).getLast? = none
    rw [Data.list_popBack, if_pos rfl, hnil]
    rfl
  have hpop := waitingPop_answer hs.unlocked queue hwait
  rw [hd] at hpop
  simp only at hpop
  constructor
  · rw [show [Move.await client queue wait, .look client, .pass wait, .look client] =
        [.await client queue wait, .look client, .pass wait] ++ [.look client] from rfl,
      run_append, hrun, run_cons, run_nil, hv.step_look hwv, hpop, if_pos hnil,
      Nat.max_eq_right (Nat.le_of_lt hlater), hend]
    show { v.store with data := ((s.store.data.popBack queue).2.popBack queue).2 } = _
    rw [Data.popBack_popBack_of_nil hnil]
    rfl
  · rw [hrun, report_look hwv, hlate, hpop]
    show _ = some (queue, popped (s.live queue).getLast?)
    rw [hl]
    rfl

/-- A client that waits while nobody else moves does what a pop does: it takes what is
there at once, and otherwise reports that there is no job when its time is over. -/
theorem pop_eq
    {queue : String}
    {wait : Duration}
    {deadline : Nat}
    (hwait : wait.isZero = false)
    (hd : deadline? s.store.clock wait = some deadline)
    (client : Nat) :
    ∃ moves,
      (moves = [.await client queue wait] ∨
        moves = [.await client queue wait, .look client, .pass wait]) ∧
      (s.run (moves ++ [.look client])).store = (answer (Queue.pop queue wait) s.store).2 ∧
      (s.run moves).report (.look client) =
        some (queue, (answer (Queue.pop queue wait) s.store).1) := by
  cases hl : (s.live queue).getLast? with
  | some entry => exact ⟨_, Or.inl rfl, hs.pop_eq_of_entry hwait hd hl client⟩
  | none => exact ⟨_, Or.inr rfl, hs.pop_eq_of_empty hwait hd hl client⟩

end Sound
end Crowd
end Queue
end Courier
