import Courier.Proofs.Store.Calls
import Courier.Queue.Basic

/-!
# What calls to a queue do to an in-memory store

While the data can be locked, every call to a queue answers from the list or the
sorted set of its queue and changes nothing else.  Its answer and its effect are
given here in terms of the data, so that runs of many clients need not open the
calls again.

**Results.**
* `answer_bind`, `answer_onStore`: how the answers of calls compose.
* `push_run`, `pushDelayedAt_run`: a job that is put on a queue or scheduled.
* `popNonBlocking_answer`, `pop_answer`: a job that is taken.
* `readReady_answer`, `moveReady_answer`: the two steps of a promotion.
* `promote_answer`: a promotion is its two steps, nothing happening between them.
* `size_answer`, `clear_answer`: the live queue as a whole; `delayedSize_answer`,
  `clearDelayed_answer` for the jobs that wait for their time.
* `pop_of_poisoned`, `popNonBlocking_of_poisoned`: where the data cannot be locked.
-/

namespace Courier

namespace Queue

variable {σ α β : Type}

/-- What a call to a queue answers in a store, and the store after it. -/
def answer (call : QueueM σ α) (s : σ) : Except QueueError α × σ :=
  ExceptT.run call s

theorem answer_bind
    (call : QueueM σ α)
    (next : α → QueueM σ β)
    (s : σ) :
    answer (call >>= next) s =
      match answer call s with
      | (.ok a, t) => answer (next a) t
      | (.error e, t) => (.error e, t) := by
  simp only [answer, ExceptT.run, bind, ExceptT.bind, ExceptT.mk, StateT.bind]
  rcases call s with ⟨r, t⟩
  cases r with
  | ok a => rfl
  | error e => rfl

theorem answer_pure
    (a : α)
    (s : σ) :
    answer (pure a : QueueM σ α) s = (.ok a, s) := rfl

theorem answer_onStore
    (call : StoreM σ α)
    (s : σ) :
    answer (onStore call) s = ((call.answer s).1.mapError .store, (call.answer s).2) := by
  show (StateT.map (Except.mapError QueueError.store)
    (call : StateM σ (Except StoreError α))) s = _
  simp only [StateT.map, StoreM.answer, ExceptT.run, bind, pure]
  rfl

theorem answer_onCodec
    (r : Except CodecError α)
    (s : σ) :
    answer (onCodec r) s = (r.mapError .serialization, s) := rfl

/-- What a pop answers for the entry that it took. -/
def popped : Option Bytes → Except QueueError (Option Job)
  | none => .ok none
  | some bytes =>
      match Codec.decode (α := Job) Job.kind bytes with
      | .ok job => .ok (some job)
      | .error e => .error (.serialization e)

theorem answer_decodePopped
    (entry : Option Bytes)
    (s : σ) :
    answer (decodePopped entry) s = (popped entry, s) := by
  cases entry with
  | none => rfl
  | some bytes =>
      rw [decodePopped, answer_bind, answer_onCodec, popped]
      cases Codec.decode (α := Job) Job.kind bytes with
      | ok job => rfl
      | error e => rfl

theorem applyAll_moves_cons
    (d : Data)
    (queue : String)
    (entry : Bytes)
    (ready : List Bytes) :
    d.applyAll (moves queue (entry :: ready)) =
      ((d.pushFront queue entry).sortedRemove (delayedKey queue) entry).2.applyAll
        (moves queue ready) := rfl

theorem list_applyAll_moves
    (d : Data)
    (queue l : String)
    (ready : List Bytes) :
    (d.applyAll (moves queue ready)).list l =
      if queue = l then ready.reverse ++ d.list l else d.list l := by
  induction ready generalizing d with
  | nil => simp [Data.applyAll, moves]
  | cons entry ready ih =>
      rw [applyAll_moves_cons, ih, Data.list_sortedRemove, Data.list_pushFront]
      split
      · simp
      · rfl

theorem sortedSet_applyAll_moves
    (d : Data)
    (queue l : String)
    (ready : List Bytes) :
    (d.applyAll (moves queue ready)).sortedSet l =
      if delayedKey queue = l then (d.sortedSet l).filter (fun e => e.2 ∉ ready)
      else d.sortedSet l := by
  induction ready generalizing d with
  | nil => simp [Data.applyAll, moves]
  | cons entry ready ih =>
      rw [applyAll_moves_cons, ih, Data.sortedSet_sortedRemove, Data.sortedSet_pushFront]
      split
      · simp only [SortedSet.remove, List.filter_filter, List.mem_cons, not_or]
        congr 1
        funext e
        simp [Bool.and_comm]
      · rfl

theorem delayedKey_inj
    {q r : String} :
    delayedKey q = delayedKey r ↔ q = r := by
  constructor
  · intro h
    have hl := congrArg String.toList h
    simp only [delayedKey, String.toList_append] at hl
    exact String.toList_inj.1 (List.append_cancel_right hl)
  · rintro rfl
    rfl

section Poisoned

variable {m : Memory} (h : m.poisoned = true)
include h

theorem popNonBlocking_of_poisoned
    (queue : String) :
    (answer (popNonBlocking queue) m).2 = m := by
  have hcall : (Store.popBack queue : StoreM Memory (Option Bytes)).answer m =
      m.popBack queue := rfl
  rw [popNonBlocking, answer_bind, answer_onStore, hcall, Memory.popBack_of_poisoned h]
  rfl

theorem pop_of_poisoned
    (queue : String)
    (wait : Duration) :
    (answer (pop queue wait) m).2 = m := by
  cases hwait : wait.isZero with
  | true =>
      simp only [pop, hwait, if_true]
      exact popNonBlocking_of_poisoned h queue
  | false =>
      have hcall : (Store.blockingPopBack queue wait : StoreM Memory (Option Bytes)).answer m =
          m.blockingPopBack queue wait := rfl
      simp only [pop, hwait, Bool.false_eq_true, if_false]
      rw [answer_bind, answer_onStore, hcall, Memory.blockingPopBack_of_poisoned h]
      rfl

end Poisoned

section Memory

variable {m : Memory} (h : m.poisoned = false)
include h

theorem push_run
    (queue : String)
    (job : Job)
    (fresh : String)
    (now : Calendar.Timestamp) :
    (push queue job fresh now).run m =
      ((.ok (), job.ensureDefaults fresh now),
        { m with
          data := m.data.pushFront queue (job.ensureDefaults fresh now).write }) := by
  cases m
  simp only at h
  subst h
  rfl

theorem pushDelayedAt_run
    (queue : String)
    (job : Job)
    (readyAt : Calendar.Timestamp)
    (fresh : String)
    (now : Calendar.Timestamp) :
    (pushDelayedAt queue job readyAt fresh now).run m =
      ((.ok (), job.ensureDefaults fresh now),
        { m with
          data := m.data.sortedAdd (delayedKey queue)
            (job.ensureDefaults fresh now).write (readyScore readyAt) }) := by
  cases m
  simp only at h
  subst h
  rfl

theorem popNonBlocking_answer
    (queue : String) :
    answer (popNonBlocking queue) m =
      (popped (m.data.list queue).getLast?,
        { m with data := (m.data.popBack queue).2 }) := by
  have hcall : (Store.popBack queue : StoreM Memory (Option Bytes)).answer m =
      m.popBack queue := rfl
  rw [popNonBlocking, answer_bind, answer_onStore, hcall, Memory.popBack_eq h]
  exact answer_decodePopped _ _

/-- What a pop with a wait answers where the store has to be waited for. -/
theorem waitingPop_answer
    (queue : String)
    {wait : Duration}
    (hwait : wait.isZero = false) :
    answer (pop queue wait) m =
      match deadline? m.clock wait with
      | none => (.error (.store .deadlineOverflow), m)
      | some deadline =>
          (popped (m.data.list queue).getLast?,
            { m with
              data := (m.data.popBack queue).2
              clock := if m.data.list queue = [] then max m.clock deadline else m.clock }) := by
  have hcall : (Store.blockingPopBack queue wait : StoreM Memory (Option Bytes)).answer m =
      m.blockingPopBack queue wait := rfl
  simp only [pop, hwait, Bool.false_eq_true, if_false]
  rw [answer_bind, answer_onStore, hcall]
  cases hd : deadline? m.clock wait with
  | none =>
      rw [Memory.blockingPopBack_overflow hd]
      rfl
  | some deadline =>
      rw [Memory.blockingPopBack_eq h hd]
      exact answer_decodePopped _ _

theorem pop_zero_answer
    (queue : String)
    {wait : Duration}
    (hwait : wait.isZero = true) :
    answer (pop queue wait) m =
      (popped (m.data.list queue).getLast?,
        { m with data := (m.data.popBack queue).2 }) := by
  simp only [pop, hwait, if_true]
  exact popNonBlocking_answer h queue

/-- A pop that waits takes what is there at once.  It takes nothing and fails if
the end of its wait cannot be counted, and answers that there is no job once it
has waited in vain. -/
theorem pop_answer
    (queue : String)
    (wait : Duration) :
    ∃ clock,
      answer (pop queue wait) m =
        if wait.isZero = false ∧ deadline? m.clock wait = none then
          (.error (.store .deadlineOverflow), m)
        else
          (popped (m.data.list queue).getLast?,
            { m with data := (m.data.popBack queue).2, clock }) := by
  cases hwait : wait.isZero with
  | true =>
      refine ⟨m.clock, ?_⟩
      rw [pop_zero_answer h queue hwait, if_neg (by simp)]
  | false =>
      rw [waitingPop_answer h queue hwait]
      cases hd : deadline? m.clock wait with
      | none =>
          refine ⟨m.clock, ?_⟩
          rw [if_pos ⟨rfl, rfl⟩]
      | some deadline =>
          refine ⟨if m.data.list queue = [] then max m.clock deadline else m.clock, ?_⟩
          rw [if_neg (by simp)]

theorem readReady_answer
    (queue : String)
    (now : Calendar.Timestamp) :
    answer (readReady queue now) m =
      (.ok ((m.data.sortedSet (delayedKey queue)).range .negInfinity (readyScore now)), m) := by
  cases m
  simp only at h
  subst h
  rfl

theorem moveReady_answer
    (queue : String)
    (ready : List Bytes) :
    answer (moveReady queue ready) m =
      (.ok (), { m with data := m.data.applyAll (moves queue ready) }) := by
  cases m
  simp only at h
  subst h
  rfl

theorem promote_answer
    (queue : String)
    (now : Calendar.Timestamp) :
    let ready := (m.data.sortedSet (delayedKey queue)).range .negInfinity (readyScore now)
    answer (promote queue now) m =
      (.ok ready.length, { m with data := m.data.applyAll (moves queue ready) }) := by
  intro ready
  rw [promote, answer_bind, readReady_answer h]
  show answer (if ready = [] then pure 0 else _) m = _
  split
  · next hr =>
      rw [hr, answer_pure]
      rfl
  · rw [answer_bind, moveReady_answer h]
    rfl

theorem size_answer
    (queue : String) :
    answer (size queue) m = (.ok (m.data.list queue).length, m) := by
  cases m
  simp only at h
  subst h
  rfl

theorem delayedSize_answer
    (queue : String) :
    answer (delayedSize queue) m =
      (.ok (m.data.sortedSet (delayedKey queue)).length, m) := by
  cases m
  simp only at h
  subst h
  rfl

theorem clear_answer
    (queue : String) :
    answer (clear queue) m =
      (.ok (), { m with data := (m.data.remove m.clock queue).2 }) := by
  cases m
  simp only at h
  subst h
  rfl

theorem clearDelayed_answer
    (queue : String) :
    answer (clearDelayed queue) m =
      (.ok (), { m with data := (m.data.remove m.clock (delayedKey queue)).2 }) := by
  cases m
  simp only at h
  subst h
  rfl

end Memory
end Queue
end Courier
