import Courier.Binary64.Round
import Courier.Record.Job
import Courier.Store.Basic

/-!
# Job queues

A queue is a list of a store: jobs go in at the front and come out at the back.
Jobs for later wait in a sorted set beside it, under the Unix second at which
they become ready, until they are promoted.  Promotion reads the ready entries
and then moves them in one batch, so that two promoters may both move an entry
but none is lost.

**Results.**
* `Queue.push`, `Queue.pop`: the live queue.
* `Queue.pushDelayed`, `Queue.pushDelayedAt`: jobs for later.
* `Queue.promote`: `Queue.readReady` and then `Queue.moveReady`.
* `Queue.promoteAround`: a promotion between whose steps something else happens.
-/

namespace Courier

/-- Why a call to a queue failed. -/
inductive QueueError where
  | store (e : StoreError)
  | serialization (e : CodecError)
  deriving DecidableEq

/-- The wording of a failure. -/
def QueueError.message : QueueError → String
  | .store e => e.message
  | .serialization e => "job serialization error: " ++ e.message

/-- A call to a queue in a store with states in `σ`. -/
abbrev QueueM (σ : Type) := ExceptT QueueError (StateM σ)

namespace Queue

variable {σ : Type}

/-- Makes a call to the store. -/
def onStore {α : Type} (call : StoreM σ α) : QueueM σ α :=
  call.adapt .store

/-- Passes on the answer of the codec. -/
def onCodec {α : Type} (r : Except CodecError α) : QueueM σ α :=
  ExceptT.mk (pure (r.mapError .serialization))

/-- The key of the sorted set in which jobs wait for their time. -/
def delayedKey (queue : String) : String :=
  queue ++ ":delayed"

/-- The score of a ready time. -/
def readyScore (at_ : Calendar.Timestamp) : Binary64 :=
  .ofInt at_.unixSeconds

/-- The ready time after a delay.  The last instant of the calendar stands for every time
beyond it, and for that after a delay that cannot be added to an instant. -/
def readyTime (now : Calendar.Timestamp) (delay : Duration) : Calendar.Timestamp :=
  if delay.isSpan then (now.add? delay).getD .max else .max

variable [Store σ]

/-- Puts a job as it is on a queue. -/
def enqueue (queue : String) (job : Job) : QueueM σ Unit := do
  let bytes ← onCodec (Codec.encode Job.kind job)
  let _ ← onStore (Store.pushFront queue bytes)

/-- Lets a job as it is wait for its time. -/
def schedule (queue : String) (job : Job) (readyAt : Calendar.Timestamp) : QueueM σ Unit := do
  let bytes ← onCodec (Codec.encode Job.kind job)
  onStore (Store.sortedAdd (delayedKey queue) bytes (readyScore readyAt))

/-- Puts a job on a queue, with a fresh identifier and the current time where it
has none.  The job as it was put is also the answer where that fails. -/
def push (queue : String) (job : Job) (fresh : String) (now : Calendar.Timestamp) :
    StateM σ (Except QueueError Unit × Job) := do
  let job := job.ensureDefaults fresh now
  let r ← (enqueue queue job).run
  pure (r, job)

/-- Lets a job wait for a time, with a fresh identifier and the current time where
it has none. -/
def pushDelayedAt (queue : String) (job : Job) (readyAt : Calendar.Timestamp)
    (fresh : String) (now : Calendar.Timestamp) :
    StateM σ (Except QueueError Unit × Job) := do
  let job := job.ensureDefaults fresh now
  let r ← (schedule queue job readyAt).run
  pure (r, job)

/-- Lets a job wait for a delay from now. -/
def pushDelayed (queue : String) (job : Job) (delay : Duration)
    (fresh : String) (now : Calendar.Timestamp) :
    StateM σ (Except QueueError Unit × Job) :=
  pushDelayedAt queue job (readyTime now delay) fresh now

/-- The job of an entry that was taken. -/
def decodePopped : Option Bytes → QueueM σ (Option Job)
  | none => pure none
  | some bytes => do
      let job ← onCodec (Codec.decode Job.kind bytes)
      pure (some job)

/-- Takes a job without waiting. -/
def popNonBlocking (queue : String) : QueueM σ (Option Job) := do
  let bytes ← onStore (Store.popBack queue)
  decodePopped bytes

/-- Takes a job, waiting for one if any time is given. -/
def pop (queue : String) (wait : Duration) : QueueM σ (Option Job) := do
  let bytes ← onStore <|
    if wait.isZero then Store.popBack queue else Store.blockingPopBack queue wait
  decodePopped bytes

/-- The number of jobs on a queue. -/
def size (queue : String) : QueueM σ Nat :=
  onStore (Store.listLen queue)

/-- Drops the jobs on a queue. -/
def clear (queue : String) : QueueM σ Unit := do
  let _ ← onStore (Store.delete [queue])

/-- The entries whose time has come, in order. -/
def readReady (queue : String) (now : Calendar.Timestamp) : QueueM σ (List Bytes) :=
  onStore (Store.rangeByScore (delayedKey queue) .negInfinity (readyScore now))

/-- The batch that moves entries onto a queue. -/
def moves (queue : String) (ready : List Bytes) : List BatchOp :=
  ready.flatMap fun entry =>
    [.pushFront queue entry, .sortedRemove (delayedKey queue) entry]

/-- Moves entries onto a queue at once. -/
def moveReady (queue : String) (ready : List Bytes) : QueueM σ Unit :=
  onStore (Store.executeBatch (moves queue ready))

/-- Moves the entries whose time has come onto a queue; how many there were. -/
def promote (queue : String) (now : Calendar.Timestamp) : QueueM σ Nat := do
  let ready ← readReady queue now
  if ready = [] then pure 0
  else
    moveReady queue ready
    pure ready.length

/-- Promotes a queue while something else happens between its two steps; what came
of that, where there were entries to move. -/
def promoteAround {β : Type} (queue : String) (now : Calendar.Timestamp) (between : StateM σ β) :
    StateM σ (Except QueueError Nat × Option β) := do
  match ← (readReady queue now : QueueM σ (List Bytes)).run with
  | .error e => pure (.error e, none)
  | .ok ready =>
      if ready = [] then pure (.ok 0, none)
      else
        let b ← between
        let r ← (moveReady queue ready : QueueM σ Unit).run
        pure (r.map fun _ => ready.length, some b)

/-- The number of jobs that wait for their time. -/
def delayedSize (queue : String) : QueueM σ Nat :=
  onStore (Store.sortedLen (delayedKey queue))

/-- Drops the jobs that wait for their time. -/
def clearDelayed (queue : String) : QueueM σ Unit := do
  let _ ← onStore (Store.delete [delayedKey queue])

end Queue
end Courier
