import Courier.Promoter.Settings
import Courier.Queue.Basic

/-!
# Rounds of a promoter

A promoter visits its queues in order, round after round.  A queue that fails
does not keep it from the next one.

**Results.**
* `Promoter.round`: the outcomes of one round.
* `PromoterStats.after`: what a promoter has counted after a round.
* `Promoter.run`: a number of rounds and what was counted.
-/

namespace Courier

/-- What a promoter has counted over its completed rounds. -/
structure PromoterStats where
  rounds : Nat := 0
  jobsPromoted : Nat := 0
  failures : Nat := 0
  deriving DecidableEq

/-- Why a promoter did not start. -/
inductive PromoterError where
  /-- No queue is configured. -/
  | noQueues
  deriving DecidableEq

/-- The wording of a failure. -/
def PromoterError.message : PromoterError → String
  | .noQueues => "promoter needs at least one queue"

/-- The visit to one queue in a round: how many entries were moved, or why not. -/
structure Visit where
  queue : String
  outcome : Except QueueError Nat

namespace Visit

/-- The number of entries a visit moved. -/
def moved (v : Visit) : Nat :=
  match v.outcome with
  | .ok n => n
  | .error _ => 0

/-- Whether a visit failed. -/
def failed (v : Visit) : Bool :=
  match v.outcome with
  | .ok _ => false
  | .error _ => true

/-- The number of jobs that visits moved. -/
def totalMoved (visits : List Visit) : Nat :=
  visits.foldr (fun v n => v.moved + n) 0

end Visit

/-- The counts after a round with these visits. -/
def PromoterStats.after (s : PromoterStats) (visits : List Visit) : PromoterStats :=
  { rounds := s.rounds + 1
    jobsPromoted := s.jobsPromoted + Visit.totalMoved visits
    failures := s.failures + visits.countP (·.failed) }

namespace Promoter

variable {σ : Type} [Store σ]

/-- Visits queues in order. -/
def round (now : Calendar.Timestamp) : List String → StateM σ (List Visit)
  | [] => pure []
  | q :: qs => do
      let outcome ← (Queue.promote q now).run
      let rest ← round now qs
      pure (⟨q, outcome⟩ :: rest)

/-- Goes on for one round at each of the given times. -/
def rounds (queues : List String) (s : PromoterStats) :
    List Calendar.Timestamp → StateM σ PromoterStats
  | [] => pure s
  | now :: later => do
      let visits ← round now queues
      rounds queues (s.after visits) later

/-- Runs a promoter for one round now and one at each of the later times. -/
def run (config : PromoterConfig) (now : Calendar.Timestamp) (later : List Calendar.Timestamp) :
    StateM σ (Except PromoterError PromoterStats) := do
  if config.queues = [] then pure (.error .noQueues)
  else
    let s ← rounds config.queues {} (now :: later)
    pure (.ok s)

end Promoter
end Courier
