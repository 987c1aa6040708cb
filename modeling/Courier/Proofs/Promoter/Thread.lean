import Courier.Promoter.Rounds
import Courier.Proofs.Queue.Separation
import Mathlib.Algebra.BigOperators.Group.Finset.Piecewise

/-!
# The thread of a promoter

A promoter has a thread of its own.  In a round it promotes one queue after another, by a
read and a batch, and between any two of its acts others may do anything to the store.
It counts the round once all queues have been visited.  Then it waits, until its interval
is over or it has been asked to stop: by a call, or because nobody holds it any more.
It may be asked at any time, and it notices while it waits.

**Results.**
* `Thread.step`, `Thread.run`: what the thread and the others do.
* `Thread.ended`: the promotions that end, read off the calls to the store.
* `Thread.Past`, `Thread.Past.step`, `Thread.Past.run`: the rounds that were completed.
* `Thread.stopped_of_left`: one that was asked stops after as many acts as it has left.
* `Thread.puts_eq`: what is put on live queues of an in-memory store.
* `Thread.alone_rounds`: undisturbed, the thread makes the rounds of a promoter.
* `counts_completed_rounds`: what the counts say at any time, and in the end.
-/

namespace Courier
namespace Promoter

open Queue

/-- Where the thread of a promoter is. -/
inductive Place where
  /-- It has made some visits of a round and goes on to a list of queues. -/
  | visiting (visits : List Visit) (later : List String)
  /-- It has read what is ready on a queue, and goes on to move that. -/
  | moving (visits : List Visit) (queue : String) (ready : List Bytes) (later : List String)
  | waiting
  | stopped

namespace Place

/-- The visits of the round so far. -/
def visits : Place → List Visit
  | visiting visits _ | moving visits _ _ _ => visits
  | waiting | stopped => []

/-- The queues that are still to be visited in a round, if there is one. -/
def ahead : Place → Option (List String)
  | visiting _ later => some later
  | moving _ queue _ later => some (queue :: later)
  | waiting | stopped => none

/-- The number of acts after which a thread that was asked has stopped. -/
def left : Place → Nat
  | visiting _ later => 2 * later.length + 2
  | moving _ _ _ later => 2 * later.length + 3
  | waiting => 1
  | stopped => 0

end Place

/-- The thread of a promoter of some queues, in front of a store. -/
structure Thread (σ : Type) where
  queues : List String
  store : σ
  stats : PromoterStats
  place : Place
  asked : Bool

/-- What may happen next. -/
inductive Event (σ : Type) where
  /-- The thread acts; a promotion that it begins reads the clock. -/
  | act (now : Calendar.Timestamp)
  /-- Others do something to the store. -/
  | others (change : σ → σ)
  /-- The thread is asked to stop. -/
  | ask

/-- Whether it is the thread that acts. -/
def Event.isAct {σ : Type} : Event σ → Bool
  | act _ => true
  | others _ | ask => false

namespace Thread

variable {σ : Type} [Store σ]

/-- A thread at its start, in front of a store. -/
def start (queues : List String) (store : σ) : Thread σ :=
  ⟨queues, store, {}, .visiting [] queues, false⟩

/-- The thread after a visit to a queue. -/
def visited (t : Thread σ) (store : σ) (visits : List Visit) (v : Visit) (later : List String) :
    Thread σ :=
  { t with store, place := .visiting (visits ++ [v]) later }

/-- The thread reads what is ready on a queue.  Where that fails or there is nothing, the
visit is over. -/
def read (t : Thread σ) (visits : List Visit) (queue : String) (later : List String)
    (now : Calendar.Timestamp) : Thread σ :=
  let r := answer (readReady queue now) t.store
  match r.1 with
  | .error e => t.visited r.2 visits ⟨queue, .error e⟩ later
  | .ok [] => t.visited r.2 visits ⟨queue, .ok 0⟩ later
  | .ok (entry :: ready) =>
      { t with store := r.2, place := .moving visits queue (entry :: ready) later }

/-- The thread moves what it has read. -/
def move (t : Thread σ) (visits : List Visit) (queue : String) (ready : List Bytes)
    (later : List String) : Thread σ :=
  let r := answer (moveReady queue ready) t.store
  t.visited r.2 visits ⟨queue, r.1.map fun _ => ready.length⟩ later

/-- What the thread does next. -/
def act (t : Thread σ) (now : Calendar.Timestamp) : Thread σ :=
  match t.place with
  | .visiting visits (queue :: later) => t.read visits queue later now
  | .moving visits queue ready later => t.move visits queue ready later
  | .visiting visits [] => { t with stats := t.stats.after visits, place := .waiting }
  | .waiting => { t with place := if t.asked then .stopped else .visiting [] t.queues }
  | .stopped => t

/-- The effect of an event. -/
def step (t : Thread σ) : Event σ → Thread σ
  | .act now => t.act now
  | .others change => { t with store := change t.store }
  | .ask => { t with asked := true }

/-- The thread after some events. -/
def run (t : Thread σ) (events : List (Event σ)) : Thread σ :=
  events.foldl step t

/-- The promotion that an event ends, with its queue and what it answers: a read that
fails or finds nothing, or a batch. -/
def ended (t : Thread σ) : Event σ → List Visit
  | .act now =>
      match t.place with
      | .visiting _ (queue :: _) =>
          match (answer (readReady queue now) t.store).1 with
          | .error e => [⟨queue, .error e⟩]
          | .ok [] => [⟨queue, .ok 0⟩]
          | .ok (_ :: _) => []
      | .moving _ queue ready _ =>
          [⟨queue, (answer (moveReady queue ready) t.store).1.map fun _ => ready.length⟩]
      | .visiting _ [] | .waiting | .stopped => []
  | .others _ | .ask => []

/-- The promotions that events end, one after the other. -/
def calls (t : Thread σ) : List (Event σ) → List Visit
  | [] => []
  | e :: events => t.ended e ++ (t.step e).calls events

@[simp] theorem run_nil
    (t : Thread σ) :
    t.run [] = t := rfl

@[simp] theorem run_cons
    (t : Thread σ)
    (e : Event σ)
    (events : List (Event σ)) :
    t.run (e :: events) = (t.step e).run events := rfl

theorem run_append
    (t : Thread σ)
    (before after : List (Event σ)) :
    t.run (before ++ after) = (t.run before).run after := by
  simp [run, List.foldl_append]

/-- The promotions that have ended so far, by rounds: those of completed rounds, and the
visits of the round that is being made. -/
structure Past (t : Thread σ) (calls : List Visit) (rounds : List (List Visit)) : Prop where
  calls_eq : calls = rounds.flatten ++ t.place.visits
  complete : ∀ visits ∈ rounds, visits.map (·.queue) = t.queues
  current : ∀ later ∈ t.place.ahead, t.place.visits.map (·.queue) ++ later = t.queues
  counted : t.stats = rounds.foldl PromoterStats.after {}
  begun : t.place.ahead = none → rounds ≠ []
  asked : t.place = .stopped → t.asked = true

omit [Store σ] in
theorem past_start
    (queues : List String)
    (store : σ) :
    (start queues store).Past [] [] where
  calls_eq := rfl
  complete := fun _ h => absurd h List.not_mem_nil
  current := by
    rintro later ⟨⟩
    rfl
  counted := rfl
  begun := by
    rintro ⟨⟩
  asked := by
    rintro ⟨⟩

namespace Past

variable {t : Thread σ} {calls : List Visit} {rounds : List (List Visit)}
  (h : t.Past calls rounds)
include h

omit [Store σ] in
/-- A visit that ends leaves the rounds before it as they are. -/
theorem visited
    {visits : List Visit}
    {queue : String}
    {later : List String}
    (hvisits : t.place.visits = visits)
    (hahead : t.place.ahead = some (queue :: later))
    (store : σ)
    {v : Visit}
    (hv : v.queue = queue) :
    (t.visited store visits v later).Past (calls ++ [v]) rounds where
  calls_eq := by
    rw [h.calls_eq, hvisits, List.append_assoc]
    rfl
  complete := h.complete
  current := by
    rintro _ ⟨⟩
    have hqueues := h.current _ hahead
    rw [hvisits] at hqueues
    show (visits ++ [v]).map (·.queue) ++ later = t.queues
    rw [List.map_append, List.map_singleton, hv, List.append_assoc]
    exact hqueues
  counted := h.counted
  begun := by
    rintro ⟨⟩
  asked := by
    rintro ⟨⟩

theorem read
    {visits : List Visit}
    {queue : String}
    {later : List String}
    (hplace : t.place = .visiting visits (queue :: later))
    (now : Calendar.Timestamp) :
    (t.act now).Past (calls ++ t.ended (.act now)) rounds := by
  have hvisits : t.place.visits = visits := by rw [hplace]; rfl
  have hahead : t.place.ahead = some (queue :: later) := by rw [hplace]; rfl
  simp only [act, ended, hplace, Thread.read]
  cases hr : (answer (readReady queue now) t.store).1 with
  | error e => exact h.visited hvisits hahead _ rfl
  | ok found =>
      cases found with
      | nil => exact h.visited hvisits hahead _ rfl
      | cons entry ready =>
          refine ⟨?_, h.complete, ?_, h.counted, ?_, ?_⟩
          · rw [List.append_nil, h.calls_eq, hvisits]
            rfl
          · rintro _ ⟨⟩
            have hqueues := h.current _ hahead
            rw [hvisits] at hqueues
            exact hqueues
          · rintro ⟨⟩
          · rintro ⟨⟩

theorem move
    {visits : List Visit}
    {queue : String}
    {ready : List Bytes}
    {later : List String}
    (hplace : t.place = .moving visits queue ready later)
    (now : Calendar.Timestamp) :
    (t.act now).Past (calls ++ t.ended (.act now)) rounds := by
  have hvisits : t.place.visits = visits := by rw [hplace]; rfl
  have hahead : t.place.ahead = some (queue :: later) := by rw [hplace]; rfl
  simp only [act, ended, hplace, Thread.move]
  exact h.visited hvisits hahead _ rfl

/-- Once every queue has been visited, the round is completed and counted. -/
theorem count
    {visits : List Visit}
    (hplace : t.place = .visiting visits [])
    (now : Calendar.Timestamp) :
    (t.act now).Past (calls ++ t.ended (.act now)) (rounds ++ [visits]) := by
  have hqueues := h.current [] (by rw [hplace]; rfl)
  rw [hplace, List.append_nil] at hqueues
  simp only [act, ended, hplace]
  refine ⟨?_, ?_, ?_, ?_, ?_, ?_⟩
  · rw [h.calls_eq, hplace, List.flatten_append, List.flatten_singleton]
    simp [Place.visits]
  · intro round hround
    rcases List.mem_append.1 hround with hold | hnew
    · exact h.complete round hold
    · rw [List.mem_singleton.1 hnew]
      exact hqueues
  · rintro _ ⟨⟩
  · rw [List.foldl_append, ← h.counted]
    rfl
  · intro _
    exact List.append_ne_nil_of_right_ne_nil _ (List.cons_ne_nil _ _)
  · rintro ⟨⟩

/-- **An act of the thread.** -/
theorem act
    (now : Calendar.Timestamp) :
    ∃ more, (t.act now).Past (calls ++ t.ended (.act now)) (rounds ++ more) := by
  cases hplace : t.place with
  | visiting visits later =>
      cases later with
      | nil => exact ⟨[visits], h.count hplace now⟩
      | cons queue later => exact ⟨[], (List.append_nil rounds).symm ▸ h.read hplace now⟩
  | moving visits queue ready later =>
      exact ⟨[], (List.append_nil rounds).symm ▸ h.move hplace now⟩
  | waiting =>
      refine ⟨[], ?_⟩
      have hcalls := h.calls_eq
      simp only [Thread.act, ended, hplace, List.append_nil]
      rw [hplace] at hcalls
      cases t.asked with
      | true =>
          exact ⟨hcalls, h.complete, by rintro _ ⟨⟩, h.counted,
            fun _ => h.begun (by rw [hplace]; rfl), fun _ => rfl⟩
      | false =>
          exact ⟨hcalls, h.complete, by rintro _ ⟨⟩; rfl, h.counted, by rintro ⟨⟩,
            by rintro ⟨⟩⟩
  | stopped =>
      refine ⟨[], ?_⟩
      simp only [Thread.act, ended, hplace, List.append_nil]
      exact h

/-- **An event.**  Completed rounds stay, and may become more. -/
theorem step
    (e : Event σ) :
    ∃ more, (t.step e).Past (calls ++ t.ended e) (rounds ++ more) := by
  cases e with
  | act now => exact h.act now
  | others change =>
      refine ⟨[], ?_⟩
      simp only [ended, List.append_nil]
      exact ⟨h.calls_eq, h.complete, h.current, h.counted, h.begun, h.asked⟩
  | ask =>
      refine ⟨[], ?_⟩
      simp only [ended, List.append_nil]
      exact ⟨h.calls_eq, h.complete, h.current, h.counted, h.begun, fun _ => rfl⟩

/-- **A run.** -/
theorem run
    (events : List (Event σ)) :
    ∃ more, (t.run events).Past (calls ++ t.calls events) (rounds ++ more) := by
  induction events generalizing t calls rounds with
  | nil =>
      refine ⟨[], ?_⟩
      rw [Thread.calls, List.append_nil, List.append_nil]
      exact h
  | cons e events ih =>
      obtain ⟨first, hfirst⟩ := h.step e
      obtain ⟨more, hmore⟩ := ih hfirst
      refine ⟨first ++ more, ?_⟩
      rw [Thread.calls, ← List.append_assoc, ← List.append_assoc]
      exact hmore

end Past

theorem queues_step
    (t : Thread σ)
    (e : Event σ) :
    (t.step e).queues = t.queues := by
  cases e with
  | act now =>
      rw [step, act]
      split
      · rw [read]
        split <;> rfl
      · rfl
      · rfl
      · rfl
      · rfl
  | others change => rfl
  | ask => rfl

theorem queues_run
    (t : Thread σ)
    (events : List (Event σ)) :
    (t.run events).queues = t.queues := by
  induction events generalizing t with
  | nil => rfl
  | cons e events ih => rw [run_cons, ih, queues_step]

/-- **The rounds of a thread**, in every run from its start. -/
theorem past_run
    (queues : List String)
    (store : σ)
    (events : List (Event σ)) :
    ∃ rounds,
      ((start queues store).run events).Past ((start queues store).calls events) rounds :=
  (past_start queues store).run events

theorem asked_step
    {t : Thread σ}
    (h : t.asked = true)
    (e : Event σ) :
    (t.step e).asked = true := by
  cases e with
  | act now =>
      rw [step, act]
      split
      · rw [read]
        split <;> exact h
      · exact h
      · exact h
      · exact h
      · exact h
  | others change => exact h
  | ask => rfl

/-- Every act of a thread that was asked brings it nearer to its end. -/
theorem left_act
    {t : Thread σ}
    (h : t.asked = true)
    (now : Calendar.Timestamp) :
    (t.act now).place.left ≤ t.place.left - 1 := by
  cases hplace : t.place with
  | visiting visits later =>
      cases later with
      | nil =>
          simp only [act, hplace, Place.left]
          omega
      | cons queue later =>
          simp only [act, hplace, read]
          split
          · simp only [visited, Place.left, List.length_cons]
            omega
          · simp only [visited, Place.left, List.length_cons]
            omega
          · simp only [Place.left, List.length_cons]
            omega
  | moving visits queue ready later =>
      simp only [act, hplace, move, visited, Place.left]
      omega
  | waiting =>
      simp only [act, hplace, h, if_true, Place.left]
      omega
  | stopped =>
      simp only [act, hplace, Place.left]
      omega

/-- **A thread that was asked stops.** -/
theorem stopped_of_left
    {t : Thread σ}
    (h : t.asked = true)
    {events : List (Event σ)}
    (hleft : t.place.left ≤ events.countP (·.isAct)) :
    (t.run events).place = .stopped := by
  induction events generalizing t with
  | nil =>
      rw [List.countP_nil, Nat.le_zero] at hleft
      cases hplace : t.place with
      | visiting visits later => simp [hplace, Place.left] at hleft
      | moving visits queue ready later => simp [hplace, Place.left] at hleft
      | waiting => simp [hplace, Place.left] at hleft
      | stopped => rw [run_nil, hplace]
  | cons e events ih =>
      refine ih (asked_step h e) ?_
      cases e with
      | act now =>
          rw [List.countP_cons_of_pos rfl] at hleft
          exact Nat.le_trans (left_act h now) (Nat.sub_le_of_le_add hleft)
      | others change =>
          rw [List.countP_cons_of_neg (by simp [Event.isAct])] at hleft
          exact hleft
      | ask =>
          rw [List.countP_cons_of_neg (by simp [Event.isAct])] at hleft
          exact hleft

omit [Store σ] in
theorem Past.left_le
    {t : Thread σ}
    {calls : List Visit}
    {rounds : List (List Visit)}
    (h : t.Past calls rounds) :
    t.place.left ≤ 2 * t.queues.length + 2 := by
  have hlength : ∀ later, t.place.ahead = some later → later.length ≤ t.queues.length := by
    intro later hlater
    rw [← h.current later hlater, List.length_append]
    exact Nat.le_add_left _ _
  cases hplace : t.place with
  | visiting visits later =>
      have := hlength later (by rw [hplace]; rfl)
      simp only [Place.left]
      omega
  | moving visits queue ready later =>
      have := hlength (queue :: later) (by rw [hplace]; rfl)
      simp only [Place.left, List.length_cons] at this ⊢
      omega
  | waiting =>
      simp only [Place.left]
      omega
  | stopped =>
      simp only [Place.left]
      omega

omit [Store σ] in
/-- The round that is being made has visited the first of the queues. -/
theorem Past.visits_prefix
    {t : Thread σ}
    {calls : List Visit}
    {rounds : List (List Visit)}
    (h : t.Past calls rounds) :
    t.place.visits.map (·.queue) <+: t.queues := by
  cases hahead : t.place.ahead with
  | some later => exact ⟨later, h.current later hahead⟩
  | none =>
      cases hplace : t.place with
      | visiting visits later => simp [hplace, Place.ahead] at hahead
      | moving visits queue ready later => simp [hplace, Place.ahead] at hahead
      | waiting => exact List.nil_prefix
      | stopped => exact List.nil_prefix

omit [Store σ] in
theorem Past.mem_queues
    {t : Thread σ}
    {calls : List Visit}
    {rounds : List (List Visit)}
    (h : t.Past calls rounds) :
    ∀ v ∈ calls, v.queue ∈ t.queues := by
  intro v hv
  rw [h.calls_eq, List.mem_append, List.mem_flatten] at hv
  rcases hv with ⟨visits, hvisits, hv⟩ | hv
  · rw [← h.complete visits hvisits]
    exact List.mem_map_of_mem hv
  · exact h.visits_prefix.subset (List.mem_map_of_mem hv)

theorem totalMoved_append
    (before after : List Visit) :
    Visit.totalMoved (before ++ after) = Visit.totalMoved before + Visit.totalMoved after := by
  induction before with
  | nil => simp [Visit.totalMoved]
  | cons v before ih =>
      show v.moved + Visit.totalMoved (before ++ after) = v.moved + Visit.totalMoved before + _
      rw [ih, Nat.add_assoc]

theorem foldl_after
    (s : PromoterStats)
    (rounds : List (List Visit)) :
    rounds.foldl PromoterStats.after s =
      { rounds := s.rounds + rounds.length
        jobsPromoted := s.jobsPromoted + Visit.totalMoved rounds.flatten
        failures := s.failures + rounds.flatten.countP (·.failed) } := by
  induction rounds generalizing s with
  | nil => rfl
  | cons visits rounds ih =>
      rw [List.foldl_cons, ih, List.flatten_cons, totalMoved_append, List.countP_append,
        List.length_cons]
      simp only [PromoterStats.after, PromoterStats.mk.injEq]
      omega

omit [Store σ] in
theorem Past.stats_eq
    {t : Thread σ}
    {calls : List Visit}
    {rounds : List (List Visit)}
    (h : t.Past calls rounds) :
    t.stats = ⟨rounds.length, Visit.totalMoved rounds.flatten,
      rounds.flatten.countP (·.failed)⟩ := by
  rw [h.counted, foldl_after]
  simp

section Memory

/-- The number of entries that an event lets the thread put on the live list of a queue. -/
def put (t : Thread Memory) (queue : String) : Event Memory → Nat
  | .act now => (liveEntries (t.act now).store queue).length - (liveEntries t.store queue).length
  | .others _ | .ask => 0

/-- The number of entries that events let the thread put on the live list of a queue. -/
def puts (t : Thread Memory) (queue : String) : List (Event Memory) → Nat
  | [] => 0
  | e :: events => t.put queue e + (t.step e).puts queue events

/-- The visits to a queue. -/
def visitsTo (queue : String) (visits : List Visit) : List Visit :=
  visits.filter fun v => v.queue = queue

theorem readReady_store
    (queue : String)
    (now : Calendar.Timestamp)
    (m : Memory) :
    (answer (readReady queue now) m).2 = m := by
  cases h : m.poisoned with
  | false => rw [readReady_answer h]
  | true =>
      cases m
      simp only at h
      subst h
      rfl

/-- A batch puts the entries in front of the live list, or fails and puts nothing. -/
theorem moveReady_cases
    (queue : String)
    (ready : List Bytes)
    (m : Memory) :
    ((answer (moveReady queue ready) m).1 = .ok () ∧ ∀ l,
        liveEntries (answer (moveReady queue ready) m).2 l =
          (if queue = l then ready.reverse else []) ++ liveEntries m l) ∨
      ∃ e, answer (moveReady queue ready) m = (.error e, m) := by
  cases h : m.poisoned with
  | false =>
      rw [moveReady_answer h]
      refine Or.inl ⟨rfl, fun l => ?_⟩
      rw [liveEntries, list_applyAll_moves]
      split
      · rfl
      · rfl
  | true =>
      cases m
      simp only at h
      subst h
      exact Or.inr ⟨_, rfl⟩

/-- What an act of the thread does to live lists. -/
theorem liveEntries_act
    (t : Thread Memory)
    (now : Calendar.Timestamp)
    (queue : String) :
    ∃ added, liveEntries (t.act now).store queue = added ++ liveEntries t.store queue ∧
      added.length = Visit.totalMoved (visitsTo queue (t.ended (.act now))) := by
  cases hplace : t.place with
  | visiting visits later =>
      cases later with
      | nil =>
          simp only [act, ended, hplace]
          exact ⟨[], rfl, rfl⟩
      | cons q later =>
          simp only [act, ended, hplace, read, visited, readReady_store]
          split
          · refine ⟨[], rfl, ?_⟩
            rw [visitsTo, List.filter_cons]
            split <;> rfl
          · refine ⟨[], rfl, ?_⟩
            rw [visitsTo, List.filter_cons]
            split <;> rfl
          · exact ⟨[], rfl, rfl⟩
  | moving visits q ready later =>
      simp only [act, ended, hplace, move, visited, visitsTo, List.filter_cons, List.filter_nil]
      rcases moveReady_cases q ready t.store with ⟨hanswer, hlive⟩ | ⟨e, hanswer⟩
      · refine ⟨_, hlive queue, ?_⟩
        rw [hanswer]
        by_cases hq : q = queue
        · simp [hq, Visit.totalMoved, Visit.moved, Except.map]
        · simp [hq, Visit.totalMoved]
      · refine ⟨[], ?_, ?_⟩
        · rw [hanswer]
          rfl
        · rw [hanswer]
          split <;> rfl
  | waiting =>
      simp only [act, ended, hplace]
      exact ⟨[], rfl, rfl⟩
  | stopped =>
      simp only [act, ended, hplace]
      exact ⟨[], rfl, rfl⟩

theorem put_eq
    (t : Thread Memory)
    (queue : String)
    (e : Event Memory) :
    t.put queue e = Visit.totalMoved (visitsTo queue (t.ended e)) := by
  cases e with
  | act now =>
      obtain ⟨added, hlive, hlength⟩ := t.liveEntries_act now queue
      rw [put, hlive, List.length_append, Nat.add_sub_cancel, hlength]
  | others change => rfl
  | ask => rfl

/-- **What the thread puts on a live list is what its promotions of that queue answer.** -/
theorem puts_eq
    (t : Thread Memory)
    (queue : String)
    (events : List (Event Memory)) :
    t.puts queue events = Visit.totalMoved (visitsTo queue (t.calls events)) := by
  induction events generalizing t with
  | nil => rfl
  | cons e events ih =>
      rw [puts, calls, put_eq, ih, visitsTo, visitsTo, visitsTo, List.filter_append,
        totalMoved_append]

/-- Visits of some queues, counted queue by queue. -/
theorem sum_totalMoved_visitsTo
    {queues : List String}
    {visits : List Visit}
    (h : ∀ v ∈ visits, v.queue ∈ queues) :
    ∑ queue ∈ queues.toFinset, Visit.totalMoved (visitsTo queue visits) =
      Visit.totalMoved visits := by
  induction visits with
  | nil => exact Finset.sum_const_zero
  | cons v visits ih =>
      have hsplit : ∀ queue, Visit.totalMoved (visitsTo queue (v :: visits)) =
          (if v.queue = queue then v.moved else 0) +
            Visit.totalMoved (visitsTo queue visits) := by
        intro queue
        simp only [visitsTo, List.filter_cons, decide_eq_true_eq]
        split
        · rfl
        · rw [Nat.zero_add]
      have hv : v.queue ∈ queues.toFinset := List.mem_toFinset.2 (h v List.mem_cons_self)
      simp only [hsplit, Finset.sum_add_distrib]
      rw [ih fun w hw => h w (List.mem_cons_of_mem v hw), Finset.sum_ite_eq, if_pos hv]
      rfl

end Memory

/-- An undisturbed visit is a promotion. -/
theorem alone_visit
    {t : Thread σ}
    {visits : List Visit}
    {queue : String}
    {later : List String}
    (hplace : t.place = .visiting visits (queue :: later))
    (now : Calendar.Timestamp) :
    ∃ k, t.run (List.replicate k (.act now)) =
      t.visited (answer (promote queue now) t.store).2 visits
        ⟨queue, (answer (promote queue now) t.store).1⟩ later := by
  have hread : t.step (.act now) = t.read visits queue later now := by
    rw [step, act, hplace]
  rw [promote, answer_bind]
  cases hr : answer (readReady queue now) t.store with
  | mk r store =>
      cases r with
      | error e =>
          refine ⟨1, ?_⟩
          rw [List.replicate_one, run_cons, run_nil, hread]
          simp only [read, hr]
      | ok ready =>
          cases ready with
          | nil =>
              refine ⟨1, ?_⟩
              rw [List.replicate_one, run_cons, run_nil, hread]
              simp only [read, hr, if_true, answer_pure]
          | cons entry ready =>
              refine ⟨2, ?_⟩
              rw [List.replicate_succ, List.replicate_one, run_cons, run_cons, run_nil, hread]
              simp only [read, hr, step, act, move, List.cons_ne_nil, if_false, answer_bind]
              cases answer (moveReady queue (entry :: ready)) store with
              | mk r store =>
                  cases r with
                  | error e => rfl
                  | ok _ => rfl

/-- An undisturbed round. -/
theorem alone_round
    {t : Thread σ}
    {visits : List Visit}
    {later : List String}
    (hplace : t.place = .visiting visits later)
    (now : Calendar.Timestamp) :
    ∃ k, t.run (List.replicate k (.act now)) =
      { t with
        store := ((round now later).run t.store).2
        place := .visiting (visits ++ ((round now later).run t.store).1) [] } := by
  induction later generalizing t visits with
  | nil =>
      refine ⟨0, ?_⟩
      obtain ⟨queues, store, stats, place, asked⟩ := t
      obtain rfl : place = .visiting visits [] := hplace
      show Thread.mk queues store stats (.visiting visits []) asked =
        ⟨queues, store, stats, .visiting (visits ++ []) [], asked⟩
      rw [List.append_nil]
  | cons queue later ih =>
      obtain ⟨first, hfirst⟩ := alone_visit hplace now
      let s := t.visited (answer (promote queue now) t.store).2 visits
        ⟨queue, (answer (promote queue now) t.store).1⟩ later
      obtain ⟨more, hmore⟩ := ih (t := s) rfl
      refine ⟨first + more, ?_⟩
      rw [List.replicate_add, run_append, hfirst, hmore, List.append_assoc]
      rfl

/-- Undisturbed rounds, one at each of some readings, and all of them counted. -/
theorem alone_rounds
    {t : Thread σ}
    (hplace : t.place = .visiting [] t.queues)
    (hasked : t.asked = false)
    (now : Calendar.Timestamp)
    (later : List Calendar.Timestamp) :
    ∃ events, t.run events =
      { t with
        store := ((rounds t.queues t.stats (now :: later)).run t.store).2
        stats := ((rounds t.queues t.stats (now :: later)).run t.store).1
        place := .waiting } := by
  induction later generalizing t now with
  | nil =>
      obtain ⟨k, hk⟩ := alone_round hplace now
      refine ⟨List.replicate k (.act now) ++ [.act now], ?_⟩
      rw [run_append, hk]
      rfl
  | cons next later ih =>
      obtain ⟨queues, store, stats, place, asked⟩ := t
      obtain rfl : asked = false := hasked
      obtain ⟨k, hk⟩ := alone_round hplace now
      let r := (round now queues).run store
      let s : Thread σ := ⟨queues, r.2, stats.after r.1, .visiting [] queues, false⟩
      obtain ⟨events, hevents⟩ := ih (t := s) rfl rfl next
      refine ⟨List.replicate k (.act now) ++ .act now :: .act next :: events, ?_⟩
      rw [run_append, hk]
      exact hevents

/-- **Undisturbed, the thread does what a promoter does.** -/
theorem alone_run
    (config : PromoterConfig)
    (hne : config.queues ≠ [])
    (store : σ)
    (now : Calendar.Timestamp)
    (later : List Calendar.Timestamp) :
    ∃ events,
      let t := (start config.queues store).run events
      t.place = .stopped ∧
        (Promoter.run config now later).run store = (.ok t.stats, t.store) := by
  obtain ⟨events, hevents⟩ := alone_rounds (t := start config.queues store) rfl rfl now later
  refine ⟨events ++ [.ask, .act now], ?_⟩
  rw [run_append, hevents]
  refine ⟨rfl, ?_⟩
  rw [Promoter.run, if_neg hne]
  rfl

end Thread

open Thread in
/-- **What a promoter counts.**  A promoter of some queues is at work in front of a store,
while others change the store at will, and it may be asked to stop at any time; `t` is
the state that was reached.

The promotions that have ended are those of some completed rounds, each of which has
promoted every queue once, in the order in which they were given and whatever came of
it, and after them the visits of the round that is being made.  What the promoter has
counted is the number of completed rounds, the sum of what their promotions answered,
and the number of them that failed.  Once it has stopped, no promotion is left out, and
at least one round was made.  If it has been asked to stop, it does so after at most two
acts for each queue and two more.

In front of an in-memory store it puts entries before those that are live and does nothing
else to live lists; it puts on the live list of a queue as many as the promotions of that
queue have answered, and on all of them together as many as it has counted and the visits
of the unfinished round have moved.

Undisturbed, it does what a promoter does that runs for some rounds. -/
theorem counts_completed_rounds
    (config : PromoterConfig) :
    (∀ (σ : Type) [Store σ] (store : σ) (events : List (Event σ)),
      let t := (start config.queues store).run events
      ∃ completed : List (List Visit),
        (start config.queues store).calls events = completed.flatten ++ t.place.visits ∧
        (∀ visits ∈ completed, visits.map (·.queue) = config.queues) ∧
        t.place.visits.map (·.queue) <+: config.queues ∧
        t.stats = ⟨completed.length, Visit.totalMoved completed.flatten,
          completed.flatten.countP (·.failed)⟩ ∧
        (t.place = .stopped →
          completed ≠ [] ∧ (start config.queues store).calls events = completed.flatten) ∧
        (t.asked = true → ∀ more : List (Event σ),
          2 * config.queues.length + 2 ≤ more.countP (·.isAct) →
            (t.run more).place = .stopped)) ∧
      (∀ (store : Memory) (events : List (Event Memory)),
        let t := (start config.queues store).run events
        (∀ now queue, liveEntries t.store queue <:+ liveEntries (t.act now).store queue) ∧
        (∀ queue, (start config.queues store).puts queue events =
          Visit.totalMoved (visitsTo queue ((start config.queues store).calls events))) ∧
        ∑ queue ∈ config.queues.toFinset, (start config.queues store).puts queue events =
          t.stats.jobsPromoted + Visit.totalMoved t.place.visits) ∧
      ∀ (σ : Type) [Store σ] (store : σ) (now : Calendar.Timestamp)
        (later : List Calendar.Timestamp),
        if config.queues = [] then
          (Promoter.run config now later).run store = (.error .noQueues, store)
        else
          ∃ events,
            let t := (start config.queues store).run events
            t.place = .stopped ∧
              (Promoter.run config now later).run store = (.ok t.stats, t.store) := by
  refine ⟨fun σ _ store events => ?_, fun store events => ?_, fun σ _ store now later => ?_⟩
  · intro t
    obtain ⟨completed, h⟩ := past_run config.queues store events
    have hqueues : t.queues = config.queues := queues_run _ events
    refine ⟨completed, h.calls_eq, fun visits hvisits => ?_, ?_, h.stats_eq, fun hstopped => ?_,
      fun hasked more hmore => ?_⟩
    · exact (h.complete visits hvisits).trans hqueues
    · exact hqueues ▸ h.visits_prefix
    · have hahead : t.place.ahead = none := by rw [hstopped]; rfl
      have hvisits : t.place.visits = [] := by rw [hstopped]; rfl
      refine ⟨h.begun hahead, ?_⟩
      rw [h.calls_eq, hvisits, List.append_nil]
    · have hleft : t.place.left ≤ 2 * t.queues.length + 2 := h.left_le
      rw [hqueues] at hleft
      exact stopped_of_left hasked (Nat.le_trans hleft hmore)
  · intro t
    obtain ⟨completed, h⟩ := past_run config.queues store events
    have hqueues : t.queues = config.queues := queues_run _ events
    have hmem : ∀ v ∈ (start config.queues store).calls events, v.queue ∈ config.queues :=
      fun v hv => hqueues ▸ h.mem_queues v hv
    have hcounted : t.stats.jobsPromoted = Visit.totalMoved completed.flatten :=
      congrArg PromoterStats.jobsPromoted h.stats_eq
    refine ⟨fun now queue => ?_, fun queue => puts_eq _ queue events, ?_⟩
    · obtain ⟨added, hadded, -⟩ := t.liveEntries_act now queue
      exact ⟨added, hadded.symm⟩
    · simp only [puts_eq]
      rw [sum_totalMoved_visitsTo hmem, hcounted, h.calls_eq, totalMoved_append]
  · split
    · next hnil =>
        rw [Promoter.run, if_pos hnil]
        rfl
    · next hne => exact alone_run config hne store now later

end Promoter
end Courier
