import Courier.Proofs.Broker.Flow

/-!
# Targets of which nothing more is heard

A call of the consumer that removes targets returns when the forwarder has served its
request, or at once where there is nothing to ask for.  What the consumer then lists and
what the connection listens to are the same, whatever the others and the forwarder do
meanwhile, and no payload that is published from then on for a removed target arrives.

**Results.**
* `Subscription.Owes.steps`: two steps of the forwarder serve a request to remove targets.
* `Audience.run_steps`: steps of the forwarder with nothing between them.
* `Audience.Makes`, `Tended.remove_run`: a whole call is a run in which nobody else acts.
* `targets_agree`: what the consumer lists, what the connection listens to, and what
  arrives, in every run.
-/

namespace Courier

open Subscription

namespace Subscription

/-- The forwarder runs and has a request to remove targets, and no other. -/
structure Owes (s : Subscription) (gone : List String) : Prop where
  running : s.stopped = false
  requests : s.requests = [.remove gone]
  replies : s.replies = []

/-- The request has been served, and its reply is there. -/
structure Served (s : Subscription) : Prop where
  requests : s.requests = []
  replies : s.replies = [.ok ()]

theorem Owes.serveOr
    {s : Subscription}
    {gone : List String}
    (h : s.Owes gone)
    (idle : StateM Memory Subscription)
    (m : Memory) :
    ((s.serveOr idle).run m).1.Served := by
  obtain ⟨x, hserve, -⟩ := serve_remove_run { s with requests := [] } gone m
  rw [Subscription.serveOr, h.requests]
  simp only [hserve]
  exact ⟨rfl, by simp [h.replies]⟩

theorem Served.step
    {s : Subscription}
    (h : s.Served)
    (now : Calendar.Timestamp)
    (m : Memory) :
    ((s.step now).run m).1.Served := by
  obtain ⟨hrequests, hreplies⟩ := h
  rw [Subscription.step]
  split
  · exact ⟨hrequests, hreplies⟩
  · cases s.held with
    | none =>
        simp only [Subscription.serveOr, hrequests, poll_run]
        rcases (Store.nextMessage s.connection .zero :
          StoreM Memory (Option RawMessage)).answer m with ⟨e | _ | raw, later⟩
        · exact ⟨rfl, hreplies⟩
        · exact ⟨hrequests, hreplies⟩
        · exact ⟨rfl, hreplies⟩
    | some message =>
        simp only [Subscription.serveOr, hrequests]
        split
        · exact ⟨rfl, hreplies⟩
        · exact ⟨hrequests, hreplies⟩

theorem Served.steps
    {s : Subscription}
    (h : s.Served)
    (now : Calendar.Timestamp)
    (n : Nat)
    (m : Memory) :
    ((s.steps now n).run m).1.Served := by
  induction n generalizing s m with
  | zero => exact h
  | succ n ih => exact ih (h.step now m) _

/-- One step puts a message that is held into the buffer if there is room, and otherwise
serves the request. -/
theorem Owes.step
    {s : Subscription}
    {gone : List String}
    (h : s.Owes gone)
    (now : Calendar.Timestamp)
    (m : Memory) :
    let t := ((s.step now).run m).1
    t.Served ∨ (t.Owes gone ∧ t.held = none) := by
  cases hheld : s.held with
  | none =>
      rw [step_eq_serveOr_of_requests h.running hheld (by simp [h.requests])]
      exact Or.inl (h.serveOr _ m)
  | some message =>
      by_cases hroom : s.buffer.length < capacity
      · rw [Subscription.step, if_neg (by simp [h.running]), hheld]
        simp only [if_pos hroom]
        exact Or.inr ⟨⟨h.running, h.requests, h.replies⟩, rfl⟩
      · rw [step_eq_serveOr_of_full h.running hheld hroom]
        exact Or.inl (h.serveOr _ m)

/-- Two steps are enough. -/
theorem Owes.steps
    {s : Subscription}
    {gone : List String}
    (h : s.Owes gone)
    (now : Calendar.Timestamp)
    (n : Nat)
    (m : Memory) :
    ((s.steps now (n + 2)).run m).1.Served := by
  let t := ((s.step now).run m).1
  let k := ((s.step now).run m).2
  show ((t.steps now (n + 1)).run k).1.Served
  rcases h.step now m with hserved | ⟨hstill, hfree⟩
  · exact hserved.steps now (n + 1) k
  · have hnext : ((t.step now).run k).1.Served := by
      rw [step_eq_serveOr_of_requests hstill.running hfree (by simp [hstill.requests])]
      exact hstill.serveOr _ k
    exact hnext.steps now n _

end Subscription

namespace Audience

/-- Steps of the forwarder with nothing between them. -/
theorem run_steps
    (r : Audience)
    (now : Calendar.Timestamp)
    (n : Nat) :
    let q := r.run (List.replicate n (.forward .step now))
    let out := (r.subscription.steps now n).run r.store
    q.subscription = out.1 ∧ q.store = out.2 ∧ q.waiting = r.waiting ∧ q.calls = r.calls := by
  induction n generalizing r with
  | zero => exact ⟨rfl, rfl, rfl, rfl⟩
  | succ n ih =>
      obtain ⟨hvalue, hstate⟩ := alike_step r.subscription now (⟨r.store, []⟩ : Recorded Memory)
      obtain ⟨hsubscription, hstore, hwaiting, hcalls⟩ := ih (r.next (.forward .step now))
      have hnext : (r.next (.forward .step now)).subscription =
          ((r.subscription.step now).run r.store).1 := hvalue
      have hafter : (r.next (.forward .step now)).store =
          ((r.subscription.step now).run r.store).2 := hstate
      rw [hnext, hafter] at hsubscription hstore
      exact ⟨hsubscription, hstore, hwaiting, hcalls⟩

/-- The end of a call whose request has been served. -/
theorem take_of_served
    {r : Audience}
    {names : List String}
    (hwaiting : r.waiting = some names)
    (hserved : r.subscription.Served) :
    let out := r.subscription.settled (r.subscription.named names)
    r.take.subscription = out.2 ∧ r.take.store = r.store ∧ r.take.waiting = none ∧
      r.take.calls = r.calls ++ [⟨r.subscription.kind, names, out.1⟩] := by
  intro out
  have hout : out = (.ok (), { r.subscription with
      replies := []
      targets := r.subscription.targets.filter (· ∉ r.subscription.named names) }) := by
    show r.subscription.settled _ = _
    rw [settled, hserved.replies]
  have htake : r.take =
      { stream := r.stream.next (.note out.2.targets out.2.replies r.subscription.closed)
        waiting := none
        calls := r.calls ++ [⟨r.subscription.kind, names, out.1⟩] } := by
    rw [take, hwaiting]
    exact if_neg fun hnone => absurd (hserved.replies.symm.trans hnone.1) (by simp)
  rw [htake, hout]
  exact ⟨rfl, rfl, rfl, rfl⟩

/-- A run is a whole call to remove targets, with what it answers and what it leaves. -/
def Makes (r : Audience) (requested : SubscriptionKind) (names : List String)
    (out : (Except BrokerError Unit × Subscription) × Memory) (events : List Event) : Prop :=
  let q := r.run events
  q.subscription = out.1.2 ∧ q.store = out.2 ∧ q.waiting = none ∧
    q.calls = r.calls ++ [⟨requested, names, out.1.1⟩]

/-- The events of a call that nobody interrupts. -/
def whole (requested : SubscriptionKind) (names : List String) (now : Calendar.Timestamp)
    (n : Nat) : List Event :=
  .ask requested names :: (List.replicate n (.forward .step now) ++ [.take])

/-- A call that is answered at once. -/
theorem makes_answered
    {r : Audience}
    (hfree : r.waiting = none)
    {requested : SubscriptionKind}
    {names : List String}
    {answer : Except BrokerError Unit}
    (hatonce : r.subscription.atOnce requested names = some answer)
    (now : Calendar.Timestamp) :
    r.Makes requested names ((answer, r.subscription), r.store) (whole requested names now 0) := by
  have hrun : r.run (whole requested names now 0) = r.answered requested names answer := by
    show (r.ask requested names).take = _
    rw [ask, hfree, hatonce, take]
    simp only [Option.isSome_none, Bool.false_eq_true, if_false]
    split
    · rfl
    · next asked hwaiting => exact absurd (hfree.symm.trans hwaiting) (by simp)
  rw [Makes, hrun]
  exact ⟨rfl, rfl, hfree, rfl⟩

end Audience

namespace Tended

variable {kind : SubscriptionKind} {targets : List String} {r : Audience}
  (h : Tended kind targets r)
include h

/-- Left to itself, the forwarder serves the request of a call. -/
theorem served_asking
    (hfree : r.waiting = none)
    {requested : SubscriptionKind}
    {names : List String}
    (hatonce : r.subscription.atOnce requested names = none)
    (now : Calendar.Timestamp) :
    Served (((r.subscription.asking names).settle now).run r.store).1 := by
  obtain ⟨-, hunclosed, hrunning⟩ := of_atOnce_none hatonce
  have hphase := h.phase
  rw [hfree] at hphase
  obtain ⟨hrequests, hreplies, -⟩ := hphase.of_open hunclosed hrunning
  have howes : (r.subscription.asking names).Owes (r.subscription.named names) :=
    ⟨hrunning, by simp [asking, hrequests], hreplies⟩
  exact howes.steps now _ r.store

/-- A call that has to ask the forwarder. -/
theorem makes_asked
    (hfree : r.waiting = none)
    {requested : SubscriptionKind}
    {names : List String}
    (hatonce : r.subscription.atOnce requested names = none)
    (now : Calendar.Timestamp) :
    let out := ((r.subscription.asking names).settle now).run r.store
    ∃ n, r.Makes requested names (out.1.settled (r.subscription.named names), out.2)
      (Audience.whole requested names now n) := by
  intro out
  let n := (r.subscription.asking names).stepBound r.store
  let begun : Audience :=
    { r with
      stream := r.stream.next (.request (.remove (r.subscription.named names)))
      waiting := some names }
  let q := begun.run (List.replicate n (.forward .step now))
  have hask : r.ask requested names = begun := by
    rw [Audience.ask, hfree, hatonce]
    rfl
  have hbegun : Tended kind targets begun := by
    rw [← hask]
    exact h.ask requested names
  have hq : Tended kind targets q := hbegun.run _
  obtain ⟨hsubscription, hstore, hwaiting, hcalls⟩ :
      q.subscription = out.1 ∧ q.store = out.2 ∧ q.waiting = some names ∧ q.calls = r.calls :=
    begun.run_steps now n
  -- The targets have not changed since the call began, so the reply is about the same names.
  have htargets : out.1.targets = r.subscription.targets := by
    rw [← hsubscription, hq.targets_eq, h.targets_eq, hcalls]
  have hnamed : out.1.named names = r.subscription.named names := by rw [named, named, htargets]
  have hkind : out.1.kind = requested := by
    rw [(of_atOnce_none hatonce).1, ← hsubscription, hq.kind_eq, h.kind_eq]
  have hserved : q.subscription.Served := by
    rw [hsubscription]
    exact h.served_asking hfree hatonce now
  obtain ⟨htaken, hleft, hfreed, hanswered⟩ := Audience.take_of_served hwaiting hserved
  rw [hsubscription, hnamed] at htaken
  rw [hsubscription, hnamed, hkind, hcalls] at hanswered
  have hrun : r.run (Audience.whole requested names now n) = q.take := by
    show (r.ask requested names).run (List.replicate n _ ++ [.take]) = _
    rw [hask, Audience.run_append]
    rfl
  refine ⟨n, ?_⟩
  rw [Audience.Makes, hrun]
  exact ⟨htaken, hleft.trans hstore, hfreed, hanswered⟩

/-- **A call.**  It is a run in which nobody but the forwarder acts, and a call that fails
leaves everything as it is. -/
theorem remove_run
    (hfree : r.waiting = none)
    (requested : SubscriptionKind)
    (names : List String)
    (now : Calendar.Timestamp) :
    let out := (r.subscription.remove requested names now).run r.store
    (∃ n, r.Makes requested names out (Audience.whole requested names now n)) ∧
      ∀ e, out.1.1 = .error e → out.1.2 = r.subscription ∧ out.2 = r.store := by
  intro out
  cases hatonce : r.subscription.atOnce requested names with
  | some answer =>
      have hout : out = ((answer, r.subscription), r.store) := by
        show (r.subscription.remove requested names now).run r.store = _
        rw [remove_eq, hatonce]
        rfl
      rw [hout]
      exact ⟨⟨0, Audience.makes_answered hfree hatonce now⟩, fun _ _ => ⟨rfl, rfl⟩⟩
  | none =>
      have hout : out =
          ((((r.subscription.asking names).settle now).run r.store).1.settled
              (r.subscription.named names),
            (((r.subscription.asking names).settle now).run r.store).2) := by
        show (r.subscription.remove requested names now).run r.store = _
        rw [remove_eq, hatonce]
        rfl
      have hok : out.1.1 = .ok () := by
        rw [hout, settled, (h.served_asking hfree hatonce now).replies]
      refine ⟨?_, fun e herror => absurd (hok.symm.trans herror) (by simp)⟩
      rw [hout]
      exact h.makes_asked hfree hatonce now

end Tended

/-- **Both sides keep the same targets, and a target that is gone is gone for good.**  The
targets of a subscription are those it was opened with, less what the calls that succeeded
removed.  While it is open and no call is under way, its connection listens to exactly
them, and the calls that failed are those for the other kind.  A call that nobody
interrupts is such a run, and if it fails it changes nothing.  What is read after a moment
was already on its way then, or was published later on a channel for which one of the
targets of that moment stands. -/
theorem targets_agree
    (clock : Nat)
    (moves : List Store.Move)
    (kind : SubscriptionKind)
    (targets : List String)
    (events : List Audience.Event) :
    let m := Memory.after clock moves
    let start := Audience.start kind targets m
    let r := start.run events
    let s := r.subscription
    (Broker.subscribe kind targets : BrokerM Memory Subscription).run m =
        (if targets = [] then (.error (.noTargets kind), m)
          else (.ok start.subscription, start.store)) ∧
      s.targets = r.calls.foldl Answered.leaves targets ∧
      (s.closed = false → s.stopped = false →
        (r.waiting = none → r.store.Hears s.connection kind s.targets) ∧
          ∀ call ∈ r.calls, call.answer =
            if call.requested = kind then .ok () else .error (.targetKind kind call.requested)) ∧
      (r.waiting = none → ∀ requested names now,
        let out := (s.remove requested names now).run r.store
        (∃ n, r.Makes requested names out (Audience.whole requested names now n)) ∧
          ∀ e, out.1.1 = .error e → out.1.2 = s ∧ out.2 = r.store) ∧
      ∀ later,
        let q := r.run later
        q.stream.consumed <+: q.stream.decoded ∧
          ∃ new, q.raws <+: r.flow ++ new ∧ ∀ raw ∈ new,
            .others (.call (.publish raw.channel raw.payload)) ∈ later ∧ s.Covers raw.channel := by
  intro m start r s
  have h : Tended kind targets r :=
    (Tended.start (Memory.numbered_after clock moves) kind targets).run events
  refine ⟨Broker.subscribe_run kind targets m, h.targets_eq, ?_, ?_, ?_⟩
  · intro hunclosed hrunning
    refine ⟨fun hfree => ?_, h.answers hunclosed hrunning⟩
    have hphase := h.phase
    rw [hfree] at hphase
    have hears := (hphase.of_open hunclosed hrunning).2.2
    rw [h.kind_eq] at hears
    exact hears
  · intro hfree requested names now
    exact h.remove_run hfree requested names now
  · intro later q
    obtain ⟨new, hposted, hflow⟩ := h.flow_run later
    refine ⟨?_, new, (List.prefix_append _ _).trans hflow, fun raw hraw => ?_⟩
    · have hq : q = start.run (events ++ later) := (start.run_append events later).symm
      rw [hq]
      exact (Audience.ordered_run kind targets m (events ++ later)).consumed_in_order
    · obtain ⟨before, e, after, rfl, rfl, hcovers⟩ := hposted raw hraw
      exact ⟨List.mem_append_right _ List.mem_cons_self, h.covers_run hcovers⟩

end Courier
