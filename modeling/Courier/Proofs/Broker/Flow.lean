import Courier.Proofs.Broker.Audience

/-!
# What reaches a subscription

The payloads that a subscription gets are the copies that the exchange put into the inbox
of its connection, which the forwarder takes one by one.  Each of them was published while
the connection listened to its channel; and since a call can only remove targets, a channel
for which no target stands now will not be heard of again.

**Results.**
* `Audience.flow`: the payloads that were taken, and those that can still be taken.
* `Audience.stream_run`, `Audience.ordered_run`: a subscription among others is a stream.
* `Audience.Posted`, `Tended.flow_next`, `Tended.flow_run`: an event, and a run, add only
  payloads that were published meanwhile, on channels for which the targets stand.
* `Tended.start`, `Broker.subscribe_run`: the beginning, as the broker makes it.
-/

namespace Courier

open Subscription

namespace Subscription

/-- The payloads that the forwarder can still take from its connection. -/
def unread (s : Subscription) (m : Memory) : List RawMessage :=
  if s.stopped then [] else m.exchange.inbox s.connection

theorem unread_of_stopped
    {s : Subscription}
    (h : s.stopped = true)
    (m : Memory) :
    s.unread m = [] :=
  if_pos h

theorem unread_of_running
    {s : Subscription}
    (h : s.stopped = false)
    (m : Memory) :
    s.unread m = m.exchange.inbox s.connection :=
  if_neg (by simp [h])

/-- A move of the forwarder takes what comes next, or stops and takes nothing more. -/
theorem Outcome.unread
    {s t : Subscription}
    {m k : Memory}
    {now : Calendar.Timestamp}
    {log : List RawMessage}
    (h : Outcome s m now t k log) :
    log ++ t.unread k = s.unread m ∨ (t.stopped = true ∧ log = []) := by
  cases h with
  | idle => exact Or.inl rfl
  | put message waiting => exact Or.inl rfl
  | served targets rest running requests =>
      refine Or.inl ?_
      rw [unread_of_running running]
      exact (unread_of_running running _).trans (Exchange.inbox_leave _ _ _ _)
  | fetched raw rest running inbox =>
      refine Or.inl ?_
      rw [unread_of_running running, inbox]
      have hrest := (Exchange.nextMessage_of_cons inbox).2
      exact congrArg ([raw] ++ ·) ((unread_of_running running _).trans hrest)
  | ended requests running => exact Or.inr ⟨rfl, rfl⟩

end Subscription

/-- The consumer reads the messages of the payloads that were taken, in their order. -/
theorem Stream.Ordered.consumed_in_order
    {σ : Type}
    {r : Stream σ}
    (h : r.Ordered) :
    r.consumed <+: r.decoded := by
  rw [← h.order, List.append_assoc, List.append_assoc]
  exact List.prefix_append _ _

theorem Answered.leaves_subset
    (targets : List String)
    (call : Answered) :
    Answered.leaves targets call ⊆ targets := by
  rw [Answered.leaves]
  split
  · exact List.filter_subset_self _
  · exact List.Subset.refl _

theorem Store.Move.of_mem_copiesFor
    {move : Store.Move}
    {slot : Slot}
    {raw : RawMessage}
    (h : raw ∈ move.copiesFor slot) :
    move = .call (.publish raw.channel raw.payload) ∧ slot.copies raw.channel raw.payload ≠ [] := by
  rw [Store.Move.copiesFor.eq_def] at h
  split at h
  · obtain ⟨rfl, rfl⟩ := Slot.of_mem_copies h
    exact ⟨rfl, List.ne_nil_of_mem h⟩
  · exact absurd h List.not_mem_nil

namespace Audience

/-- The payloads that the forwarder has taken from the connection. -/
def raws (r : Audience) : List RawMessage :=
  r.stream.returned.map (·.1)

/-- The payloads that the forwarder has taken, and behind them those that it can still
take. -/
def flow (r : Audience) : List RawMessage :=
  r.raws ++ r.subscription.unread r.store

/-- What happens to the stream of a subscription is what can happen to any stream. -/
theorem stream_next
    (r : Audience)
    (e : Event) :
    ∃ events, (r.next e).stream = r.stream.run events := by
  cases e with
  | forward move now => exact ⟨[.forward move now], rfl⟩
  | read => exact ⟨[.read], rfl⟩
  | shut => exact ⟨[.others r.store.shut], rfl⟩
  | others move =>
      rw [next]
      split
      · exact ⟨[], rfl⟩
      · exact ⟨[.others (r.store.step move)], rfl⟩
  | close =>
      rw [next, close]
      split
      · exact ⟨[], rfl⟩
      · exact ⟨[.request .close, .note r.subscription.targets r.subscription.replies true], rfl⟩
  | take =>
      rw [next, take]
      split
      · exact ⟨[], rfl⟩
      · next names _ =>
          simp only
          split
          · exact ⟨[], rfl⟩
          · exact ⟨[.note _ _ r.subscription.closed], rfl⟩
  | ask requested names =>
      rw [next, ask]
      split
      · exact ⟨[], rfl⟩
      · split
        · exact ⟨[], rfl⟩
        · exact ⟨[.request (.remove _)], rfl⟩

theorem stream_run
    (r : Audience)
    (events : List Event) :
    ∃ more, (r.run events).stream = r.stream.run more := by
  induction events generalizing r with
  | nil => exact ⟨[], rfl⟩
  | cons e events ih =>
      obtain ⟨first, hfirst⟩ := r.stream_next e
      obtain ⟨more, hmore⟩ := ih (r.next e)
      refine ⟨first ++ more, hmore.trans ?_⟩
      rw [hfirst]
      exact List.foldl_append.symm

theorem run_append
    (r : Audience)
    (before after : List Event) :
    r.run (before ++ after) = (r.run before).run after :=
  List.foldl_append

theorem ordered_run
    (kind : SubscriptionKind)
    (targets : List String)
    (m : Memory)
    (events : List Event) :
    ((start kind targets m).run events).stream.Ordered := by
  obtain ⟨more, hmore⟩ := (start kind targets m).stream_run events
  rw [hmore]
  exact (Stream.ordered_start _ _ _ _).run more

/-- After the stop nothing is taken any more. -/
theorem flow_of_stopped
    {r : Audience}
    (hstopped : r.subscription.stopped = true)
    (events : List Event) :
    (r.run events).flow = r.flow := by
  obtain ⟨more, hmore⟩ := r.stream_run events
  obtain ⟨hstill, hreturned, -⟩ := r.stream.run_of_stopped hstopped more
  rw [flow, flow, raws, raws, subscription, hmore, hreturned, unread_of_stopped hstill,
    unread_of_stopped hstopped]

/-- What the consumer does by itself: the connection takes no notice. -/
structure Aside (r q : Audience) : Prop where
  returned : q.stream.returned = r.stream.returned
  store : q.store = r.store
  stopped : q.subscription.stopped = r.subscription.stopped
  connection : q.subscription.connection = r.subscription.connection

theorem Aside.flow
    {r q : Audience}
    (h : Aside r q) :
    q.flow = r.flow := by
  rw [Audience.flow, Audience.flow, raws, raws, unread, unread, h.returned, h.store, h.stopped,
    h.connection]

theorem aside_read
    (r : Audience) :
    Aside r (r.next .read) := by
  obtain ⟨rest, hrest, -⟩ := r.subscription.read_eq
  have hsubscription : (r.next .read).subscription = { r.subscription with buffer := rest } :=
    hrest
  exact ⟨rfl, rfl, by rw [hsubscription], by rw [hsubscription]⟩

theorem aside_ask
    (r : Audience)
    (requested : SubscriptionKind)
    (names : List String) :
    Aside r (r.ask requested names) := by
  rw [ask]
  repeat' split
  all_goals exact ⟨rfl, rfl, rfl, rfl⟩

theorem aside_take
    (r : Audience) :
    Aside r r.take := by
  rw [take]
  split
  · exact ⟨rfl, rfl, rfl, rfl⟩
  · simp only
    split
    · exact ⟨rfl, rfl, rfl, rfl⟩
    · exact ⟨rfl, rfl, rfl, rfl⟩

theorem aside_close
    (r : Audience) :
    Aside r r.close := by
  rw [close]
  split
  · exact ⟨rfl, rfl, rfl, rfl⟩
  · exact ⟨rfl, rfl, rfl, rfl⟩

theorem flow_forward
    (r : Audience)
    (move : Subscription.Move)
    (now : Calendar.Timestamp) :
    let q : Audience := { r with stream := r.stream.forward move now }
    q.flow = r.flow ∨ (q.subscription.stopped = true ∧ q.flow <+: r.flow) := by
  intro q
  obtain ⟨log, hout, hreturned⟩ := r.stream.forward_outcome move now
  have hraws : q.raws = r.raws ++ log := by
    show (r.stream.forward move now).returned.map (·.1) = _
    rw [hreturned, List.map_append, List.map_map]
    exact congrArg (r.raws ++ ·) (List.map_id log)
  rcases hout.unread with hunread | ⟨hstopped, rfl⟩
  · left
    rw [flow, flow, hraws, List.append_assoc]
    exact congrArg (r.raws ++ ·) hunread
  · right
    refine ⟨hstopped, ?_⟩
    rw [flow, flow, hraws, List.append_nil, unread_of_stopped hstopped, List.append_nil]
    exact List.prefix_append _ _

/-- No event adds a target. -/
theorem targets_next
    (r : Audience)
    (e : Event) :
    (r.next e).subscription.targets ⊆ r.subscription.targets := by
  have hsame {q : Audience} (htargets : q.subscription.targets = r.subscription.targets) :
      q.subscription.targets ⊆ r.subscription.targets :=
    htargets ▸ List.Subset.refl _
  cases e with
  | forward move now =>
      obtain ⟨log, hout, -⟩ := r.stream.forward_outcome move now
      exact hsame hout.keeps.targets
  | read =>
      obtain ⟨rest, hrest, -⟩ := r.subscription.read_eq
      have htargets : r.subscription.read.2.targets = r.subscription.targets := by rw [hrest]
      exact hsame htargets
  | ask requested names =>
      rw [next, ask]
      repeat' split
      all_goals exact hsame rfl
  | take =>
      rw [next, take]
      split
      · exact hsame rfl
      · next names _ =>
          simp only
          split
          · exact hsame rfl
          · show (r.subscription.settled _).2.targets ⊆ _
            rw [r.subscription.settled_targets names]
            exact Answered.leaves_subset _ _
  | close =>
      rw [next, close]
      split
      · exact hsame rfl
      · exact hsame rfl
  | others move =>
      rw [next]
      split
      · exact hsame rfl
      · exact hsame rfl
  | shut => exact hsame rfl

/-- An event publishes a payload on a channel for which a target stands. -/
def Posted (r : Audience) (raw : RawMessage) (e : Event) : Prop :=
  e = .others (.call (.publish raw.channel raw.payload)) ∧ r.subscription.Covers raw.channel

end Audience

namespace Tended

variable {kind : SubscriptionKind} {targets : List String} {r : Audience}
  (h : Tended kind targets r)
include h

/-- What a move of others adds, as long as the forwarder has not stopped. -/
theorem flow_others
    {move : Store.Move}
    (hmove : move.connection? ≠ some r.subscription.connection) :
    let q : Audience := { r with stream := r.stream.next (.others (r.store.step move)) }
    ∃ new, (∀ raw ∈ new, r.Posted raw (.others move)) ∧ q.flow = r.flow ++ new := by
  intro q
  cases hstopped : r.subscription.stopped with
  | true =>
      refine ⟨[], fun raw hraw => absurd hraw List.not_mem_nil, ?_⟩
      rw [List.append_nil, Audience.flow, Audience.flow, unread_of_stopped hstopped]
      exact congrArg (r.raws ++ ·) (unread_of_stopped hstopped _)
  | false =>
      -- While a reply is on its way the connection already listens to less than the targets.
      obtain ⟨heard, hwithin, slot, hslot, hears⟩ := h.phase.hears_within hstopped
      have hnow := (r.store.shift_step move).slot? hmove hslot hears.live
      refine ⟨move.copiesFor slot, fun raw hraw => ?_, ?_⟩
      · obtain ⟨rfl, hcopies⟩ := Store.Move.of_mem_copiesFor hraw
        obtain ⟨target, htarget, hcovers⟩ := hears.covered hcopies
        exact ⟨rfl, target, hwithin htarget, hcovers⟩
      · have hinbox : (r.store.step move).exchange.inbox r.subscription.connection =
            r.store.exchange.inbox r.subscription.connection ++ move.copiesFor slot := by
          rw [Exchange.inbox_of_slot? hnow, Exchange.inbox_of_slot? hslot]
        rw [Audience.flow, Audience.flow, unread_of_running hstopped, List.append_assoc, ← hinbox]
        exact congrArg (r.raws ++ ·) (unread_of_running hstopped _)

/-- **An event.**  It adds payloads that it publishes on a channel for which a target
stands, and nothing once the forwarder has stopped. -/
theorem flow_next
    (e : Audience.Event) :
    ∃ new, (∀ raw ∈ new, r.Posted raw e) ∧
      ((r.next e).flow = r.flow ++ new ∨
        ((r.next e).subscription.stopped = true ∧ (r.next e).flow <+: r.flow)) := by
  have hsame : (r.next e).flow = r.flow →
      ∃ new, (∀ raw ∈ new, r.Posted raw e) ∧
        ((r.next e).flow = r.flow ++ new ∨
          ((r.next e).subscription.stopped = true ∧ (r.next e).flow <+: r.flow)) := fun hflow =>
    ⟨[], fun raw hraw => absurd hraw List.not_mem_nil,
      Or.inl (hflow.trans (List.append_nil _).symm)⟩
  cases e with
  | forward move now =>
      refine ⟨[], fun raw hraw => absurd hraw List.not_mem_nil, ?_⟩
      rw [List.append_nil]
      exact r.flow_forward move now
  | others move =>
      rw [Audience.next]
      split
      · next hown => exact ⟨[], fun raw hraw => absurd hraw List.not_mem_nil,
          Or.inl (List.append_nil _).symm⟩
      · next hmove =>
          obtain ⟨new, hposted, hflow⟩ := h.flow_others hmove
          exact ⟨new, hposted, Or.inl hflow⟩
  | read => exact hsame r.aside_read.flow
  | ask requested names => exact hsame (r.aside_ask requested names).flow
  | take => exact hsame r.aside_take.flow
  | close => exact hsame r.aside_close.flow
  | shut =>
      have hshut : Subscription.unread r.subscription r.store.shut =
          r.subscription.unread r.store := rfl
      exact hsame (congrArg (r.raws ++ ·) hshut)

theorem covers_next
    {e : Audience.Event}
    {channel : String}
    (hcovers : (r.next e).subscription.Covers channel) :
    r.subscription.Covers channel := by
  obtain ⟨target, htarget, hcovers⟩ := hcovers
  rw [(h.next e).kind_eq] at hcovers
  rw [Subscription.Covers, h.kind_eq]
  exact ⟨target, r.targets_next e htarget, hcovers⟩

theorem covers_run
    {events : List Audience.Event}
    {channel : String}
    (hcovers : (r.run events).subscription.Covers channel) :
    r.subscription.Covers channel := by
  induction events generalizing r with
  | nil => exact hcovers
  | cons e events ih => exact h.covers_next (ih (h.next e) hcovers)

/-- **A run.**  It adds payloads that were published in it, each on a channel for which a
target stood at that moment. -/
theorem flow_run
    (events : List Audience.Event) :
    ∃ new, (∀ raw ∈ new, ∃ before e after, events = before ++ e :: after ∧
        (r.run before).Posted raw e) ∧
      (r.run events).flow <+: r.flow ++ new := by
  induction events generalizing r with
  | nil =>
      refine ⟨[], fun raw hraw => absurd hraw List.not_mem_nil, ?_⟩
      rw [List.append_nil]
      exact List.prefix_refl _
  | cons e events ih =>
      obtain ⟨new, hposted, hflow | ⟨hstopped, hflow⟩⟩ := h.flow_next e
      · obtain ⟨later, hlater, hrest⟩ := ih (h.next e)
        refine ⟨new ++ later, fun raw hraw => ?_, ?_⟩
        · rcases List.mem_append.1 hraw with hnew | hold
          · exact ⟨[], e, events, rfl, hposted raw hnew⟩
          · obtain ⟨before, f, after, hsplit, hf⟩ := hlater raw hold
            exact ⟨e :: before, f, after, congrArg (e :: ·) hsplit, hf⟩
        · rw [hflow, List.append_assoc] at hrest
          exact hrest
      · -- What was in the inbox at the stop is lost, and nothing is added any more.
        refine ⟨[], fun raw hraw => absurd hraw List.not_mem_nil, ?_⟩
        show ((r.next e).run events).flow <+: _
        rw [Audience.flow_of_stopped hstopped, List.append_nil]
        exact hflow

end Tended

/-- The slot of a connection that has just been opened, and told what to listen to. -/
theorem Audience.slot?_start
    {m : Memory}
    (h : m.exchange.Numbered)
    (kind : SubscriptionKind)
    (targets : List String) :
    ∃ slot,
      (Audience.start kind targets m).store.exchange.slot? m.exchange.next = some slot ∧
        slot.inbox = [] ∧ slot.Hears kind targets := by
  have hnames : (targets.foldl addName []).toFinset = targets.toFinset := by
    rw [Fanout.toFinset_addNames, List.toFinset_nil, Finset.empty_union]
  have hopened := Exchange.slot?_opened h
  cases kind with
  | channels =>
      have hlistening := Exchange.slot?_update m.exchange.subscriber.2 m.exchange.next
        (fun s => { s with channels := targets.foldl addName s.channels }) fun _ => rfl
      rw [hopened] at hlistening
      exact ⟨_, hlistening, rfl, rfl, hnames, rfl⟩
  | patterns =>
      have hlistening := Exchange.slot?_update m.exchange.subscriber.2 m.exchange.next
        (fun s => { s with patterns := targets.foldl addName s.patterns }) fun _ => rfl
      rw [hopened] at hlistening
      exact ⟨_, hlistening, rfl, rfl, hnames, rfl⟩

theorem Tended.start
    {m : Memory}
    (h : m.exchange.Numbered)
    (kind : SubscriptionKind)
    (targets : List String) :
    Tended kind targets (Audience.start kind targets m) := by
  obtain ⟨slot, hslot, -, hears⟩ := Audience.slot?_start h kind targets
  have hknown : m.exchange.next < (Audience.start kind targets m).store.exchange.next := by
    cases kind with
    | channels => exact Nat.lt_succ_self _
    | patterns => exact Nat.lt_succ_self _
  exact ⟨rfl, hknown, .idle rfl rfl rfl rfl ⟨slot, hslot, hears⟩, rfl,
    fun _ _ call hcall => absurd hcall List.not_mem_nil⟩

/-- The broker opens a subscription so. -/
theorem Broker.subscribe_run
    (kind : SubscriptionKind)
    (targets : List String)
    (m : Memory) :
    (Broker.subscribe kind targets : BrokerM Memory Subscription).run m =
      if targets = [] then (.error (.noTargets kind), m)
      else
        (.ok (Audience.start kind targets m).subscription,
          (Audience.start kind targets m).store) := by
  rw [Broker.subscribe]
  split
  · rfl
  · cases kind with
    | channels => rfl
    | patterns => rfl

/-- Nothing has been published for a subscription that has just been opened. -/
theorem Audience.flow_start
    {m : Memory}
    (h : m.exchange.Numbered)
    (kind : SubscriptionKind)
    (targets : List String) :
    (Audience.start kind targets m).flow = [] := by
  obtain ⟨slot, hslot, hinbox, -⟩ := slot?_start h kind targets
  exact (Exchange.inbox_of_slot? hslot).trans hinbox

end Courier
