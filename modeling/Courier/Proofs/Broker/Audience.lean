import Courier.Proofs.Acceptance
import Courier.Proofs.Broker.Closing
import Courier.Proofs.Store.Fanout
import Courier.Proofs.Store.Slots

/-!
# A subscription among others

The consumer of a subscription, its forwarder and the other clients of a store in memory
act in any order.  A call of the consumer to remove targets takes its time: it asks the
forwarder and waits, the forwarder tells the connection and replies, the consumer takes the
reply and changes its own list.  At every moment of it the connection listens to the
targets of the consumer, or to those that will be left when the reply is taken.

**Results.**
* `SubscriptionKind.Covers`, `Slot.Hears`: what a target stands for, and what a slot
  listens to.
* `Subscription.Outcome`, `Subscription.outcome_program`: all that a move of the forwarder
  does.
* `Subscription.atOnce`, `Subscription.remove_eq`: which calls need no request.
* `Audience`, `Audience.next`: the consumer, the forwarder and the others.
* `Phase`: how far a call has come, and what the connection listens to.
* `Tended.next`, `Tended.run`: what every event and every run keeps.
-/

namespace Courier

/-- The other kind of targets. -/
def SubscriptionKind.other : SubscriptionKind → SubscriptionKind
  | .channels => .patterns
  | .patterns => .channels

/-- A target of a kind stands for a channel. -/
def SubscriptionKind.Covers : SubscriptionKind → String → String → Prop
  | .channels, target, channel => target = channel
  | .patterns, target, channel => Glob.accepts target channel = true

/-- A subscription has a target that stands for a channel. -/
def Subscription.Covers (s : Subscription) (channel : String) : Prop :=
  ∃ target ∈ s.targets, s.kind.Covers target channel

namespace Slot

/-- The names of a kind that a slot listens to. -/
def names (s : Slot) : SubscriptionKind → List String
  | .channels => s.channels
  | .patterns => s.patterns

/-- A live slot listens to the names of a list as a set, all of one kind. -/
structure Hears (s : Slot) (kind : SubscriptionKind) (targets : List String) : Prop where
  live : s.released = false
  names_eq : (s.names kind).toFinset = targets.toFinset
  none_other : s.names kind.other = []

/-- What is in the inbox does not matter. -/
theorem Hears.setInbox
    {s : Slot}
    {kind : SubscriptionKind}
    {targets : List String}
    (h : s.Hears kind targets)
    (inbox : List RawMessage) :
    Hears { s with inbox } kind targets := by
  obtain ⟨hlive, hnames, hother⟩ := h
  cases kind with
  | channels => exact ⟨hlive, hnames, hother⟩
  | patterns => exact ⟨hlive, hnames, hother⟩

/-- What a slot gets was published on a channel that one of its targets stands for. -/
theorem Hears.covered
    {s : Slot}
    {kind : SubscriptionKind}
    {targets : List String}
    (h : s.Hears kind targets)
    {channel : String}
    {payload : Bytes}
    (hcopies : s.copies channel payload ≠ []) :
    ∃ target ∈ targets, kind.Covers target channel := by
  have hname : ∀ name, name ∈ s.names kind → name ∈ targets := by
    intro name hmem
    rw [← List.mem_toFinset, ← h.names_eq, List.mem_toFinset]
    exact hmem
  have hother := h.none_other
  cases kind with
  | channels =>
      rcases (s.copies_ne_nil_iff channel payload).1 hcopies with hchannel | ⟨p, hp, -⟩
      · exact ⟨channel, hname channel hchannel, rfl⟩
      · rw [show s.patterns = [] from hother] at hp
        exact absurd hp List.not_mem_nil
  | patterns =>
      rcases (s.copies_ne_nil_iff channel payload).1 hcopies with hchannel | ⟨p, hp, haccepts⟩
      · rw [show s.channels = [] from hother] at hchannel
        exact absurd hchannel List.not_mem_nil
      · exact ⟨p, hname p hp, haccepts⟩

end Slot

namespace Exchange

/-- Removes names of a kind from those that a subscriber listens to. -/
def leave (x : Exchange) (kind : SubscriptionKind) (id : SubscriberId) (names : List String) :
    Exchange :=
  match kind with
  | .channels => x.unsubscribe id names
  | .patterns => x.punsubscribe id names

theorem next_leave
    (x : Exchange)
    (kind : SubscriptionKind)
    (id : SubscriberId)
    (names : List String) :
    (x.leave kind id names).next = x.next := by
  cases kind with
  | channels => rfl
  | patterns => rfl

theorem inbox_leave
    (x : Exchange)
    (kind : SubscriptionKind)
    (id : SubscriberId)
    (names : List String) :
    (x.leave kind id names).inbox id = x.inbox id := by
  cases kind with
  | channels => exact inbox_update x id id _ (fun _ => rfl) fun _ => rfl
  | patterns => exact inbox_update x id id _ (fun _ => rfl) fun _ => rfl

theorem slot?_leave
    {x : Exchange}
    {kind : SubscriptionKind}
    {id : SubscriberId}
    {slot : Slot}
    {targets : List String}
    (hslot : x.slot? id = some slot)
    (hears : slot.Hears kind targets)
    (gone : List String) :
    ∃ left, (x.leave kind id gone).slot? id = some left ∧
      left.Hears kind (targets.filter (· ∉ gone)) := by
  obtain ⟨hlive, hnames, hother⟩ := hears
  cases kind with
  | channels =>
      have hleft := slot?_update x id
        (fun s => { s with channels := s.channels.filter (· ∉ gone) }) fun _ => rfl
      rw [hslot] at hleft
      refine ⟨_, hleft, hlive, ?_, hother⟩
      rw [Fanout.toFinset_removeNames, ← hnames]
      exact Fanout.toFinset_removeNames slot.channels gone
  | patterns =>
      have hleft := slot?_update x id
        (fun s => { s with patterns := s.patterns.filter (· ∉ gone) }) fun _ => rfl
      rw [hslot] at hleft
      refine ⟨_, hleft, hlive, ?_, hother⟩
      rw [Fanout.toFinset_removeNames, ← hnames]
      exact Fanout.toFinset_removeNames slot.patterns gone

end Exchange

/-- The slot of a connection is live and listens to the names of a list. -/
def Memory.Hears (m : Memory) (id : SubscriberId) (kind : SubscriptionKind)
    (targets : List String) : Prop :=
  ∃ slot, m.exchange.slot? id = some slot ∧ slot.Hears kind targets

namespace Subscription

/-- All that a move of the forwarder does to a subscription and to its store in memory,
by the payloads that it takes from the connection. -/
inductive Outcome (s : Subscription) (m : Memory) (now : Calendar.Timestamp) :
    Subscription → Memory → List RawMessage → Prop
  | idle :
      Outcome s m now s m []
  | put (message : Message)
      (waiting : s.held = some message) :
      Outcome s m now { s with held := none, buffer := s.buffer ++ [message] } m []
  | served (targets : List String) (rest : List Request)
      (running : s.stopped = false)
      (requests : s.requests = .remove targets :: rest) :
      Outcome s m now { s with requests := rest, replies := s.replies ++ [.ok ()] }
        { m with exchange := m.exchange.leave s.kind s.connection targets } []
  | fetched (raw : RawMessage) (rest : List RawMessage)
      (running : s.stopped = false)
      (inbox : m.exchange.inbox s.connection = raw :: rest) :
      Outcome s m now { s with held := some (decode raw now) }
        { m with
          exchange := m.exchange.update s.connection fun slot => { slot with inbox := rest } }
        [raw]
  | ended (requests : List Request)
      (running : s.stopped = false) :
      Outcome s m now { s with requests, held := none, stopped := true }
        { m with exchange := m.exchange.release s.connection } []

/-- Serving a request to remove targets always succeeds on a store in memory. -/
theorem serve_remove_recorded
    (s : Subscription)
    (targets : List String)
    (m : Memory) :
    (s.serve (.remove targets)).run (⟨m, []⟩ : Recorded Memory) =
      ({ s with replies := s.replies ++ [.ok ()] },
        ⟨{ m with exchange := m.exchange.leave s.kind s.connection targets }, []⟩) := by
  cases s with
  | mk kind =>
      cases kind with
      | channels => rfl
      | patterns => rfl

variable {s : Subscription} {m : Memory} {now : Calendar.Timestamp}

theorem outcome_serveOr
    (hrunning : s.stopped = false)
    {idle : StateM (Recorded Memory) Subscription}
    (hidle : Outcome s m now (idle.run ⟨m, []⟩).1 (idle.run ⟨m, []⟩).2.store
      (idle.run ⟨m, []⟩).2.returned) :
    let out := (s.serveOr idle).run ⟨m, []⟩
    Outcome s m now out.1 out.2.store out.2.returned := by
  rw [serveOr]
  cases hrequests : s.requests with
  | nil => exact hidle
  | cons request rest =>
      cases request with
      | close => exact .ended rest hrunning
      | remove targets =>
          simp only [serve_remove_recorded]
          exact .served targets rest hrunning hrequests

theorem outcome_poll
    (hrunning : s.stopped = false) :
    let out := (s.poll now).run (⟨m, []⟩ : Recorded Memory)
    Outcome s m now out.1 out.2.store out.2.returned := by
  have hcall : (Store.nextMessage s.connection .zero :
      StoreM (Recorded Memory) (Option RawMessage)).answer ⟨m, []⟩ =
    ((m.nextMessage s.connection .zero).1,
      ⟨(m.nextMessage s.connection .zero).2, taken (m.nextMessage s.connection .zero).1⟩) := rfl
  rw [poll_run, hcall, Memory.nextMessage]
  cases hinbox : m.exchange.inbox s.connection with
  | cons raw rest =>
      rw [(Exchange.nextMessage_of_cons hinbox).1]
      exact .fetched raw rest hrunning hinbox
  | nil =>
      rcases Exchange.nextMessage_of_nil hinbox with hnext | hnext
      · rw [hnext]
        exact .idle
      · rw [hnext]
        exact .ended s.requests hrunning

theorem outcome_program
    (s : Subscription)
    (m : Memory)
    (now : Calendar.Timestamp)
    (move : Move) :
    let out := (s.program now move).run (⟨m, []⟩ : Recorded Memory)
    Outcome s m now out.1 out.2.store out.2.returned := by
  cases hstopped : s.stopped with
  | true =>
      cases move with
      | step => rw [program, step, if_pos hstopped]; exact .idle
      | serve => rw [program, if_pos hstopped]; exact .idle
      | poll => rw [program, if_pos (Or.inl hstopped)]; exact .idle
  | false =>
      cases move with
      | serve =>
          rw [program_serve hstopped]
          exact outcome_serveOr hstopped .idle
      | poll =>
          cases hheld : s.held with
          | none =>
              rw [program_poll hstopped hheld]
              exact outcome_poll hstopped
          | some message =>
              rw [program, if_pos (Or.inr (by simp [hheld]))]
              exact .idle
      | step =>
          rw [program, step, if_neg (by simp [hstopped])]
          cases hheld : s.held with
          | none => exact outcome_serveOr hstopped (outcome_poll hstopped)
          | some message =>
              simp only
              split
              · exact .put message hheld
              · exact outcome_serveOr hstopped .idle

end Subscription

open Subscription

theorem Stream.forward_outcome
    (r : Stream Memory)
    (move : Subscription.Move)
    (now : Calendar.Timestamp) :
    ∃ log, Outcome r.subscription r.store now (r.forward move now).subscription
        (r.forward move now).store log ∧
      (r.forward move now).returned = r.returned ++ log.map fun raw => (raw, now) :=
  ⟨_, outcome_program r.subscription r.store now move, rfl⟩

/-- The answer to a call to remove targets that needs no request. -/
def Subscription.atOnce (s : Subscription) (requested : SubscriptionKind) (names : List String) :
    Option (Except BrokerError Unit) :=
  if requested ≠ s.kind then some (.error (.targetKind s.kind requested))
  else if s.closed then some (.error .closed)
  else if s.named names = [] then some (.ok ())
  else if s.stopped then some (.error .closed)
  else none

theorem Subscription.of_atOnce_none
    {s : Subscription}
    {requested : SubscriptionKind}
    {names : List String}
    (h : s.atOnce requested names = none) :
    requested = s.kind ∧ s.closed = false ∧ s.stopped = false := by
  rw [atOnce] at h
  repeat' split at h
  all_goals simp_all

/-- A subscription with the request of a call to remove targets. -/
def Subscription.asking (s : Subscription) (names : List String) : Subscription :=
  { s with requests := s.requests ++ [Request.remove (s.named names)] }

/-- A call to remove targets, by whether it needs a request. -/
theorem Subscription.remove_eq
    {σ : Type}
    [Store σ]
    (s : Subscription)
    (requested : SubscriptionKind)
    (names : List String)
    (now : Calendar.Timestamp) :
    (s.remove requested names now : StateM σ (Except BrokerError Unit × Subscription)) =
      match s.atOnce requested names with
      | some answer => pure (answer, s)
      | none => (s.asking names).settle now >>= fun t => pure (t.settled (s.named names)) := by
  rw [remove, atOnce]
  split
  · rfl
  · split
    · rfl
    · simp only
      split
      · rfl
      · split
        · rfl
        · rfl

/-- A call of the consumer to remove targets, and what it answered. -/
structure Answered where
  requested : SubscriptionKind
  names : List String
  answer : Except BrokerError Unit

/-- What a call leaves of a list of targets; no names stand for all of them. -/
def Answered.leaves (targets : List String) (call : Answered) : List String :=
  match call.answer with
  | .ok () => targets.filter (· ∉ if call.names = [] then targets else call.names)
  | .error _ => targets

/-- A subscription to a store in memory that others use, too. -/
structure Audience where
  stream : Stream Memory
  /-- The names of the call to whose reply the consumer waits. -/
  waiting : Option (List String)
  /-- The calls to remove targets that have been answered, the first one first. -/
  calls : List Answered

/-- What happens to a subscription or near it. -/
inductive Audience.Event where
  | forward (move : Subscription.Move) (now : Calendar.Timestamp)
  | read
  /-- The consumer begins a call to remove targets. -/
  | ask (requested : SubscriptionKind) (names : List String)
  /-- The consumer comes to the end of such a call, if there is a reply. -/
  | take
  | close
  /-- Another client makes a move; it has no part in the connection. -/
  | others (move : Store.Move)
  /-- Nobody else uses the store any more. -/
  | shut

namespace Audience

/-- The subscription as it was opened. -/
def start (kind : SubscriptionKind) (targets : List String) (m : Memory) : Audience :=
  let x := m.exchange.subscriber.2
  let listening :=
    match kind with
    | .channels => x.subscribe m.exchange.next targets
    | .patterns => x.psubscribe m.exchange.next targets
  ⟨.start kind targets m.exchange.next { m with exchange := listening }, none, []⟩

abbrev subscription (r : Audience) : Subscription := r.stream.subscription

abbrev store (r : Audience) : Memory := r.stream.store

def answered (r : Audience) (requested : SubscriptionKind) (names : List String)
    (answer : Except BrokerError Unit) : Audience :=
  { r with calls := r.calls ++ [⟨requested, names, answer⟩] }

/-- A call to remove targets is answered at once or becomes a request. -/
def ask (r : Audience) (requested : SubscriptionKind) (names : List String) : Audience :=
  if r.waiting.isSome then r
  else
    match r.subscription.atOnce requested names with
    | some answer => r.answered requested names answer
    | none =>
        { r with
          stream := r.stream.next (.request (.remove (r.subscription.named names)))
          waiting := some names }

/-- The consumer finds the reply, or that the forwarder has stopped; until then it waits. -/
def take (r : Audience) : Audience :=
  match r.waiting with
  | none => r
  | some names =>
      let s := r.subscription
      if s.replies = [] ∧ s.stopped = false then r
      else
        let (answer, t) := s.settled (s.named names)
        { stream := r.stream.next (.note t.targets t.replies s.closed)
          waiting := none
          calls := r.calls ++ [⟨s.kind, names, answer⟩] }

/-- The consumer asks the forwarder to stop, if it does not wait for a reply. -/
def close (r : Audience) : Audience :=
  let s := r.subscription
  if r.waiting.isSome ∨ s.closed = true then r
  else
    { r with stream := (r.stream.next (.request .close)).next (.note s.targets s.replies true) }

def next (r : Audience) : Event → Audience
  | .forward move now => { r with stream := r.stream.forward move now }
  | .read => { r with stream := r.stream.next .read }
  | .ask requested names => r.ask requested names
  | .take => r.take
  | .close => r.close
  | .others move =>
      if move.connection? = some r.subscription.connection then r
      else { r with stream := r.stream.next (.others (r.store.step move)) }
  | .shut => { r with stream := r.stream.next (.others r.store.shut) }

def run (r : Audience) (events : List Event) : Audience :=
  events.foldl next r

end Audience

/-- How far a call to remove targets has come: nobody waits, the request has not been
served, its reply has not been taken; or the subscription is being closed; or it has
stopped. -/
inductive Phase : Option (List String) → Subscription → Memory → Prop
  | idle {s : Subscription} {m : Memory}
      (running : s.stopped = false)
      (unclosed : s.closed = false)
      (requests : s.requests = [])
      (replies : s.replies = [])
      (hears : m.Hears s.connection s.kind s.targets) :
      Phase none s m
  | asked {names : List String} {s : Subscription} {m : Memory}
      (running : s.stopped = false)
      (unclosed : s.closed = false)
      (requests : s.requests = [.remove (s.named names)])
      (replies : s.replies = [])
      (hears : m.Hears s.connection s.kind s.targets) :
      Phase (some names) s m
  | served {names : List String} {s : Subscription} {m : Memory}
      (running : s.stopped = false)
      (unclosed : s.closed = false)
      (requests : s.requests = [])
      (replies : s.replies = [.ok ()])
      (hears : m.Hears s.connection s.kind (s.targets.filter (· ∉ s.named names))) :
      Phase (some names) s m
  | closing {s : Subscription} {m : Memory}
      (running : s.stopped = false)
      (closed : s.closed = true)
      (requests : s.requests = [.close])
      (hears : m.Hears s.connection s.kind s.targets) :
      Phase none s m
  | stopped {waiting : Option (List String)} {s : Subscription} {m : Memory}
      (stopped : s.stopped = true)
      (silent : m.exchange.Silent s.connection) :
      Phase waiting s m

theorem Memory.Hears.leave
    {m : Memory}
    {id : SubscriberId}
    {kind : SubscriptionKind}
    {targets : List String}
    (h : m.Hears id kind targets)
    (gone : List String) :
    Memory.Hears { m with exchange := m.exchange.leave kind id gone } id kind
      (targets.filter (· ∉ gone)) := by
  obtain ⟨slot, hslot, hears⟩ := h
  exact Exchange.slot?_leave hslot hears gone

theorem Memory.Hears.fetch
    {m : Memory}
    {id : SubscriberId}
    {kind : SubscriptionKind}
    {targets : List String}
    (h : m.Hears id kind targets)
    (rest : List RawMessage) :
    Memory.Hears
      { m with exchange := m.exchange.update id fun slot => { slot with inbox := rest } }
      id kind targets := by
  obtain ⟨slot, hslot, hears⟩ := h
  have hupdated := Exchange.slot?_update m.exchange id
    (fun slot => { slot with inbox := rest }) fun _ => rfl
  rw [hslot] at hupdated
  exact ⟨_, hupdated, hears.setInbox rest⟩

theorem Memory.Hears.move
    {m : Memory}
    {id : SubscriberId}
    {kind : SubscriptionKind}
    {targets : List String}
    (h : m.Hears id kind targets)
    {move : Store.Move}
    (hmove : move.connection? ≠ some id) :
    (m.step move).Hears id kind targets := by
  obtain ⟨slot, hslot, hears⟩ := h
  exact ⟨_, (m.shift_step move).slot? hmove hslot hears.live, hears.setInbox _⟩

namespace Phase

section

variable {waiting : Option (List String)} {s : Subscription} {m : Memory}
  (h : Phase waiting s m)
include h

/-- What the forwarder holds and what is in the buffer do not matter. -/
theorem withMessages
    (held : Option Message)
    (buffer : List Message) :
    Phase waiting { s with held, buffer } m := by
  cases h with
  | idle running unclosed requests replies hears =>
      exact .idle running unclosed requests replies hears
  | asked running unclosed requests replies hears =>
      exact .asked running unclosed requests replies hears
  | served running unclosed requests replies hears =>
      exact .served running unclosed requests replies hears
  | closing running closed requests hears => exact .closing running closed requests hears
  | stopped stopped silent => exact .stopped stopped silent

/-- The store may change, as long as the connection listens to the same. -/
theorem withStore
    {k : Memory}
    (hhears : ∀ targets, m.Hears s.connection s.kind targets → k.Hears s.connection s.kind targets)
    (hsilent : s.stopped = true → m.exchange.Silent s.connection →
      k.exchange.Silent s.connection) :
    Phase waiting s k := by
  cases h with
  | idle running unclosed requests replies hears =>
      exact .idle running unclosed requests replies (hhears _ hears)
  | asked running unclosed requests replies hears =>
      exact .asked running unclosed requests replies (hhears _ hears)
  | served running unclosed requests replies hears =>
      exact .served running unclosed requests replies (hhears _ hears)
  | closing running closed requests hears => exact .closing running closed requests (hhears _ hears)
  | stopped stopped silent => exact .stopped stopped (hsilent stopped silent)

/-- A request that the forwarder serves is the one whose reply the consumer waits for. -/
theorem serve
    {targets : List String}
    {rest : List Request}
    (hrunning : s.stopped = false)
    (hrequests : s.requests = .remove targets :: rest) :
    Phase waiting { s with requests := rest, replies := s.replies ++ [.ok ()] }
      { m with exchange := m.exchange.leave s.kind s.connection targets } := by
  -- Only while a call waits is there a request to remove targets, and it is that call's own.
  cases h with
  | asked running unclosed requests replies hears =>
      rw [requests] at hrequests
      obtain ⟨hremove, rfl⟩ := List.cons.inj hrequests
      obtain rfl := Request.remove.inj hremove
      exact .served running unclosed rfl (by simp [replies]) (hears.leave _)
  | idle running unclosed requests replies hears =>
      rw [requests] at hrequests
      exact absurd hrequests (by simp)
  | served running unclosed requests replies hears =>
      rw [requests] at hrequests
      exact absurd hrequests (by simp)
  | closing running closed requests hears =>
      rw [requests] at hrequests
      exact absurd hrequests (by simp)
  | stopped stopped silent => exact absurd (hrunning.symm.trans stopped) (by simp)

theorem forward
    {now : Calendar.Timestamp}
    {t : Subscription}
    {k : Memory}
    {log : List RawMessage}
    (hout : Outcome s m now t k log) :
    Phase waiting t k := by
  cases hout with
  | idle => exact h
  | put message waiting => exact h.withMessages _ _
  | served targets rest hrunning hrequests => exact h.serve hrunning hrequests
  | fetched raw rest hrunning hinbox =>
      have hfetched := h.withMessages (some (decode raw now)) s.buffer
      exact hfetched.withStore (fun _ hears => hears.fetch rest)
        fun hstopped => absurd (hrunning.symm.trans hstopped) (by simp)
  | ended requests hrunning => exact .stopped rfl (Exchange.silent_release _ _)

theorem others
    {move : Store.Move}
    (hmove : move.connection? ≠ some s.connection)
    (hknown : s.connection < m.exchange.next) :
    Phase waiting s (m.step move) :=
  h.withStore (fun _ hears => hears.move hmove)
    fun _ hsilent => (m.shift_step move).silent hmove hknown hsilent

/-- Until the forwarder has stopped, the connection listens to nothing but targets. -/
theorem hears_within
    (hrunning : s.stopped = false) :
    ∃ targets, targets ⊆ s.targets ∧ m.Hears s.connection s.kind targets := by
  cases h with
  | idle running unclosed requests replies hears => exact ⟨_, List.Subset.refl _, hears⟩
  | asked running unclosed requests replies hears => exact ⟨_, List.Subset.refl _, hears⟩
  | served running unclosed requests replies hears => exact ⟨_, List.filter_subset_self _, hears⟩
  | closing running closed requests hears => exact ⟨_, List.Subset.refl _, hears⟩
  | stopped stopped silent => exact absurd (hrunning.symm.trans stopped) (by simp)

end

/-- A subscription that is open and not busy has no request and no reply, and what its
connection listens to are its targets. -/
theorem of_open
    {s : Subscription}
    {m : Memory}
    (h : Phase none s m)
    (hunclosed : s.closed = false)
    (hrunning : s.stopped = false) :
    s.requests = [] ∧ s.replies = [] ∧ m.Hears s.connection s.kind s.targets := by
  cases h with
  | idle running unclosed requests replies hears => exact ⟨requests, replies, hears⟩
  | closing running closed requests hears => exact absurd (hunclosed.symm.trans closed) (by simp)
  | stopped stopped silent => exact absurd (hrunning.symm.trans stopped) (by simp)

end Phase

namespace Subscription

/-- What a move of the forwarder keeps of what the consumer relies on. -/
structure Outcome.Keeps (s : Subscription) (m : Memory) (t : Subscription) (k : Memory) : Prop where
  kind : t.kind = s.kind
  targets : t.targets = s.targets
  connection : t.connection = s.connection
  closed : t.closed = s.closed
  running : t.stopped = false → s.stopped = false
  next : k.exchange.next = m.exchange.next

theorem Outcome.keeps
    {s t : Subscription}
    {m k : Memory}
    {now : Calendar.Timestamp}
    {log : List RawMessage}
    (h : Outcome s m now t k log) :
    Outcome.Keeps s m t k := by
  cases h with
  | idle => exact ⟨rfl, rfl, rfl, rfl, id, rfl⟩
  | put message waiting => exact ⟨rfl, rfl, rfl, rfl, id, rfl⟩
  | served targets rest running requests =>
      exact ⟨rfl, rfl, rfl, rfl, id, Exchange.next_leave _ _ _ _⟩
  | fetched raw rest running inbox => exact ⟨rfl, rfl, rfl, rfl, id, rfl⟩
  | ended requests running => exact ⟨rfl, rfl, rfl, rfl, fun _ => running, rfl⟩

/-- What a call leaves of the targets when its reply is taken. -/
theorem settled_targets
    (s : Subscription)
    (names : List String) :
    (s.settled (s.named names)).2.targets =
      Answered.leaves s.targets ⟨s.kind, names, (s.settled (s.named names)).1⟩ := by
  rw [settled]
  split
  · rfl
  · rfl
  · rfl

/-- A call that is answered at once leaves the targets as they are, and fails only for
the other kind as long as the subscription is open. -/
theorem leaves_atOnce
    {s : Subscription}
    {requested : SubscriptionKind}
    {names : List String}
    {answer : Except BrokerError Unit}
    (h : s.atOnce requested names = some answer) :
    Answered.leaves s.targets ⟨requested, names, answer⟩ = s.targets ∧
      (s.closed = false → s.stopped = false →
        answer = if requested = s.kind then .ok () else .error (.targetKind s.kind requested)) := by
  rw [atOnce] at h
  split at h
  · next hkind =>
      obtain rfl := Option.some.inj h
      exact ⟨rfl, fun _ _ => (if_neg hkind).symm⟩
  · next hkind =>
      split at h
      · next hclosed =>
          obtain rfl := Option.some.inj h
          exact ⟨rfl, fun hunclosed => absurd (hunclosed.symm.trans hclosed) (by simp)⟩
      · split at h
        · next hnone =>
            obtain rfl := Option.some.inj h
            refine ⟨?_, fun _ _ => (if_pos (not_not.1 hkind)).symm⟩
            have htargets : s.targets = [] := by
              rw [named] at hnone
              split at hnone
              · exact hnone
              · next hnames => exact absurd hnone hnames
            rw [Answered.leaves, htargets]
            rfl
        · split at h
          · next hstopped =>
              obtain rfl := Option.some.inj h
              exact ⟨rfl, fun _ hrunning => absurd (hrunning.symm.trans hstopped) (by simp)⟩
          · exact absurd h (by simp)

end Subscription

/-- What every event keeps of a subscription to targets of a kind. -/
structure Tended (kind : SubscriptionKind) (targets : List String) (r : Audience) : Prop where
  kind_eq : r.subscription.kind = kind
  known : r.subscription.connection < r.store.exchange.next
  phase : Phase r.waiting r.subscription r.store
  targets_eq : r.subscription.targets = r.calls.foldl Answered.leaves targets
  answers : r.subscription.closed = false → r.subscription.stopped = false →
    ∀ call ∈ r.calls,
      call.answer =
        if call.requested = kind then .ok () else .error (.targetKind kind call.requested)

namespace Tended

variable {kind : SubscriptionKind} {targets : List String} {r : Audience}
  (h : Tended kind targets r)
include h

theorem forward
    (move : Subscription.Move)
    (now : Calendar.Timestamp) :
    Tended kind targets { r with stream := r.stream.forward move now } := by
  obtain ⟨log, hout, -⟩ := r.stream.forward_outcome move now
  obtain ⟨hkind, htargets, hconnection, hclosed, hrunning, hnext⟩ := hout.keeps
  refine ⟨hkind.trans h.kind_eq, ?_, h.phase.forward hout, htargets.trans h.targets_eq, ?_⟩
  · show (r.stream.forward move now).subscription.connection <
      (r.stream.forward move now).store.exchange.next
    rw [hconnection, hnext]
    exact h.known
  · intro hunclosed hnow
    exact h.answers (hclosed.symm.trans hunclosed) (hrunning hnow)

theorem read :
    Tended kind targets { r with stream := r.stream.next .read } := by
  obtain ⟨rest, hrest, -⟩ := r.subscription.read_eq
  have hsubscription :
      (r.stream.next .read).subscription = { r.subscription with buffer := rest } := hrest
  refine ⟨?_, ?_, ?_, ?_, ?_⟩
  all_goals rw [Audience.subscription, hsubscription]
  · exact h.kind_eq
  · exact h.known
  · exact h.phase.withMessages _ rest
  · exact h.targets_eq
  · exact h.answers

/-- A call that is answered at once leaves the subscription as it is. -/
theorem answered
    {requested : SubscriptionKind}
    {names : List String}
    {answer : Except BrokerError Unit}
    (hleaves : Answered.leaves r.subscription.targets ⟨requested, names, answer⟩ =
      r.subscription.targets)
    (hanswer : r.subscription.closed = false → r.subscription.stopped = false →
      answer = if requested = kind then .ok () else .error (.targetKind kind requested)) :
    Tended kind targets (r.answered requested names answer) := by
  refine ⟨h.kind_eq, h.known, h.phase, ?_, ?_⟩
  · show r.subscription.targets = (r.calls ++ [_]).foldl Answered.leaves targets
    rw [List.foldl_append, ← h.targets_eq]
    exact hleaves.symm
  · intro hunclosed hrunning call hcall
    rcases List.mem_append.1 hcall with hold | hnew
    · exact h.answers hunclosed hrunning call hold
    · rw [List.mem_singleton.1 hnew]
      exact hanswer hunclosed hrunning

theorem ask
    (requested : SubscriptionKind)
    (names : List String) :
    Tended kind targets (r.ask requested names) := by
  rw [Audience.ask]
  split
  · exact h
  · next hfree =>
      cases hatonce : r.subscription.atOnce requested names with
      | some answer =>
          obtain ⟨hleaves, hanswer⟩ := leaves_atOnce hatonce
          rw [h.kind_eq] at hanswer
          exact h.answered hleaves hanswer
      | none =>
          obtain ⟨-, hunclosed, hrunning⟩ := of_atOnce_none hatonce
          have hphase := h.phase
          rw [Bool.not_eq_true, Option.isSome_eq_false_iff, Option.isNone_iff_eq_none] at hfree
          rw [hfree] at hphase
          obtain ⟨hrequests, hreplies, hears⟩ := hphase.of_open hunclosed hrunning
          refine ⟨h.kind_eq, h.known, ?_, h.targets_eq, h.answers⟩
          exact .asked hrunning hunclosed (by simp [Stream.next, hrequests]; rfl) hreplies hears

/-- The reply that the consumer waits for has come, or the forwarder has stopped. -/
theorem takeReply
    {names : List String}
    (hwaiting : r.waiting = some names)
    (hdone : ¬ (r.subscription.replies = [] ∧ r.subscription.stopped = false)) :
    let out := r.subscription.settled (r.subscription.named names)
    Tended kind targets
      { stream := r.stream.next (.note out.2.targets out.2.replies r.subscription.closed)
        waiting := none
        calls := r.calls ++ [⟨r.subscription.kind, names, out.1⟩] } := by
  intro out
  have htargets := r.subscription.settled_targets names
  have hphase := h.phase
  rw [hwaiting] at hphase
  refine ⟨h.kind_eq, h.known, ?_, ?_, ?_⟩
  · cases hphase with
    | asked running unclosed requests replies hears => exact absurd ⟨replies, running⟩ hdone
    | served running unclosed requests replies hears =>
        have hout : out = (.ok (), { r.subscription with
            replies := []
            targets := r.subscription.targets.filter (· ∉ r.subscription.named names) }) := by
          show r.subscription.settled _ = _
          rw [settled, replies]
        rw [hout]
        exact .idle running unclosed requests rfl hears
    | stopped stopped silent => exact .stopped stopped silent
  · show out.2.targets = (r.calls ++ [_]).foldl Answered.leaves targets
    rw [List.foldl_append, ← h.targets_eq]
    exact htargets
  · intro hunclosed hrunning call hcall
    rcases List.mem_append.1 hcall with hold | hnew
    · exact h.answers hunclosed hrunning call hold
    · rw [List.mem_singleton.1 hnew, if_pos h.kind_eq]
      cases hphase with
      | asked running unclosed requests replies hears => exact absurd ⟨replies, running⟩ hdone
      | served running unclosed requests replies hears =>
          show (r.subscription.settled _).1 = _
          rw [settled, replies]
      | stopped stopped silent => exact absurd (hrunning.symm.trans stopped) (by simp)

theorem take :
    Tended kind targets r.take := by
  rw [Audience.take]
  split
  · exact h
  · next names hwaiting =>
      simp only
      split
      · exact h
      · next hdone => exact h.takeReply hwaiting hdone

theorem close :
    Tended kind targets r.close := by
  rw [Audience.close]
  split
  · exact h
  · next hfree =>
      simp only [not_or, Bool.not_eq_true, Option.isSome_eq_false_iff, Option.isNone_iff_eq_none]
        at hfree
      obtain ⟨hwaiting, hunclosed⟩ := hfree
      have hphase := h.phase
      rw [hwaiting] at hphase
      refine ⟨h.kind_eq, h.known, ?_, h.targets_eq, fun hopen => absurd hopen Bool.noConfusion⟩
      show Phase r.waiting _ _
      rw [hwaiting]
      cases hphase with
      | idle running unclosed requests replies hears =>
          exact .closing running rfl (by simp [Stream.next, requests]) hears
      | closing running closed requests hears =>
          exact absurd (hunclosed.symm.trans closed) (by simp)
      | stopped stopped silent => exact .stopped stopped silent

theorem others
    {move : Store.Move}
    (hmove : move.connection? ≠ some r.subscription.connection) :
    Tended kind targets { r with stream := r.stream.next (.others (r.store.step move)) } :=
  ⟨h.kind_eq, Nat.lt_of_lt_of_le h.known (r.store.shift_step move).next_le,
    h.phase.others hmove h.known, h.targets_eq, h.answers⟩

theorem shut :
    Tended kind targets { r with stream := r.stream.next (.others r.store.shut) } :=
  ⟨h.kind_eq, h.known, h.phase.withStore (fun _ hears => hears) (fun _ hsilent => hsilent),
    h.targets_eq, h.answers⟩

/-- **An event.** -/
theorem next
    (e : Audience.Event) :
    Tended kind targets (r.next e) := by
  cases e with
  | forward move now => exact h.forward move now
  | read => exact h.read
  | ask requested names => exact h.ask requested names
  | take => exact h.take
  | close => exact h.close
  | others move =>
      rw [Audience.next]
      split
      · exact h
      · next hmove => exact h.others hmove
  | shut => exact h.shut

/-- **A run.** -/
theorem run
    (events : List Audience.Event) :
    Tended kind targets (r.run events) := by
  induction events generalizing r with
  | nil => exact h
  | cons e events ih => exact ih (h.next e)

end Tended

end Courier
