import Courier.Proofs.Broker.Delivery
import Courier.Proofs.Store.Recorded

/-!
# The stream of a subscription

The forwarder of a subscription reads payloads, holds the message of at most one
of them and puts messages into the buffer; the consumer reads the buffer, asks the
forwarder for things and may close the subscription; and the connection may get
payloads, or break, at any time.  Whatever the order of all this, each payload
that the connection returned is one message, and the messages stand in the order
of their payloads in what was read, in the buffer and in what is held.  Only what
the forwarder holds when it stops is lost.

**Results.**
* `Stream.next`, `Stream.run`: one event and a sequence of them.
* `Subscription.Carried`: what a move of the forwarder can do to the messages.
* `Stream.Ordered.next`, `Stream.Ordered.run`: the order that every event keeps.
* `Stream.run_of_stopped`: nothing is returned or lost after the stop.
* `Stream.reaches_receiveUpTo`, `Stream.reaches_remove`, `Stream.reaches_close`: the
  calls of the consumer are sequences of events.
* `stream_of_returned`: what is read is what was returned, before and after the stop.
-/

namespace Courier

open Recorded (Alike)

namespace Subscription

/-- A move of the forwarder.  It looks at the requests and at the connection in one
step; where something comes in between, it looks at only one of them. -/
inductive Move where
  | step
  | serve
  | poll

section Programs

variable {τ : Type} [Store τ]

def program (s : Subscription) (now : Calendar.Timestamp) : Move → StateM τ Subscription
  | .step => s.step now
  | .serve => if s.stopped then pure s else s.serveOr (pure s)
  | .poll => if s.stopped ∨ s.held ≠ none then pure s else s.poll now

end Programs

/-- What a move of the forwarder can do to the messages, by the payloads that it takes
from the connection. -/
inductive Carried (s : Subscription) (now : Calendar.Timestamp) (t : Subscription) :
    List RawMessage → Prop
  | same
      (buffer : t.buffer = s.buffer)
      (held : t.held = s.held)
      (stopped : t.stopped = s.stopped) :
      Carried s now t []
  | fetched (raw : RawMessage)
      (running : s.stopped = false)
      (free : s.held = none)
      (buffer : t.buffer = s.buffer)
      (held : t.held = some (decode raw now))
      (stopped : t.stopped = false) :
      Carried s now t [raw]
  | put (m : Message)
      (running : s.stopped = false)
      (waiting : s.held = some m)
      (room : s.buffer.length < capacity)
      (buffer : t.buffer = s.buffer ++ [m])
      (held : t.held = none)
      (stopped : t.stopped = false) :
      Carried s now t []
  | ended
      (running : s.stopped = false)
      (buffer : t.buffer = s.buffer)
      (held : t.held = none)
      (stopped : t.stopped = true) :
      Carried s now t []

variable {σ : Type} [Store σ]

/-- A program carries messages on, and writes down the payloads that it takes. -/
def Carries (s : Subscription) (now : Calendar.Timestamp)
    (p : StateM (Recorded σ) Subscription) : Prop :=
  ∀ r, ∃ log, (p.run r).2.returned = r.returned ++ log ∧ Carried s now (p.run r).1 log

omit [Store σ] in
theorem carries_pure
    (s : Subscription)
    (now : Calendar.Timestamp) :
    Carries (σ := σ) s now (pure s) :=
  fun _ => ⟨[], (List.append_nil _).symm, Carried.same rfl rfl rfl⟩

theorem dropTargets_run
    (s : Subscription)
    (targets : List String)
    (r : Recorded σ) :
    ∃ answer k, (s.dropTargets targets).run.run r = (answer, ⟨k, r.returned⟩) := by
  rw [dropTargets]
  cases s.kind with
  | channels => exact ⟨_, _, rfl⟩
  | patterns => exact ⟨_, _, rfl⟩

theorem carries_serve
    {s t : Subscription}
    (hrunning : s.stopped = false)
    (hbuffer : t.buffer = s.buffer)
    (hheld : t.held = s.held)
    (hstopped : t.stopped = s.stopped)
    (now : Calendar.Timestamp)
    (request : Request) :
    Carries (σ := σ) s now (t.serve request) := by
  intro r
  refine ⟨[], ?_⟩
  rw [List.append_nil]
  cases request with
  | close => exact ⟨rfl, Carried.ended hrunning hbuffer rfl rfl⟩
  | remove targets =>
      obtain ⟨answer, k, hdrop⟩ := t.dropTargets_run targets r
      simp only [StateT.run] at hdrop
      simp only [serve, StateT.run, bind, StateT.bind, hdrop]
      cases answer with
      | ok done => exact ⟨rfl, Carried.same hbuffer hheld hstopped⟩
      | error e =>
          simp only
          split
          · exact ⟨rfl, Carried.ended hrunning hbuffer rfl rfl⟩
          · exact ⟨rfl, Carried.same hbuffer hheld hstopped⟩

theorem carries_serveOr
    {s : Subscription}
    (hrunning : s.stopped = false)
    {now : Calendar.Timestamp}
    {idle : StateM (Recorded σ) Subscription}
    (hidle : Carries s now idle) :
    Carries s now (s.serveOr idle) := by
  rw [serveOr]
  cases s.requests with
  | nil => exact hidle
  | cons request rest =>
      exact carries_serve (t := { s with requests := rest }) hrunning rfl rfl rfl now request

/-- The one place where payloads are taken: none is taken without becoming what is held. -/
theorem carries_poll
    {s : Subscription}
    (hrunning : s.stopped = false)
    (hheld : s.held = none)
    (now : Calendar.Timestamp) :
    Carries (σ := σ) s now (s.poll now) := by
  intro r
  have hcall : (Store.nextMessage s.connection .zero :
      StoreM (Recorded σ) (Option RawMessage)).answer r =
    (Recorded.recording (Store.nextMessage s.connection .zero)).answer r := rfl
  rw [poll_run, hcall, Recorded.recording_answer]
  rcases (Store.nextMessage s.connection .zero : StoreM σ (Option RawMessage)).answer r.store with
    ⟨e | _ | raw, k⟩
  · exact ⟨[], rfl, Carried.ended hrunning rfl rfl rfl⟩
  · exact ⟨[], rfl, Carried.same rfl rfl rfl⟩
  · exact ⟨[raw], rfl, Carried.fetched raw hrunning hheld rfl rfl hrunning⟩

theorem carries_step
    (s : Subscription)
    (now : Calendar.Timestamp) :
    Carries (σ := σ) s now (s.step now) := by
  rw [step]
  split
  · exact carries_pure s now
  · next hstopped =>
      have hrunning : s.stopped = false := by simpa using hstopped
      cases hheld : s.held with
      | none => exact carries_serveOr hrunning (carries_poll hrunning hheld now)
      | some m =>
          simp only
          split
          · next hroom =>
              refine fun _ => ⟨[], (List.append_nil _).symm, ?_⟩
              exact Carried.put m hrunning hheld hroom rfl rfl hrunning
          · exact carries_serveOr hrunning (carries_pure s now)

theorem carries_program
    (s : Subscription)
    (now : Calendar.Timestamp)
    (move : Move) :
    Carries (σ := σ) s now (s.program now move) := by
  cases move with
  | step => exact carries_step s now
  | serve =>
      rw [program]
      split
      · exact carries_pure s now
      · next hstopped =>
          exact carries_serveOr (by simpa using hstopped) (carries_pure s now)
  | poll =>
      rw [program]
      split
      · exact carries_pure s now
      · next hbusy =>
          obtain ⟨hstopped, hheld⟩ : s.stopped = false ∧ s.held = none := by simpa using hbusy
          exact carries_poll hstopped hheld now

theorem alike_serve
    (s : Subscription)
    (request : Request) :
    Alike (σ := σ) (s.serve request) (s.serve request) := by
  cases request with
  | close => exact fun _ => ⟨rfl, rfl⟩
  | remove targets =>
      have hdrop : Alike (σ := σ) (s.dropTargets targets).run (s.dropTargets targets).run := by
        rw [dropTargets, dropTargets]
        cases s.kind with
        | channels => exact Recorded.alike_behind _
        | patterns => exact Recorded.alike_behind _
      refine hdrop.bind fun answer => ?_
      cases answer with
      | ok done => exact Alike.pure _
      | error e =>
          simp only
          split
          · exact fun _ => ⟨rfl, rfl⟩
          · exact Alike.pure _

theorem alike_serveOr
    (s : Subscription)
    {p : StateM (Recorded σ) Subscription}
    {q : StateM σ Subscription}
    (hidle : Alike p q) :
    Alike (s.serveOr p) (s.serveOr q) := by
  rw [serveOr, serveOr]
  cases s.requests with
  | nil => exact hidle
  | cons request rest => exact alike_serve { s with requests := rest } request

theorem alike_poll
    (s : Subscription)
    (now : Calendar.Timestamp) :
    Alike (σ := σ) (s.poll now) (s.poll now) := by
  refine (Recorded.alike_recording _).bind fun answer => ?_
  rcases answer with e | _ | raw
  · exact fun _ => ⟨rfl, rfl⟩
  · exact Alike.pure _
  · exact Alike.pure _

/-- A forwarder does the same whether or not the store writes down what it returns. -/
theorem alike_step
    (s : Subscription)
    (now : Calendar.Timestamp) :
    Alike (σ := σ) (s.step now) (s.step now) := by
  rw [step, step]
  split
  · exact Alike.pure _
  · cases s.held with
    | none => exact s.alike_serveOr (s.alike_poll now)
    | some m =>
        simp only
        split
        · exact Alike.pure _
        · exact s.alike_serveOr (Alike.pure _)

end Subscription

def Reading.messages : Reading → List Message
  | .message m => [m]
  | .nothing => []
  | .ended => []

theorem Subscription.read_of_cons
    {s : Subscription}
    {m : Message}
    {rest : List Message}
    (h : s.buffer = m :: rest) :
    s.read = (.message m, { s with buffer := rest }) := by
  rw [read, h]

theorem Subscription.read_of_nil
    {s : Subscription}
    (h : s.buffer = []) :
    s.read = (if s.stopped then .ended else .nothing, s) := by
  rw [read, h]

theorem Subscription.of_read_ended
    {s : Subscription}
    (h : s.read.1 = .ended) :
    s.buffer = [] ∧ s.stopped = true := by
  cases hbuffer : s.buffer with
  | cons m rest =>
      rw [read_of_cons hbuffer] at h
      exact absurd h (by simp)
  | nil =>
      rw [read_of_nil hbuffer] at h
      exact ⟨rfl, by simpa using h⟩

theorem Subscription.read_eq
    (s : Subscription) :
    ∃ rest, s.read.2 = { s with buffer := rest } ∧ s.read.1.messages ++ rest = s.buffer := by
  cases hbuffer : s.buffer with
  | cons m rest =>
      rw [read_of_cons hbuffer]
      exact ⟨rest, rfl, rfl⟩
  | nil =>
      rw [read_of_nil hbuffer, ← hbuffer]
      refine ⟨s.buffer, rfl, ?_⟩
      cases s.stopped with
      | true => rfl
      | false => rfl

theorem Subscription.settled_eq
    (s : Subscription)
    (targets : List String) :
    ∃ left replies, (s.settled targets).2 = { s with targets := left, replies } := by
  rw [settled]
  cases hreplies : s.replies with
  | nil => exact ⟨s.targets, s.replies, rfl⟩
  | cons reply rest =>
      cases reply with
      | ok done => exact ⟨_, rest, rfl⟩
      | error e => exact ⟨s.targets, rest, rfl⟩

/-- A subscription in front of a store, with what has passed through it. -/
structure Stream (σ : Type) where
  subscription : Subscription
  store : σ
  /-- The payloads that the connection has returned, with the clock readings at which
  they were made messages. -/
  returned : List (RawMessage × Calendar.Timestamp)
  consumed : List Message
  /-- The message that the forwarder held when it stopped. -/
  lost : Option Message

/-- What happens to a subscription or near it. -/
inductive Stream.Event (σ : Type) where
  | forward (move : Subscription.Move) (now : Calendar.Timestamp)
  | read
  | request (r : Request)
  /-- The consumer changes what only it looks at. -/
  | note (targets : List String) (replies : List (Except StoreError Unit)) (closed : Bool)
  /-- Others change the store as they like: payloads arrive, or the connection breaks. -/
  | others (store : σ)

namespace Stream

open Subscription

variable {σ : Type}

def start (kind : SubscriptionKind) (targets : List String) (connection : SubscriberId)
    (store : σ) : Stream σ :=
  ⟨.start kind targets connection, store, [], [], none⟩

/-- The forwarder makes a move, on a store that writes down what it returns. -/
def forward [Store σ] (r : Stream σ) (move : Move) (now : Calendar.Timestamp) : Stream σ :=
  let (s, k) := (r.subscription.program now move).run (⟨r.store, []⟩ : Recorded σ)
  { r with
    subscription := s
    store := k.store
    returned := r.returned ++ k.returned.map fun raw => (raw, now)
    lost := if r.subscription.stopped = false ∧ s.stopped = true then r.subscription.held
      else r.lost }

def next [Store σ] (r : Stream σ) : Event σ → Stream σ
  | .forward move now => r.forward move now
  | .read =>
      { r with
        subscription := r.subscription.read.2
        consumed := r.consumed ++ r.subscription.read.1.messages }
  | .request request =>
      { r with subscription :=
          { r.subscription with requests := r.subscription.requests ++ [request] } }
  | .note targets replies closed =>
      { r with subscription := { r.subscription with targets, replies, closed } }
  | .others store => { r with store }

def run [Store σ] (r : Stream σ) (events : List (Event σ)) : Stream σ :=
  events.foldl next r

def decoded (r : Stream σ) : List Message :=
  r.returned.map fun p => decode p.1 p.2

/-- What every event keeps. -/
structure Ordered (r : Stream σ) : Prop where
  within : r.subscription.buffer.length ≤ capacity
  order : r.consumed ++ r.subscription.buffer ++ r.subscription.held.toList ++ r.lost.toList =
    r.decoded
  /-- Nothing is lost before the stop, and nothing is held after it. -/
  lost_of_running : r.subscription.stopped = false → r.lost = none
  held_of_stopped : r.subscription.stopped = true → r.subscription.held = none

theorem ordered_start
    (kind : SubscriptionKind)
    (targets : List String)
    (connection : SubscriberId)
    (store : σ) :
    (start kind targets connection store).Ordered :=
  ⟨Nat.zero_le _, rfl, fun _ => rfl, fun _ => rfl⟩

namespace Ordered

variable {r : Stream σ} (h : r.Ordered)
include h

theorem carried
    {now : Calendar.Timestamp}
    {t : Subscription}
    {log : List RawMessage}
    (hcarried : Carried r.subscription now t log)
    (store : σ) :
    Ordered
      { r with
        subscription := t
        store
        returned := r.returned ++ log.map fun raw => (raw, now)
        lost := if r.subscription.stopped = false ∧ t.stopped = true then r.subscription.held
          else r.lost } := by
  have horder := h.order
  rw [decoded] at horder
  cases hcarried with
  | same buffer held stopped =>
      rw [stopped, if_neg (by simp)]
      refine ⟨?_, ?_, h.lost_of_running ∘ stopped.symm.trans, ?_⟩
      · rw [buffer]
        exact h.within
      · simp [decoded, buffer, held, ← horder]
      · intro ht
        rw [held]
        exact h.held_of_stopped (stopped.symm.trans ht)
  | fetched raw running free buffer held stopped =>
      have hnone := h.lost_of_running running
      rw [if_neg (by simp [stopped])]
      refine ⟨?_, ?_, fun _ => hnone, ?_⟩
      · rw [buffer]
        exact h.within
      · simp [decoded, buffer, held, hnone, ← horder, free]
      · intro ht
        exact absurd (stopped.symm.trans ht) (by simp)
  | put m running waiting room buffer held stopped =>
      have hnone := h.lost_of_running running
      rw [if_neg (by simp [stopped])]
      refine ⟨?_, ?_, fun _ => hnone, fun _ => held⟩
      · rw [buffer, List.length_append]
        exact room
      · simp [decoded, buffer, held, hnone, waiting, ← horder]
  | ended running buffer held stopped =>
      -- What was held is now what is lost, so that the four parts together stay the same.
      have hnone := h.lost_of_running running
      rw [if_pos ⟨running, stopped⟩]
      refine ⟨?_, ?_, ?_, fun _ => held⟩
      · rw [buffer]
        exact h.within
      · simp [decoded, buffer, held, hnone, ← horder]
      · intro ht
        exact absurd (stopped.symm.trans ht) (by simp)

variable [Store σ]

theorem forward
    (move : Move)
    (now : Calendar.Timestamp) :
    (r.forward move now).Ordered := by
  obtain ⟨log, hlog, hcarried⟩ := carries_program r.subscription now move ⟨r.store, []⟩
  rw [List.nil_append] at hlog
  have hnext := h.carried hcarried ((r.subscription.program now move).run
    (⟨r.store, []⟩ : Recorded σ)).2.store
  rw [← hlog] at hnext
  exact hnext

theorem next
    (e : Event σ) :
    (r.next e).Ordered := by
  cases e with
  | forward move now => exact h.forward move now
  | read =>
      obtain ⟨rest, hrest, hread⟩ := r.subscription.read_eq
      have hwithin := h.within
      have horder := h.order
      rw [← hread, List.length_append] at hwithin
      rw [← hread, ← List.append_assoc] at horder
      rw [Stream.next, hrest]
      exact ⟨by show rest.length ≤ capacity; omega, horder, h.lost_of_running, h.held_of_stopped⟩
  | request request => exact ⟨h.within, h.order, h.lost_of_running, h.held_of_stopped⟩
  | note targets replies closed =>
      exact ⟨h.within, h.order, h.lost_of_running, h.held_of_stopped⟩
  | others store => exact ⟨h.within, h.order, h.lost_of_running, h.held_of_stopped⟩

theorem run
    (events : List (Event σ)) :
    (r.run events).Ordered := by
  induction events generalizing r with
  | nil => exact h
  | cons e events ih => exact ih (h.next e)

end Ordered

theorem forward_of_stopped
    [Store σ]
    {r : Stream σ}
    (hstopped : r.subscription.stopped = true)
    (move : Move)
    (now : Calendar.Timestamp) :
    r.forward move now = r := by
  have hidle : r.subscription.program now move =
      (pure r.subscription : StateM (Recorded σ) Subscription) := by
    cases move with
    | step => exact if_pos hstopped
    | serve => exact if_pos hstopped
    | poll => exact if_pos (Or.inl hstopped)
  have hlost : (if r.subscription.stopped = false ∧ r.subscription.stopped = true
      then r.subscription.held else r.lost) = r.lost := if_neg (by simp)
  rw [forward, hidle]
  show (⟨r.subscription, r.store, r.returned ++ [], r.consumed, ite _ _ _⟩ : Stream σ) = r
  rw [hlost, List.append_nil]

theorem run_of_stopped
    [Store σ]
    {r : Stream σ}
    (hstopped : r.subscription.stopped = true)
    (events : List (Event σ)) :
    (r.run events).subscription.stopped = true ∧
      (r.run events).returned = r.returned ∧
      (r.run events).lost = r.lost := by
  induction events generalizing r with
  | nil => exact ⟨hstopped, rfl, rfl⟩
  | cons e events ih =>
      have hnext : (r.next e).subscription.stopped = true ∧
          (r.next e).returned = r.returned ∧ (r.next e).lost = r.lost := by
        cases e with
        | forward move now =>
            rw [next, forward_of_stopped hstopped]
            exact ⟨hstopped, rfl, rfl⟩
        | read =>
            obtain ⟨rest, hrest, -⟩ := r.subscription.read_eq
            refine ⟨?_, rfl, rfl⟩
            rw [next, hrest]
            exact hstopped
        | request request => exact ⟨hstopped, rfl, rfl⟩
        | note targets replies closed => exact ⟨hstopped, rfl, rfl⟩
        | others store => exact ⟨hstopped, rfl, rfl⟩
      obtain ⟨hnow, hreturned, hlost⟩ := hnext
      obtain ⟨hend, hsame, hkept⟩ := ih hnow
      exact ⟨hend, hsame.trans hreturned, hkept.trans hlost⟩

/-- Where nobody else acts, the consumer reads the buffer to its end. -/
theorem run_read
    [Store σ]
    (r : Stream σ)
    {ms : List Message}
    (hms : r.subscription.buffer = ms) :
    let e := r.run (List.replicate ms.length .read)
    e.consumed = r.consumed ++ ms ∧ e.subscription = { r.subscription with buffer := [] } := by
  induction ms generalizing r with
  | nil =>
      refine ⟨(List.append_nil _).symm, ?_⟩
      show r.subscription = _
      rw [← hms]
  | cons m rest ih =>
      have hnext : r.next .read =
          { r with
            subscription := { r.subscription with buffer := rest }
            consumed := r.consumed ++ [m] } := by
        rw [next, read_of_cons hms]
        rfl
      obtain ⟨hconsumed, hend⟩ := ih (r.next .read) (by rw [hnext])
      refine ⟨hconsumed.trans ?_, hend.trans ?_⟩
      · rw [hnext, List.append_assoc]
        rfl
      · rw [hnext]

/-- A sequence of events leads to a state of the subscription and the store, and the
consumer reads messages on the way. -/
def Reaches [Store σ] (r : Stream σ) (s : Subscription) (store : σ) (read : List Message) : Prop :=
  ∃ events,
    (r.run events).subscription = s ∧
      (r.run events).store = store ∧
      (r.run events).consumed = r.consumed ++ read

section Reaches

variable [Store σ] {r : Stream σ}

theorem reaches_self :
    r.Reaches r.subscription r.store [] :=
  ⟨[], rfl, rfl, (List.append_nil _).symm⟩

theorem Reaches.next
    {s : Subscription}
    {store : σ}
    {read : List Message}
    (e : Event σ)
    (h : (r.next e).Reaches s store read)
    (hconsumed : (r.next e).consumed = r.consumed) :
    r.Reaches s store read := by
  obtain ⟨events, hs, hstore, hread⟩ := h
  exact ⟨e :: events, hs, hstore, hread.trans (by rw [hconsumed])⟩

theorem Reaches.trans
    {s t : Subscription}
    {store later : σ}
    {read more : List Message}
    (h : r.Reaches s store read)
    (hlater : ∀ q : Stream σ, q.subscription = s → q.store = store → q.Reaches t later more) :
    r.Reaches t later (read ++ more) := by
  obtain ⟨events, hs, hstore, hread⟩ := h
  obtain ⟨rest, ht, hend, hmore⟩ := hlater _ hs hstore
  have hrun : r.run (events ++ rest) = (r.run events).run rest := List.foldl_append
  refine ⟨events ++ rest, ?_, ?_, ?_⟩
  · rw [hrun, ht]
  · rw [hrun, hend]
  · rw [hrun, hmore, hread, List.append_assoc]

/-- What only the consumer looks at may change behind it. -/
theorem Reaches.note
    {s : Subscription}
    {store : σ}
    {read : List Message}
    (h : r.Reaches s store read)
    (targets : List String)
    (replies : List (Except StoreError Unit))
    (closed : Bool) :
    r.Reaches { s with targets, replies, closed } store read := by
  have hnote : ∀ q : Stream σ, q.subscription = s → q.store = store →
      q.Reaches { s with targets, replies, closed } store [] := by
    rintro q rfl rfl
    exact ⟨[.note targets replies closed], rfl, rfl, (List.append_nil _).symm⟩
  have hread := h.trans hnote
  rw [List.append_nil] at hread
  exact hread

theorem reaches_steps
    (s : Subscription)
    (store : σ)
    (now : Calendar.Timestamp)
    (n : Nat)
    (hs : r.subscription = s)
    (hstore : r.store = store) :
    r.Reaches ((s.steps now n).run store).1 ((s.steps now n).run store).2 [] := by
  induction n generalizing r s store with
  | zero =>
      subst hs hstore
      exact reaches_self
  | succ n ih =>
      subst hs hstore
      obtain ⟨hvalue, hstate⟩ := alike_step r.subscription now ⟨r.store, []⟩
      exact Reaches.next (.forward .step now) (ih _ _ hvalue hstate) rfl

theorem reaches_settle
    (s : Subscription)
    (store : σ)
    (now : Calendar.Timestamp)
    (hs : r.subscription = s)
    (hstore : r.store = store) :
    r.Reaches ((s.settle now).run store).1 ((s.settle now).run store).2 [] :=
  reaches_steps s store now (s.stepBound store) hs hstore

theorem reaches_receive
    (s : Subscription)
    (store : σ)
    (now : Calendar.Timestamp)
    (hs : r.subscription = s)
    (hstore : r.store = store) :
    let out := (s.receive now).run store
    r.Reaches out.1.2 out.2 out.1.1.messages := by
  subst hs hstore
  have hread : r.Reaches r.subscription.read.2 r.store r.subscription.read.1.messages :=
    ⟨[.read], rfl, rfl, rfl⟩
  have hsettle := hread.trans fun q hq hstore => q.reaches_settle _ _ now hq hstore
  rw [List.append_nil] at hsettle
  exact hsettle

theorem reaches_receiveUpTo
    (s : Subscription)
    (store : σ)
    (now : Calendar.Timestamp)
    (n : Nat)
    (hs : r.subscription = s)
    (hstore : r.store = store) :
    let out := (s.receiveUpTo now n).run store
    r.Reaches out.1.2 out.2 out.1.1 := by
  induction n generalizing r s store with
  | zero =>
      subst hs hstore
      exact reaches_self
  | succ n ih =>
      have hreceive := reaches_receive s store now hs hstore
      rcases hout : (s.receive now).run store with ⟨⟨m | _ | _, t⟩, k⟩
      · have hrun : (s.receiveUpTo now (n + 1)).run store =
            ((m :: ((t.receiveUpTo now n).run k).1.1, ((t.receiveUpTo now n).run k).1.2),
              ((t.receiveUpTo now n).run k).2) := by
          simp only [StateT.run] at hout
          simp only [receiveUpTo, StateT.run, bind, StateT.bind, hout]
          rfl
        rw [hout] at hreceive
        rw [hrun]
        exact hreceive.trans fun q hq hstore => ih t k hq hstore
      · have hrun : (s.receiveUpTo now (n + 1)).run store = (([], t), k) := by
          simp only [StateT.run] at hout
          simp only [receiveUpTo, StateT.run, bind, StateT.bind, hout]
          rfl
        rw [hout] at hreceive
        rw [hrun]
        exact hreceive
      · have hrun : (s.receiveUpTo now (n + 1)).run store = (([], t), k) := by
          simp only [StateT.run] at hout
          simp only [receiveUpTo, StateT.run, bind, StateT.bind, hout]
          rfl
        rw [hout] at hreceive
        rw [hrun]
        exact hreceive

theorem reaches_request
    (request : Request)
    (now : Calendar.Timestamp) :
    let s := { r.subscription with requests := r.subscription.requests ++ [request] }
    r.Reaches ((s.settle now).run r.store).1 ((s.settle now).run r.store).2 [] :=
  Reaches.next (.request request) (reaches_settle _ _ now rfl rfl) rfl

theorem reaches_close
    (now : Calendar.Timestamp) :
    let out := (r.subscription.close now).run r.store
    r.Reaches out.1 out.2 [] := by
  rw [close]
  split
  · exact reaches_self
  · exact (reaches_request .close now).note _ _ true

theorem reaches_remove
    (requested : SubscriptionKind)
    (targets : List String)
    (now : Calendar.Timestamp) :
    let out := (r.subscription.remove requested targets now).run r.store
    r.Reaches out.1.2 out.2 [] := by
  rw [remove]
  split
  · exact reaches_self
  · split
    · exact reaches_self
    · simp only
      split
      · exact reaches_self
      · split
        · exact reaches_self
        · let named := r.subscription.named targets
          let asked : Subscription :=
            { r.subscription with requests := r.subscription.requests ++ [Request.remove named] }
          let served := ((asked.settle now).run r.store).1
          have hserved : r.Reaches served ((asked.settle now).run r.store).2 [] :=
            r.reaches_request (.remove named) now
          obtain ⟨left, replies, hsettled⟩ := served.settled_eq named
          have hnote := hserved.note left replies served.closed
          rw [← hsettled] at hnote
          exact hnote

end Reaches

end Stream

/-- **The messages of a subscription are the payloads that its connection returned,
each one message, in order.**  In every run the buffer stays within its capacity.
Until the forwarder stops, what the consumer has read, then the buffer, then what
the forwarder holds are the messages of the payloads returned so far.  Once it has
stopped, only what it then held is missing: the consumer comes to the end of the
stream by reading the buffer, and has read all the others when it is there. -/
theorem stream_of_returned
    {σ : Type}
    [Store σ]
    (kind : SubscriptionKind)
    (targets : List String)
    (connection : SubscriberId)
    (store : σ)
    (events : List (Stream.Event σ)) :
    let r := (Stream.start kind targets connection store).run events
    r.subscription.buffer.length ≤ Subscription.capacity ∧
      (r.subscription.stopped = false →
        r.consumed ++ r.subscription.buffer ++ r.subscription.held.toList = r.decoded) ∧
      (r.subscription.stopped = true →
        r.consumed ++ r.subscription.buffer ++ r.lost.toList = r.decoded ∧
          (r.run (List.replicate r.subscription.buffer.length .read)).subscription.read.1 =
            .ended) ∧
      (r.subscription.read.1 = .ended → r.consumed ++ r.lost.toList = r.decoded) := by
  intro r
  have h : r.Ordered := (Stream.ordered_start kind targets connection store).run events
  have hstop (hstopped : r.subscription.stopped = true) :
      r.consumed ++ r.subscription.buffer ++ r.lost.toList = r.decoded := by
    have horder := h.order
    rw [h.held_of_stopped hstopped, Option.toList_none, List.append_nil] at horder
    exact horder
  refine ⟨h.within, ?_, ?_, ?_⟩
  · intro hrunning
    have horder := h.order
    rw [h.lost_of_running hrunning, Option.toList_none, List.append_nil] at horder
    exact horder
  · intro hstopped
    obtain ⟨-, hend⟩ := r.run_read rfl
    refine ⟨hstop hstopped, ?_⟩
    rw [hend, Subscription.read_of_nil rfl]
    exact if_pos hstopped
  · intro hended
    obtain ⟨hbuffer, hstopped⟩ := Subscription.of_read_ended hended
    have horder := hstop hstopped
    rw [hbuffer, List.append_nil] at horder
    exact horder

end Courier
