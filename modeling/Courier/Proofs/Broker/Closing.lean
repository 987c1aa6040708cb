import Courier.Proofs.Broker.Stream

/-!
# Closing a subscription

The forwarder goes round in two loops, and in both it looks at the requests before
it turns to the connection or to the buffer again.  A request to close may come at
any of its places.  What it has then begun it still finishes, which lets one more
payload be read and one more message be put; then it comes upon the request, after
those in front of it, and stops.

**Results.**
* `Pipeline.act`, `Pipeline.next`: what the forwarder does at its place, and what
  others do meanwhile.
* `Pipeline.act_eq_step`: a step of the forwarder is what it does until it is ready.
* `Pipeline.Acts`: all that the forwarder can do at its place.
* `Pipeline.Asked.act`, `Pipeline.Asked.next`, `Pipeline.Asked.run`: what it still does
  after it was asked to close, and how soon it stops.
* `Subscription.close_run`, `Subscription.readings_of_stopped`: closing and after it.
* `close_comes_through`: all of it, in every run.
-/

namespace Courier

namespace Subscription

variable {σ : Type} [Store σ]

/-- What serving a request does to the messages and to the other requests. -/
theorem serve_run
    (s : Subscription)
    (r : Request)
    (store : σ) :
    let t := ((s.serve r).run store).1
    t.buffer = s.buffer ∧ t.closed = s.closed ∧
      ((t.stopped = true ∧ t.held = none) ∨
        (r ≠ .close ∧ t.requests = s.requests ∧ t.held = s.held ∧ t.stopped = s.stopped)) := by
  cases r with
  | close => exact ⟨rfl, rfl, Or.inl ⟨rfl, rfl⟩⟩
  | remove targets =>
      simp only [serve, StateT.run, bind, StateT.bind]
      rcases (s.dropTargets targets).run store with ⟨e | done, later⟩
      · simp only
        split
        · exact ⟨rfl, rfl, Or.inl ⟨rfl, rfl⟩⟩
        · exact ⟨rfl, rfl, Or.inr ⟨by simp, rfl, rfl, rfl⟩⟩
      · exact ⟨rfl, rfl, Or.inr ⟨by simp, rfl, rfl, rfl⟩⟩

theorem closed_poll
    (s : Subscription)
    (now : Calendar.Timestamp)
    (store : σ) :
    ((s.poll now).run store).1.closed = s.closed := by
  rw [poll_run]
  rcases (Store.nextMessage s.connection .zero : StoreM σ (Option RawMessage)).answer store with
    ⟨e | _ | raw, later⟩
  · rfl
  · rfl
  · rfl

theorem closed_serveOr
    (s : Subscription)
    {idle : StateM σ Subscription}
    {store : σ}
    (hidle : (idle.run store).1.closed = s.closed) :
    ((s.serveOr idle).run store).1.closed = s.closed := by
  rw [serveOr]
  cases s.requests with
  | nil => exact hidle
  | cons r rest => exact (serve_run { s with requests := rest } r store).2.1

/-- The forwarder does not close the consumer's side. -/
theorem closed_program
    (s : Subscription)
    (now : Calendar.Timestamp)
    (move : Move)
    (store : σ) :
    ((s.program now move).run store).1.closed = s.closed := by
  cases move with
  | step =>
      rw [program, step]
      split
      · rfl
      · cases s.held with
        | none => exact s.closed_serveOr (s.closed_poll now store)
        | some m =>
            simp only
            split
            · rfl
            · exact s.closed_serveOr rfl
  | serve =>
      rw [program]
      split
      · rfl
      · exact s.closed_serveOr rfl
  | poll =>
      rw [program]
      split
      · rfl
      · exact s.closed_poll now store

theorem step_eq_poll
    {s : Subscription}
    (hrunning : s.stopped = false)
    (hfree : s.held = none)
    (hrequests : s.requests = [])
    (now : Calendar.Timestamp) :
    (s.step now : StateM σ Subscription) = s.poll now := by
  rw [step, if_neg (by simp [hrunning]), hfree]
  simp only [serveOr, hrequests]

theorem step_eq_serveOr_of_requests
    {s : Subscription}
    (hrunning : s.stopped = false)
    (hfree : s.held = none)
    (hrequests : s.requests ≠ [])
    (now : Calendar.Timestamp) :
    (s.step now : StateM σ Subscription) = s.serveOr (pure s) := by
  obtain ⟨request, rest, hcons⟩ := List.exists_cons_of_ne_nil hrequests
  rw [step, if_neg (by simp [hrunning]), hfree]
  simp only [serveOr, hcons]

theorem step_eq_serveOr_of_full
    {s : Subscription}
    {m : Message}
    (hrunning : s.stopped = false)
    (hheld : s.held = some m)
    (hfull : ¬ s.buffer.length < capacity)
    (now : Calendar.Timestamp) :
    (s.step now : StateM σ Subscription) = s.serveOr (pure s) := by
  rw [step, if_neg (by simp [hrunning]), hheld]
  exact if_neg hfull

theorem program_serve
    {s : Subscription}
    (hrunning : s.stopped = false)
    (now : Calendar.Timestamp) :
    (s.program now .serve : StateM σ Subscription) = s.serveOr (pure s) :=
  if_neg (by simp [hrunning])

theorem program_poll
    {s : Subscription}
    (hrunning : s.stopped = false)
    (hfree : s.held = none)
    (now : Calendar.Timestamp) :
    (s.program now .poll : StateM σ Subscription) = s.poll now :=
  if_neg (by simp [hrunning, hfree])

theorem serve_returned
    (s : Subscription)
    (request : Request)
    (r : Recorded σ) :
    ((s.serve request).run r).2.returned = r.returned := by
  cases request with
  | close => rfl
  | remove targets =>
      obtain ⟨answer, k, hdrop⟩ := s.dropTargets_run targets r
      simp only [StateT.run] at hdrop
      simp only [serve, StateT.run, bind, StateT.bind, hdrop]
      cases answer with
      | ok done => rfl
      | error e =>
          simp only
          split
          · rfl
          · rfl

end Subscription

open Subscription

/-- Where the forwarder is in its loops. -/
inductive Place where
  /-- It turns to the requests, or to the buffer if it holds a message. -/
  | ready
  /-- It has found no request and reads the connection. -/
  | reading
  /-- It has found the buffer full and waits for a request. -/
  | blocked
  deriving DecidableEq

/-- A stream with the place of its forwarder. -/
structure Pipeline (σ : Type) where
  stream : Stream σ
  place : Place

namespace Pipeline

/-- What happens to the forwarder or near it. -/
inductive Event (σ : Type) where
  | act (now : Calendar.Timestamp)
  | read
  | request (r : Request)
  | note (targets : List String) (replies : List (Except StoreError Unit))
  /-- The consumer waits until the forwarder has stopped, and then is closed. -/
  | joined
  | others (store : σ)

def Event.isAct {σ : Type} : Event σ → Bool
  | .act _ => true
  | _ => false

variable {σ : Type}

def start (kind : SubscriptionKind) (targets : List String) (connection : SubscriberId)
    (store : σ) : Pipeline σ :=
  ⟨.start kind targets connection store, .ready⟩

abbrev subscription (p : Pipeline σ) : Subscription := p.stream.subscription

/-- The messages that have entered the buffer. -/
def entered (p : Pipeline σ) : List Message :=
  p.stream.consumed ++ p.subscription.buffer

/-- The forwarder goes on from its place to the next. -/
def act [Store σ] (p : Pipeline σ) (now : Calendar.Timestamp) : Pipeline σ :=
  if p.subscription.stopped then p
  else
    match p.place with
    | .reading => ⟨p.stream.forward .poll now, .ready⟩
    | .blocked => ⟨p.stream.forward .serve now, .ready⟩
    | .ready =>
        match p.subscription.held with
        | some _ =>
            if p.subscription.buffer.length < capacity then ⟨p.stream.forward .step now, .ready⟩
            else ⟨p.stream, .blocked⟩
        | none =>
            if p.subscription.requests = [] then ⟨p.stream, .reading⟩
            else ⟨p.stream.forward .serve now, .ready⟩

def next [Store σ] (p : Pipeline σ) : Event σ → Pipeline σ
  | .act now => p.act now
  | .read => ⟨p.stream.next .read, p.place⟩
  | .request r => ⟨p.stream.next (.request r), p.place⟩
  | .note targets replies =>
      ⟨p.stream.next (.note targets replies p.subscription.closed), p.place⟩
  | .joined =>
      if p.subscription.stopped then
        ⟨p.stream.next (.note p.subscription.targets p.subscription.replies true), p.place⟩
      else p
  | .others store => ⟨p.stream.next (.others store), p.place⟩

def run [Store σ] (p : Pipeline σ) (events : List (Event σ)) : Pipeline σ :=
  events.foldl next p

section Forwarder

variable [Store σ]

theorem forward_congr
    {r : Stream σ}
    {move other : Move}
    {now : Calendar.Timestamp}
    (h : (r.subscription.program now move : StateM (Recorded σ) Subscription) =
      r.subscription.program now other) :
    r.forward move now = r.forward other now := by
  rw [Stream.forward, h]
  rfl

section Places

variable {r : Stream σ} (hrunning : r.subscription.stopped = false) (now : Calendar.Timestamp)
include hrunning

theorem act_reading :
    act ⟨r, .reading⟩ now = ⟨r.forward .poll now, .ready⟩ := by
  simp [act, subscription, hrunning]

theorem act_blocked :
    act ⟨r, .blocked⟩ now = ⟨r.forward .serve now, .ready⟩ := by
  simp [act, subscription, hrunning]

theorem act_of_asked
    (hheld : r.subscription.held = none)
    (hrequests : r.subscription.requests ≠ []) :
    act ⟨r, .ready⟩ now = ⟨r.forward .serve now, .ready⟩ := by
  simp [act, subscription, hrunning, hheld, hrequests]

theorem act_of_unasked
    (hheld : r.subscription.held = none)
    (hrequests : r.subscription.requests = []) :
    act ⟨r, .ready⟩ now = ⟨r, .reading⟩ := by
  simp [act, subscription, hrunning, hheld, hrequests]

theorem act_of_room
    {m : Message}
    (hheld : r.subscription.held = some m)
    (hroom : r.subscription.buffer.length < capacity) :
    act ⟨r, .ready⟩ now = ⟨r.forward .step now, .ready⟩ := by
  simp [act, subscription, hrunning, hheld, hroom]

theorem act_of_full
    {m : Message}
    (hheld : r.subscription.held = some m)
    (hfull : ¬ r.subscription.buffer.length < capacity) :
    act ⟨r, .ready⟩ now = ⟨r, .blocked⟩ := by
  simp [act, subscription, hrunning, hheld, hfull]

end Places

/-- A forwarder that is ready makes a whole step until it is ready again. -/
theorem act_eq_step
    (r : Stream σ)
    (now : Calendar.Timestamp) :
    let p := act ⟨r, .ready⟩ now
    (if p.place = .ready then p else p.act now) = ⟨r.forward .step now, .ready⟩ := by
  intro p
  cases hstopped : r.subscription.stopped with
  | true =>
      have hidle : p = ⟨r, .ready⟩ := if_pos hstopped
      rw [hidle, if_pos rfl, Stream.forward_of_stopped hstopped]
  | false =>
      cases hheld : r.subscription.held with
      | none =>
          by_cases hrequests : r.subscription.requests = []
          · have hlook : p = ⟨r, .reading⟩ := act_of_unasked hstopped now hheld hrequests
            rw [hlook, if_neg (by simp), act_reading hstopped]
            refine congrArg (Pipeline.mk · _) (forward_congr ?_)
            exact (program_poll hstopped hheld now).trans
              (step_eq_poll hstopped hheld hrequests now).symm
          · have hserve : p = ⟨r.forward .serve now, .ready⟩ :=
              act_of_asked hstopped now hheld hrequests
            rw [hserve, if_pos rfl]
            refine congrArg (Pipeline.mk · _) (forward_congr ?_)
            exact (program_serve hstopped now).trans
              (step_eq_serveOr_of_requests hstopped hheld hrequests now).symm
      | some m =>
          by_cases hroom : r.subscription.buffer.length < capacity
          · have hput : p = ⟨r.forward .step now, .ready⟩ := act_of_room hstopped now hheld hroom
            rw [hput, if_pos rfl]
          · have hfull : p = ⟨r, .blocked⟩ := act_of_full hstopped now hheld hroom
            rw [hfull, if_neg (by simp), act_blocked hstopped]
            refine congrArg (Pipeline.mk · _) (forward_congr ?_)
            exact (program_serve hstopped now).trans
              (step_eq_serveOr_of_full hstopped hheld hroom now).symm

/-- All that the forwarder can do at its place. -/
inductive Acts (p : Pipeline σ) (now : Calendar.Timestamp) (q : Pipeline σ) : Prop
  | idle
      (stopped : p.subscription.stopped = true)
      (same : q = p)
  | ended
      (running : p.subscription.stopped = false)
      (stopped : q.subscription.stopped = true)
      (buffer : q.subscription.buffer = p.subscription.buffer)
      (returned : q.stream.returned = p.stream.returned)
  | looked
      (running : p.subscription.stopped = false)
      (unasked : p.subscription.requests = [])
      (same : q = ⟨p.stream, .reading⟩)
  | full (m : Message)
      (running : p.subscription.stopped = false)
      (place : p.place = .ready)
      (waiting : p.subscription.held = some m)
      (subscription : q.subscription = p.subscription)
      (returned : q.stream.returned = p.stream.returned)
      (blocked : q.place = .blocked)
  | put (m : Message)
      (running : p.subscription.stopped = false)
      (place : p.place = .ready)
      (waiting : p.subscription.held = some m)
      (subscription : q.subscription =
        { p.subscription with held := none, buffer := p.subscription.buffer ++ [m] })
      (returned : q.stream.returned = p.stream.returned)
      (ready : q.place = .ready)
  | served (r : Request)
      (running : p.subscription.stopped = false)
      (other : r ≠ .close)
      (requests : p.subscription.requests = r :: q.subscription.requests)
      (held : q.subscription.held = p.subscription.held)
      (buffer : q.subscription.buffer = p.subscription.buffer)
      (returned : q.stream.returned = p.stream.returned)
      (stopped : q.subscription.stopped = false)
      (ready : q.place = .ready)
  | waited
      (running : p.subscription.stopped = false)
      (unasked : p.subscription.requests = [])
      (subscription : q.subscription = p.subscription)
      (returned : q.stream.returned = p.stream.returned)
      (ready : q.place = .ready)
  | fetched (raw : RawMessage)
      (running : p.subscription.stopped = false)
      (place : p.place = .reading)
      (subscription : q.subscription = { p.subscription with held := some (decode raw now) })
      (returned : q.stream.returned = p.stream.returned ++ [(raw, now)])
      (ready : q.place = .ready)
  | polled
      (running : p.subscription.stopped = false)
      (place : p.place = .reading)
      (subscription : q.subscription = p.subscription)
      (returned : q.stream.returned = p.stream.returned)
      (ready : q.place = .ready)

/-- The forwarder serves the first request, if there is one. -/
theorem acts_serve
    {r : Stream σ}
    (hrunning : r.subscription.stopped = false)
    (place : Place)
    (now : Calendar.Timestamp) :
    Acts ⟨r, place⟩ now ⟨r.forward .serve now, .ready⟩ := by
  have hforward : (r.forward .serve now).subscription =
      ((r.subscription.serveOr (pure r.subscription)).run (⟨r.store, []⟩ : Recorded σ)).1 := by
    rw [← program_serve hrunning now]
    rfl
  have hreturned : (r.forward .serve now).returned = r.returned ++
      (((r.subscription.serveOr (pure r.subscription)).run
        (⟨r.store, []⟩ : Recorded σ)).2.returned.map fun raw => (raw, now)) := by
    rw [← program_serve hrunning now]
    rfl
  cases hrequests : r.subscription.requests with
  | nil =>
      rw [serveOr, hrequests] at hforward hreturned
      exact Acts.waited hrunning hrequests hforward (hreturned.trans (List.append_nil _)) rfl
  | cons request rest =>
      rw [serveOr, hrequests] at hforward hreturned
      rw [serve_returned] at hreturned
      replace hreturned := hreturned.trans (List.append_nil _)
      obtain ⟨hbuffer, -, ⟨hstopped, -⟩ | ⟨hother, hrest, hheld, hstopped⟩⟩ :=
        serve_run { r.subscription with requests := rest } request (⟨r.store, []⟩ : Recorded σ)
      · rw [← hforward] at hbuffer hstopped
        exact Acts.ended hrunning hstopped hbuffer hreturned
      · rw [← hforward] at hbuffer hrest hheld hstopped
        refine Acts.served request hrunning hother ?_ hheld hbuffer hreturned
          (hstopped.trans hrunning) rfl
        show r.subscription.requests = _
        rw [hrequests, hrest]

/-- The forwarder reads the connection, unless it still holds a message. -/
theorem acts_poll
    {r : Stream σ}
    (hrunning : r.subscription.stopped = false)
    (now : Calendar.Timestamp) :
    Acts ⟨r, .reading⟩ now ⟨r.forward .poll now, .ready⟩ := by
  cases hheld : r.subscription.held with
  | some m =>
      have hidle : (r.subscription.program now .poll : StateM (Recorded σ) Subscription) =
          pure r.subscription := if_pos (Or.inr (by simp [hheld]))
      have hreturned : (r.forward .poll now).returned = r.returned := by
        rw [Stream.forward, hidle]
        exact List.append_nil _
      refine Acts.polled hrunning rfl ?_ hreturned rfl
      show (r.forward .poll now).subscription = _
      rw [Stream.forward, hidle]
      rfl
  | none =>
      have hforward : (r.forward .poll now).subscription =
          ((r.subscription.poll now).run (⟨r.store, []⟩ : Recorded σ)).1 := by
        rw [← program_poll hrunning hheld now]
        rfl
      have hreturned : (r.forward .poll now).returned = r.returned ++
          (((r.subscription.poll now).run (⟨r.store, []⟩ : Recorded σ)).2.returned.map
            fun raw => (raw, now)) := by
        rw [← program_poll hrunning hheld now]
        rfl
      have hcall : (Store.nextMessage r.subscription.connection .zero :
          StoreM (Recorded σ) (Option RawMessage)).answer ⟨r.store, []⟩ =
        (Recorded.recording (Store.nextMessage r.subscription.connection .zero)).answer
          ⟨r.store, []⟩ := rfl
      rw [poll_run, hcall, Recorded.recording_answer] at hforward hreturned
      rcases hanswer : (Store.nextMessage r.subscription.connection .zero :
          StoreM σ (Option RawMessage)).answer r.store with ⟨e | _ | raw, k⟩ <;>
        rw [hanswer] at hforward hreturned
      · have hstopped := congrArg Subscription.stopped hforward
        have hbuffer := congrArg Subscription.buffer hforward
        exact Acts.ended hrunning hstopped hbuffer (hreturned.trans (List.append_nil _))
      · exact Acts.polled hrunning rfl hforward (hreturned.trans (List.append_nil _)) rfl
      · exact Acts.fetched raw hrunning rfl hforward hreturned rfl

theorem acts
    (p : Pipeline σ)
    (now : Calendar.Timestamp) :
    Acts p now (p.act now) := by
  obtain ⟨r, place⟩ := p
  cases hstopped : r.subscription.stopped with
  | true => exact Acts.idle hstopped (if_pos hstopped)
  | false =>
      cases place with
      | reading =>
          rw [act_reading hstopped]
          exact acts_poll hstopped now
      | blocked =>
          rw [act_blocked hstopped]
          exact acts_serve hstopped .blocked now
      | ready =>
          cases hheld : r.subscription.held with
          | none =>
              by_cases hrequests : r.subscription.requests = []
              · exact Acts.looked hstopped hrequests (act_of_unasked hstopped now hheld hrequests)
              · rw [act_of_asked hstopped now hheld hrequests]
                exact acts_serve hstopped .ready now
          | some m =>
              by_cases hroom : r.subscription.buffer.length < capacity
              · have hput : (r.subscription.program now .step :
                    StateM (Recorded σ) Subscription) =
                  pure { r.subscription with
                    held := none, buffer := r.subscription.buffer ++ [m] } := by
                  rw [program, step, if_neg (by simp [hstopped]), hheld]
                  exact if_pos hroom
                rw [act_of_room hstopped now hheld hroom]
                refine Acts.put m hstopped rfl hheld ?_ ?_ rfl
                · show (r.forward .step now).subscription = _
                  rw [Stream.forward, hput]
                  rfl
                · show (r.forward .step now).returned = _
                  rw [Stream.forward, hput]
                  exact List.append_nil _
              · rw [act_of_full hstopped now hheld hroom]
                exact Acts.full m hstopped rfl hheld rfl rfl rfl

end Forwarder

/-- The forwarder was asked to close, or has stopped already. -/
def Asked (p : Pipeline σ) : Prop :=
  Request.close ∈ p.subscription.requests ∨ p.subscription.stopped = true

/-- How many messages the forwarder still puts when it was asked to close. -/
def mayPut (p : Pipeline σ) : Nat :=
  if p.subscription.stopped then 0
  else if p.subscription.held ≠ none ∨ p.place = .reading then 1 else 0

/-- How many payloads the forwarder still reads when it was asked to close. -/
def mayRead (p : Pipeline σ) : Nat :=
  if p.subscription.stopped then 0 else if p.place = .reading then 1 else 0

/-- How often the forwarder still goes on until it turns to the next request. -/
def Place.lag (held : Option Message) : Place → Nat
  | .reading => 3
  | .blocked => 1
  | .ready => if held = none then 1 else 2

/-- How often the forwarder still goes on when it was asked to close. -/
def actsLeft (p : Pipeline σ) : Nat :=
  2 * p.subscription.requests.idxOf .close + Place.lag p.subscription.held p.place

/-- What a forwarder that was asked to close does until it stops, going on so often. -/
structure Winds (p q : Pipeline σ) (acts : Nat) : Prop where
  asked : q.Asked
  stopped : p.subscription.stopped = true → q.subscription.stopped = true
  entered : ∃ ms, q.entered = p.entered ++ ms ∧ ms.length + q.mayPut ≤ p.mayPut
  returned : ∃ raws,
    q.stream.returned = p.stream.returned ++ raws ∧ raws.length + q.mayRead ≤ p.mayRead
  nearer : q.subscription.stopped = true ∨ acts + q.actsLeft ≤ p.actsLeft

theorem mayPut_le (p : Pipeline σ) :
    p.mayPut ≤ 1 := by
  rw [mayPut]
  split
  · exact Nat.zero_le 1
  · split
    · exact Nat.le_refl 1
    · exact Nat.zero_le 1

theorem mayRead_le (p : Pipeline σ) :
    p.mayRead ≤ 1 := by
  rw [mayRead]
  split
  · exact Nat.zero_le 1
  · split
    · exact Nat.le_refl 1
    · exact Nat.zero_le 1

/-- Who was going to put one at most may not put more. -/
theorem mayPut_mono
    {p q : Pipeline σ}
    (hrunning : p.subscription.stopped = false)
    (h : q.subscription.held ≠ none ∨ q.place = .reading →
      p.subscription.held ≠ none ∨ p.place = .reading) :
    q.mayPut ≤ p.mayPut := by
  have hp : ¬ p.subscription.stopped = true := by simp [hrunning]
  rw [mayPut, mayPut, if_neg hp]
  split
  · exact Nat.zero_le _
  · split
    · next hq => exact Nat.le_of_eq (if_pos (h hq)).symm
    · exact Nat.zero_le _

theorem mayRead_mono
    {p q : Pipeline σ}
    (hrunning : p.subscription.stopped = false)
    (h : q.place = .reading → p.place = .reading) :
    q.mayRead ≤ p.mayRead := by
  have hp : ¬ p.subscription.stopped = true := by simp [hrunning]
  rw [mayRead, mayRead, if_neg hp]
  split
  · exact Nat.zero_le _
  · split
    · next hq => exact Nat.le_of_eq (if_pos (h hq)).symm
    · exact Nat.zero_le _

theorem Place.lag_ready_le (held : Option Message) :
    Place.lag held .ready ≤ 2 := by
  rw [lag]
  split
  · exact Nat.le_add_left 1 1
  · exact Nat.le_refl 2

theorem Place.lag_pos (held : Option Message) (place : Place) :
    1 ≤ Place.lag held place ∧ Place.lag held place ≤ 3 := by
  cases place with
  | reading => exact ⟨Nat.le_add_left 1 2, Nat.le_refl 3⟩
  | blocked => exact ⟨Nat.le_refl 1, Nat.le_add_left 1 2⟩
  | ready =>
      refine ⟨?_, Nat.le_succ_of_le (Place.lag_ready_le held)⟩
      rw [lag]
      split
      · exact Nat.le_refl 1
      · exact Nat.le_add_left 1 1

/-- Going on from one place to the next brings the request nearer. -/
theorem actsLeft_of_lag
    {p q : Pipeline σ}
    (hrequests : q.subscription.requests = p.subscription.requests)
    (hlag : 1 + Place.lag q.subscription.held q.place ≤
      Place.lag p.subscription.held p.place) :
    1 + q.actsLeft ≤ p.actsLeft := by
  rw [actsLeft, actsLeft, hrequests]
  omega

theorem Winds.refl
    {p : Pipeline σ}
    (h : p.Asked) :
    Winds p p 0 :=
  ⟨h, id, ⟨[], (List.append_nil _).symm, by simp⟩, ⟨[], (List.append_nil _).symm, by simp⟩,
    Or.inr (by simp)⟩

theorem Winds.trans
    {p q r : Pipeline σ}
    {m n : Nat}
    (hpq : Winds p q m)
    (hqr : Winds q r n) :
    Winds p r (m + n) := by
  obtain ⟨ms, hms, hput⟩ := hpq.entered
  obtain ⟨more, hmore, hputs⟩ := hqr.entered
  obtain ⟨raws, hraws, hread⟩ := hpq.returned
  obtain ⟨rest, hrest, hreads⟩ := hqr.returned
  refine ⟨hqr.asked, hqr.stopped ∘ hpq.stopped, ⟨ms ++ more, ?_, ?_⟩, ⟨raws ++ rest, ?_, ?_⟩, ?_⟩
  · rw [hmore, hms, List.append_assoc]
  · rw [List.length_append]
    omega
  · rw [hrest, hraws, List.append_assoc]
  · rw [List.length_append]
    omega
  · rcases hqr.nearer with hstopped | hfewer
    · exact Or.inl hstopped
    · rcases hpq.nearer with hstopped | hless
      · exact Or.inl (hqr.stopped hstopped)
      · exact Or.inr (by omega)

section Runs

variable [Store σ]

theorem stream_act
    (p : Pipeline σ)
    (now : Calendar.Timestamp) :
    (p.act now).stream = p.stream ∨ ∃ move, (p.act now).stream = p.stream.forward move now := by
  rw [act]
  split
  · exact Or.inl rfl
  · split
    · exact Or.inr ⟨.poll, rfl⟩
    · exact Or.inr ⟨.serve, rfl⟩
    · split
      · split
        · exact Or.inr ⟨.step, rfl⟩
        · exact Or.inl rfl
      · split
        · exact Or.inl rfl
        · exact Or.inr ⟨.serve, rfl⟩

theorem consumed_act
    (p : Pipeline σ)
    (now : Calendar.Timestamp) :
    (p.act now).stream.consumed = p.stream.consumed := by
  rcases p.stream_act now with hsame | ⟨move, hforward⟩
  · rw [hsame]
  · rw [hforward]
    rfl

theorem closed_act
    (p : Pipeline σ)
    (now : Calendar.Timestamp) :
    (p.act now).subscription.closed = p.subscription.closed := by
  rw [subscription, subscription]
  rcases p.stream_act now with hsame | ⟨move, hforward⟩
  · rw [hsame]
  · rw [hforward]
    exact closed_program _ now move _

omit [Store σ] in
theorem Asked.of_running
    {p : Pipeline σ}
    (h : p.Asked)
    (hrunning : p.subscription.stopped = false) :
    Request.close ∈ p.subscription.requests := by
  rcases h with hclose | hstopped
  · exact hclose
  · exact absurd (hrunning.symm.trans hstopped) (by simp)

omit [Store σ] in
theorem Asked.congr
    {p q : Pipeline σ}
    (h : p.Asked)
    (hsubscription : q.subscription = p.subscription) :
    q.Asked := by
  rw [Asked, hsubscription]
  exact h

omit [Store σ] in
/-- Between one state and the next nothing is put and nothing is read. -/
theorem Winds.of_same
    {p q : Pipeline σ}
    {acts : Nat}
    (asked : q.Asked)
    (stopped : p.subscription.stopped = true → q.subscription.stopped = true)
    (entered : q.entered = p.entered)
    (returned : q.stream.returned = p.stream.returned)
    (mayPut : q.mayPut ≤ p.mayPut)
    (mayRead : q.mayRead ≤ p.mayRead)
    (nearer : q.subscription.stopped = true ∨ acts + q.actsLeft ≤ p.actsLeft) :
    Winds p q acts :=
  ⟨asked, stopped, ⟨[], by simp [entered], by simpa using mayPut⟩,
    ⟨[], by simp [returned], by simpa using mayRead⟩, nearer⟩

/-- Going on once after the request to close. -/
theorem Asked.act
    {p : Pipeline σ}
    (h : p.Asked)
    (now : Calendar.Timestamp) :
    Winds p (p.act now) 1 := by
  have hconsumed := p.consumed_act now
  generalize hq : p.act now = q at hconsumed ⊢
  have hacts : Acts p now q := hq ▸ p.acts now
  have hentered (hbuffer : q.subscription.buffer = p.subscription.buffer) :
      q.entered = p.entered := by
    rw [entered, entered, hconsumed, hbuffer]
  cases hacts with
  | idle stopped same =>
      subst same
      exact Winds.of_same h id rfl rfl (Nat.le_refl _) (Nat.le_refl _) (Or.inl stopped)
  | ended running stopped buffer returned =>
      exact Winds.of_same (Or.inr stopped) (fun _ => stopped) (hentered buffer) returned
        (by simp [mayPut, stopped]) (by simp [mayRead, stopped]) (Or.inl stopped)
  | looked running unasked same =>
      have hclose := h.of_running running
      rw [unasked] at hclose
      exact absurd hclose (by simp)
  | waited running unasked subscription returned ready =>
      have hclose := h.of_running running
      rw [unasked] at hclose
      exact absurd hclose (by simp)
  | full m running place waiting subscription returned blocked =>
      refine Winds.of_same (h.congr subscription) ?_ (hentered (by rw [subscription])) returned
        (mayPut_mono running fun _ => Or.inl (by simp [waiting]))
        (mayRead_mono running (by simp [blocked])) (Or.inr ?_)
      · rw [subscription]
        exact id
      · refine actsLeft_of_lag (by rw [subscription]) ?_
        rw [blocked, place, waiting]
        exact Nat.le_refl 2
  | put m running place waiting subscription returned ready =>
      refine ⟨Or.inl ?_, ?_, ⟨[m], ?_, ?_⟩, ⟨[], ?_, ?_⟩, Or.inr ?_⟩
      · rw [subscription]
        exact h.of_running running
      · exact fun hstopped => absurd (running.symm.trans hstopped) (by simp)
      · rw [entered, entered, hconsumed, subscription, List.append_assoc]
      · simp [mayPut, subscription, running, waiting, ready]
      · rw [returned, List.append_nil]
      · rw [List.length_nil, Nat.zero_add]
        exact mayRead_mono running (by simp [ready])
      · refine actsLeft_of_lag (by rw [subscription]) ?_
        rw [subscription, ready, place, waiting]
        exact Nat.le_refl 2
  | served r running other requests held buffer returned stopped ready =>
      refine Winds.of_same (Or.inl ?_) ?_ (hentered buffer) returned ?_
        (mayRead_mono running (by simp [ready])) (Or.inr ?_)
      · have hclose := h.of_running running
        rw [requests, List.mem_cons] at hclose
        exact hclose.resolve_left other.symm
      · exact fun hstopped => absurd (running.symm.trans hstopped) (by simp)
      · refine mayPut_mono running ?_
        rw [held, ready]
        exact Or.imp_right (by simp)
      · -- The request that was served stood in front, which is worth two acts.
        have hbefore := (Place.lag_pos p.subscription.held p.place).1
        have hready := Place.lag_ready_le q.subscription.held
        rw [actsLeft, actsLeft, requests, List.idxOf_cons_ne _ other, ready]
        omega
  | fetched raw running place subscription returned ready =>
      refine ⟨Or.inl ?_, ?_, ⟨[], ?_, ?_⟩, ⟨[(raw, now)], returned, ?_⟩, Or.inr ?_⟩
      · rw [subscription]
        exact h.of_running running
      · exact fun hstopped => absurd (running.symm.trans hstopped) (by simp)
      · rw [hentered (by rw [subscription]), List.append_nil]
      · rw [List.length_nil, Nat.zero_add]
        exact mayPut_mono running fun _ => Or.inr place
      · simp [mayRead, subscription, running, place, ready]
      · refine actsLeft_of_lag (by rw [subscription]) ?_
        have hready := Place.lag_ready_le q.subscription.held
        rw [ready, place, Place.lag]
        omega
  | polled running place subscription returned ready =>
      refine Winds.of_same (h.congr subscription) ?_ (hentered (by rw [subscription])) returned
        (mayPut_mono running fun _ => Or.inr place) (mayRead_mono running fun _ => place)
        (Or.inr ?_)
      · rw [subscription]
        exact id
      · refine actsLeft_of_lag (by rw [subscription]) ?_
        have hready := Place.lag_ready_le q.subscription.held
        rw [ready, place]
        exact Nat.add_le_add_left hready 1

/-- An event after the request to close. -/
theorem Asked.next
    {p : Pipeline σ}
    (h : p.Asked)
    (e : Event σ) :
    Winds p (p.next e) (if e.isAct then 1 else 0) := by
  cases e with
  | act now => exact h.act now
  | read =>
      obtain ⟨rest, hrest, hread⟩ := p.subscription.read_eq
      have hsubscription : (p.next .read).subscription = { p.subscription with buffer := rest } :=
        hrest
      have hentered : (p.next .read).entered = p.entered := by
        rw [entered, entered, hsubscription, ← hread, ← List.append_assoc]
        rfl
      refine Winds.of_same ?_ ?_ hentered rfl ?_ ?_ (Or.inr ?_)
      · rw [Asked, hsubscription]
        exact h
      · intro hstopped
        rw [hsubscription]
        exact hstopped
      · rw [mayPut, hsubscription]
        exact Nat.le_refl _
      · rw [mayRead, hsubscription]
        exact Nat.le_refl _
      · rw [actsLeft, hsubscription]
        exact Nat.le_of_eq (Nat.zero_add _)
  | request r =>
      refine Winds.of_same ?_ id rfl rfl (Nat.le_refl _) (Nat.le_refl _) ?_
      · exact Or.imp_left (List.mem_append_left [r]) h
      · rcases h with hclose | hstopped
        · refine Or.inr (Nat.le_of_eq ?_)
          show 0 + (2 * (p.subscription.requests ++ [r]).idxOf .close + _) = _
          rw [List.idxOf_append_of_mem hclose, Nat.zero_add]
          rfl
        · exact Or.inl hstopped
  | note targets replies =>
      exact Winds.of_same h id rfl rfl (Nat.le_refl _) (Nat.le_refl _)
        (Or.inr (Nat.le_of_eq (Nat.zero_add _)))
  | joined =>
      rw [Pipeline.next]
      split
      · exact Winds.of_same h id rfl rfl (Nat.le_refl _) (Nat.le_refl _)
          (Or.inr (Nat.le_of_eq (Nat.zero_add _)))
      · exact Winds.refl h
  | others store =>
      exact Winds.of_same h id rfl rfl (Nat.le_refl _) (Nat.le_refl _)
        (Or.inr (Nat.le_of_eq (Nat.zero_add _)))

theorem Asked.run
    {p : Pipeline σ}
    (h : p.Asked)
    (events : List (Event σ)) :
    Winds p (p.run events) (events.countP Event.isAct) := by
  induction events generalizing p with
  | nil => exact Winds.refl h
  | cons e events ih =>
      have hnext := h.next e
      have hrun := hnext.trans (ih hnext.asked)
      rw [Nat.add_comm] at hrun
      rw [List.countP_cons]
      exact hrun

/-- How soon the forwarder stops: two acts for each request in front of the one to
close, and three for that one. -/
theorem Asked.stopped_run
    {p : Pipeline σ}
    (h : p.Asked)
    {events : List (Event σ)}
    (hacts : 2 * p.subscription.requests.idxOf .close + 3 ≤ events.countP Event.isAct) :
    (p.run events).subscription.stopped = true := by
  rcases (h.run events).nearer with hstopped | hfewer
  · exact hstopped
  · have hlag := Place.lag_pos p.subscription.held p.place
    have hleft := Place.lag_pos (p.run events).subscription.held (p.run events).place
    rw [actsLeft, actsLeft] at hfewer
    omega

/-- Where the consumer is closed, the forwarder has stopped. -/
theorem stopped_of_closed_next
    {p : Pipeline σ}
    (h : p.subscription.closed = true → p.subscription.stopped = true)
    (e : Event σ) :
    (p.next e).subscription.closed = true → (p.next e).subscription.stopped = true := by
  cases e with
  | act now =>
      intro hclosed
      have hstopped := h ((p.closed_act now).symm.trans hclosed)
      have hidle : p.next (.act now) = p := if_pos hstopped
      rw [hidle]
      exact hstopped
  | read =>
      obtain ⟨rest, hrest, -⟩ := p.subscription.read_eq
      have hsubscription : (p.next .read).subscription = { p.subscription with buffer := rest } :=
        hrest
      rw [hsubscription]
      exact h
  | request r => exact h
  | note targets replies => exact h
  | joined =>
      rw [Pipeline.next]
      split
      · next hstopped => exact fun _ => hstopped
      · exact h
  | others store => exact h

theorem stopped_of_closed_run
    {p : Pipeline σ}
    (h : p.subscription.closed = true → p.subscription.stopped = true)
    (events : List (Event σ)) :
    (p.run events).subscription.closed = true → (p.run events).subscription.stopped = true := by
  induction events generalizing p with
  | nil => exact h
  | cons e events ih => exact ih (stopped_of_closed_next h e)

end Runs

end Pipeline

namespace Subscription

variable {σ : Type} [Store σ]

/-- How many steps the forwarder makes at most until it serves the request to close. -/
def stepsLeft (s : Subscription) : Nat :=
  s.requests.idxOf .close + s.held.toList.length + 1

theorem step_of_stopped
    {s : Subscription}
    (h : s.stopped = true)
    (now : Calendar.Timestamp) :
    (s.step now : StateM σ Subscription) = pure s :=
  if_pos h

theorem steps_of_stopped
    {s : Subscription}
    (h : s.stopped = true)
    (now : Calendar.Timestamp)
    (n : Nat) :
    (s.steps now n : StateM σ Subscription) = pure s := by
  induction n with
  | zero => rfl
  | succ n ih =>
      rw [steps, step_of_stopped h, pure_bind, ih]

theorem step_of_asked
    {s : Subscription}
    (h : Request.close ∈ s.requests)
    (hrunning : s.stopped = false)
    (now : Calendar.Timestamp)
    (store : σ) :
    let t := ((s.step now).run store).1
    t.stopped = true ∨ (Request.close ∈ t.requests ∧ t.stepsLeft < s.stepsLeft) := by
  have hserve : ∀ idle : StateM σ Subscription, s.step now = s.serveOr idle →
      let t := ((s.step now).run store).1
      t.stopped = true ∨ (Request.close ∈ t.requests ∧ t.stepsLeft < s.stepsLeft) := by
    intro idle hstep
    rw [hstep, serveOr]
    cases hrequests : s.requests with
    | nil =>
        rw [hrequests] at h
        exact absurd h (by simp)
    | cons r rest =>
        obtain ⟨-, -, ⟨hstopped, -⟩ | ⟨hother, hrest, hheld, -⟩⟩ :=
          serve_run { s with requests := rest } r store
        · exact Or.inl hstopped
        · refine Or.inr ⟨?_, ?_⟩
          · rw [hrequests, List.mem_cons] at h
            simp only [hrest]
            exact h.resolve_left hother.symm
          · simp only [stepsLeft, hrest, hheld, hrequests, List.idxOf_cons_ne _ hother]
            omega
  cases hheld : s.held with
  | none => exact hserve (s.poll now) (by rw [step, if_neg (by simp [hrunning]), hheld])
  | some m =>
      by_cases hroom : s.buffer.length < capacity
      · have hstep : (s.step now : StateM σ Subscription) =
            pure { s with held := none, buffer := s.buffer ++ [m] } := by
          rw [step, if_neg (by simp [hrunning]), hheld]
          exact if_pos hroom
        rw [hstep]
        refine Or.inr ⟨h, ?_⟩
        show s.requests.idxOf .close + 0 + 1 < _
        simp only [stepsLeft, hheld, Option.toList_some, List.length_singleton]
        omega
      · exact hserve (pure s) (step_eq_serveOr_of_full hrunning hheld hroom now)

theorem steps_of_asked
    {s : Subscription}
    (h : Request.close ∈ s.requests)
    {n : Nat}
    (hn : s.stepsLeft ≤ n)
    (now : Calendar.Timestamp)
    (store : σ) :
    ((s.steps now n).run store).1.stopped = true := by
  induction n generalizing s store with
  | zero => exact absurd hn (by rw [stepsLeft]; omega)
  | succ n ih =>
      cases hstopped : s.stopped with
      | true =>
          rw [steps_of_stopped hstopped]
          exact hstopped
      | false =>
          show (((((s.step now).run store).1).steps now n).run ((s.step now).run store).2).1.stopped
            = true
          rcases step_of_asked h hstopped now store with hdone | ⟨hmem, hless⟩
          · rw [steps_of_stopped hdone]
            exact hdone
          · exact ih hmem (by omega) _

theorem settle_of_asked
    {s : Subscription}
    (h : Request.close ∈ s.requests)
    (now : Calendar.Timestamp)
    (store : σ) :
    ((s.settle now).run store).1.stopped = true := by
  refine steps_of_asked h ?_ now store
  have hindex : s.requests.idxOf .close < s.requests.length := List.idxOf_lt_length_of_mem h
  have hheld : s.held.toList.length ≤ 1 := by
    cases s.held with
    | none => exact Nat.zero_le 1
    | some m => exact Nat.le_refl 1
  rw [stepsLeft, stepBound]
  omega

/-- When the call that closes has returned, the forwarder has stopped. -/
theorem close_run
    {s : Subscription}
    (h : s.closed = true → s.stopped = true)
    (now : Calendar.Timestamp)
    (store : σ) :
    let t := ((s.close now).run store).1
    t.closed = true ∧ t.stopped = true := by
  intro t
  cases hclosed : s.closed with
  | true =>
      have ht : t = s := by
        show ((s.close now).run store).1 = s
        rw [close, if_pos hclosed]
        rfl
      rw [ht]
      exact ⟨hclosed, h hclosed⟩
  | false =>
      let asked : Subscription := { s with requests := s.requests ++ [Request.close] }
      have hasked : Request.close ∈ asked.requests :=
        List.mem_append_right _ (List.mem_singleton.2 rfl)
      have ht : t = { ((asked.settle now).run store).1 with closed := true } := by
        show ((s.close now).run store).1 = _
        rw [close, if_neg (by simp [hclosed])]
        rfl
      rw [ht]
      exact ⟨rfl, settle_of_asked hasked now store⟩

/-- What the consumer finds when it reads again and again, each time on some store. -/
def readings (s : Subscription) : List (Calendar.Timestamp × σ) → List Reading
  | [] => []
  | (now, store) :: visits =>
      let out := ((s.receive now).run store).1
      out.1 :: out.2.readings visits

theorem receive_of_stopped
    {s : Subscription}
    (h : s.stopped = true)
    (now : Calendar.Timestamp)
    (store : σ) :
    (s.receive now).run store = (s.read, store) := by
  obtain ⟨rest, hrest, -⟩ := s.read_eq
  have hread : s.read.2.stopped = true := by
    rw [hrest]
    exact h
  have hsettle : ∀ n, (s.read.2.steps now n : StateM σ Subscription).run store =
      (s.read.2, store) := by
    intro n
    rw [steps_of_stopped hread]
    rfl
  show (((s.read.1, ((s.read.2.steps now (s.read.2.stepBound store)).run store).1),
    ((s.read.2.steps now (s.read.2.stepBound store)).run store).2) : (Reading × Subscription) × σ) =
      _
  rw [hsettle]

/-- After the stop the consumer reads the buffer, and then finds the end every time. -/
theorem readings_of_stopped
    {s : Subscription}
    (h : s.stopped = true)
    (visits : List (Calendar.Timestamp × σ)) :
    s.readings visits =
      (s.buffer.map Reading.message).take visits.length ++
        List.replicate (visits.length - s.buffer.length) Reading.ended := by
  induction visits generalizing s with
  | nil => rw [readings, List.length_nil, Nat.zero_sub, List.take_zero, List.replicate_zero,
      List.append_nil]
  | cons visit visits ih =>
      obtain ⟨now, store⟩ := visit
      rw [readings, receive_of_stopped h]
      cases hbuffer : s.buffer with
      | cons m rest =>
          rw [read_of_cons hbuffer]
          show Reading.message m :: Subscription.readings { s with buffer := rest } visits = _
          rw [ih (s := { s with buffer := rest }) h, List.length_cons, List.length_cons,
            List.map_cons, List.take_succ_cons, Nat.add_sub_add_right, List.cons_append]
      | nil =>
          rw [read_of_nil hbuffer, if_pos h]
          show Reading.ended :: s.readings visits = _
          rw [ih h, hbuffer, List.length_cons, List.map_nil, List.take_nil, List.take_nil,
            List.length_nil, Nat.sub_zero, Nat.sub_zero, List.replicate_succ]
          rfl

end Subscription

/-- **A request to close comes through.**  From a request to close on, whatever stands
in front of it, however full the buffer is, wherever the forwarder is and whatever
happens meanwhile, at most one more message enters the buffer and at most one more
payload is read from the connection, and a forwarder that keeps going stops.  When
closing has returned, the forwarder has stopped and nothing enters the buffer any
more: the consumer reads what is in the buffer, in order, and then the end every
time, to close again changes nothing, and every removal of targets fails as closed
and leaves the subscription as it is. -/
theorem close_comes_through
    {σ : Type}
    [Store σ]
    (kind : SubscriptionKind)
    (targets : List String)
    (connection : SubscriberId)
    (store : σ)
    (before : List (Pipeline.Event σ)) :
    let p := (Pipeline.start kind targets connection store).run before
    let s := p.subscription
    (Request.close ∈ s.requests → ∀ later,
      (∃ ms, (p.run later).entered = p.entered ++ ms ∧ ms.length ≤ 1) ∧
        (∃ raws, (p.run later).stream.returned = p.stream.returned ++ raws ∧ raws.length ≤ 1) ∧
        (2 * s.requests.idxOf .close + 3 ≤ later.countP Pipeline.Event.isAct →
          (p.run later).subscription.stopped = true)) ∧
      (s.closed = true → s.stopped = true ∧ ∀ later,
        (p.run later).subscription.stopped = true ∧ (p.run later).entered = p.entered) ∧
      ∀ now,
        let t := ((s.close now).run p.stream.store).1
        t.closed = true ∧ t.stopped = true ∧
          (∀ visits : List (Calendar.Timestamp × σ), t.readings visits =
            (t.buffer.map Reading.message).take visits.length ++
              List.replicate (visits.length - t.buffer.length) Reading.ended) ∧
          (∀ later (m : σ), (t.close later).run m = (t, m)) ∧
          ∀ names later (m : σ),
            (t.remove t.kind names later).run m = ((.error .closed, t), m) := by
  intro p s
  have hclosed : s.closed = true → s.stopped = true :=
    Pipeline.stopped_of_closed_run (p := .start kind targets connection store)
      (fun h => absurd h (by simp [Pipeline.start, Stream.start, Subscription.start])) before
  refine ⟨?_, ?_, ?_⟩
  · intro hasked later
    have hwinds := Pipeline.Asked.run (Or.inl hasked) later
    obtain ⟨ms, hms, hput⟩ := hwinds.entered
    obtain ⟨raws, hraws, hread⟩ := hwinds.returned
    have hmost := p.mayPut_le
    have hmany := p.mayRead_le
    exact ⟨⟨ms, hms, by omega⟩, ⟨raws, hraws, by omega⟩,
      Pipeline.Asked.stopped_run (Or.inl hasked)⟩
  · intro hdone
    have hstopped := hclosed hdone
    refine ⟨hstopped, fun later => ?_⟩
    have hwinds := Pipeline.Asked.run (Or.inr hstopped) later
    obtain ⟨ms, hms, hput⟩ := hwinds.entered
    have hnone : p.mayPut = 0 := if_pos hstopped
    have hnil : ms = [] := List.eq_nil_of_length_eq_zero (by omega)
    rw [hnil, List.append_nil] at hms
    exact ⟨hwinds.stopped hstopped, hms⟩
  · intro now t
    obtain ⟨htclosed, htstopped⟩ := Subscription.close_run hclosed now p.stream.store
    refine ⟨htclosed, htstopped, Subscription.readings_of_stopped htstopped, ?_, ?_⟩
    · intro later m
      rw [Subscription.close, if_pos htclosed]
      rfl
    · intro names later m
      rw [Subscription.remove, if_neg (by simp), if_pos htclosed]
      rfl

end Courier
