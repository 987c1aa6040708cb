import Courier.Proofs.Remote.Confirmation
import Courier.Proofs.Store.View
import Courier.Remote.Client

/-!
# What a subscriber is given

Two readers take replies from the connection of a subscriber: the one that waits
for confirmations, which puts aside the messages that it meets, and the one that
looks for the next message, which serves those put aside first.  Whatever the
server sends and whenever it falls silent, no message is lost and none overtakes
another.

**Results.**
* `Control.call`, `Client.control_eq`: the calls that wait for confirmations.
* `Client.of_subscriber`: the connection of a subscriber that was opened.
* `Client.Event`: the calls of subscribers and what the server does of its own accord.
* `Client.Passes`: the messages given and put aside are those among the replies read.
* `Client.passes_event`, `Client.passes_events`: every event and every run keep to it.
* `Client.control_ok_iff`, `Client.control_reads`: when a call for confirmations succeeds.
* `Client.messages_in_order_of_arrival`: all of it, for a subscriber that was opened.
-/

namespace Courier
namespace Remote

namespace Server

variable {s : Server} {c d : ConnId}

theorem length_update
    (s : Server)
    (c : ConnId)
    (f : Line → Line) :
    (s.update c f).lines.length = s.lines.length :=
  List.length_modify f s.lines c

theorem line_update
    (hc : c < s.lines.length)
    (f : Line → Line) :
    (s.update c f).line c = f (s.line c) := by
  simp [line, update, hc]

theorem line_update_of_ne
    (h : d ≠ c)
    (f : Line → Line) :
    (s.update d f).line c = s.line c := by
  simp [line, update, h]

/-- What the server answers to the next command. -/
def nextAnswers (s : Server) : List Reply :=
  match s.turns with
  | [] => []
  | t :: _ => t.answers

theorem length_take
    (s : Server)
    (c : ConnId)
    (words : Words) :
    (s.take c words).lines.length = s.lines.length := by
  rw [take]
  simp only
  split
  · rfl
  · exact length_update _ _ _

theorem unread_take
    (hc : c < s.lines.length)
    (words : Words) :
    ((s.take c words).line c).unread = (s.line c).unread ++ s.nextAnswers := by
  cases hturns : s.turns with
  | nil => simp [take, nextAnswers, hturns, line]
  | cons t rest =>
      simp only [take, nextAnswers, hturns]
      exact congrArg Line.unread (line_update hc _)

theorem line_take_of_ne
    (h : d ≠ c)
    (words : Words) :
    (s.take d words).line c = s.line c := by
  rw [take]
  simp only
  split
  · rfl
  · exact line_update_of_ne h _

theorem lt_length_of_dial
    {s t : Server}
    {address : Address}
    {wait : Duration}
    {c : ConnId}
    (h : s.dial address wait = (.ok c, t)) :
    c < t.lines.length := by
  rw [dial] at h
  split at h
  · exact absurd (Prod.mk.inj h).1 (by simp)
  · obtain ⟨hc, rfl⟩ := Prod.mk.inj h
    obtain rfl := Except.ok.inj hc
    simp

theorem length_takeAll
    (s : Server)
    (c : ConnId)
    (message : List Words) :
    (s.takeAll c message).lines.length = s.lines.length := by
  induction message generalizing s with
  | nil => rfl
  | cons words message ih =>
      rw [takeAll]
      split
      · rfl
      · rw [ih, length_take]

theorem length_send
    (s : Server)
    (c : ConnId)
    (message : List Words) :
    (s.send c message).2.lines.length = s.lines.length := by
  rw [send]
  split
  · rfl
  · exact length_takeAll s c message

theorem send_of_closed
    (h : (s.line c).closed = true)
    (words : Words) :
    s.send c [words] = (.error .brokenPipe, s) := by
  rw [send, if_pos h]

theorem send_of_open
    (h : (s.line c).closed = false)
    (words : Words) :
    s.send c [words] = (.ok (), s.take c words) := by
  simp [send, takeAll, h]

end Server

namespace Client

variable {k : Client} {c d : ConnId}

/-- The replies that can be read on a connection. -/
def unread (k : Client) (c : ConnId) : List Reply :=
  (k.server.line c).unread

theorem met_setMet
    (k : Client)
    (c : ConnId)
    (ms : List RawMessage) :
    (k.setMet c ms).met c = ms := by
  simp [met, setMet]

theorem met_setMet_of_ne
    (h : d ≠ c)
    (k : Client)
    (ms : List RawMessage) :
    (k.setMet d ms).met c = k.met c := by
  have hfilter : ∀ ps : List (ConnId × List RawMessage),
      (ps.filter fun p => p.1 ≠ d).lookup c = ps.lookup c := by
    intro ps
    induction ps with
    | nil => rfl
    | cons p ps ih =>
        by_cases hp : p.1 = d
        · have hne : (c == p.1) = false := by simpa [hp] using h.symm
          rw [List.filter_cons_of_neg (by simp [hp]), List.lookup_cons, hne, ih]
        · rw [List.filter_cons_of_pos (by simp [hp]), List.lookup_cons, List.lookup_cons, ih]
  have hne : (c == d) = false := by simpa using h.symm
  simp only [met, setMet, List.lookup_cons, hne, hfilter]

end Client

/-- A command that changes what a subscriber listens to, as a call on the store. -/
def Control.call (w : Control) (c : ConnId) (targets : List String) : StoreM Client Unit :=
  match w with
  | .subscribe => Store.subscribe c targets
  | .psubscribe => Store.psubscribe c targets
  | .unsubscribe => Store.unsubscribe c targets
  | .punsubscribe => Store.punsubscribe c targets

namespace Client

variable {k : Client} {c d : ConnId}

theorem control_answer
    (w : Control)
    (c : ConnId)
    (targets : List String)
    (k : Client) :
    (w.call c targets).answer k = k.control c w.name targets := by
  cases w with
  | subscribe => rfl
  | psubscribe => rfl
  | unsubscribe => rfl
  | punsubscribe => rfl

/-- The command of a call reaches the server. -/
def asked (k : Client) (c : ConnId) (w : Control) (targets : List String) : Client :=
  { k with server :=
      k.server.take c (Command.word w.name :: targets.map Command.word) }

/-- A call that has targets asks the server, unless it has closed the connection, and
then waits for one confirmation of each. -/
theorem control_eq
    {targets : List String}
    (htargets : targets ≠ [])
    (w : Control)
    (c : ConnId)
    (k : Client) :
    k.control c w.name targets =
      if (k.server.line c).closed then (.error Fault.brokenPipe.toStore, k)
      else if k.config.connTimeout.isZero then
        (.error Fault.zeroTimeout.toStore, k.asked c w targets)
      else (k.asked c w targets).await c w.kind targets.length := by
  rw [control, if_neg htargets]
  cases hclosed : (k.server.line c).closed with
  | true =>
      have htalk : k.talk (Talk.send c [Command.word w.name :: targets.map Command.word]) =
          (.error .brokenPipe, k) := by
        show ((k.server.send c _).1, { k with server := (k.server.send c _).2 }) = _
        rw [Server.send_of_closed hclosed]
      rw [htalk, if_pos rfl]
  | false =>
      have htalk : k.talk (Talk.send c [Command.word w.name :: targets.map Command.word]) =
          (.ok (), k.asked c w targets) := by
        show ((k.server.send c _).1, { k with server := (k.server.send c _).2 }) = _
        rw [Server.send_of_open hclosed]
        rfl
      rw [htalk, if_neg Bool.false_ne_true]
      rfl

theorem nextMessage_of_cons
    {m : RawMessage}
    {rest : List RawMessage}
    (h : k.met c = m :: rest) :
    k.nextMessage c = (.ok (some m), k.setMet c rest) := by
  simp only [nextMessage, h]

/-- Where no message was put aside the connection is read once. -/
theorem nextMessage_of_nil
    (h : k.met c = []) :
    taken (k.nextMessage c).1 = ((k.server.line c).read.1.toOption.bind toRaw?).toList ∧
      (k.nextMessage c).2 =
        { k with server := k.server.update c fun _ => (k.server.line c).read.2 } := by
  have htalk : k.talk (Talk.receive c) =
      ((k.server.line c).read.1,
        { k with server := k.server.update c fun _ => (k.server.line c).read.2 }) := rfl
  simp only [nextMessage, h, htalk]
  cases (k.server.line c).read.1 with
  | ok v => exact ⟨taken_ok _, rfl⟩
  | error f =>
      refine ⟨?_, rfl⟩
      simp only
      split
      · rfl
      · rfl

end Client

namespace Talk

variable {α β : Type}

/-- A part of a conversation closes no place for connections. -/
def Grows (t : Talk α) : Prop :=
  ∀ s : Server, s.lines.length ≤ (t.run s).2.lines.length

theorem grows_pure
    (a : α) :
    Grows (pure a) :=
  fun _ => Nat.le_refl _

theorem grows_throw
    (f : Fault) :
    Grows (throw f : Talk α) :=
  fun _ => Nat.le_refl _

theorem bind_run
    (t : Talk α)
    (f : α → Talk β)
    (s : Server) :
    (t >>= f).run s =
      match t.run s with
      | (.ok a, s) => (f a).run s
      | (.error e, s) => (.error e, s) := by
  show ExceptT.bindCont f (t.run s).1 (t.run s).2 = _
  rcases t.run s with ⟨e | a, q⟩
  · rfl
  · rfl

theorem Grows.bind
    {t : Talk α}
    {f : α → Talk β}
    (ht : Grows t)
    (hf : ∀ a, Grows (f a)) :
    Grows (t >>= f) := by
  intro s
  have hs := ht s
  rw [bind_run]
  rcases hout : t.run s with ⟨e | a, q⟩
  · rw [hout] at hs
    exact hs
  · rw [hout] at hs
    exact Nat.le_trans hs (hf a q)

theorem grows_setup
    (c : ConnId)
    (words : Words) :
    Grows (setup c words) := by
  refine Grows.bind ?_ fun _ => ?_
  · intro s
    have hsent : (s.sendSetup c words).2.lines.length = s.lines.length := by
      rw [Server.sendSetup, Server.length_send]
    exact Nat.le_of_eq hsent.symm
  · intro s
    exact Nat.le_of_eq (Server.length_update _ _ _).symm

theorem grows_authenticate
    (e : Endpoint)
    (c : ConnId) :
    Grows (authenticate e c) := by
  rw [authenticate]
  split
  · exact grows_pure _
  · refine (grows_setup _ _).bind fun answer => ?_
    split
    · exact grows_pure _
    · exact grows_throw _
    · split
      · refine (grows_setup _ _).bind fun answer => ?_
        split
        · exact grows_pure _
        · exact grows_throw _
      · exact grows_throw _

theorem grows_select
    (db : Int64)
    (c : ConnId) :
    Grows (select db c) := by
  rw [select]
  split
  · exact grows_pure _
  · refine (grows_setup _ _).bind fun answer => ?_
    split
    · exact grows_pure _
    · exact grows_throw _

/-- A connection that was opened has its place. -/
theorem lt_length_of_connection
    {e : Endpoint}
    {config : StoreConfig}
    {s t : Server}
    {c : ConnId}
    (h : (connection e config).run s = (.ok c, t)) :
    c < t.lines.length := by
  rw [connection, bind_run] at h
  split at h
  · next d q hdial =>
      have hd : d < q.lines.length := Server.lt_length_of_dial hdial
      rw [bind_run] at h
      split at h
      · next a q₁ hauthenticate =>
          have h₁ := grows_authenticate e d q
          rw [hauthenticate] at h₁
          rw [bind_run] at h
          split at h
          · next b q₂ hselect =>
              have h₂ := grows_select config.db d q₁
              rw [hselect] at h₂
              obtain ⟨hc, rfl⟩ := Prod.mk.inj h
              obtain rfl := Except.ok.inj hc
              exact Nat.lt_of_lt_of_le hd (Nat.le_trans h₁ h₂)
          · exact absurd (Prod.mk.inj h).1 (by simp)
      · exact absurd (Prod.mk.inj h).1 (by simp)
  · exact absurd (Prod.mk.inj h).1 (by simp)

end Talk

namespace Client

variable {k l : Client} {c d : ConnId}

/-- A subscriber that was opened has a connection, and has met no message yet. -/
theorem of_subscriber
    (h : (Store.subscriber : StoreM Client SubscriberId).answer k = (.ok c, l)) :
    c < l.server.lines.length ∧ l.met c = [] := by
  have hcall : (Store.subscriber : StoreM Client SubscriberId).answer k = k.subscriber := rfl
  rw [hcall, subscriber] at h
  split at h
  · next d q htalk =>
      obtain ⟨hd, rfl⟩ := Prod.mk.inj h
      obtain rfl := Except.ok.inj hd
      refine ⟨?_, met_setMet _ _ _⟩
      obtain ⟨hanswer, rfl⟩ := Prod.mk.inj htalk
      exact Talk.lt_length_of_connection (Prod.ext hanswer rfl)
  · exact absurd (Prod.mk.inj h).1 (by simp)

/-- What happens to the connections of subscribers: their calls, and what the server
does of its own accord, or in answer to commands of others. -/
inductive Event where
  | control (c : ConnId) (w : Control) (targets : List String)
  | next (c : ConnId) (wait : Duration)
  | arrive (c : ConnId) (replies : List Reply) (closes : Bool)
  /-- What the server will do when commands reach it is no longer what it was. -/
  | plan (turns : List Turn)

namespace Event

/-- The client after an event. -/
def after (k : Client) : Event → Client
  | .control c w targets => ((w.call c targets).answer k).2
  | .next c wait => ((Store.nextMessage c wait : StoreM Client (Option RawMessage)).answer k).2
  | .arrive c replies closes => { k with server := k.server.push c replies closes }
  | .plan turns => { k with server := { k.server with turns } }

/-- The replies that arrive on a connection in an event: those to a command that is
sent on it, or those that come unasked. -/
def arrivals (c : ConnId) (k : Client) : Event → List Reply
  | .control d _ targets =>
      if d = c ∧ targets ≠ [] ∧ (k.server.line c).closed = false then k.server.nextAnswers else []
  | .next _ _ => []
  | .arrive d replies _ => if d = c then replies else []
  | .plan _ => []

/-- The messages that a subscriber is given in an event. -/
def returned (c : ConnId) (k : Client) : Event → List RawMessage
  | .next d wait =>
      if d = c then
        taken ((Store.nextMessage c wait : StoreM Client (Option RawMessage)).answer k).1
      else []
  | _ => []

end Event

/-- What an event can do to a connection, by the replies that arrive on it and the
messages that its subscriber is given. -/
structure Passes (c : ConnId) (k l : Client) (arrived : List Reply) (returned : List RawMessage) :
    Prop where
  length : l.server.lines.length = k.server.lines.length
  taken : ∃ read, k.unread c ++ arrived = read ++ l.unread c ∧
    k.met c ++ read.filterMap Reply.message? = returned ++ l.met c

namespace Passes

/-- Nothing is taken from a connection that stays as it is but for what arrives. -/
theorem of_same
    {arrived : List Reply}
    (hlength : l.server.lines.length = k.server.lines.length)
    (hunread : l.unread c = k.unread c ++ arrived)
    (hmet : l.met c = k.met c) :
    Passes c k l arrived [] :=
  ⟨hlength, [], hunread.symm, (List.append_nil _).trans hmet.symm⟩

theorem refl
    (c : ConnId)
    (k : Client) :
    Passes c k k [] [] :=
  of_same rfl (List.append_nil _).symm rfl

theorem trans
    {m : Client}
    {arrived later : List Reply}
    {returned more : List RawMessage}
    (h : Passes c k l arrived returned)
    (hlater : Passes c l m later more) :
    Passes c k m (arrived ++ later) (returned ++ more) := by
  obtain ⟨hlength, read, hread, hmet⟩ := h
  obtain ⟨hlength', read', hread', hmet'⟩ := hlater
  refine ⟨hlength'.trans hlength, read ++ read', ?_, ?_⟩
  · rw [← List.append_assoc, hread, List.append_assoc, hread', List.append_assoc]
  · rw [List.filterMap_append, ← List.append_assoc, hmet, List.append_assoc, hmet',
      List.append_assoc]

end Passes

theorem passes_nextMessage
    (hc : c < k.server.lines.length) :
    Passes c k (k.nextMessage c).2 [] (Courier.taken (k.nextMessage c).1) := by
  cases hmet : k.met c with
  | cons m rest =>
      rw [nextMessage_of_cons hmet]
      refine ⟨rfl, [], List.append_nil _, ?_⟩
      rw [met_setMet, hmet]
      simp
  | nil =>
      obtain ⟨htaken, hafter⟩ := nextMessage_of_nil hmet
      obtain ⟨read, hreads⟩ := (k.server.line c).reads
      rw [htaken, hafter]
      refine ⟨Server.length_update _ _ _, read, ?_, ?_⟩
      · rw [List.append_nil]
        show (k.server.line c).unread = read ++ (Server.line (Server.update _ _ _) c).unread
        rw [Server.line_update hc]
        exact hreads.unread_eq
      · show k.met c ++ _ = _ ++ k.met c
        rw [hmet, hreads.filterMap_message?, List.append_nil, List.nil_append]

theorem passes_await
    (hc : c < k.server.lines.length)
    (w : Control)
    (n : Nat) :
    Passes c k (k.await c w.kind n).2 [] [] := by
  obtain ⟨read, hunread, hmet⟩ := awaitConfirmations_taken w n (k.server.line c)
  refine ⟨Server.length_update _ _ _, read, ?_, ?_⟩
  · rw [List.append_nil]
    show (k.server.line c).unread = read ++ (Server.line (Server.update _ _ _) c).unread
    rw [Server.line_update hc]
    exact hunread
  · show _ = [] ++ (setMet _ _ _).met c
    rw [met_setMet, hmet, List.nil_append]

theorem passes_asked
    (hc : c < k.server.lines.length)
    (w : Control)
    (targets : List String) :
    Passes c k (k.asked c w targets) k.server.nextAnswers [] :=
  Passes.of_same (Server.length_take _ _ _) (Server.unread_take hc _) rfl

theorem passes_control
    (hc : c < k.server.lines.length)
    (w : Control)
    (targets : List String) :
    Passes c k (k.control c w.name targets).2 ((Event.control c w targets).arrivals c k) [] := by
  by_cases htargets : targets = []
  · rw [control, if_pos htargets, Event.arrivals, if_neg (by simp [htargets])]
    exact Passes.refl c k
  · rw [control_eq htargets, Event.arrivals]
    cases hclosed : (k.server.line c).closed with
    | true =>
        rw [if_pos rfl, if_neg (fun h => absurd h.2.2 (by simp))]
        exact Passes.refl c k
    | false =>
        have hsent : c = c ∧ targets ≠ [] ∧ false = false := ⟨rfl, htargets, rfl⟩
        have hasked := passes_asked hc w targets
        rw [if_neg Bool.false_ne_true, if_pos hsent]
        split
        · exact hasked
        · have hawait := passes_await (Nat.lt_of_lt_of_eq hc hasked.length.symm) w targets.length
          have hboth := hasked.trans hawait
          rw [List.append_nil] at hboth
          exact hboth

/-- What happens to one connection leaves the others alone. -/
theorem passes_elsewhere
    (h : d ≠ c)
    (k : Client) :
    (∀ wait, Passes c k ((Event.next d wait).after k) [] []) ∧
      (∀ w targets, Passes c k ((Event.control d w targets).after k) [] []) ∧
      ∀ replies closes, Passes c k ((Event.arrive d replies closes).after k) [] [] := by
  refine ⟨?_, ?_, ?_⟩
  · intro wait
    show Passes c k (k.nextMessage d).2 [] []
    cases hmet : k.met d with
    | cons m rest =>
        rw [nextMessage_of_cons hmet]
        exact Passes.of_same rfl (List.append_nil _).symm (met_setMet_of_ne h k rest)
    | nil =>
        rw [(nextMessage_of_nil hmet).2]
        refine Passes.of_same (Server.length_update _ _ _) ?_ rfl
        rw [List.append_nil]
        exact congrArg Line.unread (Server.line_update_of_ne h _)
  · intro w targets
    rw [Event.after, control_answer]
    have hasked : Passes c k (k.asked d w targets) [] [] := by
      refine Passes.of_same (Server.length_take _ _ _) ?_ rfl
      rw [List.append_nil]
      exact congrArg Line.unread (Server.line_take_of_ne h _)
    have hawait : ∀ q : Client, Passes c q (q.await d w.kind targets.length).2 [] [] := by
      intro q
      refine Passes.of_same (Server.length_update _ _ _) ?_ (met_setMet_of_ne h _ _)
      rw [List.append_nil]
      exact congrArg Line.unread (Server.line_update_of_ne h _)
    by_cases htargets : targets = []
    · rw [control, if_pos htargets]
      exact Passes.refl c k
    · rw [control_eq htargets]
      split
      · exact Passes.refl c k
      · split
        · exact hasked
        · exact hasked.trans (hawait _)
  · intro replies closes
    refine Passes.of_same (Server.length_update _ _ _) ?_ rfl
    rw [List.append_nil]
    exact congrArg Line.unread (Server.line_update_of_ne h _)

theorem passes_event
    (hc : c < k.server.lines.length)
    (e : Event) :
    Passes c k (e.after k) (e.arrivals c k) (e.returned c k) := by
  cases e with
  | control d w targets =>
      by_cases h : d = c
      · subst h
        rw [Event.after, control_answer]
        exact passes_control hc w targets
      · rw [Event.arrivals, if_neg (fun hd => h hd.1)]
        exact (passes_elsewhere h k).2.1 w targets
  | next d wait =>
      by_cases h : d = c
      · subst h
        rw [Event.returned, if_pos rfl]
        exact passes_nextMessage hc
      · rw [Event.returned, if_neg h]
        exact (passes_elsewhere h k).1 wait
  | arrive d replies closes =>
      by_cases h : d = c
      · subst h
        rw [Event.arrivals, if_pos rfl]
        exact Passes.of_same (Server.length_update _ _ _)
          (congrArg Line.unread (Server.line_update hc _)) rfl
      · rw [Event.arrivals, if_neg h]
        exact (passes_elsewhere h k).2.2 replies closes
  | plan turns => exact Passes.of_same rfl (List.append_nil _).symm rfl

/-- The client after events. -/
def after (k : Client) : List Event → Client
  | [] => k
  | e :: events => (e.after k).after events

/-- The replies that arrive on a connection in events. -/
def arrived (c : ConnId) (k : Client) : List Event → List Reply
  | [] => []
  | e :: events => e.arrivals c k ++ (e.after k).arrived c events

/-- The messages that a subscriber is given in events. -/
def returned (c : ConnId) (k : Client) : List Event → List RawMessage
  | [] => []
  | e :: events => e.returned c k ++ (e.after k).returned c events

theorem passes_events
    (hc : c < k.server.lines.length)
    (events : List Event) :
    Passes c k (k.after events) (k.arrived c events) (k.returned c events) := by
  induction events generalizing k with
  | nil => exact Passes.refl c k
  | cons e events ih =>
      have hevent := passes_event hc e
      exact hevent.trans (ih (Nat.lt_of_lt_of_eq hc hevent.length.symm))

/-- The replies that a call for confirmations finds, those to its command included. -/
def offered (k : Client) (c : ConnId) (w : Control) (targets : List String) : List Reply :=
  k.unread c ++ (Event.control c w targets).arrivals c k

section Offered

variable {w : Control} {targets : List String}

theorem offered_eq
    (hc : c < k.server.lines.length)
    (htargets : targets ≠ [])
    (hopen : (k.server.line c).closed = false) :
    k.offered c w targets = (k.asked c w targets).unread c := by
  have hsent : c = c ∧ targets ≠ [] ∧ (k.server.line c).closed = false := ⟨rfl, htargets, hopen⟩
  rw [offered, Event.arrivals, if_pos hsent]
  exact (Server.unread_take hc _).symm

theorem await_ok_iff
    {n : Nat} :
    (k.await c w.kind n).1 = .ok () ↔
      (awaitConfirmations w.kind n (k.server.line c)).result = .ok () := by
  show (awaitConfirmations _ _ _).result.mapError Fault.toStore = _ ↔ _
  cases (awaitConfirmations w.kind n (k.server.line c)).result with
  | ok done => simp [Except.mapError]
  | error f => simp [Except.mapError]

theorem control_ok_iff
    (hc : c < k.server.lines.length)
    (htargets : targets ≠ []) :
    (k.control c w.name targets).1 = .ok () ↔
      (k.server.line c).closed = false ∧ k.config.connTimeout.isZero = false ∧
        ∃ read rest, w.Confirmed targets.length read ∧ k.offered c w targets = read ++ rest := by
  rw [control_eq htargets]
  cases hopen : (k.server.line c).closed with
  | true => simp
  | false =>
      rw [if_neg Bool.false_ne_true, offered_eq hc htargets hopen]
      cases htime : k.config.connTimeout.isZero with
      | true => simp
      | false =>
          rw [if_neg Bool.false_ne_true, await_ok_iff, awaitConfirmations_ok_iff]
          simp [unread]

/-- A call that succeeds has read the replies up to the last confirmation that was due. -/
theorem control_reads
    (hc : c < k.server.lines.length)
    (htargets : targets ≠ [])
    (hok : (k.control c w.name targets).1 = .ok ()) :
    ∃ read, w.Confirmed targets.length read ∧
      k.offered c w targets = read ++ (k.control c w.name targets).2.unread c := by
  obtain ⟨hopen, htime, -⟩ := (control_ok_iff hc htargets).1 hok
  rw [control_eq htargets, hopen, htime, if_neg Bool.false_ne_true, if_neg Bool.false_ne_true]
    at hok ⊢
  obtain ⟨read, hread, hunread⟩ := confirmed_of_awaitConfirmations w _ _ (await_ok_iff.1 hok)
  refine ⟨read, hread, ?_⟩
  rw [offered_eq hc htargets hopen]
  refine hunread.trans (congrArg (read ++ ·) ?_)
  refine (congrArg Line.unread ?_).symm
  exact Server.line_update (Nat.lt_of_lt_of_eq hc (Server.length_take _ _ _).symm) _

end Offered

/-- **A subscriber is given the messages of its connection in the order in which they
arrived, and misses none.**  In every run the messages that it was given, with those
put aside, are the ones among the replies that were read, and these are the first of
those that arrived; it does not matter whether a message came between confirmations or
whether the call that met it failed.  A call for confirmations succeeds where as many
of them as it has targets can be read, and has then read up to the last of them;
without targets it does nothing. -/
theorem messages_in_order_of_arrival
    {k l : Client}
    {c : ConnId}
    (hopened : (Store.subscriber : StoreM Client SubscriberId).answer k = (.ok c, l))
    (events : List Event) :
    let m := l.after events
    (∃ read, l.unread c ++ l.arrived c events = read ++ m.unread c ∧
      l.returned c events ++ m.met c = read.filterMap Reply.message?) ∧
    (∀ (v : Reply) (raw : RawMessage),
      v.message? = some raw ↔ v.signalled? = none ∧ v.Carries raw) ∧
    (∀ w : Control, (w.call c []).answer m = (.ok (), m)) ∧
    ∀ (w : Control) (targets : List String), targets ≠ [] →
      let out := (w.call c targets).answer m
      (out.1 = .ok () ↔
        (m.server.line c).closed = false ∧ m.config.connTimeout.isZero = false ∧
          ∃ read rest, w.Confirmed targets.length read ∧
            m.offered c w targets = read ++ rest) ∧
      (out.1 = .ok () →
        ∃ read, w.Confirmed targets.length read ∧
          m.offered c w targets = read ++ out.2.unread c) := by
  intro m
  obtain ⟨hc, hmet⟩ := of_subscriber hopened
  have hpasses := passes_events hc events
  have hcm : c < m.server.lines.length := Nat.lt_of_lt_of_eq hc hpasses.length.symm
  refine ⟨?_, fun v raw => Reply.message?_eq_some_iff, ?_, ?_⟩
  · obtain ⟨read, hread, horder⟩ := hpasses.taken
    rw [hmet, List.nil_append] at horder
    exact ⟨read, hread, horder.symm⟩
  · intro w
    rw [control_answer, Client.control, if_pos rfl]
  · intro w targets htargets out
    have hout : out = m.control c w.name targets := control_answer w c targets m
    rw [hout]
    exact ⟨control_ok_iff hcm htargets, control_reads hcm htargets⟩

/-- A message on a channel. -/
def news (channel text : String) : Reply :=
  .array [.bulk (Command.word "message"), .bulk (Command.word channel), .bulk (Command.word text)]

/-- The confirmation of a subscription to a channel. -/
def confirmation (channel : String) (n : Int64) : Reply :=
  .array [.bulk (Command.word "subscribe"), .bulk (Command.word channel), .int n]

/-- A client of a server that confirms two channels with a message in between and
another one behind. -/
def busy : Client :=
  .idle {} { address := .socket [0x2F, 0x73], username := none, password := none }
    { files := [([0x2F, 0x73], .socket true)]
      network := .down
      clock := 0
      turns := [{ answers :=
        [confirmation "a" 1, news "a" "early", confirmation "b" 2, news "b" "late"] }]
      lines := []
      sent := [] }

theorem confirmed_busy :
    Control.subscribe.Confirmed 2 [confirmation "a" 1, news "a" "early", confirmation "b" 2] := by
  have hconfirms : ∀ channel n, Control.subscribe.confirms (confirmation channel n) = true := by
    intro channel n
    simp only [Control.confirms, confirmation, kindOf?, Command.word, Utf8.textLossy_encode]
    decide
  have hother : Control.subscribe.confirms (news "a" "early") = false := by
    simp only [Control.confirms, news, kindOf?, Command.word, Utf8.textLossy_encode]
    decide
  refine ⟨?_, ?_, ?_⟩
  · intro v hv
    simp only [List.mem_cons, List.not_mem_nil, or_false] at hv
    rcases hv with rfl | rfl | rfl
    · exact ⟨rfl, rfl⟩
    · exact ⟨rfl, rfl⟩
    · exact ⟨rfl, rfl⟩
  · simp [hconfirms, hother]
  · intro v hv
    obtain rfl : confirmation "b" 2 = v := by simpa using hv
    exact hconfirms _ _

theorem subscribed_amid_messages :
    ∃ l : Client,
      (Store.subscriber : StoreM Client SubscriberId).answer busy = (.ok 0, l) ∧
        ((Control.subscribe.call 0 ["a", "b"]).answer l).1 = .ok () ∧
        ∃ read,
          l.unread 0 ++ l.arrived 0 [.control 0 .subscribe ["a", "b"], .next 0 .zero] =
              read ++ (l.after [.control 0 .subscribe ["a", "b"], .next 0 .zero]).unread 0 ∧
            l.returned 0 [.control 0 .subscribe ["a", "b"], .next 0 .zero] ++
              (l.after [.control 0 .subscribe ["a", "b"], .next 0 .zero]).met 0 =
                read.filterMap Reply.message? := by
  refine ⟨_, rfl, ?_, ?_⟩
  · have hcalls := (messages_in_order_of_arrival (k := busy) rfl []).2.2.2
    refine (hcalls .subscribe ["a", "b"] (List.cons_ne_nil _ _)).1.2 ⟨rfl, rfl, ?_⟩
    exact ⟨_, [news "b" "late"], confirmed_busy, rfl⟩
  · exact (messages_in_order_of_arrival (k := busy) rfl _).1

end Client

end Remote
end Courier
