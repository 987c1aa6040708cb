import Courier.Proofs.Remote.Listening
import Courier.Proofs.Store.Calls

/-!
# What a command sends

A command of the remote store is a conversation on one connection: messages that are sent
and answered one after the other.  Most have one message; the listing of keys has one for
each page.  A message that is not answered as it should be ends the conversation, so that
nothing is sent after a failure.

**Results.**
* `Server.sent_send`, `Server.sent_receiveAll`: what reaches the server, and when.
* `Server.ask`, `Server.sent_ask`: one command and its answer.
* `Talk.exchange`: a message and its answers; every command is made of these.
* `Talk.Held`: the exchanges of a conversation, and how each of them ended.
* `Talk.Held.sent`: what has reached the server after them.
* `Talk.Brief`, `Talk.brief_keysMatching`: conversations that end with their first failure.
* `Talk.connection_cases`: what is sent while a connection is opened and set up.
* `Request`, `Store.Call.request?`: the commands, and the one that a call of the store needs.
* `Store.Call.ask_of_request`: a call is carried out by its command.
-/

namespace Courier
namespace Remote

namespace Server

variable (s : Server) (c : ConnId)

theorem sent_take
    (words : Words) :
    (s.take c words).sent = s.sent ++ [(c, words)] := by
  rw [take]
  simp only
  split
  · rfl
  · rfl

/-- Of the commands of a message the server takes some from the beginning. -/
theorem sent_takeAll
    (message : List Words) :
    ∃ taken, taken <+: message ∧
      (s.takeAll c message).sent = s.sent ++ taken.map fun words => (c, words) := by
  induction message generalizing s with
  | nil => exact ⟨[], List.nil_prefix, (List.append_nil _).symm⟩
  | cons words message ih =>
      rw [takeAll]
      split
      · exact ⟨[], List.nil_prefix, (List.append_nil _).symm⟩
      · obtain ⟨taken, hbegins, hsent⟩ := ih (s.take c words)
        refine ⟨words :: taken, List.cons_prefix_cons.2 ⟨rfl, hbegins⟩, ?_⟩
        rw [hsent, sent_take, List.append_assoc]
        rfl

theorem sent_send
    (message : List Words) :
    ∃ taken, taken <+: message ∧
      (s.send c message).2.sent = s.sent ++ taken.map fun words => (c, words) := by
  rw [send]
  split
  · exact ⟨[], List.nil_prefix, (List.append_nil _).symm⟩
  · exact s.sent_takeAll c message

/-- Reading answers sends nothing. -/
theorem sent_receiveAll
    (more : Nat) :
    (s.receiveAll c more).2.sent = s.sent := by
  induction more generalizing s with
  | zero => rfl
  | succ more ih => exact ih (s.receive c).2

theorem length_receiveAll
    (more : Nat) :
    (s.receiveAll c more).2.lines.length = s.lines.length := by
  induction more generalizing s with
  | zero => exact length_update s c _
  | succ more ih => exact (ih (s.receive c).2).trans (length_update s c _)

/-- Sends a command and reads the answer. -/
def ask (s : Server) (c : ConnId) (words : Words) : Except Fault Reply × Server :=
  match s.send c [words] with
  | (.error f, s) => (.error f, s)
  | (.ok (), s) => s.receive c

theorem ask_of_closed
    {s : Server}
    {c : ConnId}
    (h : (s.line c).closed = true)
    (words : Words) :
    s.ask c words = (.error .brokenPipe, s) := by
  rw [ask, send_of_closed h]

theorem ask_of_open
    {s : Server}
    {c : ConnId}
    (h : (s.line c).closed = false)
    (words : Words) :
    s.ask c words = (s.take c words).receive c := by
  rw [ask, send_of_open h]

/-- A command reaches the server unless the connection was closed before. -/
theorem sent_ask
    (words : Words) :
    s.ask c words = (.error .brokenPipe, s) ∨ (s.ask c words).2.sent = s.sent ++ [(c, words)] := by
  cases h : (s.line c).closed with
  | true => exact Or.inl (ask_of_closed h words)
  | false =>
      right
      rw [ask_of_open h]
      exact s.sent_take c words

end Server

namespace Talk

variable {α β : Type}

/-- Reads answers, one more than `more`. -/
def receiveAll (c : ConnId) (more : Nat) : Talk Reply :=
  ExceptT.mk fun s => s.receiveAll c more

/-- Sends a message and reads its answers, one more than `more`. -/
def exchange (c : ConnId) (message : List Words) (more : Nat) (read : Reply → Except Fault α) :
    Talk α := do
  send c message
  let r ← receiveAll c more
  ExceptT.mk (pure (read r))

theorem query_run
    (words : Words)
    (read : Reply → Except Fault α)
    (c : ConnId)
    (s : Server) :
    (query words read c).run s = ((s.ask c words).1 >>= read, (s.ask c words).2) := by
  have hsend : (send c [words]).run s = s.send c [words] := rfl
  rw [query, bind_run, hsend, Server.ask]
  rcases s.send c [words] with ⟨f | _, t⟩
  · rfl
  · have hreceive : (receive c).run t = t.receive c := rfl
    simp only
    rw [bind_run, hreceive]
    rcases t.receive c with ⟨f | r, u⟩
    · rfl
    · rfl

theorem query_eq_exchange
    (words : Words)
    (read : Reply → Except Fault α)
    (c : ConnId) :
    query words read c = exchange c [words] 0 read := rfl

theorem batch_eq_exchange
    (ops : List BatchOp)
    (c : ConnId) :
    batch ops c = exchange c (Command.batch ops) (ops.length + 1) Reply.batch := rfl

/-- What an exchange leaves of the server. -/
theorem exchange_run
    (c : ConnId)
    (message : List Words)
    (more : Nat)
    (read : Reply → Except Fault α)
    (s : Server) :
    ((exchange c message more read).run s).2 = (s.send c message).2 ∨
      ((exchange c message more read).run s).2 = ((s.send c message).2.receiveAll c more).2 := by
  have hsend : (send c message).run s = s.send c message := rfl
  rw [exchange, bind_run, hsend]
  rcases s.send c message with ⟨e | _, t⟩
  · exact Or.inl rfl
  · have hreceive : (receiveAll c more).run t = t.receiveAll c more := rfl
    right
    simp only
    rw [bind_run, hreceive]
    rcases t.receiveAll c more with ⟨e | r, u⟩
    · rfl
    · rfl

/-- An exchange brings some of its message to the server, from the beginning and once. -/
theorem sent_exchange
    (c : ConnId)
    (message : List Words)
    (more : Nat)
    (read : Reply → Except Fault α)
    (s : Server) :
    ∃ taken, taken <+: message ∧
      ((exchange c message more read).run s).2.sent =
        s.sent ++ taken.map fun words => (c, words) := by
  obtain ⟨taken, hbegins, hsent⟩ := s.sent_send c message
  refine ⟨taken, hbegins, ?_⟩
  rcases exchange_run c message more read s with hrun | hrun
  · rw [hrun, hsent]
  · rw [hrun, Server.sent_receiveAll, hsent]

theorem grows_exchange
    (c : ConnId)
    (message : List Words)
    (more : Nat)
    (read : Reply → Except Fault α) :
    Grows (exchange c message more read) := by
  intro s
  refine Nat.le_of_eq ?_
  rcases exchange_run c message more read s with hrun | hrun
  · rw [hrun, Server.length_send]
  · rw [hrun, Server.length_receiveAll, Server.length_send]

/-- A number of exchanges, one after the other, with the message of each and whether it
was answered as it should be. -/
inductive Held (c : ConnId) : Server → List (List Words × Bool) → Server → Prop
  | done (s : Server) :
      Held c s [] s
  | exchange
      {α : Type}
      (message : List Words)
      (more : Nat)
      (read : Reply → Except Fault α)
      {s t : Server}
      {log : List (List Words × Bool)}
      (later : Held c ((exchange c message more read).run s).2 log t) :
      Held c s ((message, ((Talk.exchange c message more read).run s).1.isOk) :: log) t

/-- Each message has reached the server at most once, in order, and from its beginning. -/
theorem Held.sent
    {c : ConnId}
    {s t : Server}
    {log : List (List Words × Bool)}
    (h : Held c s log t) :
    ∃ taken : List (List Words), List.Forall₂ (· <+: ·) taken (log.map Prod.fst) ∧
      t.sent = s.sent ++ taken.flatten.map fun words => (c, words) := by
  induction h with
  | done s => exact ⟨[], List.Forall₂.nil, (List.append_nil _).symm⟩
  | exchange message more read later ih =>
      next s t log =>
      obtain ⟨first, hbegins, hfirst⟩ := sent_exchange c message more read s
      obtain ⟨taken, hall, htaken⟩ := ih
      refine ⟨first :: taken, List.Forall₂.cons hbegins hall, ?_⟩
      rw [htaken, hfirst, List.flatten_cons, List.map_append, List.append_assoc]

/-- Every message but the last was answered as it should be, and the last one too if
nothing failed. -/
def Untroubled (log : List (List Words × Bool)) (ok : Bool) : Prop :=
  (∀ e ∈ log.dropLast, e.2 = true) ∧ (ok = true → ∀ e ∈ log, e.2 = true)

/-- A conversation that ends with its first failure, with the messages it may send. -/
def Brief (c : ConnId) (messages : List (List Words) → Prop) (t : Talk α) : Prop :=
  ∀ s, ∃ log, messages (log.map Prod.fst) ∧ Held c s log (t.run s).2 ∧
    Untroubled log (t.run s).1.isOk

theorem untroubled_nil
    (ok : Bool) :
    Untroubled [] ok :=
  ⟨fun _ he => absurd he List.not_mem_nil, fun _ _ he => absurd he List.not_mem_nil⟩

/-- A conversation that sends nothing. -/
theorem brief_of_silent
    {c : ConnId}
    {P : List (List Words) → Prop}
    (hnone : P [])
    {t : Talk α}
    (ht : ∀ s, (t.run s).2 = s) :
    Brief c P t := by
  intro s
  refine ⟨[], hnone, ?_, untroubled_nil _⟩
  rw [ht]
  exact .done s

theorem brief_exchange
    (c : ConnId)
    (message : List Words)
    (more : Nat)
    (read : Reply → Except Fault α) :
    Brief c (· = [message]) (exchange c message more read) := by
  intro s
  refine ⟨_, rfl, .exchange message more read (.done _), ?_, ?_⟩
  · intro e he
    exact absurd he List.not_mem_nil
  · intro hok e he
    obtain rfl := List.mem_singleton.1 he
    exact hok

/-- A conversation that goes on after an exchange goes on only if that was answered. -/
theorem brief_exchange_bind
    {c : ConnId}
    {message : List Words}
    {P Q : List (List Words) → Prop}
    (hlast : Q [message])
    (hmore : ∀ messages, P messages → Q (message :: messages))
    {f : α → Talk β}
    (hf : ∀ a, Brief c P (f a))
    (more : Nat)
    (read : Reply → Except Fault α) :
    Brief c Q (exchange c message more read >>= f) := by
  intro s
  have hfirst : ∀ {log t}, Held c ((exchange c message more read).run s).2 log t →
      Held c s ((message, ((exchange c message more read).run s).1.isOk) :: log) t :=
    Held.exchange message more read
  rw [bind_run]
  rcases hrun : (exchange c message more read).run s with ⟨e | a, t⟩
  · rw [hrun] at hfirst
    refine ⟨[(message, false)], hlast, hfirst (.done t), ?_, ?_⟩
    · intro entry hentry
      exact absurd hentry List.not_mem_nil
    · intro hok
      exact absurd hok Bool.false_ne_true
  · rw [hrun] at hfirst
    obtain ⟨log, hmessages, hheld, hbefore, hall⟩ := hf a t
    refine ⟨(message, true) :: log, hmore _ hmessages, hfirst hheld, ?_, ?_⟩
    · intro entry hentry
      cases log with
      | nil => exact absurd hentry List.not_mem_nil
      | cons next log =>
          rcases List.mem_cons.1 hentry with rfl | hentry
          · rfl
          · exact hbefore entry hentry
    · intro hok entry hentry
      rcases List.mem_cons.1 hentry with rfl | hentry
      · rfl
      · exact hall hok entry hentry

/-- What is made of the answer in the end sends nothing. -/
theorem Brief.bind_pure
    {c : ConnId}
    {P : List (List Words) → Prop}
    {t : Talk α}
    (h : Brief c P t)
    (g : α → β) :
    Brief c P (t >>= fun a => pure (g a)) := by
  intro s
  obtain ⟨log, hmessages, hheld, huntroubled⟩ := h s
  refine ⟨log, hmessages, ?_⟩
  rw [bind_run]
  rcases hrun : t.run s with ⟨e | a, u⟩
  · rw [hrun] at hheld huntroubled
    exact ⟨hheld, huntroubled⟩
  · rw [hrun] at hheld huntroubled
    exact ⟨hheld, huntroubled⟩

/-- The messages that list keys: each asks for one page. -/
def Scans (pattern : String) (messages : List (List Words)) : Prop :=
  ∃ cursors : List Nat, messages = cursors.map fun cursor => [Command.scan cursor pattern]

theorem brief_scanFrom
    (pattern : String)
    (c : ConnId)
    (fuel cursor : Nat) :
    Brief c (Scans pattern) (scanFrom pattern c fuel cursor) := by
  induction fuel generalizing cursor with
  | zero => exact brief_of_silent ⟨[], rfl⟩ fun _ => rfl
  | succ fuel ih =>
      rw [scanFrom, query_eq_exchange]
      refine brief_exchange_bind (P := Scans pattern) ⟨[cursor], rfl⟩ ?_ ?_ 0 _
      · rintro _ ⟨cursors, rfl⟩
        exact ⟨cursor :: cursors, rfl⟩
      · rintro ⟨next, page⟩
        simp only
        split
        · exact brief_of_silent ⟨[], rfl⟩ fun _ => rfl
        · exact (ih next).bind_pure _

theorem brief_keysMatching
    (pattern : String)
    (c : ConnId) :
    Brief c (Scans pattern) (keysMatching pattern c) := by
  intro s
  rw [keysMatching, bind_run]
  exact (brief_scanFrom pattern c _ 0).bind_pure _ s

theorem grows_scanFrom
    (pattern : String)
    (c : ConnId)
    (fuel cursor : Nat) :
    Grows (scanFrom pattern c fuel cursor) := by
  induction fuel generalizing cursor with
  | zero => exact grows_throw _
  | succ fuel ih =>
      rw [scanFrom, query_eq_exchange]
      refine (grows_exchange c _ 0 _).bind fun answer => ?_
      obtain ⟨next, page⟩ := answer
      simp only
      split
      · exact grows_pure _
      · exact (ih next).bind fun later => grows_pure _

theorem grows_keysMatching
    (pattern : String)
    (c : ConnId) :
    Grows (keysMatching pattern c) := by
  refine Grows.bind (fun s => Nat.le_refl _) fun fuel => ?_
  exact (grows_scanFrom pattern c _ 0).bind fun keys => grows_pure _

/-- A command with which a connection is set up. -/
def SetsUp (words : Words) : Prop :=
  (∃ username password, words = Command.auth username password) ∨ ∃ db, words = Command.select db

/-- A part of a conversation in which only commands that set up a connection are sent. -/
def OnlySetsUp (t : Talk α) : Prop :=
  ∀ s, ∃ sent, (t.run s).2.sent = s.sent ++ sent ∧ ∀ e ∈ sent, SetsUp e.2

theorem onlySetsUp_of_silent
    {t : Talk α}
    (h : ∀ s, (t.run s).2.sent = s.sent) :
    OnlySetsUp t :=
  fun s => ⟨[], (h s).trans (List.append_nil _).symm, fun _ he => absurd he List.not_mem_nil⟩

theorem OnlySetsUp.bind
    {t : Talk α}
    {f : α → Talk β}
    (ht : OnlySetsUp t)
    (hf : ∀ a, OnlySetsUp (f a)) :
    OnlySetsUp (t >>= f) := by
  intro s
  obtain ⟨sent, hsent, hsets⟩ := ht s
  rw [bind_run]
  rcases hrun : t.run s with ⟨e | a, u⟩
  · rw [hrun] at hsent
    exact ⟨sent, hsent, hsets⟩
  · rw [hrun] at hsent
    obtain ⟨more, hmore, hsets'⟩ := hf a u
    refine ⟨sent ++ more, ?_, ?_⟩
    · rw [← List.append_assoc, ← hsent]
      exact hmore
    · intro e he
      rcases List.mem_append.1 he with he | he
      · exact hsets e he
      · exact hsets' e he

theorem onlySetsUp_setup
    (c : ConnId)
    {words : Words}
    (h : SetsUp words) :
    OnlySetsUp (setup c words) := by
  refine OnlySetsUp.bind ?_ fun _ => onlySetsUp_of_silent fun _ => rfl
  intro s
  obtain ⟨taken, hbegins, hsent⟩ :=
    { s with turns := Server.setupTurns s.turns }.sent_send c [words]
  refine ⟨taken.map fun words => (c, words), hsent, fun e he => ?_⟩
  obtain ⟨words', hwords, rfl⟩ := List.mem_map.1 he
  rw [List.mem_singleton.1 (hbegins.subset hwords)]
  exact h

theorem onlySetsUp_authenticate
    (e : Endpoint)
    (c : ConnId) :
    OnlySetsUp (authenticate e c) := by
  rw [authenticate]
  split
  · exact onlySetsUp_of_silent fun _ => rfl
  · refine (onlySetsUp_setup c (Or.inl ⟨_, _, rfl⟩)).bind fun answer => ?_
    split
    · exact onlySetsUp_of_silent fun _ => rfl
    · exact onlySetsUp_of_silent fun _ => rfl
    · split
      · refine (onlySetsUp_setup c (Or.inl ⟨_, _, rfl⟩)).bind fun answer => ?_
        split
        · exact onlySetsUp_of_silent fun _ => rfl
        · exact onlySetsUp_of_silent fun _ => rfl
      · exact onlySetsUp_of_silent fun _ => rfl

theorem onlySetsUp_select
    (db : Int64)
    (c : ConnId) :
    OnlySetsUp (select db c) := by
  rw [select]
  split
  · exact onlySetsUp_of_silent fun _ => rfl
  · refine (onlySetsUp_setup c (Or.inr ⟨db, rfl⟩)).bind fun answer => ?_
    split
    · exact onlySetsUp_of_silent fun _ => rfl
    · exact onlySetsUp_of_silent fun _ => rfl

/-- A connection that is dialed has the next number. -/
theorem dial_cases
    (s : Server)
    (address : Address)
    (wait : Duration) :
    (∃ f, s.dial address wait = (.error f, s)) ∨
      s.dial address wait =
        (.ok s.lines.length, { s with lines := s.lines ++ [{ unread := [] }] }) := by
  rw [Server.dial]
  cases s.dialFault? wait address with
  | some f => exact Or.inl ⟨f, rfl⟩
  | none => exact Or.inr rfl

/-- What follows the dialing of a connection. -/
def setUp (e : Endpoint) (config : StoreConfig) (c : ConnId) : Talk ConnId := do
  authenticate e c
  select config.db c
  pure c

theorem onlySetsUp_setUp
    (e : Endpoint)
    (config : StoreConfig)
    (c : ConnId) :
    OnlySetsUp (setUp e config c) :=
  (onlySetsUp_authenticate e c).bind fun _ =>
    (onlySetsUp_select config.db c).bind fun _ => onlySetsUp_of_silent fun _ => rfl

theorem grows_setUp
    (e : Endpoint)
    (config : StoreConfig)
    (c : ConnId) :
    Grows (setUp e config c) :=
  (grows_authenticate e c).bind fun _ => (grows_select config.db c).bind fun _ => grows_pure c

theorem setUp_ok
    {e : Endpoint}
    {config : StoreConfig}
    {c d : ConnId}
    {s t : Server}
    (h : (setUp e config c).run s = (.ok d, t)) :
    d = c := by
  rw [setUp, bind_run] at h
  split at h
  · rw [bind_run] at h
    split at h
    · exact (Except.ok.inj (Prod.mk.inj h).1).symm
    · exact absurd (Prod.mk.inj h).1 (by simp)
  · exact absurd (Prod.mk.inj h).1 (by simp)

/-- **Opening a connection.**  It has the number after all others, and whether it is opened
or not only commands that set it up are sent. -/
theorem connection_cases
    (e : Endpoint)
    (config : StoreConfig)
    (s : Server) :
    s.lines.length ≤ ((connection e config).run s).2.lines.length ∧
      (∃ sent, ((connection e config).run s).2.sent = s.sent ++ sent ∧
        ∀ e ∈ sent, SetsUp e.2) ∧
      ∀ c t, (connection e config).run s = (.ok c, t) → c = s.lines.length := by
  have hdial : (connection e config).run s =
      ((ExceptT.mk fun s : Server => s.dial e.address config.connTimeout : Talk ConnId) >>=
        setUp e config).run s := rfl
  rw [hdial, bind_run]
  rcases dial_cases s e.address config.connTimeout with ⟨f, hs⟩ | hs
  · have hrun : (ExceptT.mk fun s : Server => s.dial e.address config.connTimeout : Talk
        ConnId).run s = (.error f, s) := hs
    rw [hrun]
    refine ⟨Nat.le_refl _, ⟨[], (List.append_nil _).symm, ?_⟩, ?_⟩
    · intro entry hentry
      exact absurd hentry List.not_mem_nil
    · intro c t h
      exact absurd (Prod.mk.inj h).1 (by simp)
  · have hrun : (ExceptT.mk fun s : Server => s.dial e.address config.connTimeout : Talk
        ConnId).run s =
          (.ok s.lines.length, { s with lines := s.lines ++ [{ unread := [] }] }) := hs
    rw [hrun]
    have hgrows := grows_setUp e config s.lines.length
      { s with lines := s.lines ++ [{ unread := [] }] }
    simp only [List.length_append] at hgrows
    exact ⟨Nat.le_trans (Nat.le_add_right _ _) hgrows,
      onlySetsUp_setUp e config s.lines.length _, fun c t h => setUp_ok h⟩

end Talk

/-- A command of the remote store: its conversation on the connection that it is given,
with the messages that it may send.  The conversation ends with its first failure. -/
structure Request (α : Type) where
  talk : ConnId → Talk α
  messages : List (List Words) → Prop
  grows : ∀ c, Talk.Grows (talk c)
  brief : ∀ c, Talk.Brief c messages (talk c)

namespace Request

/-- One command, and how its answer is read. -/
def query {α : Type} (words : Words) (read : Reply → Except Fault α) : Request α where
  talk := Talk.query words read
  messages := (· = [[words]])
  grows c := by
    rw [Talk.query_eq_exchange]
    exact Talk.grows_exchange c [words] 0 read
  brief c := by
    rw [Talk.query_eq_exchange]
    exact Talk.brief_exchange c [words] 0 read

/-- The commands of a batch, sent at once. -/
def batch (ops : List BatchOp) : Request Unit where
  talk := Talk.batch ops
  messages := (· = [Command.batch ops])
  grows c := by
    rw [Talk.batch_eq_exchange]
    exact Talk.grows_exchange c _ _ Reply.batch
  brief c := by
    rw [Talk.batch_eq_exchange]
    exact Talk.brief_exchange c _ _ Reply.batch

/-- The commands that list keys, one for each page. -/
def keysMatching (pattern : String) : Request (List String) where
  talk := Talk.keysMatching pattern
  messages := Talk.Scans pattern
  grows c := Talk.grows_keysMatching pattern c
  brief c := Talk.brief_keysMatching pattern c

/-- What a client is opened with: it asks for a sign of life. -/
def ping : Request Unit :=
  query Command.ping fun r => r.text.map fun _ => ()

end Request
end Remote

namespace Store.Call

open Remote

/-- A call as it is made on a store. -/
def ask {σ : Type} [Store σ] : (call : Call) → StoreM σ call.Result
  | .pushFront key value => Store.pushFront key value
  | .popBack key => Store.popBack key
  | .blockingPopBack key wait => Store.blockingPopBack key wait
  | .listLen key => Store.listLen key
  | .delete keys => Store.delete keys
  | .sortedAdd key member score => Store.sortedAdd key member score
  | .rangeByScore key min max => Store.rangeByScore key min max
  | .sortedRemove key member => Store.sortedRemove key member
  | .sortedLen key => Store.sortedLen key
  | .executeBatch ops => Store.executeBatch ops
  | .publish channel payload => Store.publish channel payload
  | .subscriber => Store.subscriber
  | .set key value ttl => Store.set key value ttl
  | .setIfAbsent key value ttl => Store.setIfAbsent key value ttl
  | .get key => Store.get key
  | .contains key => Store.contains key
  | .increment key amount => Store.increment key amount
  | .keysMatching pattern => Store.keysMatching pattern
  | .subscribe id channels => Store.subscribe id channels
  | .psubscribe id patterns => Store.psubscribe id patterns
  | .unsubscribe id channels => Store.unsubscribe id channels
  | .punsubscribe id patterns => Store.punsubscribe id patterns
  | .nextMessage id wait => Store.nextMessage id wait

/-- The command with which the remote store carries out a call, if it needs one of those
for which connections are pooled. -/
def request? : (call : Call) → Option (Remote.Request call.Result)
  | .pushFront key value => some (.query (Command.pushFront key value) Reply.natural)
  | .popBack key => some (.query (Command.popBack key) (Reply.optional Reply.bytes))
  | .blockingPopBack key wait =>
      if wait.isZero then some (.query (Command.popBack key) (Reply.optional Reply.bytes))
      else
        some <| .query (Command.popWaiting key wait) fun r =>
          (Reply.optional (Reply.pair Reply.text Reply.bytes) r).map fun p => p.map (·.2)
  | .listLen key => some (.query (Command.listLen key) Reply.natural)
  | .delete keys =>
      if keys = [] then none else some (.query (Command.delete keys) Reply.natural)
  | .sortedAdd key member score =>
      some (.query (Command.sortedAdd key member score) fun r => r.integer.map fun _ => ())
  | .rangeByScore key min max =>
      some (.query (Command.rangeByScore key min max) (Reply.list Reply.bytes))
  | .sortedRemove key member =>
      some (.query (Command.sortedRemove key member) Client.isPositive)
  | .sortedLen key => some (.query (Command.sortedLen key) Reply.natural)
  | .executeBatch ops => if ops = [] then none else some (.batch ops)
  | .publish channel payload => some (.query (Command.publish channel payload) Reply.natural)
  | .set key value ttl =>
      some (.query (Command.set key value ttl) fun r => r.text.map fun _ => ())
  | .setIfAbsent key value ttl =>
      some <| .query (Command.setIfAbsent key value ttl) fun r =>
        (Reply.optional Reply.text r).map (·.isSome)
  | .get key => some (.query (Command.get key) (Reply.optional Reply.bytes))
  | .contains key => some (.query (Command.contains key) Client.isPositive)
  | .increment key amount => some (.query (Command.increment key amount) Reply.integer)
  | .keysMatching pattern => some (.keysMatching pattern)
  | .subscriber | .subscribe .. | .psubscribe .. | .unsubscribe .. | .punsubscribe ..
  | .nextMessage .. => none

/-- A call that needs a command has it carried out on a connection of the pool. -/
theorem ask_of_request
    {call : Call}
    {request : Remote.Request call.Result}
    (h : call.request? = some request)
    (k : Client) :
    (call.ask : StoreM Client call.Result).answer k = k.withConn request.talk := by
  cases call
  case blockingPopBack key wait =>
    have hanswer : (Call.ask (.blockingPopBack key wait) : StoreM Client _).answer k =
        (Client.blockingPopBack key wait).answer k := rfl
    rw [hanswer, Client.blockingPopBack]
    rw [request?] at h
    split at h
    · next hzero =>
        obtain rfl := Option.some.inj h
        rw [if_pos hzero]
        rfl
    · next hzero =>
        obtain rfl := Option.some.inj h
        rw [if_neg hzero]
        rfl
  case delete keys =>
    have hanswer : (Call.ask (.delete keys) : StoreM Client _).answer k =
        (Client.delete keys).answer k := rfl
    rw [hanswer, Client.delete]
    rw [request?] at h
    split at h
    · exact absurd h (by simp)
    · next hkeys =>
        obtain rfl := Option.some.inj h
        rw [if_neg hkeys]
        rfl
  case executeBatch ops =>
    have hanswer : (Call.ask (.executeBatch ops) : StoreM Client _).answer k =
        (Client.executeBatch ops).answer k := rfl
    rw [hanswer, Client.executeBatch]
    rw [request?] at h
    split at h
    · exact absurd h (by simp)
    · next hops =>
        obtain rfl := Option.some.inj h
        rw [if_neg hops]
        rfl
  case subscriber | subscribe | psubscribe | unsubscribe | punsubscribe | nextMessage =>
    exact absurd h (by simp [request?])
  all_goals
    obtain rfl := Option.some.inj h
    rfl

/-- The other calls leave the pool alone. -/
theorem pool_of_no_request
    {call : Call}
    (h : call.request? = none)
    (k : Client) :
    ((call.ask : StoreM Client call.Result).answer k).2.pool = k.pool := by
  have hcontrol : ∀ (w : Control) (c : ConnId) (targets : List String),
      ((w.call c targets).answer k).2.pool = k.pool := by
    intro w c targets
    rw [Client.control_answer]
    by_cases htargets : targets = []
    · rw [Client.control, if_pos htargets]
    · rw [Client.control_eq htargets]
      split
      · rfl
      · split
        · rfl
        · rfl
  cases call
  case delete keys =>
    rw [request?] at h
    split at h
    · next hkeys =>
        subst hkeys
        rfl
    · exact absurd h (by simp)
  case executeBatch ops =>
    rw [request?] at h
    split at h
    · next hops =>
        subst hops
        rfl
    · exact absurd h (by simp)
  case blockingPopBack key wait =>
    rw [request?] at h
    split at h
    · exact absurd h (by simp)
    · exact absurd h (by simp)
  case subscriber =>
    have hanswer : (Call.ask .subscriber : StoreM Client _).answer k = k.subscriber := rfl
    rw [hanswer, Client.subscriber]
    split
    · next c l htalk => exact congrArg (fun r => r.2.pool) htalk.symm
    · next f l htalk => exact congrArg (fun r => r.2.pool) htalk.symm
  case subscribe c targets => exact hcontrol .subscribe c targets
  case psubscribe c targets => exact hcontrol .psubscribe c targets
  case unsubscribe c targets => exact hcontrol .unsubscribe c targets
  case punsubscribe c targets => exact hcontrol .punsubscribe c targets
  case nextMessage c wait =>
    have hanswer : (Call.ask (.nextMessage c wait) : StoreM Client _).answer k =
        k.nextMessage c := rfl
    rw [hanswer]
    cases hmet : k.met c with
    | cons m rest =>
        rw [Client.nextMessage_of_cons hmet]
        rfl
    | nil => rw [(Client.nextMessage_of_nil hmet).2]
  all_goals exact absurd h (by simp [request?])

end Store.Call
end Courier
