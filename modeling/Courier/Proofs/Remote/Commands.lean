import Courier.Proofs.Remote.Exchanges
import Courier.Proofs.Store.Lending

/-!
# Commands that share connections

Any number of callers have commands carried out over one pool of connections.  A command
fixes its deadline, takes an idle connection or opens one, or waits while the pool is full;
it holds its conversation, and gives the connection back unless it was lost.  Between any
two of these acts time passes, the others may go on with their commands, and the server and
those with connections of their own may do anything.

**Results.**
* `Callers.step`, `Callers.run`: what the callers do.
* `Callers.ended`: the commands that end with an event, and their answers.
* `Callers.Shows`, `Callers.Shows.step`: the callers are callers of a pool.
* `Callers.lent_next`, `Callers.not_lost_of_lent_again`: which connections serve a later command.
* `Callers.slot_of_ended`, `Callers.ended_of_away`: the slots of commands that end.
* `Callers.sent_talk`, `Callers.sent_step`: what is sent, and when.
* `Callers.undisturbed`: with nothing between its acts, a command is carried out as a whole.
* `Client.serve_cases`, `Client.withConn_keeps`: a command as a whole.
* `slot_given_back_once`: slots, connections and messages, after every run.
-/

namespace Courier
namespace Remote

/-- What a caller is at with its command. -/
inductive Stage : Type 1 where
  /-- It has no command carried out. -/
  | away
  /-- It found the pool full and looks again later. -/
  | waiting {α : Type} (request : Request α)
  /-- It has a slot in which it opens a connection. -/
  | opening {α : Type} (request : Request α)
  /-- It has a connection for its conversation. -/
  | holding {α : Type} (request : Request α) (c : ConnId)
  /-- The conversation is over, and the connection is still to be given back. -/
  | leaving {α : Type} (request : Request α) (c : ConnId) (result : Except Fault α)

/-- What a caller of the pool is doing at a stage. -/
def Stage.activity : Stage → Activity ConnId
  | away => .away
  | waiting _ => .waiting
  | opening _ => .opening
  | holding _ c | leaving _ c _ => .holding c

/-- A client and those who have commands carried out by it. -/
structure Callers (n : Nat) : Type 1 where
  client : Client
  stage : Fin n → Stage

/-- After a failure there is a pause and then another attempt, unless the attempt that
failed was abandoned. -/
theorem Client.knock_of_error
    {k l : Client}
    {e : StoreError}
    (hping : k.ping = (.error e, l))
    (more : Nat) :
    k.knock (more + 1) =
      if e = .deadlineOverflow then ([], .error e, l)
      else
        ((more + 1, e) :: (l.pause.knock more).1, (l.pause.knock more).2) := by
  rw [knock, hping]
  cases e with
  | deadlineOverflow => rfl
  | connection reason => rfl
  | command reason => rfl
  | closed => rfl

namespace Callers

variable {n : Nat} {α : Type}

/-- What may happen next. -/
inductive Event (n : Nat) : Type 1 where
  /-- A caller begins with a command, which is abandoned if its deadline cannot be counted. -/
  | begin {α : Type} (i : Fin n) (request : Request α)
  /-- A caller that waits looks again; `late` if it has waited as long as it may. -/
  | look (i : Fin n) (late : Bool)
  /-- A caller opens its connection, or fails to. -/
  | connect (i : Fin n)
  /-- A caller holds its conversation. -/
  | talk (i : Fin n)
  /-- A caller is done with its connection. -/
  | giveBack (i : Fin n)
  /-- Something else happens to the server or to its clock; connections keep their numbers. -/
  | others (change : Server → Server)
      (grows : ∀ s, s.lines.length ≤ (change s).lines.length)

/-- Nobody has a command carried out. -/
def start (n : Nat) (client : Client) : Callers n :=
  ⟨client, fun _ => .away⟩

/-- A caller is at another stage now, and the client has changed with it. -/
def become (s : Callers n) (i : Fin n) (stage : Stage) (client : Client) : Callers n :=
  ⟨client, Function.update s.stage i stage⟩

/-- A caller asks the pool for a connection. -/
def ask (s : Callers n) (i : Fin n) (request : Request α) (late : Bool) : Callers n :=
  match s.client.pool.request with
  | (.idle c, pool) => s.become i (.holding request c) { s.client with pool }
  | (.slot, pool) => s.become i (.opening request) { s.client with pool }
  | (.full, pool) => s.become i (if late then .away else .waiting request) { s.client with pool }

/-- A caller opens a connection in its slot; if that fails, it gives the slot back. -/
def connect (s : Callers n) (i : Fin n) (request : Request α) : Callers n :=
  match s.client.talk (Talk.connection s.client.endpoint s.client.config) with
  | (.ok c, client) => s.become i (.holding request c) client
  | (.error _, client) => s.become i .away { client with pool := client.pool.checkin none }

/-- A caller holds its conversation. -/
def talk (s : Callers n) (i : Fin n) (request : Request α) (c : ConnId) : Callers n :=
  let r := s.client.talk (request.talk c)
  s.become i (.leaving request c r.1) r.2

/-- The effect of an event. -/
def step (s : Callers n) : Event n → Callers n
  | .begin i request =>
      match s.stage i, s.client.deadline? with
      | .away, some _ => s.ask i request false
      | _, _ => s
  | .look i late =>
      match s.stage i with
      | .waiting request => s.ask i request late
      | _ => s
  | .connect i =>
      match s.stage i with
      | .opening request => s.connect i request
      | _ => s
  | .talk i =>
      match s.stage i with
      | .holding request c => s.talk i request c
      | _ => s
  | .giveBack i =>
      match s.stage i with
      | .leaving _ c r => s.become i .away (s.client.giveBack c r)
      | _ => s
  | .others change _ => { s with client := { s.client with server := change s.client.server } }

/-- The callers after some events. -/
def run (s : Callers n) (events : List (Event n)) : Callers n :=
  events.foldl step s

/-- A command that ends, and its answer. -/
structure Ended (n : Nat) : Type 1 where
  caller : Fin n
  {α : Type}
  request : Request α
  answer : Except StoreError α

/-- The command that ends with an event. -/
def ended (s : Callers n) : Event n → Option (Ended n)
  | .begin i request =>
      match s.stage i, s.client.deadline? with
      | .away, none => some ⟨i, request, .error .deadlineOverflow⟩
      | _, _ => none
  | .look i late =>
      match s.stage i, s.client.pool.request with
      | .waiting request, (.full, pool) =>
          if late then some ⟨i, request, .error pool.exhausted⟩ else none
      | _, _ => none
  | .connect i =>
      match s.stage i with
      | .opening request =>
          match (s.client.talk (Talk.connection s.client.endpoint s.client.config)).1 with
          | .ok _ => none
          | .error f => some ⟨i, request, .error f.toStore⟩
      | _ => none
  | .giveBack i =>
      match s.stage i with
      | .leaving request _ r => some ⟨i, request, r.mapError Fault.toStore⟩
      | _ => none
  | .talk _ | .others .. => none

/-- The commands that end with some events, in order. -/
def answers (s : Callers n) : List (Event n) → List (Ended n)
  | [] => []
  | e :: events => (s.ended e).toList ++ (s.step e).answers events

/-- The number of callers that have a slot of the pool. -/
def users (s : Callers n) : Nat :=
  (Finset.univ.filter fun i => (s.stage i).activity.Uses).card

/-- Whether a conversation has lost its connection. -/
def lost (r : Except Fault α) : Bool :=
  match r with
  | .ok _ => false
  | .error f => f.isLost

theorem lost_eq_false_iff
    {r : Except Fault α} :
    lost r = false ↔ ∀ reason, r ≠ .error (.lost reason) := by
  cases r with
  | ok a => simp [lost]
  | error f =>
      cases f with
      | lost reason => simp [lost, Fault.isLost]
      | refused reason => simp [lost, Fault.isLost]

theorem giveBack_eq
    (k : Client)
    (c : ConnId)
    (r : Except Fault α) :
    k.giveBack c r = { k with pool := k.pool.checkin (if lost r then none else some c) } := rfl

@[simp] theorem run_nil
    (s : Callers n) :
    s.run [] = s := rfl

@[simp] theorem run_cons
    (s : Callers n)
    (e : Event n)
    (events : List (Event n)) :
    s.run (e :: events) = (s.step e).run events := rfl

theorem run_append
    (s : Callers n)
    (first later : List (Event n)) :
    s.run (first ++ later) = (s.run first).run later :=
  List.foldl_append

@[simp] theorem become_stage_self
    (s : Callers n)
    (i : Fin n)
    (stage : Stage)
    (client : Client) :
    (s.become i stage client).stage i = stage :=
  Function.update_self ..

@[simp] theorem become_client
    (s : Callers n)
    (i : Fin n)
    (stage : Stage)
    (client : Client) :
    (s.become i stage client).client = client := rfl

theorem become_stage_of_ne
    {i j : Fin n}
    (hj : j ≠ i)
    (s : Callers n)
    (stage : Stage)
    (client : Client) :
    (s.become i stage client).stage j = s.stage j :=
  Function.update_of_ne hj _ _

@[simp] theorem become_become
    (s : Callers n)
    (i : Fin n)
    (stage stage' : Stage)
    (client client' : Client) :
    (s.become i stage client).become i stage' client' = s.become i stage' client' := by
  rw [become, become, Function.update_idem]
  rfl

/-- A caller that is where it was. -/
theorem become_away
    {s : Callers n}
    {i : Fin n}
    (hi : s.stage i = .away)
    (client : Client) :
    s.become i .away client = { s with client } := by
  rw [become, ← hi, Function.update_eq_self]

/-- What a conversation leaves of the client. -/
theorem talk_eq
    (k : Client)
    (t : Talk α) :
    k.talk t = ((t.run k.server).1, { k with server := (t.run k.server).2 }) := rfl

/-- What the callers do to the pool is what callers of a pool do, with connections that
have numbers of their own. -/
structure Shows (size : Nat) (s : Callers n) (l : Lending n ConnId) : Prop where
  pool : l.pool = s.client.pool
  activity : ∀ i, l.activity i = (s.stage i).activity
  balanced : l.Balanced size
  numbered : ∀ c ∈ l.opened, c < s.client.server.lines.length
  nodup : l.opened.Nodup

namespace Shows

variable {size : Nat} {s : Callers n} {l : Lending n ConnId} (h : Shows size s l)
include h

theorem activity_eq
    {i : Fin n}
    {stage : Stage}
    (hi : s.stage i = stage) :
    l.activity i = stage.activity := by
  rw [h.activity i, hi]

theorem users_eq :
    s.users = l.users := by
  rw [users, Lending.users]
  congr 1
  refine Finset.filter_congr fun i _ => ?_
  rw [h.activity i]

/-- A caller that is at another stage now, where the same happens to a caller of the
pool. -/
theorem become
    {i : Fin n}
    {stage : Stage}
    {client : Client}
    {l' : Lending n ConnId}
    (hpool : l'.pool = client.pool)
    (hactivity : l'.activity = Function.update l.activity i stage.activity)
    (hbalanced : l'.Balanced size)
    (hnumbered : ∀ c ∈ l'.opened, c < client.server.lines.length)
    (hnodup : l'.opened.Nodup) :
    Shows size (s.become i stage client) l' where
  pool := hpool
  activity j := by
    rw [hactivity]
    by_cases hj : j = i
    · subst hj
      rw [Function.update_self, become_stage_self]
    · rw [Function.update_of_ne hj, become_stage_of_ne hj, h.activity j]
  balanced := hbalanced
  numbered := hnumbered
  nodup := hnodup

theorem ask
    {i : Fin n}
    (hi : ¬ (s.stage i).activity.Uses)
    (request : Request α)
    (late : Bool) :
    Shows size (s.ask i request late) (l.ask i late).1 := by
  have hbalanced := h.balanced.ask i late
  have hi' : ¬ (l.activity i).Uses := by
    rw [h.activity i]
    exact hi
  rcases l.pool.request_cases with
    ⟨c, rest, -, hrequest⟩ | ⟨-, -, hrequest⟩ | ⟨-, -, hrequest⟩
  · rw [Lending.ask_of_idle hi' late hrequest] at hbalanced ⊢
    rw [h.pool] at hrequest
    rw [Callers.ask, hrequest]
    exact h.become (by rw [h.pool]; rfl) rfl hbalanced h.numbered h.nodup
  · rw [Lending.ask_of_slot hi' late hrequest] at hbalanced ⊢
    rw [h.pool] at hrequest
    rw [Callers.ask, hrequest]
    exact h.become (by rw [h.pool]; rfl) rfl hbalanced h.numbered h.nodup
  · rw [Lending.ask_of_full hi' late hrequest] at hbalanced ⊢
    rw [h.pool] at hrequest
    rw [Callers.ask, hrequest]
    cases late with
    | true => exact h.become h.pool rfl hbalanced h.numbered h.nodup
    | false => exact h.become h.pool rfl hbalanced h.numbered h.nodup

/-- A connection that is opened has a number that no other one had. -/
theorem connect
    {i : Fin n}
    {request : Request α}
    (hi : s.stage i = .opening request) :
    ∃ result, Shows size (s.connect i request) (l.endOpening i result).1 := by
  have hi' : l.activity i = .opening := h.activity_eq hi
  obtain ⟨hgrows, -, hnumber⟩ :=
    Talk.connection_cases s.client.endpoint s.client.config s.client.server
  rw [Callers.connect, talk_eq]
  rcases hrun : (Talk.connection s.client.endpoint s.client.config).run s.client.server with
    ⟨f | c, t⟩
  · rw [hrun] at hgrows
    have hbalanced := h.balanced.endOpening i (.error f.toStore)
    have hend : (l.endOpening i (.error f.toStore)).1 =
        l.become i .away (l.pool.checkin none) := by simp only [Lending.endOpening, hi']
    refine ⟨.error f.toStore, ?_⟩
    rw [hend] at hbalanced ⊢
    exact h.become (by rw [h.pool]; rfl) rfl hbalanced
      (fun d hd => Nat.lt_of_lt_of_le (h.numbered d hd) hgrows) h.nodup
  · rw [hrun] at hgrows
    obtain rfl : c = s.client.server.lines.length := hnumber c t hrun
    have hbalanced := h.balanced.endOpening i (.ok s.client.server.lines.length)
    have hend : (l.endOpening i (.ok s.client.server.lines.length)).1 =
        { l.become i (.holding s.client.server.lines.length) l.pool with
          opened := s.client.server.lines.length :: l.opened } := by
      simp only [Lending.endOpening, hi']
    have hlast : s.client.server.lines.length < t.lines.length :=
      Talk.lt_length_of_connection hrun
    refine ⟨.ok s.client.server.lines.length, ?_⟩
    rw [hend] at hbalanced ⊢
    refine h.become h.pool rfl hbalanced (fun d hd => ?_) (List.nodup_cons.2 ⟨?_, h.nodup⟩)
    · rcases List.mem_cons.1 hd with rfl | hd
      · exact hlast
      · exact Nat.lt_of_lt_of_le (h.numbered d hd) hgrows
    · exact fun hmem => Nat.lt_irrefl _ (h.numbered _ hmem)

theorem talk
    {i : Fin n}
    {request : Request α}
    {c : ConnId}
    (hi : s.stage i = .holding request c) :
    Shows size (s.talk i request c) l := by
  have hi' : l.activity i = .holding c := h.activity_eq hi
  have hsame : l.activity = Function.update l.activity i (.holding c) := by
    rw [← hi', Function.update_eq_self]
  exact h.become h.pool hsame h.balanced
    (fun d hd => Nat.lt_of_lt_of_le (h.numbered d hd) (request.grows c _)) h.nodup

theorem giveBack
    {i : Fin n}
    {request : Request α}
    {c : ConnId}
    {r : Except Fault α}
    (hi : s.stage i = .leaving request c r) :
    Shows size (s.become i .away (s.client.giveBack c r)) (l.giveBack i (lost r)) := by
  have hi' : l.activity i = .holding c := h.activity_eq hi
  have hbalanced := h.balanced.giveBack i (lost r)
  rw [giveBack_eq]
  cases hlost : lost r with
  | false =>
      have hback : l.giveBack i false = l.become i .away (l.pool.checkin (some c)) := by
        simp only [Lending.giveBack, hi']
      rw [hlost, hback] at hbalanced
      rw [hback]
      exact h.become (by rw [h.pool]; rfl) rfl hbalanced h.numbered h.nodup
  | true =>
      have hback : l.giveBack i true =
          { l.become i .away (l.pool.checkin none) with broken := c :: l.broken } := by
        simp only [Lending.giveBack, hi']
      rw [hlost, hback] at hbalanced
      rw [hback]
      exact h.become (by rw [h.pool]; rfl) rfl hbalanced h.numbered h.nodup

/-- **An event.**  What was broken stays so. -/
theorem step
    (e : Event n) :
    ∃ l', Shows size (s.step e) l' ∧ l.broken ⊆ l'.broken := by
  have hsame : ∃ l', Shows size s l' ∧ l.broken ⊆ l'.broken := ⟨l, h, List.Subset.refl _⟩
  cases e with
  | begin i request =>
      rw [Callers.step]
      split
      · next hi _ =>
          exact ⟨_, h.ask (by rw [hi]; exact id) request false,
            l.broken_subset_step (.ask i false)⟩
      · exact hsame
  | look i late =>
      rw [Callers.step]
      split
      · next hi =>
          exact ⟨_, h.ask (by rw [hi]; exact id) _ late, l.broken_subset_step (.ask i late)⟩
      · exact hsame
  | connect i =>
      rw [Callers.step]
      split
      · next hi =>
          obtain ⟨result, hconnect⟩ := h.connect hi
          exact ⟨_, hconnect, l.broken_subset_step (.opened i result)⟩
      · exact hsame
  | talk i =>
      rw [Callers.step]
      split
      · next hi => exact ⟨l, h.talk hi, List.Subset.refl _⟩
      · exact hsame
  | giveBack i =>
      rw [Callers.step]
      split
      · next hi => exact ⟨_, h.giveBack hi, l.broken_subset_step (.giveBack i _)⟩
      · exact hsame
  | others change grows =>
      exact ⟨l, ⟨h.pool, h.activity, h.balanced,
        fun c hc => Nat.lt_of_lt_of_le (h.numbered c hc) (grows _), h.nodup⟩,
        List.Subset.refl _⟩

/-- **A run.** -/
theorem run
    (events : List (Event n)) :
    ∃ l', Shows size (s.run events) l' ∧ l.broken ⊆ l'.broken := by
  induction events generalizing s l with
  | nil => exact ⟨l, h, List.Subset.refl _⟩
  | cons e events ih =>
      obtain ⟨l₁, h₁, hbroken₁⟩ := h.step e
      obtain ⟨l₂, h₂, hbroken₂⟩ := ih h₁
      exact ⟨l₂, h₂, List.Subset.trans hbroken₁ hbroken₂⟩

/-- Whoever has a slot is counted. -/
theorem inUse_pos
    {i : Fin n}
    (hi : (s.stage i).activity.Uses) :
    0 < s.client.pool.inUse := by
  rw [← h.pool]
  exact h.balanced.inUse_pos (i := i) (by rwa [h.activity i])

end Shows

/-- A connection that was not lost is the first that is lent. -/
theorem step_giveBack_of_not_lost
    {s : Callers n}
    {i : Fin n}
    {request : Request α}
    {c : ConnId}
    {r : Except Fault α}
    (hi : s.stage i = .leaving request c r)
    (hlost : lost r = false) :
    s.step (.giveBack i) =
      s.become i .away { s.client with pool := s.client.pool.checkin (some c) } := by
  rw [step, hi]
  simp only
  rw [giveBack_eq, hlost]
  rfl

/-- It is lent to a command that begins then, if the deadline of the command can be counted. -/
theorem lent_next
    {s : Callers n}
    {i : Fin n}
    {request : Request α}
    {c : ConnId}
    {r : Except Fault α}
    (hi : s.stage i = .leaving request c r)
    (hlost : lost r = false)
    (hd : s.client.deadline? ≠ none)
    {β : Type}
    (other : Request β) :
    ((s.step (.giveBack i)).step (.begin i other)).stage i = .holding other c := by
  obtain ⟨deadline, hd⟩ := Option.ne_none_iff_exists'.1 hd
  rw [step_giveBack_of_not_lost hi hlost, step, become_stage_self]
  -- The deadline depends on the clock and the settings alone.
  have hd' : (s.become i .away
      { s.client with pool := s.client.pool.checkin (some c) }).client.deadline? =
        some deadline := hd
  rw [hd']
  exact become_stage_self _ _ _ _

/-- A connection that serves a later command was not lost. -/
theorem not_lost_of_lent_again
    {size : Nat}
    {s : Callers n}
    {l : Lending n ConnId}
    (h : Shows size s l)
    {i : Fin n}
    {request : Request α}
    {c : ConnId}
    {r : Except Fault α}
    (hi : s.stage i = .leaving request c r)
    {later : List (Event n)}
    {j : Fin n}
    {β : Type}
    {other : Request β}
    (hj : ((s.step (.giveBack i)).run later).stage j = .holding other c) :
    lost r = false := by
  by_contra hlost
  have hlost : lost r = true := Bool.eq_true_of_not_eq_false hlost
  have hback : s.step (.giveBack i) = s.become i .away (s.client.giveBack c r) := by
    rw [step, hi]
  rw [hback] at hj
  -- The pool counts the connection among the broken ones, and lends none of them.
  have hbroken : c ∈ (l.giveBack i (lost r)).broken := by
    have hi' : l.activity i = .holding c := h.activity_eq hi
    simp only [Lending.giveBack, hlost, hi']
    exact List.mem_cons_self
  obtain ⟨l', h', hsubset⟩ := (h.giveBack hi).run later
  have hj' : l'.activity j = .holding c := h'.activity_eq hj
  exact (h'.balanced.separate h'.nodup).2.2.2 j c hj' (hsubset hbroken)

/-- The pool after a slot came back. -/
theorem inUse_checkin
    {pool : Pool ConnId}
    (hpos : 0 < pool.inUse)
    (conn : Option ConnId) :
    (pool.checkin conn).inUse + 1 = pool.inUse :=
  Nat.sub_add_cancel hpos

/-- **A command that ends gives back the slot that it had, and no other one.** -/
theorem slot_of_ended
    {size : Nat}
    {s : Callers n}
    {l : Lending n ConnId}
    (h : Shows size s l)
    {e : Event n}
    {x : Ended n}
    (hx : s.ended e = some x) :
    (s.step e).stage x.caller = .away ∧
      (s.step e).client.pool.inUse + (if (s.stage x.caller).activity.Uses then 1 else 0) =
        s.client.pool.inUse := by
  cases e with
  | look i late =>
      rw [ended] at hx
      split at hx
      · next request pool hi hfull =>
          cases late with
          | false => exact absurd hx (by simp)
          | true =>
              obtain rfl := Option.some.inj hx
              have hpool : pool = s.client.pool := by
                rcases s.client.pool.request_cases with
                  ⟨c, rest, -, hrequest⟩ | ⟨-, -, hrequest⟩ | ⟨-, -, hrequest⟩
                · simp [hrequest] at hfull
                · simp [hrequest] at hfull
                · exact (Prod.mk.inj (hfull.symm.trans hrequest)).2
              simp only [step, hi, ask, hfull, if_true]
              refine ⟨become_stage_self _ _ _ _, ?_⟩
              rw [hpool]
              rfl
      · exact absurd hx (by simp)
  | connect i =>
      rw [ended] at hx
      split at hx
      · next request hi =>
          have hpos : 0 < s.client.pool.inUse := h.inUse_pos (i := i) (by rw [hi]; trivial)
          simp only [step, hi, connect]
          rw [talk_eq] at hx ⊢
          rcases hrun : (Talk.connection s.client.endpoint s.client.config).run s.client.server
            with ⟨f | c, t⟩
          · rw [hrun] at hx
            obtain rfl := Option.some.inj hx
            refine ⟨become_stage_self _ _ _ _, ?_⟩
            rw [if_pos (by rw [hi]; trivial)]
            exact inUse_checkin hpos none
          · rw [hrun] at hx
            exact absurd hx (by simp)
      · exact absurd hx (by simp)
  | giveBack i =>
      rw [ended] at hx
      split at hx
      · next request c r hi =>
          obtain rfl := Option.some.inj hx
          have hpos : 0 < s.client.pool.inUse := h.inUse_pos (i := i) (by rw [hi]; trivial)
          simp only [step, hi]
          refine ⟨become_stage_self _ _ _ _, ?_⟩
          rw [if_pos (by trivial)]
          exact inUse_checkin hpos _
      · exact absurd hx (by simp)
  | begin i request =>
      rw [ended] at hx
      split at hx
      · next hi hd =>
          obtain rfl := Option.some.inj hx
          have hstep : s.step (.begin i request) = s := by simp only [step, hi, hd]
          rw [hstep, if_neg (by rw [hi]; exact id)]
          exact ⟨hi, rfl⟩
      · exact absurd hx (by simp)
  | talk i => exact absurd hx (by simp [ended])
  | others change grows => exact absurd hx (by simp [ended])

/-- A caller that has no command carried out any more is one whose command has ended. -/
theorem ended_of_away
    {s : Callers n}
    {e : Event n}
    {i : Fin n}
    (hbefore : s.stage i ≠ .away)
    (hafter : (s.step e).stage i = .away) :
    ∃ x, s.ended e = some x ∧ x.caller = i := by
  -- Only what has become of its own command can bring a caller there.
  have hown : ∀ {j stage client}, (s.become j stage client).stage i = .away →
      i = j ∧ stage = .away := by
    intro j stage client h
    by_cases hij : i = j
    · subst hij
      rw [become_stage_self] at h
      exact ⟨rfl, h⟩
    · rw [become_stage_of_ne hij] at h
      exact absurd h hbefore
  cases e with
  | begin j request =>
      rw [step] at hafter
      split at hafter
      · next hj =>
          rw [ask] at hafter
          split at hafter
          · exact absurd (hown hafter).2 (by simp)
          · exact absurd (hown hafter).2 (by simp)
          · exact absurd (hown hafter).2 (by simp)
      · exact absurd hafter hbefore
  | look j late =>
      rw [step] at hafter
      split at hafter
      · next request hj =>
          rw [ask] at hafter
          split at hafter
          · exact absurd (hown hafter).2 (by simp)
          · exact absurd (hown hafter).2 (by simp)
          · next pool hrequest =>
              obtain ⟨rfl, hstage⟩ := hown hafter
              cases late with
              | false => exact absurd hstage (by simp)
              | true =>
                  refine ⟨⟨i, request, .error pool.exhausted⟩, ?_, rfl⟩
                  simp only [ended, hj, hrequest, if_true]
      · exact absurd hafter hbefore
  | connect j =>
      rw [step] at hafter
      split at hafter
      · next request hj =>
          rw [connect] at hafter
          split at hafter
          · exact absurd (hown hafter).2 (by simp)
          · next f client hrun =>
              obtain ⟨rfl, -⟩ := hown hafter
              refine ⟨⟨i, request, .error f.toStore⟩, ?_, rfl⟩
              simp only [ended, hj, hrun]
      · exact absurd hafter hbefore
  | talk j =>
      rw [step] at hafter
      split at hafter
      · exact absurd (hown hafter).2 (by simp)
      · exact absurd hafter hbefore
  | giveBack j =>
      rw [step] at hafter
      split at hafter
      · next request c r hj =>
          obtain ⟨rfl, -⟩ := hown hafter
          refine ⟨⟨i, request, r.mapError Fault.toStore⟩, ?_, rfl⟩
          simp only [ended, hj]
      · exact absurd hafter hbefore
  | others change grows => exact absurd hafter hbefore

/-- Apart from a conversation, a caller sends only what sets up its connection. -/
theorem sent_step
    (s : Callers n)
    {e : Event n}
    (htalk : ∀ i, e ≠ .talk i)
    (hothers : ∀ change grows, e ≠ .others change grows) :
    ∃ sent, (s.step e).client.server.sent = s.client.server.sent ++ sent ∧
      ∀ p ∈ sent, Talk.SetsUp p.2 := by
  have hnone : ∀ t : Callers n, t.client.server.sent = s.client.server.sent →
      ∃ sent, t.client.server.sent = s.client.server.sent ++ sent ∧
        ∀ p ∈ sent, Talk.SetsUp p.2 := fun t ht =>
    ⟨[], ht.trans (List.append_nil _).symm, fun p hp => absurd hp List.not_mem_nil⟩
  have hask : ∀ {α : Type} (i : Fin n) (request : Request α) (late : Bool),
      (s.ask i request late).client.server.sent = s.client.server.sent := by
    intro α i request late
    rw [ask]
    split <;> rfl
  cases e with
  | begin i request =>
      rw [step]
      split
      · exact hnone _ (hask i request false)
      · exact hnone _ rfl
  | look i late =>
      rw [step]
      split
      · exact hnone _ (hask i _ late)
      · exact hnone _ rfl
  | connect i =>
      rw [step]
      split
      · obtain ⟨-, hsent, -⟩ :=
          Talk.connection_cases s.client.endpoint s.client.config s.client.server
        rw [connect, talk_eq]
        rcases hrun : (Talk.connection s.client.endpoint s.client.config).run s.client.server
          with ⟨f | c, t⟩
        · rw [hrun] at hsent
          exact hsent
        · rw [hrun] at hsent
          exact hsent
      · exact hnone _ rfl
  | talk i => exact absurd rfl (htalk i)
  | giveBack i =>
      rw [step]
      split
      · exact hnone _ rfl
      · exact hnone _ rfl
  | others change grows => exact absurd rfl (hothers change grows)

/-- **A conversation sends each of its messages once, and none after a failure.** -/
theorem sent_talk
    {s : Callers n}
    {i : Fin n}
    {request : Request α}
    {c : ConnId}
    (hi : s.stage i = .holding request c) :
    ∃ (r : Except Fault α) (log : List (List Words × Bool)) (taken : List (List Words)),
      (s.step (.talk i)).stage i = .leaving request c r ∧
      request.messages (log.map Prod.fst) ∧
      Talk.Held c s.client.server log (s.step (.talk i)).client.server ∧
      Talk.Untroubled log r.isOk ∧
      List.Forall₂ (· <+: ·) taken (log.map Prod.fst) ∧
      (s.step (.talk i)).client.server.sent =
        s.client.server.sent ++ taken.flatten.map fun words => (c, words) := by
  have hstep : s.step (.talk i) = s.talk i request c := by rw [step, hi]
  obtain ⟨log, hmessages, hheld, huntroubled⟩ := request.brief c s.client.server
  obtain ⟨taken, hbegins, hsent⟩ := hheld.sent
  refine ⟨((request.talk c).run s.client.server).1, log, taken, ?_, hmessages, ?_, huntroubled,
    hbegins, ?_⟩
  · rw [hstep]
    exact become_stage_self _ _ _ _
  · rw [hstep]
    exact hheld
  · rw [hstep]
    exact hsent

/-- The acts of a command that nobody disturbs; those for which there is no occasion are
passed over. -/
def alone (i : Fin n) (request : Request α) : List (Event n) :=
  [.begin i request, .look i true, .connect i, .talk i, .giveBack i]

/-- **With nothing between its acts, a command is carried out as a whole.** -/
theorem undisturbed
    {s : Callers n}
    {i : Fin n}
    (hi : s.stage i = .away)
    (request : Request α) :
    let whole := s.client.withConn request.talk
    s.run (alone i request) = { s with client := whole.2 } ∧
      s.answers (alone i request) = [⟨i, request, whole.1⟩] := by
  intro whole
  cases hd : s.client.deadline? with
  | none =>
      simp only [whole, alone, run_cons, run_nil, answers, step, ended, hi, hd, Client.withConn,
        Client.checkout]
      exact ⟨trivial, rfl⟩
  | some deadline =>
      have hbegins : s.ended (.begin i request) = none := by simp only [ended, hi, hd]
      simp only [whole, alone, run_cons, run_nil, answers, hbegins, step, hi, hd, Client.withConn,
        Client.checkout, Client.serve, talk_eq]
      rcases s.client.pool.request_cases with
        ⟨c, rest, -, hrequest⟩ | ⟨-, -, hrequest⟩ | ⟨-, -, hrequest⟩
      · simp only [ask, hrequest, become_stage_self, become_client, ended, talk, talk_eq,
          become_become, become_away hi]
        exact ⟨trivial, rfl⟩
      · simp only [ask, hrequest, become_stage_self, become_client, ended, connect, talk_eq]
        rcases (Talk.connection s.client.endpoint s.client.config).run s.client.server with
          ⟨f | c, t⟩
        · simp only [become_become, become_away hi, hi]
          exact ⟨trivial, rfl⟩
        · simp only [become_stage_self, become_client, talk, talk_eq, become_become,
            become_away hi]
          exact ⟨trivial, rfl⟩
      · simp only [ask, hrequest, become_stage_self, become_client, ended, if_true,
          Bool.false_eq_true, if_false, become_become, become_away hi, hi]
        exact ⟨trivial, rfl⟩

/-- A client that is opened asks for a sign of life again and again; each time that is a
command which nobody disturbs. -/
theorem run_knock
    {s : Callers n}
    {i : Fin n}
    (hi : s.stage i = .away)
    (more : Nat) :
    ∃ events, s.run events = { s with client := (s.client.knock more).2.2 } := by
  have hping : ∀ k : Client, k.ping = k.withConn Request.ping.talk := fun _ => rfl
  have hfirst := (undisturbed hi Request.ping).1
  rw [← hping] at hfirst
  induction more generalizing s with
  | zero => exact ⟨_, hfirst⟩
  | succ more ih =>
      rcases hanswer : s.client.ping with ⟨e | _, k⟩
      · rw [Client.knock_of_error hanswer]
        rw [hanswer] at hfirst
        split
        · exact ⟨_, hfirst⟩
        · have hi' : ({ s with client := k.pause } : Callers n).stage i = .away := hi
          obtain ⟨events, hevents⟩ := ih hi' (undisturbed hi' Request.ping).1
          let pause : Event n := .others (·.sleep k.config.connTimeout) fun _ => Nat.le_refl _
          refine ⟨alone i Request.ping ++ pause :: events, ?_⟩
          rw [run_append, hfirst]
          exact hevents
      · rw [Client.knock, hanswer]
        rw [hanswer] at hfirst
        exact ⟨_, hfirst⟩

/-- **A client that was opened** is one that has had commands carried out. -/
theorem run_connect
    {config : StoreConfig}
    {endpoint : Endpoint}
    {server : Server}
    {failures : List (Nat × StoreError)}
    {k : Client}
    (hurl : Endpoint.ofUrl config.url = .ok endpoint)
    (hconnect : Client.connect config server = ⟨failures, .ok k⟩)
    (hn : 0 < n) :
    ∃ events, (start n (.idle config endpoint server)).run events = start n k := by
  have haway : (start n (.idle config endpoint server)).stage ⟨0, hn⟩ = .away := rfl
  obtain ⟨events, hevents⟩ := run_knock haway (config.connAttempts.toNat - 1)
  refine ⟨events, hevents.trans ?_⟩
  have hclient : ((Client.idle config endpoint server).knock
      (config.connAttempts.toNat - 1)).2.2 = k := by
    rw [Client.connect, hurl] at hconnect
    simp only at hconnect
    split at hconnect
    · next hknock =>
        rw [hknock]
        exact Except.ok.inj (congrArg Client.Connecting.outcome hconnect)
    · exact absurd (congrArg Client.Connecting.outcome hconnect) (by simp)
  rw [← hclient]
  rfl

theorem shows_start
    (n : Nat)
    (config : StoreConfig)
    (endpoint : Endpoint)
    (server : Server) :
    Shows config.poolSize (start n (Client.idle config endpoint server))
      (Lending.start n config.poolSize) where
  pool := rfl
  activity _ := rfl
  balanced := Lending.balanced_start n config.poolSize
  numbered _ hc := absurd hc List.not_mem_nil
  nodup := List.nodup_nil

end Callers

namespace Client

theorem withConn_of_checkout
    {α : Type}
    {k l : Client}
    {c : ConnId}
    (h : k.checkout = (.ok c, l))
    (t : ConnId → Talk α) :
    k.withConn t =
      (((t c).run l.server).1.mapError Fault.toStore,
        { l with server := ((t c).run l.server).2 }.giveBack c ((t c).run l.server).1) := by
  rw [withConn, h]
  rfl

/-- A call whose deadline lies beyond the clock is abandoned before it looks at the pool. -/
theorem checkout_eq
    (k : Client) :
    k.checkout =
      if k.config.connTimeout.Beyond k.server.clock then (.error .deadlineOverflow, k)
      else k.serve := by
  rw [checkout, deadline?]
  by_cases hbeyond : k.config.connTimeout.Beyond k.server.clock
  · rw [deadline?_of_beyond hbeyond, if_pos hbeyond]
  · rw [deadline?_of_not_beyond hbeyond, if_neg hbeyond]

theorem toStore_ne_overflow
    (f : Fault) :
    f.toStore ≠ .deadlineOverflow := by
  cases f with
  | lost reason => exact StoreError.noConfusion
  | refused reason => exact StoreError.noConfusion

/-- A caller whose deadline is fixed gets a connection with a slot, or neither.  Only the
pool and the server change meanwhile, and what is sent sets up a connection. -/
theorem serve_cases
    (k : Client) :
    ∃ (server : Server) (pool : Pool ConnId),
      (∃ setup, server.sent = k.server.sent ++ setup ∧ ∀ e ∈ setup, Talk.SetsUp e.2) ∧
        ((∃ c, k.serve = (.ok c, { k with server, pool }) ∧
            pool.inUse = k.pool.inUse + 1) ∨
          ∃ e, e ≠ .deadlineOverflow ∧ k.serve = (.error e, { k with server, pool }) ∧
            pool.inUse = k.pool.inUse) := by
  have hsilent : ∃ setup, k.server.sent = k.server.sent ++ setup ∧
      ∀ e ∈ setup, Talk.SetsUp e.2 :=
    ⟨[], (List.append_nil _).symm, fun e he => absurd he List.not_mem_nil⟩
  simp only [serve, Callers.talk_eq]
  rcases k.pool.request_cases with
    ⟨c, rest, -, hrequest⟩ | ⟨-, -, hrequest⟩ | ⟨-, -, hrequest⟩
  · simp only [hrequest]
    exact ⟨k.server, _, hsilent, Or.inl ⟨c, rfl, rfl⟩⟩
  · obtain ⟨-, hsetup, -⟩ := Talk.connection_cases k.endpoint k.config k.server
    simp only [hrequest]
    rcases hrun : (Talk.connection k.endpoint k.config).run k.server with ⟨f | c, server⟩
    · rw [hrun] at hsetup
      exact ⟨server, _, hsetup,
        Or.inr ⟨_, toStore_ne_overflow f, rfl, Nat.add_sub_cancel k.pool.inUse 1⟩⟩
    · rw [hrun] at hsetup
      exact ⟨server, _, hsetup, Or.inl ⟨c, rfl, rfl⟩⟩
  · simp only [hrequest]
    exact ⟨k.server, k.pool, hsilent, Or.inr ⟨_, StoreError.noConfusion, rfl, rfl⟩⟩

/-- Taking a connection from the pool sends at most what sets it up. -/
theorem sent_checkout
    (k : Client) :
    ∃ setup, k.checkout.2.server.sent = k.server.sent ++ setup ∧
      ∀ e ∈ setup, Talk.SetsUp e.2 := by
  rw [checkout_eq]
  split
  · exact ⟨[], (List.append_nil _).symm, fun e he => absurd he List.not_mem_nil⟩
  · obtain ⟨server, pool, hsent, ⟨c, hserve, -⟩ | ⟨e, -, hserve, -⟩⟩ := k.serve_cases
    · rw [hserve]
      exact hsent
    · rw [hserve]
      exact hsent

/-- A command as a whole leaves as many slots in use as it found, and the settings. -/
theorem withConn_keeps
    {α : Type}
    (k : Client)
    (t : ConnId → Talk α) :
    (k.withConn t).2.pool.inUse = k.pool.inUse ∧ (k.withConn t).2.config = k.config := by
  rw [withConn, checkout_eq]
  by_cases hbeyond : k.config.connTimeout.Beyond k.server.clock
  · rw [if_pos hbeyond]
    exact ⟨rfl, rfl⟩
  · rw [if_neg hbeyond]
    obtain ⟨server, pool, -, ⟨c, hserve, hinUse⟩ | ⟨e, -, hserve, hinUse⟩⟩ := k.serve_cases
    · rw [hserve]
      exact ⟨Nat.sub_eq_of_eq_add hinUse, rfl⟩
    · rw [hserve]
      exact ⟨hinUse, rfl⟩

/-- So does every call of the store. -/
theorem inUse_ask
    (k : Client)
    (call : Store.Call) :
    ((call.ask : StoreM Client call.Result).answer k).2.pool.inUse = k.pool.inUse := by
  cases hrequest : call.request? with
  | none => rw [call.pool_of_no_request hrequest]
  | some request => rw [call.ask_of_request hrequest, (k.withConn_keeps request.talk).1]

end Client

open Callers in
/-- **A command gives back its slot once, whatever comes of it.**  Callers have commands
carried out by a client of a server, with their acts in any order, and the server and
those with connections of their own do anything in between; `s` is the state that was
reached.

The pool counts as in use exactly the callers that have a slot, so that none is in use
while nobody has a command carried out.  A command that ends, because the pool was full
for too long, because its connection could not be opened, or after its conversation, has
given back the slot that it had and no other one, and there is no other way for it to be
over; a command whose deadline cannot be counted ends at once and had none.  When a
conversation is over, its connection will serve a later command exactly if the conversation
did not lose it: then it is the first that is lent, to the next command that can begin.  A
conversation sends each of its messages at most once and in order, and none after one that
was not answered as it should be; whatever else a caller does sends only what sets up its
connection.

With nothing between its acts, a command is carried out as a whole, as calls of the store
are, except for those that need no command; each leaves as many slots in use as it found.
A client that was opened is in a state that is reached. -/
theorem slot_given_back_once
    (n : Nat)
    (config : StoreConfig)
    (endpoint : Endpoint)
    (server : Server)
    (events : List (Event n)) :
    let s := (start n (.idle config endpoint server)).run events
    (s.client.pool.inUse = s.users ∧
      s.client.pool.openCount ≤ max config.poolSize 1 ∧
      ((∀ i, ¬ (s.stage i).activity.Uses) → s.client.pool.inUse = 0)) ∧
    (∀ e x, s.ended e = some x →
      (s.step e).stage x.caller = .away ∧
        (s.step e).client.pool.inUse + (if (s.stage x.caller).activity.Uses then 1 else 0) =
          s.client.pool.inUse) ∧
    (∀ e i, s.stage i ≠ .away → (s.step e).stage i = .away →
      ∃ x, s.ended e = some x ∧ x.caller = i) ∧
    (∀ (i : Fin n) (α : Type) (request : Request α) (c : ConnId) (r : Except Fault α),
      s.stage i = .leaving request c r →
        let t := s.step (.giveBack i)
        ((∃ (later : List (Event n)) (j : Fin n) (β : Type) (other : Request β),
          (t.run later).stage j = .holding other c) → ∀ reason, r ≠ .error (.lost reason)) ∧
        ((∀ reason, r ≠ .error (.lost reason)) →
          t.client.pool.idle.head? = some c ∧
            (t.client.deadline? ≠ none → ∀ (β : Type) (other : Request β),
              (t.step (.begin i other)).stage i = .holding other c))) ∧
    (∀ (i : Fin n) (α : Type) (request : Request α) (c : ConnId),
      s.stage i = .holding request c →
        ∃ (r : Except Fault α) (log : List (List Words × Bool)) (taken : List (List Words)),
          (s.step (.talk i)).stage i = .leaving request c r ∧
          request.messages (log.map Prod.fst) ∧
          Talk.Held c s.client.server log (s.step (.talk i)).client.server ∧
          Talk.Untroubled log r.isOk ∧
          List.Forall₂ (· <+: ·) taken (log.map Prod.fst) ∧
          (s.step (.talk i)).client.server.sent =
            s.client.server.sent ++ taken.flatten.map fun words => (c, words)) ∧
    (∀ e, (∀ i, e ≠ .talk i) → (∀ change grows, e ≠ .others change grows) →
      ∃ sent, (s.step e).client.server.sent = s.client.server.sent ++ sent ∧
        ∀ p ∈ sent, Talk.SetsUp p.2) ∧
    (∀ (i : Fin n) (α : Type) (request : Request α), s.stage i = .away →
      let whole := s.client.withConn request.talk
      s.run (alone i request) = { s with client := whole.2 } ∧
        s.answers (alone i request) = [⟨i, request, whole.1⟩]) ∧
    (∀ (failures : List (Nat × StoreError)) (k : Client),
      Endpoint.ofUrl config.url = .ok endpoint →
      Client.connect config server = ⟨failures, .ok k⟩ → 0 < n →
        ∃ opening, (start n (.idle config endpoint server)).run opening = start n k) ∧
    ∀ (k : Client) (call : Store.Call),
      (∀ request, call.request? = some request →
        (call.ask : StoreM Client call.Result).answer k = k.withConn request.talk) ∧
        ((call.ask : StoreM Client call.Result).answer k).2.pool.inUse = k.pool.inUse := by
  intro s
  obtain ⟨l, h, -⟩ := (shows_start n config endpoint server).run events
  have husers : s.client.pool.inUse = s.users := by
    rw [← h.pool, h.users_eq]
    exact h.balanced.users
  refine ⟨⟨husers, ?_, fun hnone => ?_⟩, fun e x hx => slot_of_ended h hx,
    fun e i hbefore hafter => ended_of_away hbefore hafter,
    fun i α request c r hi => ?_, fun i α request c hi => sent_talk hi,
    fun e htalk hothers => sent_step s htalk hothers, fun i α request hi => undisturbed hi request,
    fun failures k hurl hconnect hn => run_connect hurl hconnect hn,
    fun k call => ⟨fun request hrequest => call.ask_of_request hrequest k, k.inUse_ask call⟩⟩
  · rw [← h.pool, ← h.balanced.maxSize]
    exact h.balanced.room
  · rw [husers, users, Finset.card_eq_zero, Finset.filter_eq_empty_iff]
    exact fun i _ => hnone i
  · rw [← lost_eq_false_iff]
    refine ⟨?_, fun hlost => ?_⟩
    · rintro ⟨later, j, β, other, hj⟩
      exact not_lost_of_lent_again h hi hj
    · rw [step_giveBack_of_not_lost hi hlost]
      refine ⟨rfl, fun hd β other => ?_⟩
      rw [← step_giveBack_of_not_lost hi hlost]
      exact lent_next hi hlost hd other

end Remote
end Courier
