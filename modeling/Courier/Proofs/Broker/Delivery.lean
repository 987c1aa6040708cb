import Courier.Broker.Basic
import Courier.Proofs.Store.Exchange

/-!
# What is published reaches the consumer

The copies of a payload stand in the inbox of every live subscriber that listens
to its channel.  The forwarder of a subscription takes them one by one, and the
consumer reads their messages in the same order: what is in the buffer, what the
forwarder holds and what is in the inbox is the same before and after each step.

**Results.**
* `Subscription.outstanding`: the messages that the consumer has still to read.
* `Subscription.Steady.step`, `Subscription.Steady.steps`: what the forwarder keeps
  and where it comes to rest.
* `Subscription.Steady.receiveUpTo`: what the consumer reads.
* `Subscription.Steady.received_eq`: everything outstanding is read, in order.
-/

namespace Courier

namespace Subscription

theorem poll_run
    {σ : Type}
    [Store σ]
    (s : Subscription)
    (now : Calendar.Timestamp)
    (m : σ) :
    (s.poll now).run m =
      match (Store.nextMessage s.connection .zero : StoreM σ (Option RawMessage)).answer m with
      | (.ok (some raw), t) => ({ s with held := some (decode raw now) }, t)
      | (.ok none, t) => (s, t)
      | (.error _, t) =>
          ({ s with held := none, stopped := true }, Store.release s.connection t) := by
  simp only [poll, StoreM.answer, ExceptT.run, StateT.run, bind, StateT.bind]
  rcases (Store.nextMessage s.connection .zero : StoreM σ (Option RawMessage)) m with ⟨_ | _ | _, t⟩
  · rfl
  · rfl
  · rfl

/-- The forwarder removes targets: only what its slot listens to changes. -/
theorem serve_remove_run
    (s : Subscription)
    (targets : List String)
    (m : Memory) :
    ∃ x, (s.serve (.remove targets)).run m =
        ({ s with replies := s.replies ++ [.ok ()] }, { m with exchange := x }) ∧
      x.inbox s.connection = m.exchange.inbox s.connection := by
  cases hkind : s.kind with
  | channels =>
      refine ⟨m.exchange.unsubscribe s.connection targets, ?_, ?_⟩
      · rw [serve, dropTargets, hkind]
        rfl
      · exact Exchange.inbox_update _ _ _ _ (fun _ => rfl) fun _ => rfl
  | patterns =>
      refine ⟨m.exchange.punsubscribe s.connection targets, ?_, ?_⟩
      · rw [serve, dropTargets, hkind]
        rfl
      · exact Exchange.inbox_update _ _ _ _ (fun _ => rfl) fun _ => rfl

/-- The messages that the consumer has still to read: those in the buffer, the one
that waits for room, and those that are still payloads in the inbox. -/
def outstanding (s : Subscription) (m : Memory) (now : Calendar.Timestamp) : List Message :=
  s.buffer ++ s.held.toList ++ (m.exchange.inbox s.connection).map fun raw => decode raw now

/-- The forwarder is not asked to stop, and has not stopped before its time. -/
structure Steady (s : Subscription) (m : Memory) : Prop where
  unclosed : Request.close ∉ s.requests
  drained : s.stopped = true → s.held = none ∧ m.exchange.inbox s.connection = []

/-- The forwarder has no message to forward, or no room for it. -/
def AtRest (s : Subscription) (m : Memory) : Prop :=
  (s.held = none ∧ m.exchange.inbox s.connection = []) ∨
    (s.held.isSome = true ∧ capacity ≤ s.buffer.length)

/-- A bound on the steps that the forwarder has still to make. -/
def pending (s : Subscription) (m : Memory) : Nat :=
  2 * (m.exchange.inbox s.connection).length + s.held.toList.length + s.requests.length

/-- What one step of the forwarder keeps, and that it gets on unless it is at rest. -/
structure Forwards (s : Subscription) (m : Memory) (now : Calendar.Timestamp)
    (t : Subscription) (n : Memory) : Prop where
  steady : t.Steady n
  outstanding_eq : t.outstanding n now = s.outstanding m now
  gets_on : t.AtRest n ∨ (¬ s.AtRest m ∧ t.pending n < s.pending m)

/-- A request is served before anything else, and no message is lost by it. -/
theorem Steady.serveOr
    {s : Subscription}
    {m : Memory}
    {now : Calendar.Timestamp}
    {idle : StateM Memory Subscription}
    (h : s.Steady m)
    (hrunning : s.stopped = false)
    (hidle : Forwards s m now (idle.run m).1 (idle.run m).2) :
    Forwards s m now ((s.serveOr idle).run m).1 ((s.serveOr idle).run m).2 := by
  cases hrequests : s.requests with
  | nil =>
      rw [Subscription.serveOr, hrequests]
      exact hidle
  | cons r rest =>
      have hunclosed := h.unclosed
      rw [hrequests, List.mem_cons, not_or] at hunclosed
      obtain ⟨hr, hrest⟩ := hunclosed
      rw [Subscription.serveOr, hrequests]
      cases r with
      | close => exact absurd rfl hr
      | remove targets =>
          obtain ⟨x, hserve, hinbox⟩ := serve_remove_run { s with requests := rest } targets m
          simp only at hserve hinbox ⊢
          rw [hserve]
          refine ⟨⟨hrest, ?_⟩, ?_, ?_⟩
          · intro hstopped
            exact absurd (hrunning.symm.trans hstopped) (by simp)
          · rw [outstanding, outstanding, hinbox]
          · by_cases hidle : s.AtRest m
            · left
              rw [AtRest, hinbox]
              exact hidle
            · right
              refine ⟨hidle, ?_⟩
              simp only [pending, hinbox, hrequests, List.length_cons]
              omega

/-- The forwarder takes a payload, finds none, or stops at the end of its connection. -/
theorem Steady.poll
    {s : Subscription}
    {m : Memory}
    (h : s.Steady m)
    (hrunning : s.stopped = false)
    (hheld : s.held = none)
    (now : Calendar.Timestamp) :
    Forwards s m now ((s.poll now).run m).1 ((s.poll now).run m).2 := by
  have hcall : (Store.nextMessage s.connection .zero :
      StoreM Memory (Option RawMessage)).answer m = m.nextMessage s.connection .zero := rfl
  rw [poll_run, hcall, Memory.nextMessage]
  cases hinbox : m.exchange.inbox s.connection with
  | cons raw rest =>
      obtain ⟨hnext, hrest⟩ := Exchange.nextMessage_of_cons hinbox
      rw [hnext]
      show Forwards s m now { s with held := some (decode raw now) }
        { m with exchange :=
            m.exchange.update s.connection fun slot => { slot with inbox := rest } }
      refine ⟨⟨h.unclosed, ?_⟩, ?_, Or.inr ⟨?_, ?_⟩⟩
      · intro hstopped
        exact absurd (hrunning.symm.trans hstopped) (by simp)
      · simp [outstanding, hheld, hinbox, hrest]
      · rintro (⟨_, hnil⟩ | ⟨hsome, _⟩)
        · rw [hinbox] at hnil
          exact absurd hnil (List.cons_ne_nil _ _)
        · rw [hheld] at hsome
          exact absurd hsome (by simp)
      · simp only [pending, hheld, hinbox, hrest, Option.toList_some, Option.toList_none,
          List.length_cons, List.length_nil]
        omega
  | nil =>
      rcases Exchange.nextMessage_of_nil hinbox with hnext | hnext
      · rw [hnext]
        exact ⟨h, rfl, Or.inl (Or.inl ⟨hheld, hinbox⟩)⟩
      · rw [hnext]
        have hreleased : (m.exchange.release s.connection).inbox s.connection = [] := by
          rw [Exchange.inbox_release, hinbox]
        show Forwards s m now { s with held := none, stopped := true }
          { m with exchange := m.exchange.release s.connection }
        refine ⟨⟨h.unclosed, fun _ => ⟨rfl, hreleased⟩⟩, ?_, Or.inl (Or.inl ⟨rfl, hreleased⟩)⟩
        simp [outstanding, hheld, hinbox, hreleased]

/-- One step of a forwarder that is not asked to stop. -/
theorem Steady.step
    {s : Subscription}
    {m : Memory}
    (h : s.Steady m)
    (now : Calendar.Timestamp) :
    Forwards s m now ((s.step now).run m).1 ((s.step now).run m).2 := by
  rw [Subscription.step]
  split
  · next hstopped => exact ⟨h, rfl, Or.inl (Or.inl (h.drained hstopped))⟩
  · next hstopped =>
      have hrunning : s.stopped = false := by simpa using hstopped
      cases hheld : s.held with
      | none =>
          simp only
          exact h.serveOr hrunning (h.poll hrunning hheld now)
      | some message =>
          simp only
          split
          · next hroom =>
              show Forwards s m now { s with held := none, buffer := s.buffer ++ [message] } m
              refine ⟨⟨h.unclosed, fun hs => absurd hs hstopped⟩, ?_, Or.inr ⟨?_, ?_⟩⟩
              · simp [outstanding, hheld]
              · rintro (⟨hnone, _⟩ | ⟨_, hfull⟩)
                · rw [hheld] at hnone
                  exact absurd hnone (by simp)
                · omega
              · simp only [pending, hheld, Option.toList_some, Option.toList_none,
                  List.length_cons, List.length_nil]
                omega
          · next hfull =>
              have hrest : s.AtRest m := Or.inr ⟨by rw [hheld]; rfl, by omega⟩
              exact h.serveOr hrunning ⟨h, rfl, Or.inl hrest⟩

/-- After enough steps the forwarder is at rest, and what the consumer has still to
read is the same. -/
theorem Steady.steps
    {s : Subscription}
    {m : Memory}
    (h : s.Steady m)
    (now : Calendar.Timestamp)
    {n : Nat}
    (hn : s.AtRest m ∨ s.pending m < n) :
    ∃ t k, (s.steps now n).run m = (t, k) ∧ t.Steady k ∧ t.AtRest k ∧
      t.outstanding k now = s.outstanding m now := by
  induction n generalizing s m with
  | zero =>
      refine ⟨s, m, rfl, h, ?_, rfl⟩
      rcases hn with hrest | hpending
      · exact hrest
      · exact absurd hpending (Nat.not_lt_zero _)
  | succ n ih =>
      obtain ⟨hsteady, hsame, hgets⟩ := h.step now
      have hrun : (s.steps now (n + 1)).run m =
          (((s.step now).run m).1.steps now n).run ((s.step now).run m).2 := rfl
      have hleft : ((s.step now).run m).1.AtRest ((s.step now).run m).2 ∨
          ((s.step now).run m).1.pending ((s.step now).run m).2 < n := by
        rcases hgets with hrest | ⟨hbusy, hless⟩
        · exact Or.inl hrest
        -- The bound shrinks with every step that is made, so the steps do not run out first.
        · rcases hn with hrest | hpending
          · exact absurd hrest hbusy
          · exact Or.inr (by omega)
      obtain ⟨t, k, hsteps, htsteady, htrest, htsame⟩ := ih hsteady hleft
      exact ⟨t, k, hrun.trans hsteps, htsteady, htrest, htsame.trans hsame⟩

theorem pending_lt_stepBound
    (s : Subscription)
    (m : Memory) :
    s.pending m < s.stepBound m := by
  have hbacklog : Store.backlog s.connection m = (m.exchange.inbox s.connection).length :=
    Exchange.backlog_eq m.exchange s.connection
  have hheld : s.held.toList.length ≤ 1 := by
    cases s.held with
    | none => exact Nat.zero_le _
    | some message => exact Nat.le_refl _
  rw [pending, stepBound, hbacklog]
  omega

theorem Steady.settle
    {s : Subscription}
    {m : Memory}
    (h : s.Steady m)
    (now : Calendar.Timestamp) :
    ∃ t k, (s.settle now).run m = (t, k) ∧ t.Steady k ∧ t.AtRest k ∧
      t.outstanding k now = s.outstanding m now :=
  h.steps now (Or.inr (s.pending_lt_stepBound m))

theorem receiveUpTo_succ
    (s : Subscription)
    (now : Calendar.Timestamp)
    (n : Nat)
    (m : Memory) :
    ((s.receiveUpTo now (n + 1)).run m).1.1 =
      match (s.receive now).run m with
      | ((.message x, t), k) => x :: ((t.receiveUpTo now n).run k).1.1
      | ((.nothing, _), _) => []
      | ((.ended, _), _) => [] := by
  simp only [receiveUpTo, StateT.run, bind, StateT.bind]
  rcases s.receive now m with ⟨⟨_ | _ | _, t⟩, k⟩
  · rfl
  · rfl
  · rfl

theorem receive_run
    {s t : Subscription}
    {now : Calendar.Timestamp}
    {m k : Memory}
    (h : (s.read.2.settle now).run m = (t, k)) :
    (s.receive now).run m = ((s.read.1, t), k) := by
  have hrun : (s.receive now).run m =
      ((s.read.1, ((s.read.2.settle now).run m).1), ((s.read.2.settle now).run m).2) := rfl
  rw [hrun, h]

/-- The consumer reads what is outstanding, one message after the other. -/
theorem Steady.receiveUpTo
    {s : Subscription}
    {m : Memory}
    (h : s.Steady m)
    (hrest : s.AtRest m)
    (now : Calendar.Timestamp)
    {n : Nat}
    (hn : (s.outstanding m now).length ≤ n) :
    ((s.receiveUpTo now n).run m).1.1 = s.outstanding m now := by
  induction n generalizing s m with
  | zero => exact (List.length_eq_zero_iff.1 (Nat.le_zero.1 hn)).symm
  | succ n ih =>
      cases hbuffer : s.buffer with
      | nil =>
          have hnone : s.outstanding m now = [] := by
            rcases hrest with ⟨hheld, hinbox⟩ | ⟨_, hfull⟩
            · simp [outstanding, hbuffer, hheld, hinbox]
            · rw [hbuffer] at hfull
              exact absurd hfull (by decide)
          have hread : s.read = (if s.stopped then .ended else .nothing, s) := by
            rw [read, hbuffer]
          rw [receiveUpTo_succ, receive_run rfl, hread, hnone]
          cases s.stopped with
          | true => rfl
          | false => rfl
      | cons message rest =>
          have hread : s.read = (.message message, { s with buffer := rest }) := by
            rw [read, hbuffer]
          have hsteady : Steady { s with buffer := rest } m := ⟨h.unclosed, h.drained⟩
          have hsplit : s.outstanding m now =
              message :: outstanding { s with buffer := rest } m now := by
            simp [outstanding, hbuffer]
          obtain ⟨t, k, hsettle, htsteady, htrest, htsame⟩ := hsteady.settle now
          have hreceive : (s.receive now).run m = ((.message message, t), k) := by
            rw [receive_run (by rw [hread]; exact hsettle), hread]
          rw [hsplit, List.length_cons] at hn
          rw [receiveUpTo_succ, hreceive, hsplit, ← htsame]
          simp only
          rw [ih htsteady htrest (by rw [htsame]; omega)]

/-- What the consumer reads when it reads everything, the forwarder having had its
time. -/
def received (s : Subscription) (m : Memory) (now : Calendar.Timestamp) : List Message :=
  ((do
    let t ← s.settle now
    t.receiveAll now : StateM Memory (List Message × Subscription)).run m).1.1

/-- **Everything outstanding is read, in order.** -/
theorem Steady.received_eq
    {s : Subscription}
    {m : Memory}
    (h : s.Steady m)
    (now : Calendar.Timestamp) :
    s.received m now = s.outstanding m now := by
  obtain ⟨t, k, hsettle, hsteady, hrest, hsame⟩ := h.settle now
  have hrun : s.received m now =
      ((((s.settle now).run m).1.receiveAll now).run ((s.settle now).run m).2).1.1 := rfl
  have hbacklog : Store.backlog t.connection k = (k.exchange.inbox t.connection).length :=
    Exchange.backlog_eq k.exchange t.connection
  have hheld : t.held.toList.length ≤ 1 := by
    cases t.held with
    | none => exact Nat.zero_le _
    | some message => exact Nat.le_refl _
  have hread := hsteady.receiveUpTo hrest now
    (n := t.buffer.length + 1 + Store.backlog t.connection k) (by
      simp only [outstanding, List.length_append, List.length_map, hbacklog]
      omega)
  rw [hrun, hsettle, ← hsame]
  exact hread

end Subscription

end Courier
