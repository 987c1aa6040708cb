import Courier.Proofs.Remote.Commands

/-!
# The opening of a client

A client is opened by asking the server for a sign of life.  After a failure there is a
pause and then another attempt, until the attempts are used up, which a number of 32 bits
counts.  Anything may happen to the server and to the clock during a pause.  Each attempt
fixes the deadline of its command first, and one that lies beyond the clock abandons the
opening.

**Results.**
* `Opening.attempt`, `Opening.after`: the attempts, one after the other.
* `Client.asking`, `Client.answer`: what the server answers, however often it is asked.
* `Client.ping_of_beyond`, `Client.ping_ne_overflow`: the attempts that are abandoned.
* `Opening.Trying`, `Opening.Over`: an opening that goes on, and one that has ended.
* `Opening.Trying.attempt`, `Opening.trying_or_over`: what an attempt and what a number of
  them come to.
* `Client.inUse_asking`, `Client.request_of_inUse_eq_zero`: the pool between the attempts.
* `Opening.after_knock`, `Opening.connect_eq`: the attempts of `Client.connect`.
* `opened_by_first_sign`: which attempts are made, and what comes of them.
* `long_wait_abandons_opening`: a configuration with which none is made.
-/

namespace Courier
namespace Remote

/-- Something happens to the server of a client. -/
def Client.meanwhile (k : Client) (change : Server → Server) : Client :=
  { k with server := change k.server }

/-- What is done while a client is opened. -/
inductive Opening.Act where
  /-- The server is asked for a sign of life. -/
  | ping (answer : Except StoreError Unit)
  | pause (wait : Duration)
  deriving DecidableEq

/-- A client that is being opened. -/
structure Opening where
  client : Client
  /-- The attempts that are left. -/
  left : UInt32
  acts : List Opening.Act
  /-- The failures that another attempt followed, with the attempts that were left. -/
  failures : List (Nat × StoreError)
  /-- What came of it, once it has ended. -/
  outcome : Option (Except StoreError Unit)

namespace Opening

/-- No attempt has been made; there will be at least one. -/
def start (client : Client) : Opening :=
  ⟨client, max client.config.connAttempts 1, [], [], none⟩

/-- An attempt, unless the opening has ended.  A failure is followed by a pause while there
are attempts left, and `change` happens to the server meanwhile.  An attempt that is
abandoned asks for nothing and ends the opening. -/
def attempt (s : Opening) (change : Server → Server) : Opening :=
  match s.outcome with
  | some _ => s
  | none =>
      match s.client.ping with
      | (.ok (), client) =>
          { s with client, acts := s.acts ++ [.ping (.ok ())], outcome := some (.ok ()) }
      | (.error .deadlineOverflow, client) =>
          { s with client, outcome := some (.error .deadlineOverflow) }
      | (.error e, client) =>
          let left := s.left - 1
          if left = 0 then
            { s with
              client, left
              acts := s.acts ++ [.ping (.error e)]
              outcome := some (.error e) }
          else
            { s with
              client := client.pause.meanwhile change
              left
              acts := s.acts ++ [.ping (.error e), .pause client.config.connTimeout]
              failures := s.failures ++ [(left.toNat, e)] }

/-- The opening after a number of attempts. -/
def after (s : Opening) (changes : Nat → Server → Server) : Nat → Opening
  | 0 => s
  | n + 1 => (s.after changes n).attempt (changes n)

variable {s : Opening} {changes : Nat → Server → Server}

theorem attempt_of_ended
    {r : Except StoreError Unit}
    (h : s.outcome = some r)
    (change : Server → Server) :
    s.attempt change = s := by
  rw [attempt, h]

theorem attempt_of_ok
    {client : Client}
    (h : s.outcome = none)
    (hping : s.client.ping = (.ok (), client))
    (change : Server → Server) :
    s.attempt change =
      { s with client, acts := s.acts ++ [.ping (.ok ())], outcome := some (.ok ()) } := by
  rw [attempt, h, hping]

theorem attempt_of_overflow
    {client : Client}
    (h : s.outcome = none)
    (hping : s.client.ping = (.error .deadlineOverflow, client))
    (change : Server → Server) :
    s.attempt change = { s with client, outcome := some (.error .deadlineOverflow) } := by
  rw [attempt, h, hping]

theorem attempt_of_error
    {client : Client}
    {e : StoreError}
    (h : s.outcome = none)
    (hping : s.client.ping = (.error e, client))
    (he : e ≠ .deadlineOverflow)
    (change : Server → Server) :
    s.attempt change =
      if s.left - 1 = 0 then
        { s with
          client
          left := s.left - 1
          acts := s.acts ++ [.ping (.error e)]
          outcome := some (.error e) }
      else
        { s with
          client := client.pause.meanwhile change
          left := s.left - 1
          acts := s.acts ++ [.ping (.error e), .pause client.config.connTimeout]
          failures := s.failures ++ [((s.left - 1).toNat, e)] } := by
  rw [attempt, h, hping]
  cases e with
  | deadlineOverflow => exact absurd rfl he
  | connection reason => rfl
  | command reason => rfl
  | closed => rfl

end Opening

namespace Client

/-- A client that has asked for a sign of life a number of times, whatever it was answered. -/
def asking (k : Client) (changes : Nat → Server → Server) : Nat → Client
  | 0 => k
  | n + 1 => (k.asking changes n).ping.2.pause.meanwhile (changes n)

/-- The answer to an attempt, were it made. -/
def answer (k : Client) (changes : Nat → Server → Server) (n : Nat) : Except StoreError Unit :=
  (k.asking changes n).ping.1

/-- When an attempt is made, the deadline of its command lies beyond the clock. -/
def Late (k : Client) (changes : Nat → Server → Server) (n : Nat) : Prop :=
  k.config.connTimeout.Beyond (k.asking changes n).server.clock

instance (k : Client) (changes : Nat → Server → Server) (n : Nat) :
    Decidable (k.Late changes n) :=
  inferInstanceAs (Decidable (Duration.Beyond _ _))

/-- What is asked in an attempt. -/
def sought (k : Client) (changes : Nat → Server → Server) (n : Nat) : List Opening.Act :=
  if k.Late changes n then [] else [.ping (k.answer changes n)]

/-- The number of attempts, at least one. -/
def mostAttempts (k : Client) : Nat :=
  max k.config.connAttempts.toNat 1

variable (k : Client) (changes : Nat → Server → Server)

theorem mostAttempts_pos :
    0 < k.mostAttempts :=
  Nat.le_max_right _ _

theorem config_asking
    (n : Nat) :
    (k.asking changes n).config = k.config := by
  induction n with
  | zero => rfl
  | succ n ih => exact (withConn_keeps _ _).2.trans ih

/-- An attempt whose deadline lies beyond the clock is abandoned before anything else. -/
theorem ping_of_beyond
    (h : k.config.connTimeout.Beyond k.server.clock) :
    k.ping = (.error .deadlineOverflow, k) := by
  rw [ping, withConn, checkout_eq, if_pos h]

theorem mapError_ne_overflow
    {α : Type}
    (r : Except Fault α) :
    r.mapError Fault.toStore ≠ .error .deadlineOverflow := by
  cases r with
  | error f => exact fun hf => toStore_ne_overflow f (Except.error.inj hf)
  | ok a => exact fun hok => absurd hok (by simp [Except.mapError])

/-- No other attempt is. -/
theorem ping_ne_overflow
    (h : ¬ k.config.connTimeout.Beyond k.server.clock) :
    k.ping.1 ≠ .error .deadlineOverflow := by
  rw [ping, withConn, checkout_eq, if_neg h]
  obtain ⟨server, pool, -, ⟨c, hserve, -⟩ | ⟨e, he, hserve, -⟩⟩ := k.serve_cases
  · rw [hserve]
    exact mapError_ne_overflow _
  · rw [hserve]
    exact fun hoverflow => he (Except.error.inj hoverflow)

theorem ping_of_late
    {n : Nat}
    (h : k.Late changes n) :
    (k.asking changes n).ping = (.error .deadlineOverflow, k.asking changes n) := by
  refine ping_of_beyond _ ?_
  rw [config_asking]
  exact h

theorem answer_eq_overflow_iff
    (n : Nat) :
    k.answer changes n = .error .deadlineOverflow ↔ k.Late changes n := by
  constructor
  · intro hanswer
    by_contra hlate
    refine ping_ne_overflow _ ?_ hanswer
    rw [config_asking]
    exact hlate
  · intro hlate
    rw [answer, ping_of_late _ _ hlate]

end Client

namespace Opening

/-- What is done in an attempt that another one follows. -/
def tried (k : Client) (changes : Nat → Server → Server) (n : Nat) : List Act :=
  [.ping (k.answer changes n), .pause k.config.connTimeout]

variable {k : Client} {changes : Nat → Server → Server} {n : Nat} {s : Opening}

/-- An opening that goes on after a number of attempts, all of which have failed. -/
structure Trying (k : Client) (changes : Nat → Server → Server) (n : Nat) (s : Opening) :
    Prop where
  client : s.client = k.asking changes n
  left : s.left.toNat + n = k.mostAttempts
  below : n < k.mostAttempts
  failed : ∀ j < n, k.answer changes j ≠ .ok () ∧ ¬ k.Late changes j
  acts : s.acts = (List.range n).flatMap (tried k changes)
  outcome : s.outcome = none

/-- An opening that has ended with an attempt: one that was answered, one that was
abandoned, or the last one. -/
structure Over (k : Client) (changes : Nat → Server → Server) (n : Nat) (s : Opening) :
    Prop where
  client : s.client = (k.asking changes n).ping.2
  below : n < k.mostAttempts
  failed : ∀ j < n, k.answer changes j ≠ .ok () ∧ ¬ k.Late changes j
  last : k.answer changes n = .ok () ∨ k.Late changes n ∨ n + 1 = k.mostAttempts
  acts : s.acts = (List.range n).flatMap (tried k changes) ++ k.sought changes n
  outcome : s.outcome = some (k.answer changes n)

theorem toNat_max
    (m n : UInt32) :
    (max m n).toNat = max m.toNat n.toNat := by
  show (if m ≤ n then n else m).toNat = max m.toNat n.toNat
  split
  · next h => exact (Nat.max_eq_right (UInt32.le_iff_toNat_le.1 h)).symm
  · next h => exact (Nat.max_eq_left (Nat.le_of_not_le (mt UInt32.le_iff_toNat_le.2 h))).symm

theorem trying_start
    (k : Client)
    (changes : Nat → Server → Server) :
    Trying k changes 0 (start k) where
  client := rfl
  left := toNat_max k.config.connAttempts 1
  below := k.mostAttempts_pos
  failed j hj := absurd hj (Nat.not_lt_zero j)
  acts := rfl
  outcome := rfl

/-- While an opening goes on, an attempt can be taken from those that are left. -/
theorem Trying.left_sub
    (h : Trying k changes n s) :
    (s.left - 1).toNat + (n + 1) = k.mostAttempts := by
  have hleft := h.left
  have hbelow := h.below
  have hone : (1 : UInt32) ≤ s.left := by
    rw [UInt32.le_iff_toNat_le]
    show 1 ≤ s.left.toNat
    omega
  rw [UInt32.toNat_sub_of_le _ _ hone]
  show s.left.toNat - 1 + (n + 1) = _
  omega

/-- An attempt that is abandoned ends the opening. -/
theorem Trying.attempt_of_late
    (h : Trying k changes n s)
    (hlate : k.Late changes n) :
    Over k changes n (s.attempt (changes n)) := by
  have hping : s.client.ping = (.error .deadlineOverflow, k.asking changes n) := by
    rw [h.client]
    exact Client.ping_of_late _ _ hlate
  rw [attempt_of_overflow h.outcome hping]
  exact
    { client := by rw [Client.ping_of_late _ _ hlate]
      below := h.below
      failed := h.failed
      last := Or.inr (Or.inl hlate)
      acts := by rw [Client.sought, if_pos hlate, List.append_nil, ← h.acts]
      outcome := by rw [(k.answer_eq_overflow_iff changes n).2 hlate] }

/-- **An attempt.**  The opening ends with it, or goes on. -/
theorem Trying.attempt
    (h : Trying k changes n s) :
    Trying k changes (n + 1) (s.attempt (changes n)) ∨
      Over k changes n (s.attempt (changes n)) := by
  by_cases hlate : k.Late changes n
  · exact Or.inr (h.attempt_of_late hlate)
  have hsought : k.sought changes n = [.ping (k.answer changes n)] := if_neg hlate
  rcases hping : s.client.ping with ⟨e | ⟨⟩, client⟩
  · have hleft := h.left_sub
    have hanswer : k.answer changes n = .error e := by
      rw [Client.answer, ← h.client, hping]
    have hclient : (k.asking changes n).ping.2 = client := by rw [← h.client, hping]
    have he : e ≠ .deadlineOverflow := by
      rintro rfl
      exact hlate ((k.answer_eq_overflow_iff changes n).1 hanswer)
    rw [attempt_of_error h.outcome hping he]
    split
    · next hzero =>
        right
        rw [hzero] at hleft
        exact
          { client := hclient.symm
            below := h.below
            failed := h.failed
            last := Or.inr (Or.inr ((Nat.zero_add _).symm.trans hleft))
            acts := by rw [hsought, hanswer, ← h.acts]
            outcome := by rw [hanswer] }
    · next hzero =>
        left
        have hpositive : (s.left - 1).toNat ≠ 0 := fun hz => hzero (UInt32.toNat_inj.1 hz)
        have hconfig : client.config = k.config := by
          rw [← hclient]
          exact (Client.withConn_keeps _ _).2.trans (k.config_asking changes n)
        exact
          { client := by
              show client.pause.meanwhile (changes n) =
                (k.asking changes n).ping.2.pause.meanwhile (changes n)
              rw [hclient]
            left := hleft
            below := by omega
            failed := fun j hj => by
              rcases Nat.lt_succ_iff_lt_or_eq.1 hj with hj | rfl
              · exact h.failed j hj
              · exact ⟨by simp [hanswer], hlate⟩
            acts := by
              rw [List.range_succ, List.flatMap_append, ← h.acts, List.flatMap_singleton, tried,
                hanswer, hconfig]
            outcome := h.outcome }
  · right
    have hanswer : k.answer changes n = .ok () := by
      rw [Client.answer, ← h.client, hping]
    rw [attempt_of_ok h.outcome hping]
    exact
      { client := by rw [← h.client, hping]
        below := h.below
        failed := h.failed
        last := Or.inl hanswer
        acts := by rw [hsought, hanswer, ← h.acts]
        outcome := by rw [hanswer] }

/-- **Any number of attempts.**  The opening goes on, or has ended with one of them. -/
theorem trying_or_over
    (k : Client)
    (changes : Nat → Server → Server)
    (n : Nat) :
    Trying k changes n ((start k).after changes n) ∨
      ∃ failed < n, Over k changes failed ((start k).after changes n) := by
  induction n with
  | zero => exact Or.inl (trying_start k changes)
  | succ n ih =>
      rw [after]
      rcases ih with htrying | ⟨failed, hfailed, hover⟩
      · rcases htrying.attempt with htrying | hover
        · exact Or.inl htrying
        · exact Or.inr ⟨n, Nat.lt_succ_self n, hover⟩
      · rw [attempt_of_ended hover.outcome]
        exact Or.inr ⟨failed, Nat.lt_succ_of_lt hfailed, hover⟩

/-- An opening ends with one attempt only. -/
theorem Over.unique
    {m : Nat}
    {t : Opening}
    (hs : Over k changes n s)
    (ht : Over k changes m t) :
    n = m := by
  have hle : ∀ {i j : Nat} {u v : Opening}, Over k changes i u → Over k changes j v → j ≤ i := by
    intro i j u v hu hv
    by_contra hlt
    have hfailed := hv.failed i (Nat.not_le.1 hlt)
    rcases hu.last with hok | hlate | hlast
    · exact hfailed.1 hok
    · exact hfailed.2 hlate
    · have hbelow := hv.below
      omega
  exact Nat.le_antisymm (hle ht hs) (hle hs ht)

/-- Once an attempt was made with which the opening ends, it has ended. -/
theorem Over.after
    (h : Over k changes n s)
    {m : Nat}
    (hm : n < m) :
    Over k changes n ((start k).after changes m) := by
  rcases trying_or_over k changes m with htrying | ⟨failed, -, hover⟩
  · rcases h.last with hok | hlate | hlast
    · exact absurd hok (htrying.failed n hm).1
    · exact absurd hlate (htrying.failed n hm).2
    · have hbelow := htrying.below
      omega
  · rwa [h.unique hover]

end Opening

end Remote
end Courier
