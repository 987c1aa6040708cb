import Courier.Store.Pool
import Mathlib.Algebra.BigOperators.Group.Finset.Piecewise
import Mathlib.Data.Fintype.Card

/-!
# Many callers of one pool

Any number of callers take connections from a pool and give them back, in any order.
A connection is opened between two uses of the pool, so that while one caller opens its
connection, or fails to, the others go on.  A caller that finds the pool full either looks
again later or has waited too long and is refused.

**Results.**
* `Lending.step`, `Lending.after`: one event, and what follows a sequence of them.
* `Lending.Balanced`: what the pool counts, what the callers hold and what was opened fit
  together; kept by every event (`Lending.Balanced.step`).
* `Lending.ask_opened_eq_serve`, `Lending.run_eq_serveAmid`: what a caller does whose
  deadline is fixed, also while it waits and other callers give back.
* `Lending.run_eq_checkout`: a checkout is such a run, unless its deadline cannot be counted.
* `Lending.within_size`: all of it, after every run.
-/

namespace Courier

namespace Pool

variable {κ : Type}

theorem request_cases
    (p : Pool κ) :
    (∃ c rest, p.idle = c :: rest ∧
        p.request = (.idle c, { p with idle := rest, inUse := p.inUse + 1 })) ∨
      (p.idle = [] ∧ p.inUse < p.maxSize ∧
        p.request = (.slot, { p with inUse := p.inUse + 1 })) ∨
      (p.idle = [] ∧ p.maxSize ≤ p.inUse ∧ p.request = (.full, p)) := by
  rw [request]
  cases hidle : p.idle with
  | cons c rest => exact .inl ⟨c, rest, rfl, rfl⟩
  | nil =>
      by_cases hroom : p.inUse < p.maxSize
      · exact .inr (.inl ⟨rfl, hroom, if_pos hroom⟩)
      · exact .inr (.inr ⟨rfl, Nat.le_of_not_lt hroom, if_neg hroom⟩)

theorem serveAmid_of_full
    {p : Pool κ}
    (hrequest : p.request = (.full, p))
    (opening : Except StoreError κ)
    (wait : Duration)
    (c : Duration × Option κ)
    (rest : List (Duration × Option κ)) :
    p.serveAmid opening wait (c :: rest) =
      if c.1.nanos < wait.nanos then (p.checkin c.2).serveAmid opening wait rest
      else (.error p.exhausted, p, c :: rest) := by
  rw [serveAmid, hrequest]

/-- A caller whose deadline cannot be counted leaves the pool as it is. -/
theorem checkout_of_deadline_none
    {now : Nat}
    {wait : Duration}
    (hd : deadline? now wait = none)
    (p : Pool κ)
    (opening : Except StoreError κ)
    (returns : List (Duration × Option κ)) :
    p.checkout now opening wait returns = (.error .deadlineOverflow, p, returns) := by
  rw [checkout, hd]

end Pool

/-- What a caller of a pool is doing. -/
inductive Activity (κ : Type) where
  /-- It wants no connection. -/
  | away
  /-- It found the pool full and looks again later. -/
  | waiting
  /-- It opens a connection in a slot of its own. -/
  | opening
  /-- It has a connection. -/
  | holding (conn : κ)
  deriving DecidableEq

/-- Whether a caller takes up room: it holds a connection or is opening one. -/
def Activity.Uses {κ : Type} : Activity κ → Prop
  | away | waiting => False
  | opening | holding _ => True

namespace Activity

variable {κ : Type}

instance : DecidablePred (Uses (κ := κ))
  | away | waiting => .isFalse id
  | opening | holding _ => .isTrue trivial

@[simp] theorem not_uses_away :
    ¬(away : Activity κ).Uses := id

@[simp] theorem not_uses_waiting :
    ¬(waiting : Activity κ).Uses := id

@[simp] theorem uses_opening :
    (opening : Activity κ).Uses := trivial

@[simp] theorem uses_holding
    (c : κ) :
    (holding c).Uses := trivial

end Activity

/-- Something that a caller does.  A caller that takes several connections at once counts
as several. -/
inductive Lending.Event (n : Nat) (κ : Type) where
  /-- A caller looks what the pool has for it, at a time of its own or when it is woken;
  `late` if it has waited as long as it may. -/
  | ask (caller : Fin n) (late : Bool)
  /-- A caller ends opening its connection, or fails to. -/
  | opened (caller : Fin n) (result : Except StoreError κ)
  /-- A caller gives back the connection that it holds, or only the slot of a broken one. -/
  | giveBack (caller : Fin n) (broken : Bool)

/-- Whose doing an event is. -/
def Lending.Event.caller {n : Nat} {κ : Type} : Event n κ → Fin n
  | ask i _ | opened i _ | giveBack i _ => i

/-- A pool and its callers. -/
structure Lending (n : Nat) (κ : Type) where
  pool : Pool κ
  activity : Fin n → Activity κ
  /-- The connections ever opened, the last one in front. -/
  opened : List κ
  /-- The connections ever given back as broken, the last one in front. -/
  broken : List κ

namespace Lending

variable {n : Nat} {κ : Type}

/-- A new pool; nobody wants anything. -/
def start (n size : Nat) : Lending n κ :=
  { pool := .ofSize size, activity := fun _ => .away, opened := [], broken := [] }

/-- A caller does something else now, and the pool has changed with it. -/
def become (s : Lending n κ) (i : Fin n) (a : Activity κ) (p : Pool κ) : Lending n κ :=
  { s with pool := p, activity := Function.update s.activity i a }

/-- A caller asks for a connection. -/
def ask (s : Lending n κ) (i : Fin n) (late : Bool) :
    Lending n κ × Option (Except StoreError κ) :=
  if (s.activity i).Uses then (s, none)
  else
    match s.pool.request with
    | (.idle c, p) => (s.become i (.holding c) p, some (.ok c))
    | (.slot, p) => (s.become i .opening p, none)
    | (.full, p) =>
        if late then (s.become i .away p, some (.error p.exhausted))
        else (s.become i .waiting p, none)

/-- A caller ends opening its connection. -/
def endOpening (s : Lending n κ) (i : Fin n) (result : Except StoreError κ) :
    Lending n κ × Option (Except StoreError κ) :=
  match s.activity i, result with
  | .opening, .ok c =>
      ({ s.become i (.holding c) s.pool with opened := c :: s.opened }, some (.ok c))
  | .opening, .error e => (s.become i .away (s.pool.checkin none), some (.error e))
  | _, _ => (s, none)

/-- A caller gives back what it holds. -/
def giveBack (s : Lending n κ) (i : Fin n) (broken : Bool) : Lending n κ :=
  match s.activity i, broken with
  | .holding c, false => s.become i .away (s.pool.checkin (some c))
  | .holding c, true =>
      { s.become i .away (s.pool.checkin none) with broken := c :: s.broken }
  | _, _ => s

/-- The next state, and how a caller's request ends if it ends with this event.  Nothing
happens where the caller is not where the event would have it. -/
def step (s : Lending n κ) : Event n κ → Lending n κ × Option (Except StoreError κ)
  | .ask i late => s.ask i late
  | .opened i result => s.endOpening i result
  | .giveBack i broken => (s.giveBack i broken, none)

/-- The state after events one after the other. -/
def run (s : Lending n κ) (events : List (Event n κ)) : Lending n κ :=
  events.foldl (fun s e => (s.step e).1) s

/-- The state of a new pool after events. -/
def after (n size : Nat) (events : List (Event n κ)) : Lending n κ :=
  (start n size).run events

/-- The number of callers that hold a connection or are opening one. -/
def users (s : Lending n κ) : Nat :=
  (Finset.univ.filter fun i => (s.activity i).Uses).card

/-- The number of callers that hold a connection. -/
def holders [DecidableEq κ] (s : Lending n κ) (c : κ) : Nat :=
  (Finset.univ.filter fun i => s.activity i = .holding c).card

@[simp] theorem become_opened
    (s : Lending n κ)
    (i : Fin n)
    (a : Activity κ)
    (p : Pool κ) :
    (s.become i a p).opened = s.opened := rfl

@[simp] theorem become_broken
    (s : Lending n κ)
    (i : Fin n)
    (a : Activity κ)
    (p : Pool κ) :
    (s.become i a p).broken = s.broken := rfl

section Ask

variable {s : Lending n κ} {i : Fin n}

theorem ask_of_uses
    (hi : (s.activity i).Uses)
    (late : Bool) :
    s.ask i late = (s, none) :=
  if_pos hi

variable (hi : ¬(s.activity i).Uses) {p : Pool κ} (late : Bool)
include hi

theorem ask_of_idle
    {c : κ}
    (hrequest : s.pool.request = (.idle c, p)) :
    s.ask i late = (s.become i (.holding c) p, some (.ok c)) := by
  rw [ask, if_neg hi, hrequest]

theorem ask_of_slot
    (hrequest : s.pool.request = (.slot, p)) :
    s.ask i late = (s.become i .opening p, none) := by
  rw [ask, if_neg hi, hrequest]

theorem ask_of_full
    (hrequest : s.pool.request = (.full, p)) :
    s.ask i late =
      if late then (s.become i .away p, some (.error p.exhausted))
      else (s.become i .waiting p, none) := by
  rw [ask, if_neg hi, hrequest]

end Ask

/-- What asking can come to. -/
theorem ask_cases
    (s : Lending n κ)
    (i : Fin n)
    (late : Bool) :
    s.ask i late = (s, none) ∨
      ¬(s.activity i).Uses ∧
        ((∃ c rest, s.pool.idle = c :: rest ∧
            s.ask i late =
              (s.become i (.holding c) { s.pool with idle := rest, inUse := s.pool.inUse + 1 },
                some (.ok c))) ∨
          (s.pool.idle = [] ∧ s.pool.inUse < s.pool.maxSize ∧
            s.ask i late =
              (s.become i .opening { s.pool with inUse := s.pool.inUse + 1 }, none)) ∨
          (s.pool.idle = [] ∧ s.pool.maxSize ≤ s.pool.inUse ∧
            (s.ask i late = (s.become i .away s.pool, some (.error s.pool.exhausted)) ∨
              s.ask i late = (s.become i .waiting s.pool, none)))) := by
  by_cases hi : (s.activity i).Uses
  · exact .inl (ask_of_uses hi late)
  · refine .inr ⟨hi, ?_⟩
    rcases s.pool.request_cases with
      ⟨c, rest, hidle, hrequest⟩ | ⟨hidle, hfree, hrequest⟩ | ⟨hidle, hfull, hrequest⟩
    · exact .inl ⟨c, rest, hidle, ask_of_idle hi late hrequest⟩
    · exact .inr (.inl ⟨hidle, hfree, ask_of_slot hi late hrequest⟩)
    · refine .inr (.inr ⟨hidle, hfull, ?_⟩)
      rw [ask_of_full hi late hrequest]
      cases late with
      | true => exact .inl rfl
      | false => exact .inr rfl

/-- When one caller does something else, it alone is counted anew. -/
theorem card_filter_update
    {α : Type}
    (f : Fin n → α)
    (i : Fin n)
    (a : α)
    (P : α → Prop)
    [DecidablePred P] :
    (Finset.univ.filter fun j => P (Function.update f i a j)).card + (if P (f i) then 1 else 0) =
      (Finset.univ.filter fun j => P (f j)).card + (if P a then 1 else 0) := by
  have hothers : ∑ j ∈ Finset.univ.erase i, (if P (Function.update f i a j) then 1 else 0) =
      ∑ j ∈ Finset.univ.erase i, if P (f j) then 1 else 0 :=
    Finset.sum_congr rfl fun j hj => by
      rw [Function.update_of_ne (Finset.ne_of_mem_erase hj)]
  rw [Finset.card_filter, Finset.card_filter, ← Finset.add_sum_erase _ _ (Finset.mem_univ i),
    ← Finset.add_sum_erase _ _ (Finset.mem_univ i), hothers, Function.update_self]
  omega

theorem users_become
    (s : Lending n κ)
    (i : Fin n)
    (a : Activity κ)
    (p : Pool κ) :
    (s.become i a p).users + (if (s.activity i).Uses then 1 else 0) =
      s.users + (if a.Uses then 1 else 0) :=
  card_filter_update s.activity i a Activity.Uses

theorem holders_become
    [DecidableEq κ]
    (s : Lending n κ)
    (i : Fin n)
    (a : Activity κ)
    (p : Pool κ)
    (c : κ) :
    (s.become i a p).holders c + (if s.activity i = .holding c then 1 else 0) =
      s.holders c + (if a = .holding c then 1 else 0) :=
  card_filter_update s.activity i a (· = .holding c)

theorem users_pos
    {s : Lending n κ}
    {i : Fin n}
    (h : (s.activity i).Uses) :
    0 < s.users :=
  Finset.card_pos.2 ⟨i, Finset.mem_filter.2 ⟨Finset.mem_univ i, h⟩⟩

theorem holders_pos
    [DecidableEq κ]
    {s : Lending n κ}
    {i : Fin n}
    {c : κ}
    (h : s.activity i = .holding c) :
    0 < s.holders c :=
  Finset.card_pos.2 ⟨i, Finset.mem_filter.2 ⟨Finset.mem_univ i, h⟩⟩

/-- Who is given a connection holds it. -/
theorem holding_of_answer
    {s : Lending n κ}
    {e : Event n κ}
    {c : κ}
    (hanswer : (s.step e).2 = some (.ok c)) :
    ∃ i, (s.step e).1.activity i = .holding c := by
  have hbecome : ∀ (i : Fin n) (d : κ) (p : Pool κ),
      (s.become i (.holding d) p).activity i = .holding d :=
    fun i d p => Function.update_self ..
  cases e with
  | ask i late =>
      refine ⟨i, ?_⟩
      simp only [step] at hanswer ⊢
      rcases s.ask_cases i late with
        heq | ⟨-, ⟨d, rest, -, heq⟩ | ⟨-, -, heq⟩ | ⟨-, -, heq | heq⟩⟩
      · simp [heq] at hanswer
      · rw [heq] at hanswer ⊢
        obtain rfl : d = c := by simpa using hanswer
        exact hbecome i d _
      · simp [heq] at hanswer
      · simp [heq] at hanswer
      · simp [heq] at hanswer
  | opened i result =>
      refine ⟨i, ?_⟩
      simp only [step] at hanswer ⊢
      unfold endOpening at hanswer ⊢
      split at hanswer
      · next d hi =>
          obtain rfl : d = c := by simpa using hanswer
          exact hbecome i d s.pool
      · simp at hanswer
      · simp at hanswer
  | giveBack i broken => simp [step] at hanswer

/-- A broken connection stays a broken one. -/
theorem broken_subset_step
    (s : Lending n κ)
    (e : Event n κ) :
    s.broken ⊆ (s.step e).1.broken := by
  cases e with
  | ask i late =>
      simp only [step]
      rcases s.ask_cases i late with
        heq | ⟨-, ⟨c, rest, -, heq⟩ | ⟨-, -, heq⟩ | ⟨-, -, heq | heq⟩⟩
      all_goals rw [heq]
      all_goals exact List.Subset.refl _
  | opened i result =>
      simp only [step]
      unfold endOpening
      split
      all_goals exact List.Subset.refl _
  | giveBack i broken =>
      simp only [step]
      unfold giveBack
      split
      · exact List.Subset.refl _
      · exact List.subset_cons_self _ _
      · exact List.Subset.refl _

theorem broken_subset_run
    (s : Lending n κ)
    (events : List (Event n κ)) :
    s.broken ⊆ (s.run events).broken := by
  induction events generalizing s with
  | nil => exact List.Subset.refl _
  | cons e events ih => exact List.Subset.trans (s.broken_subset_step e) (ih _)

/-- How the requests that end with some events end, in order. -/
def answers (s : Lending n κ) : List (Event n κ) → List (Except StoreError κ)
  | [] => []
  | e :: events => (s.step e).2.toList ++ (s.step e).1.answers events

/-- What a caller gives back. -/
def returned (s : Lending n κ) (i : Fin n) (broken : Bool) : Option κ :=
  match s.activity i with
  | .holding c => if broken then none else some c
  | _ => none

theorem giveBack_pool
    {s : Lending n κ}
    {i : Fin n}
    {c : κ}
    (hi : s.activity i = .holding c)
    (broken : Bool) :
    (s.giveBack i broken).pool = s.pool.checkin (s.returned i broken) := by
  cases broken with
  | false => simp [giveBack, returned, hi, become]
  | true => simp [giveBack, returned, hi, become]

theorem giveBack_activity_of_ne
    (s : Lending n κ)
    {i j : Fin n}
    (hij : j ≠ i)
    (broken : Bool) :
    (s.giveBack i broken).activity j = s.activity j := by
  unfold giveBack
  split
  · exact Function.update_of_ne hij _ _
  · exact Function.update_of_ne hij _ _
  · rfl

/-- Asking and opening, with nothing between them. -/
theorem ask_opened_eq_serve
    {s : Lending n κ}
    {i : Fin n}
    (hi : ¬(s.activity i).Uses)
    (opening : Except StoreError κ) :
    (s.run [.ask i true, .opened i opening]).pool = (s.pool.serve opening).2 ∧
      s.answers [.ask i true, .opened i opening] =
        [(s.pool.serve opening).1.map Prod.fst] := by
  simp only [run, answers, step, List.foldl_cons, List.foldl_nil, Pool.serve]
  rcases s.pool.request_cases with
    ⟨c, rest, -, hrequest⟩ | ⟨-, -, hrequest⟩ | ⟨-, -, hrequest⟩
  · rw [ask_of_idle hi true hrequest, hrequest]
    simp [endOpening, become, Except.map]
  · rw [ask_of_slot hi true hrequest, hrequest]
    cases opening with
    | ok c => simp [endOpening, become, Except.map]
    | error e => simp [endOpening, become, Except.map]
  · rw [ask_of_full hi true hrequest, hrequest]
    simp [endOpening, become, Except.map]

section Meanwhile

variable {s : Lending n κ} {i j : Fin n}

/-- A caller finds the pool full and waits, and then another gives back what it holds. -/
def meanwhile (s : Lending n κ) (i j : Fin n) (broken : Bool) : Lending n κ :=
  (s.become i .waiting s.pool).giveBack j broken

theorem meanwhile_activity_self
    (hji : j ≠ i)
    (broken : Bool) :
    (s.meanwhile i j broken).activity i = .waiting :=
  (giveBack_activity_of_ne _ hji.symm broken).trans (Function.update_self ..)

theorem meanwhile_activity_of_ne
    {k : Fin n}
    (hkj : k ≠ j)
    (hki : k ≠ i)
    (broken : Bool) :
    (s.meanwhile i j broken).activity k = s.activity k :=
  (giveBack_activity_of_ne _ hkj broken).trans (Function.update_of_ne hki _ _)

theorem meanwhile_pool
    (hji : j ≠ i)
    {c : κ}
    (hj : s.activity j = .holding c)
    (broken : Bool) :
    (s.meanwhile i j broken).pool = s.pool.checkin (s.returned j broken) := by
  have hbecome : (s.become i .waiting s.pool).activity j = s.activity j :=
    Function.update_of_ne hji _ _
  rw [meanwhile, giveBack_pool (hbecome.trans hj), returned, hbecome]
  rfl

theorem returned_congr
    {t : Lending n κ}
    {k : Fin n}
    (h : t.activity k = s.activity k)
    (broken : Bool) :
    t.returned k broken = s.returned k broken := by
  rw [returned, returned, h]

theorem run_meanwhile
    (hi : ¬(s.activity i).Uses)
    (hrequest : s.pool.request = (.full, s.pool))
    (j : Fin n)
    (broken : Bool)
    (events : List (Event n κ)) :
    s.run (.ask i false :: .giveBack j broken :: events) =
        (s.meanwhile i j broken).run events ∧
      s.answers (.ask i false :: .giveBack j broken :: events) =
        (s.meanwhile i j broken).answers events := by
  simp [run, answers, step, ask_of_full hi false hrequest, meanwhile]

end Meanwhile

/-- Asking again and again, while all that others do is to give back what they hold. -/
theorem run_eq_serveAmid
    {s : Lending n κ}
    {i : Fin n}
    (hi : ¬(s.activity i).Uses)
    (opening : Except StoreError κ)
    (wait : Duration)
    {returns : List (Duration × Fin n × Bool)}
    (hheld : ∀ r ∈ returns, ∃ c, s.activity r.2.1 = .holding c)
    (hdistinct : (returns.map (·.2.1)).Nodup) :
    let amid := s.pool.serveAmid opening wait
      (returns.map fun r => (r.1, s.returned r.2.1 r.2.2))
    ∃ events,
      (∀ e ∈ events, e.caller ≠ i → e ∈ returns.map fun r => .giveBack r.2.1 r.2.2) ∧
        (s.run events).pool = amid.2.1 ∧ s.answers events = [amid.1.map Prod.fst] := by
  induction returns generalizing s with
  | nil => exact ⟨_, by simp [Event.caller], ask_opened_eq_serve hi opening⟩
  | cons r returns ih =>
      obtain ⟨time, j, broken⟩ := r
      obtain ⟨⟨c, hj⟩, hheld⟩ := List.forall_mem_cons.1 hheld
      obtain ⟨hfirst, hdistinct⟩ := List.nodup_cons.1 hdistinct
      rw [List.map_cons]
      rcases s.pool.request_cases with
        ⟨d, rest, -, hrequest⟩ | ⟨-, -, hrequest⟩ | ⟨-, -, hrequest⟩
      · rw [Pool.serveAmid, hrequest]
        exact ⟨_, by simp [Event.caller], ask_opened_eq_serve hi opening⟩
      · rw [Pool.serveAmid, hrequest]
        exact ⟨_, by simp [Event.caller], ask_opened_eq_serve hi opening⟩
      · rw [Pool.serveAmid_of_full hrequest]
        split
        · -- The caller waits until the next connection is back, and asks again.
          have hji : j ≠ i := fun hji => hi (hji ▸ hj ▸ trivial)
          have hothers : ∀ r ∈ returns,
              (s.meanwhile i j broken).activity r.2.1 = s.activity r.2.1 := fun r hr => by
            refine meanwhile_activity_of_ne (fun hrj => hfirst ?_) (fun hri => ?_) broken
            · exact List.mem_map.2 ⟨r, hr, hrj⟩
            · obtain ⟨d, hd⟩ := hheld r hr
              exact hi (hri ▸ hd ▸ trivial)
          have hreturned : (returns.map fun r =>
                (r.1, (s.meanwhile i j broken).returned r.2.1 r.2.2)) =
              returns.map fun r => (r.1, s.returned r.2.1 r.2.2) :=
            List.map_congr_left fun r hr => by rw [returned_congr (hothers r hr)]
          have hwaits : ¬((s.meanwhile i j broken).activity i).Uses := by
            rw [meanwhile_activity_self hji]
            exact Activity.not_uses_waiting
          obtain ⟨events, hcallers, hrun, hanswers⟩ := ih hwaits
            (fun r hr => (hothers r hr).symm ▸ hheld r hr) hdistinct
          rw [meanwhile_pool hji hj, hreturned] at hrun hanswers
          refine ⟨.ask i false :: .giveBack j broken :: events, ?_, ?_⟩
          · intro e he hne
            rcases List.mem_cons.1 he with rfl | he
            · exact absurd rfl hne
            · rcases List.mem_cons.1 he with rfl | he
              · exact List.mem_cons_self
              · exact List.mem_cons_of_mem _ (hcallers e he hne)
          · rw [(run_meanwhile hi hrequest j broken events).1,
              (run_meanwhile hi hrequest j broken events).2]
            exact ⟨hrun, hanswers⟩
        · refine ⟨[.ask i true], by simp [Event.caller], ?_⟩
          simp [run, answers, step, ask_of_full hi true hrequest, become, Except.map]

/-- **A checkout.**  A caller whose deadline can be counted asks again and again; any other
is abandoned before it asks. -/
theorem run_eq_checkout
    {s : Lending n κ}
    {i : Fin n}
    (hi : ¬(s.activity i).Uses)
    (now : Nat)
    (opening : Except StoreError κ)
    (wait : Duration)
    {returns : List (Duration × Fin n × Bool)}
    (hheld : ∀ r ∈ returns, ∃ c, s.activity r.2.1 = .holding c)
    (hdistinct : (returns.map (·.2.1)).Nodup) :
    let out := s.pool.checkout now opening wait
      (returns.map fun r => (r.1, s.returned r.2.1 r.2.2))
    ∃ events,
      (∀ e ∈ events, e.caller ≠ i → e ∈ returns.map fun r => .giveBack r.2.1 r.2.2) ∧
        (s.run events).pool = out.2.1 ∧
        s.answers events =
          if deadline? now wait = none then [] else [out.1.map Prod.fst] := by
  cases hd : deadline? now wait with
  | none =>
      rw [Pool.checkout_of_deadline_none hd]
      exact ⟨[], by simp, rfl, rfl⟩
  | some deadline =>
      rw [Pool.checkout, hd]
      simpa using run_eq_serveAmid hi opening wait hheld hdistinct

variable [DecidableEq κ]

/-- The pool has its size and counts those who use it, the connections have room, and every
connection that was opened is idle, held or broken, as often as it was opened. -/
structure Balanced (size : Nat) (s : Lending n κ) : Prop where
  maxSize : s.pool.maxSize = max size 1
  users : s.pool.inUse = s.users
  room : s.pool.openCount ≤ s.pool.maxSize
  places : ∀ c, s.pool.idle.count c + s.holders c + s.broken.count c = s.opened.count c

theorem balanced_start
    (n size : Nat) :
    Balanced size (start n size : Lending n κ) where
  maxSize := rfl
  users := by simp [start, Pool.ofSize, Lending.users]
  room := Nat.zero_le _
  places := by simp [start, Pool.ofSize, holders]

namespace Balanced

variable {size : Nat} {s : Lending n κ} (h : s.Balanced size)
include h

/-- A caller that does something else now, the pool and the lists may change together as
long as room and connections are moved and not made. -/
theorem become
    (i : Fin n)
    (a : Activity κ)
    {p : Pool κ}
    {opened broken : List κ}
    (hmaxSize : p.maxSize = s.pool.maxSize)
    (husers : p.inUse + (if (s.activity i).Uses then 1 else 0) =
      s.pool.inUse + (if a.Uses then 1 else 0))
    (hroom : p.openCount ≤ p.maxSize)
    (hplaces : ∀ c,
      p.idle.count c + (if a = .holding c then 1 else 0) + broken.count c + s.opened.count c =
        s.pool.idle.count c + (if s.activity i = .holding c then 1 else 0) + s.broken.count c +
          opened.count c) :
    Balanced size { s.become i a p with opened, broken } where
  maxSize := hmaxSize.trans h.maxSize
  users := by
    have hbefore := h.users
    have hcount : (s.become i a p).users + _ = _ := s.users_become i a p
    show p.inUse = (s.become i a p).users
    omega
  room := hroom
  places := fun c => by
    have hbefore := h.places c
    have hmoved := hplaces c
    have hcount : (s.become i a p).holders c + _ = _ := s.holders_become i a p c
    show p.idle.count c + (s.become i a p).holders c + broken.count c = opened.count c
    omega

/-- A caller that uses the pool is counted by it. -/
theorem inUse_pos
    {i : Fin n}
    (hi : (s.activity i).Uses) :
    0 < s.pool.inUse :=
  h.users ▸ users_pos hi

theorem ask
    (i : Fin n)
    (late : Bool) :
    (s.ask i late).1.Balanced size := by
  have hroom := h.room
  rw [Pool.openCount] at hroom
  have hnone : ¬(s.activity i).Uses → ∀ c, s.activity i ≠ .holding c := fun hi c hc =>
    hi (hc ▸ trivial)
  rcases s.ask_cases i late with
    heq | ⟨hi, ⟨c, rest, hidle, heq⟩ | ⟨hidle, hfree, heq⟩ | ⟨-, -, heq | heq⟩⟩
  · rwa [heq]
  · rw [heq]
    rw [hidle, List.length_cons] at hroom
    refine h.become i (.holding c) rfl (by simp [hi]) ?_ fun d => ?_
    · show rest.length + (s.pool.inUse + 1) ≤ s.pool.maxSize
      omega
    · simp only [hidle, hnone hi, List.count_cons, Activity.holding.injEq, beq_iff_eq, if_false]
      omega
  · rw [heq]
    refine h.become i .opening rfl (by simp [hi]) ?_ fun d => by simp [hnone hi]
    show s.pool.idle.length + (s.pool.inUse + 1) ≤ s.pool.maxSize
    rw [hidle, List.length_nil]
    omega
  · rw [heq]
    exact h.become i .away rfl (by simp [hi]) h.room fun d => by simp [hnone hi]
  · rw [heq]
    exact h.become i .waiting rfl (by simp [hi]) h.room fun d => by simp [hnone hi]

/-- A slot comes back, with its connection or without one. -/
theorem checkin
    {i : Fin n}
    (hi : (s.activity i).Uses)
    {conn : Option κ}
    {broken : List κ}
    (hconn : conn.toList.length ≤ 1)
    (hplaces : ∀ c,
      conn.toList.count c + broken.count c =
        (if s.activity i = .holding c then 1 else 0) + s.broken.count c) :
    Balanced size { s.become i .away (s.pool.checkin conn) with broken } := by
  have hpos := h.inUse_pos hi
  have hroom := h.room
  rw [Pool.openCount] at hroom
  refine h.become i .away rfl ?_ ?_ fun c => ?_
  · simp only [Pool.checkin, hi, Activity.not_uses_away, if_true, if_false]
    omega
  · simp only [Pool.openCount, Pool.checkin, List.length_append]
    omega
  · have hmoved := hplaces c
    simp only [Pool.checkin, become_opened, List.count_append, reduceCtorEq, if_false]
    omega

theorem endOpening
    (i : Fin n)
    (result : Except StoreError κ) :
    (s.endOpening i result).1.Balanced size := by
  unfold Lending.endOpening
  split
  · next c hi =>
      refine h.become i (.holding c) rfl (by simp [hi]) h.room fun d => ?_
      simp only [hi, become_broken, List.count_cons, Activity.holding.injEq, beq_iff_eq,
        reduceCtorEq, if_false]
      omega
  · next e hi => exact h.checkin (hi ▸ trivial) (Nat.zero_le _) fun c => by simp [hi]
  · exact h

theorem giveBack
    (i : Fin n)
    (broken : Bool) :
    (s.giveBack i broken).Balanced size := by
  unfold Lending.giveBack
  split
  · next c hi =>
      refine h.checkin (hi ▸ trivial) le_rfl fun d => ?_
      simp [hi, List.count_cons]
  · next c hi =>
      refine h.checkin (hi ▸ trivial) (Nat.zero_le _) fun d => ?_
      simp [hi, List.count_cons, Nat.add_comm]
  · exact h

theorem step
    (e : Event n κ) :
    (s.step e).1.Balanced size := by
  cases e with
  | ask i late => exact h.ask i late
  | opened i result => exact h.endOpening i result
  | giveBack i broken => exact h.giveBack i broken

theorem run
    (events : List (Event n κ)) :
    (s.run events).Balanced size := by
  induction events generalizing s with
  | nil => exact h
  | cons e events ih => exact ih (h.step e)

/-- Where connections are opened once, each is in one place. -/
theorem separate
    (hopened : s.opened.Nodup) :
    s.pool.idle.Nodup ∧
      (∀ i c, s.activity i = .holding c → c ∉ s.pool.idle) ∧
      (∀ i j c, s.activity i = .holding c → s.activity j = .holding c → i = j) ∧
      ∀ i c, s.activity i = .holding c → c ∉ s.broken := by
  have hone : ∀ c, s.pool.idle.count c + s.holders c + s.broken.count c ≤ 1 := fun c =>
    (h.places c).trans_le (List.nodup_iff_count_le_one.1 hopened c)
  refine ⟨List.nodup_iff_count_le_one.2 fun c => ?_, fun i c hi hc => ?_, fun i j c hi hj => ?_,
    fun i c hi hc => ?_⟩
  · have := hone c
    omega
  · have := hone c
    have := holders_pos hi
    have := List.count_pos_iff.2 hc
    omega
  · have hholders : s.holders c ≤ 1 := by
      have := hone c
      omega
    exact Finset.card_le_one.1 hholders i (Finset.mem_filter.2 ⟨Finset.mem_univ i, hi⟩)
      j (Finset.mem_filter.2 ⟨Finset.mem_univ j, hj⟩)
  · have := hone c
    have := holders_pos hi
    have := List.count_pos_iff.2 hc
    omega

/-- Who is refused finds every connection in use. -/
theorem inUse_of_refused
    {e : Event n κ}
    {err : StoreError}
    (hanswer : (s.step e).2 = some (.error err)) :
    (∃ i, e = .opened i (.error err)) ∨
      s.pool.inUse = max size 1 ∧ err = s.pool.exhausted := by
  cases e with
  | ask i late =>
      right
      simp only [Lending.step] at hanswer
      rcases s.ask_cases i late with
        heq | ⟨-, ⟨c, rest, -, heq⟩ | ⟨-, -, heq⟩ | ⟨hidle, hfull, heq | heq⟩⟩
      · simp [heq] at hanswer
      · simp [heq] at hanswer
      · simp [heq] at hanswer
      · have hroom := h.room
        rw [Pool.openCount, hidle, List.length_nil, Nat.zero_add] at hroom
        rw [heq] at hanswer
        refine ⟨(le_antisymm hroom hfull).trans h.maxSize, ?_⟩
        simpa using hanswer.symm
      · simp [heq] at hanswer
  | opened i result =>
      left
      simp only [Lending.step] at hanswer
      unfold Lending.endOpening at hanswer
      split at hanswer
      · simp at hanswer
      · next e hi =>
          obtain rfl : e = err := by simpa using hanswer
          exact ⟨i, rfl⟩
      · simp at hanswer
  | giveBack i broken => simp [Lending.step] at hanswer

end Balanced

/-- **A pool never has more connections than its size, and lends each to one caller.**
After every run of callers that ask, open, fail to open, give back and break connections,
in any order, at most `max size 1` connections are idle or in use.  The pool counts as in
use exactly those callers that hold a connection or are opening one, so that whoever gives
back is still counted.  Each connection is idle, held or broken as often as it was opened.
If none was opened twice, then none is idle twice, idle and held, or held by two callers,
and one that was given back as broken is not lent again.  A request that does not fail
because of the connection opened for it is refused only while every connection is in use. -/
theorem within_size
    (n size : Nat)
    (events : List (Event n κ)) :
    let s := after n size events
    s.pool.openCount ≤ max size 1 ∧
      s.pool.inUse = s.users ∧
      (∀ i conn, (s.activity i).Uses → (s.pool.checkin conn).inUse + 1 = s.pool.inUse) ∧
      (∀ c, s.pool.idle.count c + s.holders c + s.broken.count c = s.opened.count c) ∧
      (s.opened.Nodup →
        s.pool.idle.Nodup ∧
          (∀ i c, s.activity i = .holding c → c ∉ s.pool.idle) ∧
          ∀ i j c, s.activity i = .holding c → s.activity j = .holding c → i = j) ∧
      (∀ c ∈ s.broken, ∀ later e,
        ((s.run later).step e).1.opened.Nodup → ((s.run later).step e).2 ≠ some (.ok c)) ∧
      ∀ e err, (s.step e).2 = some (.error err) →
        (∃ i, e = .opened i (.error err)) ∨
          s.pool.inUse = max size 1 ∧ err = s.pool.exhausted := by
  intro s
  have h : s.Balanced size := (balanced_start n size).run events
  refine ⟨h.maxSize ▸ h.room, h.users, fun i conn hi => ?_, h.places, fun hopened => ?_,
    fun c hc later e hopened hanswer => ?_, fun e err hanswer => h.inUse_of_refused hanswer⟩
  · exact Nat.sub_add_cancel (h.inUse_pos hi)
  · obtain ⟨hidle, hheld, hone, -⟩ := h.separate hopened
    exact ⟨hidle, hheld, hone⟩
  · obtain ⟨i, hi⟩ := holding_of_answer hanswer
    have hbroken := broken_subset_step _ e (s.broken_subset_run later hc)
    exact (((h.run later).step e).separate hopened).2.2.2 i c hi hbroken

end Lending
end Courier
