import Courier.Proofs.Queue.Waiting

/-!
# First in, first out

Pushes and promotions put entries at the front of a queue, pops take them from
its back, and clearing starts over.  What went on and what came off since a
queue was last cleared is written down beside a run of many clients, from what
the calls answer; the list itself is then always what went on and has not come
off, in the order in which it went on.

**Results.**
* `Crowd.inserts`, `Crowd.removes`: the entries that a move puts on and takes off.
* `Crowd.Sound.flow`: what one move does to the list.
* `Crowd.Sound.outcome`: what the pop that a move ends reports.
* `Crowd.Sound.balanced_after`: what came off, and what is left, is what went on.
* `fifo_since_clear`: the order of a queue, its size, and its pops.
-/

namespace Courier
namespace Queue

/-- What a pop reports of a list, by the entries before and behind it and those
that it took off. -/
inductive Outcome (before after : List Bytes) : List Bytes → Except QueueError (Option Job) → Prop
  | abandoned :
      after = before →
      Outcome before after [] (.error (.store .deadlineOverflow))
  | noJob :
      before = [] →
      after = [] →
      Outcome before after [] (.ok none)
  | job {entry : Bytes} {job : Job} :
      before = after ++ [entry] →
      Codec.decode Job.kind entry = .ok job →
      Outcome before after [entry] (.ok (some job))
  | undecodable {entry : Bytes} {e : CodecError} :
      before = after ++ [entry] →
      Codec.decode (α := Job) Job.kind entry = .error e →
      Outcome before after [entry] (.error (.serialization e))

theorem outcome_popped
    (entries : List Bytes) :
    Outcome entries entries.dropLast entries.getLast?.toList (popped entries.getLast?) := by
  rcases List.eq_nil_or_concat entries with rfl | ⟨rest, entry, rfl⟩
  · exact Outcome.noJob rfl rfl
  · rw [List.concat_eq_append, List.getLast?_concat, List.dropLast_concat, popped]
    cases hd : Codec.decode (α := Job) Job.kind entry with
    | ok job => exact Outcome.job rfl hd
    | error e => exact Outcome.undecodable rfl hd

theorem getLast?_append_reverse_dropLast
    (entries : List Bytes) :
    entries.getLast?.toList ++ entries.dropLast.reverse = entries.reverse := by
  rcases List.eq_nil_or_concat entries with rfl | ⟨rest, entry, rfl⟩
  · rfl
  · simp

structure Ledger where
  inserted : List Bytes
  removed : List Bytes

namespace Crowd

/-- The entries that a move puts on a queue, the first to be put there first: the
job of a push that was accepted, and what a promoter moves. -/
def inserts (queue : String) (s : Crowd) : Move → List Bytes
  | .act (.push q job fresh now) =>
      match ((Queue.push q job fresh now).run s.store).1 with
      | (.ok (), j) => if q = queue then [j.write] else []
      | (.error _, _) => []
  | .act (.move promoter) =>
      match s.clients.held promoter with
      | some r => if r.queue = queue then r.entries else []
      | none => []
  | _ => []

/-- The entries that a move takes off a queue: what the store answers to a pop. -/
def removes (queue : String) (s : Crowd) : Move → List Bytes
  | .act (.pop q wait) =>
      if q = queue then
        taken (if wait.isZero then s.store.popBack q else s.store.blockingPopBack q wait).1
      else []
  | .act (.popNonBlocking q) => if q = queue then taken (s.store.popBack q).1 else []
  | .look client =>
      match s.waiter client with
      | some w => if w.queue = queue then taken (s.store.popBack w.queue).1 else []
      | none => []
  | _ => []

end Crowd

/-- The ledger of a queue after a move; clearing the queue opens a new one. -/
def Ledger.next (queue : String) (l : Ledger) (s : Crowd) : Move → Ledger
  | .clear q => if q = queue then ⟨[], []⟩ else l
  | m => ⟨l.inserted ++ s.inserts queue m, l.removed ++ s.removes queue m⟩

def Ledger.after (queue : String) (l : Ledger) (s : Crowd) : List Move → Ledger
  | [] => l
  | m :: moves => (l.next queue s m).after queue (s.step m) moves

/-- What came off, followed by what is in the list from back to front, is what went on. -/
def Ledger.Balanced (queue : String) (l : Ledger) (s : Crowd) : Prop :=
  l.removed ++ (s.live queue).reverse = l.inserted

theorem balanced_start
    {clock : Nat}
    {queue : String} :
    Ledger.Balanced queue ⟨[], []⟩ (.start clock) := rfl

namespace Crowd

/-- What a move may do to the lists, and what the pop that it ends then reports. -/
inductive Change (s : Crowd) (m : Move) : Prop
  | keep
      (live : ∀ queue, (s.step m).live queue = s.live queue)
      (inserts : ∀ queue, s.inserts queue m = [])
      (removes : ∀ queue, s.removes queue m = [])
      (report : ∀ x, s.report m = some x → x.2 = .error (.store .deadlineOverflow))
  | put (on : String) (entries : List Bytes)
      (live : ∀ queue, (s.step m).live queue =
        if on = queue then entries.reverse ++ s.live queue else s.live queue)
      (inserts : ∀ queue, s.inserts queue m = if on = queue then entries else [])
      (removes : ∀ queue, s.removes queue m = [])
      (report : s.report m = none)
  | take (off : String)
      (data : (s.step m).store.data = (s.store.data.popBack off).2)
      (inserts : ∀ queue, s.inserts queue m = [])
      (removes : ∀ queue, s.removes queue m =
        if off = queue then (s.live off).getLast?.toList else [])
      (report : ∀ x, s.report m = some x → x = (off, popped (s.live off).getLast?))
  | clear (of : String)
      (move : m = .clear of)
      (live : ∀ queue, (s.step m).live queue = if of = queue then [] else s.live queue)

theorem live_of_popBack
    {s : Crowd}
    {m : Move}
    {off queue : String}
    (data : (s.step m).store.data = (s.store.data.popBack off).2) :
    (s.step m).live queue = if off = queue then (s.live queue).dropLast else s.live queue := by
  show (s.step m).store.data.list queue = _
  rw [data]
  exact Data.list_popBack _ _ _

namespace Sound

variable {s : Crowd} (hs : s.Sound)
include hs

theorem change_act
    (a : Action) :
    Change s (.act a) := by
  cases a with
  | push on job fresh now =>
      refine Change.put on [(job.ensureDefaults fresh now).write] ?_ ?_ (fun _ => rfl) rfl
      · intro queue
        show ((s.clients.step (.push on job fresh now)).store.data.list queue) = _
        rw [Clients.Sound.step_push hs]
        exact Data.list_pushFront _ _ _ _
      · intro queue
        simp only [inserts, push_run hs.unlocked]
  | schedule on job readyAt fresh now =>
      refine Change.keep ?_ (fun _ => rfl) (fun _ => rfl) (fun _ h => absurd h (by simp [report]))
      intro queue
      show ((s.clients.step (.schedule on job readyAt fresh now)).store.data.list queue) = _
      rw [Clients.Sound.step_schedule hs]
      rfl
  | read promoter on now =>
      refine Change.keep ?_ (fun _ => rfl) (fun _ => rfl) (fun _ h => absurd h (by simp [report]))
      intro queue
      show ((s.clients.step (.read promoter on now)).store.data.list queue) = _
      rw [Clients.Sound.step_read_store hs]
      rfl
  | move promoter =>
      cases hr : s.clients.held promoter with
      | none =>
          refine Change.keep ?_ ?_ (fun _ => rfl) (fun _ h => absurd h (by simp [report]))
          · intro queue
            rw [Crowd.step, Clients.step_move_of_held_none hr]
          · intro queue
            rw [inserts, hr]
      | some r =>
          refine Change.put r.queue r.entries ?_ ?_ (fun _ => rfl) rfl
          · intro queue
            show ((s.clients.step (.move promoter)).store.data.list queue) = _
            rw [Clients.Sound.step_move hs hr]
            exact list_applyAll_moves _ _ _ _
          · intro queue
            rw [inserts, hr]
  | popNonBlocking off =>
      have hpop := popNonBlocking_answer hs.unlocked off
      refine Change.take off (congrArg (·.2.data) hpop) (fun _ => rfl) ?_ ?_
      · intro queue
        rw [removes, hs.popBack, taken_ok]
      · intro x hx
        rw [report, hpop] at hx
        exact (Option.some.inj hx).symm
  | pop off wait =>
      cases hwait : wait.isZero with
      | true =>
          have hpop := pop_zero_answer hs.unlocked off hwait
          refine Change.take off (congrArg (·.2.data) hpop) (fun _ => rfl) ?_ ?_
          · intro queue
            rw [removes, if_pos hwait, hs.popBack, taken_ok]
          · intro x hx
            rw [report, hpop] at hx
            exact (Option.some.inj hx).symm
      | false =>
          have hpop := waitingPop_answer hs.unlocked off hwait
          have hne : ¬ wait.isZero = true := by simp [hwait]
          -- A wait whose end cannot be counted is given up before the list is looked at.
          cases hd : deadline? s.store.clock wait with
          | none =>
              rw [hd] at hpop
              refine Change.keep (fun queue => ?_) (fun _ => rfl) ?_ ?_
              · exact congrArg (·.2.data.list queue) hpop
              · intro queue
                rw [removes, if_neg hne, Memory.blockingPopBack_overflow hd]
                exact ite_self _
              · intro x hx
                rw [report, hpop] at hx
                rw [← Option.some.inj hx]
          | some deadline =>
              rw [hd] at hpop
              refine Change.take off (congrArg (·.2.data) hpop) (fun _ => rfl) ?_ ?_
              · intro queue
                rw [removes, if_neg hne, Memory.blockingPopBack_eq hs.unlocked hd, taken_ok]
                rfl
              · intro x hx
                rw [report, hpop] at hx
                exact (Option.some.inj hx).symm

theorem live_clear
    (of queue : String) :
    (s.step (.clear of)).live queue = if of = queue then [] else s.live queue := by
  rw [Crowd.step, clear_answer hs.unlocked]
  exact Data.list_remove _ _ _ _

/-- A pop reports that there is no job where it found none, not where it gave up. -/
theorem popped_of_found
    {w : Waiter}
    {r : Except QueueError (Option Job)}
    (hr : s.found w = some r) :
    r = popped (s.live w.queue).getLast? := by
  cases hl : (s.live w.queue).getLast? with
  | some entry =>
      rw [hs.found_of_entry hl] at hr
      exact (Option.some.inj hr).symm
  | none =>
      rcases Nat.lt_or_ge s.store.clock w.deadline with hearly | hlate
      · rw [hs.found_early hl hearly] at hr
        exact absurd hr (by simp)
      · rw [hs.found_late hl hlate] at hr
        exact (Option.some.inj hr).symm

theorem change
    (m : Move) :
    Change s m := by
  cases m with
  | act a => exact hs.change_act a
  | clear of =>
      exact Change.clear of rfl (hs.live_clear of)
  | await client on wait =>
      refine Change.keep ?_ (fun _ => rfl) (fun _ => rfl) ?_
      · intro queue
        cases hd : deadline? s.store.clock wait with
        | none => rw [Crowd.step, hd]
        | some deadline =>
            rw [step_await hd]
            rfl
      · intro x hx
        simp only [report] at hx
        split at hx
        · rw [← Option.some.inj hx]
        · exact absurd hx (by simp)
  | pass time =>
      exact Change.keep (fun _ => rfl) (fun _ => rfl) (fun _ => rfl)
        (fun _ h => absurd h (by simp [report]))
  | look client =>
      cases hw : s.waiter client with
      | none =>
          refine Change.keep ?_ (fun _ => rfl) ?_ ?_
          · intro queue
            rw [Crowd.step, hw]
          · intro queue
            rw [removes, hw]
          · intro x hx
            rw [report, hw] at hx
            exact absurd hx (by simp)
      | some w =>
          refine Change.take w.queue ?_ (fun _ => rfl) ?_ ?_
          · rw [hs.step_look hw]
            rfl
          · intro queue
            simp only [removes, hw, hs.popBack, taken_ok]
          · intro x hx
            rw [report_look hw] at hx
            obtain ⟨r, hr, rfl⟩ := Option.map_eq_some_iff.1 hx
            rw [hs.popped_of_found hr]

/-- What a move that clears nothing does to the list: it takes off at the back what it
removes and puts on at the front what it inserts. -/
theorem flow
    {m : Move}
    {queue : String}
    (hclear : m ≠ .clear queue) :
    s.removes queue m ++ ((s.step m).live queue).reverse =
      (s.live queue).reverse ++ s.inserts queue m := by
  cases hs.change m with
  | keep live inserts removes report => simp [live, inserts, removes]
  | put on entries live inserts removes report =>
      rw [live, inserts, removes]
      split
      · simp
      · simp
  | take off data inserts removes report =>
      rw [live_of_popBack data, inserts, removes, List.append_nil]
      split
      · next h => subst h; exact getLast?_append_reverse_dropLast _
      · rfl
  | clear of move live =>
      subst move
      rw [live, if_neg fun h => hclear (congrArg Move.clear h)]
      simp [removes, inserts]

theorem outcome
    {m : Move}
    {queue : String}
    {r : Except QueueError (Option Job)}
    (hr : s.report m = some (queue, r)) :
    Outcome (s.live queue) ((s.step m).live queue) (s.removes queue m) r := by
  cases hs.change m with
  | keep live inserts removes report =>
      obtain rfl : r = .error (.store .deadlineOverflow) := report _ hr
      rw [live, removes]
      exact Outcome.abandoned rfl
  | put on entries live inserts removes report =>
      rw [report] at hr
      exact absurd hr (by simp)
  | take off data inserts removes report =>
      obtain ⟨rfl, rfl⟩ := Prod.mk.inj (report _ hr)
      rw [live_of_popBack data, removes, if_pos rfl, if_pos rfl]
      exact outcome_popped _
  | clear of move live =>
      rw [move] at hr
      exact absurd hr (by simp [report])

theorem balanced_next
    {l : Ledger}
    {queue : String}
    (hl : l.Balanced queue s)
    (m : Move) :
    (l.next queue s m).Balanced queue (s.step m) := by
  -- A clearing opens a ledger beside an empty list; every other move extends it by its flow.
  by_cases hclear : m = .clear queue
  · subst hclear
    rw [Ledger.next, if_pos rfl]
    show [] ++ ((s.step (.clear queue)).live queue).reverse = []
    rw [hs.live_clear, if_pos rfl]
    rfl
  · have hnext : l.next queue s m =
        ⟨l.inserted ++ s.inserts queue m, l.removed ++ s.removes queue m⟩ := by
      cases m with
      | clear q =>
          rw [Ledger.next, if_neg fun h => hclear (congrArg Move.clear h)]
          simp [inserts, removes]
      | act a => rfl
      | await client on wait => rfl
      | look client => rfl
      | pass time => rfl
    calc (l.next queue s m).removed ++ ((s.step m).live queue).reverse
        = l.removed ++ (s.removes queue m ++ ((s.step m).live queue).reverse) := by
          rw [hnext, List.append_assoc]
      _ = l.removed ++ (s.live queue).reverse ++ s.inserts queue m := by
          rw [hs.flow hclear, List.append_assoc]
      _ = (l.next queue s m).inserted := by
          rw [hl, hnext]

theorem balanced_after
    {l : Ledger}
    {queue : String}
    (hl : l.Balanced queue s)
    (moves : List Move) :
    (l.after queue s moves).Balanced queue (s.run moves) := by
  induction moves generalizing s l with
  | nil => exact hl
  | cons m moves ih => exact ih (hs.step m) (hs.balanced_next hl m)

end Sound
end Crowd

/-- **A queue gives its entries back in the order in which they went on.**  After
every run of any number of clients on any queues, what pops took off a queue since
it was last cleared, followed by what is in its list from back to front, is what
pushes and promotions put on it since; its size is the number of entries in the
list; and the pop that a further move ends reports that there is no job only of an
empty list, reports a last entry that does not decode as such and takes off that
entry alone, and takes nothing where the end of its wait cannot be counted. -/
theorem fifo_since_clear
    (clock : Nat)
    (moves : List Move)
    (queue : String) :
    let s := (Crowd.start clock).run moves
    let l := Ledger.after queue ⟨[], []⟩ (.start clock) moves
    l.removed ++ (s.live queue).reverse = l.inserted ∧
      (answer (size queue) s.store).1 = .ok (s.live queue).length ∧
      ∀ m r, s.report m = some (queue, r) →
        Outcome (s.live queue) ((s.step m).live queue) (s.removes queue m) r := by
  intro s l
  have hstart := Crowd.sound_start clock
  have hs : s.Sound := hstart.run moves
  refine ⟨hstart.balanced_after balanced_start moves, ?_, fun m r hr => hs.outcome hr⟩
  rw [size_answer hs.unlocked]
  rfl

end Queue
end Courier
