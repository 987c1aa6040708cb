import Courier.Proofs.Queue.Separation
import Courier.Proofs.Queue.Waiting

/-!
# When scheduled jobs become ready

A job that waits for its time is an entry of the delayed set of its queue, under the
second at which it becomes ready.  The entry is known by its bytes alone.  A job that
is scheduled once more with the same bytes is therefore not listed twice: its entry is
given the new second, be it later or earlier than the one it had.  Nothing else ever
changes the second of an entry as long as it is in the set.

**Results.**
* `Move.Schedules`, `Crowd.Removes`, `Crowd.Spares`: what a move does to an entry.
* `Crowd.Sound.mem_delayedEntries_step`: the delayed entries after one move.
* `Crowd.Untouched`, `Crowd.Sound.mem_delayedEntries_run`: after a run.
* `Queue.ready_when_last_scheduled`: the second of an entry, for every run.
* `Queue.scheduled_again_later`: a job that was ready and is so no more.
-/

namespace Courier

theorem SortedSet.range_singleton
    (x min max : Binary64)
    (b : Bytes) :
    SortedSet.range [(x, b)] min max = if min.le x && x.le max then [b] else [] := by
  rw [range, List.filter_cons]
  split
  · rw [List.filter_nil, List.mergeSort_singleton]
    rfl
  · rw [List.filter_nil, List.mergeSort_nil]
    rfl

namespace Queue

/-- A move schedules a byte string on a queue, to be ready at a second. -/
def Move.Schedules (queue : String) (entry : Bytes) (score : Binary64) (m : Move) : Prop :=
  ∃ job readyAt fresh now, m = .act (.schedule queue job readyAt fresh now) ∧
    (job.ensureDefaults fresh now).write = entry ∧ readyScore readyAt = score

namespace Crowd

/-- A move takes an entry out of the delayed set of a queue: a promoter moves what it
has read, or the key of the set is removed. -/
def Removes (s : Crowd) (queue : String) (entry : Bytes) : Move → Prop
  | .act (.move promoter) =>
      ∃ r, s.clients.held promoter = some r ∧ r.queue = queue ∧ entry ∈ r.entries
  | .clear name => name = delayedKey queue
  | _ => False

/-- A move neither schedules an entry nor takes it out of its delayed set. -/
def Spares (s : Crowd) (queue : String) (entry : Bytes) (m : Move) : Prop :=
  (∀ score, ¬ m.Schedules queue entry score) ∧ ¬ s.Removes queue entry m

/-- No move of a run schedules an entry or takes it out of its delayed set. -/
def Untouched (s : Crowd) (queue : String) (entry : Bytes) : List Move → Prop
  | [] => True
  | m :: moves => s.Spares queue entry m ∧ (s.step m).Untouched queue entry moves

theorem schedules_iff
    {q fresh queue : String}
    {job : Job}
    {readyAt now : Calendar.Timestamp}
    {entry : Bytes}
    {score : Binary64} :
    (Move.act (.schedule q job readyAt fresh now)).Schedules queue entry score ↔
      q = queue ∧ (job.ensureDefaults fresh now).write = entry ∧ readyScore readyAt = score := by
  constructor
  · rintro ⟨job', readyAt', fresh', now', hm, hentry, hscore⟩
    obtain ⟨rfl, rfl, rfl, rfl, rfl⟩ := Action.schedule.inj (Move.act.inj hm)
    exact ⟨rfl, hentry, hscore⟩
  · rintro ⟨rfl, hentry, hscore⟩
    exact ⟨job, readyAt, fresh, now, rfl, hentry, hscore⟩

theorem not_schedules
    {queue : String}
    {entry : Bytes}
    {m : Move}
    (h : ∀ q job readyAt fresh now, m ≠ .act (.schedule q job readyAt fresh now))
    (score : Binary64) :
    ¬ m.Schedules queue entry score := by
  rintro ⟨job, readyAt, fresh, now, hm, -⟩
  exact h queue job readyAt fresh now hm

namespace Sound

variable {s : Crowd} (hs : s.Sound)

/-- A move that leaves the delayed set as it is, and neither schedules nor removes. -/
theorem mem_delayedEntries_of_eq
    {m : Move}
    {queue : String}
    {entry : Bytes}
    {x : Binary64}
    (hdelayed : delayedEntries (s.step m).store queue = delayedEntries s.store queue)
    (hspares : s.Spares queue entry m) :
    (x, entry) ∈ delayedEntries (s.step m).store queue ↔
      m.Schedules queue entry x ∨
        ((x, entry) ∈ delayedEntries s.store queue ∧ s.Spares queue entry m) := by
  rw [hdelayed, and_iff_left hspares, or_iff_right (hspares.1 x)]

include hs

theorem delayedEntries_step_schedule
    (q : String)
    (job : Job)
    (readyAt : Calendar.Timestamp)
    (fresh : String)
    (now : Calendar.Timestamp)
    (queue : String) :
    delayedEntries (s.step (.act (.schedule q job readyAt fresh now))).store queue =
      if q = queue then
        (delayedEntries s.store queue).add (job.ensureDefaults fresh now).write (readyScore readyAt)
      else delayedEntries s.store queue := by
  have hstep := Clients.Sound.step_schedule hs q job readyAt fresh now
  have hstore := congrArg Clients.store hstep
  rw [delayedEntries, Crowd.step, Crowd.store, hstore, Data.sortedSet_sortedAdd]
  simp only [delayedKey_inj]
  rfl

theorem delayedEntries_step_move
    {promoter : Nat}
    {r : Pending}
    (hr : s.clients.held promoter = some r)
    (queue : String) :
    delayedEntries (s.step (.act (.move promoter))).store queue =
      if r.queue = queue then
        (delayedEntries s.store queue).filter fun e => e.2 ∉ r.entries
      else delayedEntries s.store queue := by
  have hstore := congrArg Clients.store (Clients.Sound.step_move hs hr)
  rw [delayedEntries, Crowd.step, Crowd.store, hstore, sortedSet_applyAll_moves]
  simp only [delayedKey_inj]
  rfl

theorem delayedEntries_step_clear
    (name queue : String) :
    delayedEntries (s.step (.clear name)).store queue =
      if name = delayedKey queue then [] else delayedEntries s.store queue := by
  rw [delayedEntries, Crowd.step, clear_answer hs.unlocked]
  exact Data.sortedSet_remove _ _ _ _

/-- All other moves leave every delayed set as it is. -/
theorem delayedEntries_step
    {m : Move}
    (hschedule : ∀ q job readyAt fresh now, m ≠ .act (.schedule q job readyAt fresh now))
    (hmove : ∀ promoter, m ≠ .act (.move promoter))
    (hclear : ∀ name, m ≠ .clear name)
    (queue : String) :
    delayedEntries (s.step m).store queue = delayedEntries s.store queue := by
  cases m with
  | act a =>
      show (s.clients.step a).store.data.sortedSet _ = s.clients.store.data.sortedSet _
      cases a with
      | push q job fresh now => rw [Clients.Sound.step_push hs, Data.sortedSet_pushFront]
      | schedule q job readyAt fresh now => exact absurd rfl (hschedule q job readyAt fresh now)
      | pop q wait =>
          rcases Clients.Sound.step_pop hs q wait with h | ⟨clock, h⟩
          · rw [h]
          · rw [h, Data.sortedSet_popBack]
      | popNonBlocking q => rw [Clients.Sound.step_popNonBlocking hs, Data.sortedSet_popBack]
      | read promoter q now => rw [Clients.Sound.step_read_store hs]
      | move promoter => exact absurd rfl (hmove promoter)
  | clear name => exact absurd rfl (hclear name)
  | await client q wait =>
      rw [Crowd.step]
      cases deadline? s.store.clock wait with
      | none => rfl
      | some deadline => rfl
  | look client =>
      cases hw : s.waiter client with
      | none => rw [Crowd.step, hw]
      | some w =>
          rw [hs.step_look hw]
          exact Data.sortedSet_popBack _ _ _
  | pass time => rfl

theorem nodup_delayedEntries
    (queue : String) :
    (delayedEntries s.store queue).members.Nodup :=
  hs.nodup_members (delayedKey queue)

theorem mem_delayedEntries_step_schedule
    (q : String)
    (job : Job)
    (readyAt : Calendar.Timestamp)
    (fresh : String)
    (now : Calendar.Timestamp)
    {queue : String}
    {entry : Bytes}
    {x : Binary64} :
    let m := Move.act (.schedule q job readyAt fresh now)
    (x, entry) ∈ delayedEntries (s.step m).store queue ↔
      m.Schedules queue entry x ∨
        ((x, entry) ∈ delayedEntries s.store queue ∧ s.Spares queue entry m) := by
  intro m
  by_cases hq : q = queue
  · subst hq
    rw [hs.delayedEntries_step_schedule, if_pos rfl,
      SortedSet.mem_add (hs.nodup_delayedEntries q)]
    simp only [m, Spares, schedules_iff, Removes, true_and, not_false_eq_true, and_true]
    constructor
    · rintro (⟨rfl, rfl⟩ | ⟨hne, hmem⟩)
      · exact Or.inl ⟨rfl, rfl⟩
      · exact Or.inr ⟨hmem, fun _ h => hne h.1.symm⟩
    · rintro (⟨rfl, rfl⟩ | ⟨hmem, hspares⟩)
      · exact Or.inl ⟨rfl, rfl⟩
      · exact Or.inr ⟨fun heq => hspares _ ⟨heq.symm, rfl⟩, hmem⟩
  · refine mem_delayedEntries_of_eq ?_ ⟨fun score h => hq (schedules_iff.1 h).1, id⟩
    rw [hs.delayedEntries_step_schedule, if_neg hq]

theorem mem_delayedEntries_step_move
    (promoter : Nat)
    {queue : String}
    {entry : Bytes}
    {x : Binary64} :
    let m := Move.act (.move promoter)
    (x, entry) ∈ delayedEntries (s.step m).store queue ↔
      m.Schedules queue entry x ∨
        ((x, entry) ∈ delayedEntries s.store queue ∧ s.Spares queue entry m) := by
  intro m
  have hschedules : ∀ score, ¬ m.Schedules queue entry score :=
    not_schedules (by simp [m])
  cases hr : s.clients.held promoter with
  | none =>
      refine mem_delayedEntries_of_eq ?_ ⟨hschedules, ?_⟩
      · rw [delayedEntries, Crowd.step, Clients.step_move_of_held_none hr]
        rfl
      · rintro ⟨r, hheld, -⟩
        rw [hr] at hheld
        exact absurd hheld (by simp)
  | some r =>
      have hremoves : s.Removes queue entry m ↔ r.queue = queue ∧ entry ∈ r.entries := by
        simp [m, Removes, hr]
      rw [hs.delayedEntries_step_move hr, or_iff_right (hschedules x), Spares,
        and_iff_right hschedules, hremoves]
      by_cases hq : r.queue = queue
      · rw [if_pos hq, List.mem_filter, decide_eq_true_eq, and_iff_right hq]
      · rw [if_neg hq]
        simp [hq]

theorem mem_delayedEntries_step_clear
    (name : String)
    {queue : String}
    {entry : Bytes}
    {x : Binary64} :
    let m := Move.clear name
    (x, entry) ∈ delayedEntries (s.step m).store queue ↔
      m.Schedules queue entry x ∨
        ((x, entry) ∈ delayedEntries s.store queue ∧ s.Spares queue entry m) := by
  intro m
  have hschedules : ∀ score, ¬ m.Schedules queue entry score :=
    not_schedules (by simp [m])
  rw [hs.delayedEntries_step_clear, or_iff_right (hschedules x), Spares, and_iff_right hschedules]
  split
  · next hkey => simp [m, Removes, hkey]
  · next hkey => simp [m, Removes, hkey]

/-- **A move.**  After a move an entry is in a delayed set under the second that the move
gives it, or under the second that it had and the move leaves it. -/
theorem mem_delayedEntries_step
    (m : Move)
    {queue : String}
    {entry : Bytes}
    {x : Binary64} :
    (x, entry) ∈ delayedEntries (s.step m).store queue ↔
      m.Schedules queue entry x ∨
        ((x, entry) ∈ delayedEntries s.store queue ∧ s.Spares queue entry m) := by
  cases m with
  | act a =>
      cases a with
      | schedule q job readyAt fresh now =>
          exact hs.mem_delayedEntries_step_schedule q job readyAt fresh now
      | move promoter => exact hs.mem_delayedEntries_step_move promoter
      | _ =>
          refine mem_delayedEntries_of_eq (hs.delayedEntries_step ?_ ?_ ?_ queue)
            ⟨not_schedules ?_, id⟩
          all_goals simp
  | clear name => exact hs.mem_delayedEntries_step_clear name
  | _ =>
      refine mem_delayedEntries_of_eq (hs.delayedEntries_step ?_ ?_ ?_ queue)
        ⟨not_schedules ?_, id⟩
      all_goals simp

/-- **A run.**  After a run an entry is in a delayed set under the second that some move
gave it and no move touched since, or under the second that it had at the beginning. -/
theorem mem_delayedEntries_run
    (moves : List Move)
    {queue : String}
    {entry : Bytes}
    {x : Binary64} :
    (x, entry) ∈ delayedEntries (s.run moves).store queue ↔
      ((x, entry) ∈ delayedEntries s.store queue ∧ s.Untouched queue entry moves) ∨
        ∃ before m rest, moves = before ++ m :: rest ∧ m.Schedules queue entry x ∧
          (s.run (before ++ [m])).Untouched queue entry rest := by
  induction moves generalizing s with
  | nil => simp [Untouched]
  | cons m moves ih =>
      rw [run_cons, ih (hs.step m), hs.mem_delayedEntries_step m, Untouched]
      constructor
      · rintro (⟨hschedules | ⟨hmem, hspares⟩, hrest⟩ | ⟨before, m', rest, rfl, hschedules, hrest⟩)
        · exact Or.inr ⟨[], m, moves, rfl, hschedules, hrest⟩
        · exact Or.inl ⟨hmem, hspares, hrest⟩
        · exact Or.inr ⟨m :: before, m', rest, rfl, hschedules, hrest⟩
      · rintro (⟨hmem, hspares, hrest⟩ | ⟨before, m', rest, hmoves, hschedules, hrest⟩)
        · exact Or.inl ⟨Or.inr ⟨hmem, hspares⟩, hrest⟩
        · cases before with
          | nil =>
              obtain ⟨rfl, rfl⟩ := List.cons.inj hmoves
              exact Or.inl ⟨Or.inl hschedules, hrest⟩
          | cons m'' before =>
              obtain ⟨rfl, rfl⟩ := List.cons.inj hmoves
              exact Or.inr ⟨before, m', rest, rfl, hschedules, hrest⟩

end Sound
end Crowd

/-- **An entry is ready at the second for which it was scheduled last.**  In every run of
clients that put jobs on any queues, schedule them, take them with or without waiting,
clear queues and promote them, with a promotion in two moves, the entries of each delayed
set are listed once each.  An entry is in a delayed set under a second exactly if some
move scheduled its bytes on that queue for that second, and since then no move scheduled
the same bytes on that queue again or took the entry out.  One more move changes the
second of an entry in no other way than by scheduling its bytes on its queue again, and
then to the second that it gives, whether the entry was there before or not. -/
theorem ready_when_last_scheduled
    (clock : Nat)
    (moves : List Move) :
    let s := (Crowd.start clock).run moves
    (∀ queue, (delayedEntries s.store queue).members.Nodup) ∧
      (∀ queue entry x,
        (x, entry) ∈ delayedEntries s.store queue ↔
          ∃ before m rest, moves = before ++ m :: rest ∧ m.Schedules queue entry x ∧
            ((Crowd.start clock).run (before ++ [m])).Untouched queue entry rest) ∧
      ∀ m queue entry x,
        (x, entry) ∈ delayedEntries (s.step m).store queue ↔
          m.Schedules queue entry x ∨
            ((x, entry) ∈ delayedEntries s.store queue ∧ s.Spares queue entry m) := by
  intro s
  have hs : s.Sound := (Crowd.sound_start clock).run moves
  refine ⟨hs.nodup_delayedEntries, fun queue entry x => ?_, fun m queue entry x => ?_⟩
  · have hempty : (x, entry) ∉ delayedEntries (Crowd.start clock).store queue := List.not_mem_nil
    rw [(Crowd.sound_start clock).mem_delayedEntries_run moves, or_iff_right fun h => hempty h.1]
  · exact hs.mem_delayedEntries_step m

/-- The number of entries that a promotion moves where one job waits. -/
theorem promote_of_singleton
    {m : Memory}
    (h : m.poisoned = false)
    {queue : String}
    {x : Binary64}
    {entry : Bytes}
    (hentry : delayedEntries m queue = [(x, entry)])
    (now : Calendar.Timestamp) :
    (answer (promote queue now) m).1 =
      .ok (if Binary64.negInfinity.le x && x.le (readyScore now) then 1 else 0) := by
  rw [promote_answer h]
  show Except.ok (SortedSet.range (delayedEntries m queue) _ _).length = _
  rw [hentry, SortedSet.range_singleton]
  split
  · rfl
  · rfl

/-- A job is scheduled for the beginning of the calendar, and once more by a later call
for its end: its one entry then has the second of the end, and it is not promoted at a
time at which it would have been without the later call. -/
theorem scheduled_again_later :
    let first : Move := .act (.schedule "jobs" reminder .min "" .min)
    let again : Move := .act (.schedule "jobs" reminder .max "" .min)
    delayedEntries ((Crowd.start 0).run [first]).store "jobs" =
        [(readyScore .min, reminder.write)] ∧
      (answer (promote "jobs" .min) ((Crowd.start 0).run [first]).store).1 = .ok 1 ∧
      delayedEntries ((Crowd.start 0).run [first, again]).store "jobs" =
        [(readyScore .max, reminder.write)] ∧
      (answer (promote "jobs" .min) ((Crowd.start 0).run [first, again]).store).1 = .ok 0 := by
  intro first again
  have hstart := Crowd.sound_start 0
  have hfirst : delayedEntries ((Crowd.start 0).run [first]).store "jobs" =
      [(readyScore .min, reminder.write)] := by
    rw [Crowd.run_cons, Crowd.run_nil, hstart.delayedEntries_step_schedule, if_pos rfl]
    rfl
  have hagain : delayedEntries ((Crowd.start 0).run [first, again]).store "jobs" =
      [(readyScore .max, reminder.write)] := by
    have hs : ((Crowd.start 0).run [first]).Sound := hstart.run [first]
    show delayedEntries (((Crowd.start 0).run [first]).step again).store "jobs" = _
    rw [hs.delayedEntries_step_schedule, if_pos rfl, hfirst]
    rfl
  refine ⟨hfirst, ?_, hagain, ?_⟩
  · rw [promote_of_singleton (hstart.run [first]).unlocked hfirst]
    decide
  · rw [promote_of_singleton (hstart.run [first, again]).unlocked hagain]
    decide

end Queue
end Courier
