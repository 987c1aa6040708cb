import Courier.Proofs.Calendar.Instant
import Courier.Proofs.Queue.Ready

/-!
# Delays to the second

A delay is added to a clock reading, and the whole second of the sum is what the entry of
the job is listed under.  Both ways in which the sum can fail, a delay that cannot be
added and a sum beyond the calendar, end at the last instant.  A promotion compares the
second of the entry with the whole second of its own reading; as both are rounded down,
no job is late for that, and none is early by a whole second.

**Results.**
* `unixNanos_readyTime`, `unixSeconds_readyTime`: the ready time after a delay.
* `Promotes`, `Leaves`: what a promotion does to an entry.
* `promotes_iff`: a promotion moves what is due.
* `moved_to_the_second`: a job that is put off by a delay, in every run.
-/

namespace Courier
namespace Queue

/-- The place of a clock reading with a delay added, no later than the last instant. -/
def readyNanos (now : Calendar.Timestamp) (delay : Duration) : Int :=
  min (now.unixNanos + delay.nanos) Calendar.Timestamp.max.unixNanos

/-- The whole second of a clock reading with a delay added. -/
def readySecond (now : Calendar.Timestamp) (delay : Duration) : Int :=
  readyNanos now delay / 1000000000

/-- **The ready time is the sum, or the last instant where the sum is behind it.** -/
theorem unixNanos_readyTime
    (now : Calendar.Timestamp)
    (delay : Duration) :
    (readyTime now delay).unixNanos = readyNanos now delay := by
  have hbehind : Calendar.Timestamp.max.unixNanos < now.unixNanos + delay.nanos →
      Calendar.Timestamp.max.unixNanos = readyNanos now delay := fun h =>
    (Int.min_eq_right h.le).symm
  rw [readyTime]
  split
  · cases hsum : now.add? delay with
    | none => exact hbehind (Calendar.Timestamp.add?_eq_none_iff.1 hsum)
    | some r =>
        have hplace := Calendar.Timestamp.unixNanos_of_add? hsum
        have hle := r.unixNanos_le_max
        rw [hplace] at hle
        exact hplace.trans (Int.min_eq_left hle).symm
  · next hspan =>
      exact hbehind (now.lt_unixNanos_add_of_not_isSpan (Bool.eq_false_iff.2 hspan))

theorem unixSeconds_readyTime
    (now : Calendar.Timestamp)
    (delay : Duration) :
    (readyTime now delay).unixSeconds = readySecond now delay := by
  rw [← Calendar.Timestamp.unixNanos_div, unixNanos_readyTime, readySecond]

theorem readySecond_mono
    (now : Calendar.Timestamp)
    {shorter longer : Duration}
    (h : shorter.nanos ≤ longer.nanos) :
    readySecond now shorter ≤ readySecond now longer := by
  rw [readySecond, readySecond, readyNanos, readyNanos]
  omega

/-- Rounding down makes nothing late, and nothing early by a whole second. -/
theorem readySecond_le_iff
    (now t : Calendar.Timestamp)
    (delay : Duration) :
    (readyNanos now delay ≤ t.unixNanos → readySecond now delay ≤ t.unixSeconds) ∧
      (readySecond now delay ≤ t.unixSeconds →
        readyNanos now delay - 1000000000 < t.unixNanos) := by
  have hsecond := t.unixNanos_div
  rw [readySecond]
  omega

/-- A promotion of a queue puts an entry that waits on the live queue, where it waits no more. -/
def Promotes (queue : String) (entry : Bytes) (t : Calendar.Timestamp) (m : Memory) : Prop :=
  let after := (answer (promote queue t) m).2
  entry ∈ (delayedEntries m queue).members ∧
    entry ∉ (delayedEntries after queue).members ∧
    (liveEntries after queue).count entry = (liveEntries m queue).count entry + 1

/-- A promotion of a queue leaves an entry alone. -/
def Leaves (queue : String) (entry : Bytes) (t : Calendar.Timestamp) (m : Memory) : Prop :=
  let after := (answer (promote queue t) m).2
  (∀ x, (x, entry) ∈ delayedEntries after queue ↔ (x, entry) ∈ delayedEntries m queue) ∧
    (liveEntries after queue).count entry = (liveEntries m queue).count entry

section Promote

variable
    {m : Memory}
    (h : m.poisoned = false)
    {queue : String}
    (ht : Timed (delayedEntries m queue))
    (hn : (delayedEntries m queue).members.Nodup)
include h ht hn

/-- Every entry that is read is put on the live queue once. -/
theorem count_promote
    (t : Calendar.Timestamp)
    (entry : Bytes) :
    (liveEntries (answer (promote queue t) m).2 queue).count entry =
      (liveEntries m queue).count entry +
        if entry ∈ (due (delayedEntries m queue) t).members then 1 else 0 := by
  have hperm : ((ready (delayedEntries m queue) t).members).Perm
      (due (delayedEntries m queue) t).members :=
    (Timed.perm_ready _ t).map _
  have hnodup : (due (delayedEntries m queue) t).members.Nodup :=
    hn.sublist (List.filter_sublist.map _)
  rw [← List.count_reverse, liveEntries_promote h ht, List.count_append, List.count_reverse,
    hperm.count_eq, hnodup.count]

/-- **A promotion moves an entry that waits if its second has come, and leaves it alone
otherwise.** -/
theorem promotes_iff
    {x : Binary64}
    {entry : Bytes}
    (hx : (x, entry) ∈ delayedEntries m queue)
    (t : Calendar.Timestamp) :
    (Promotes queue entry t m ↔ x.value ≤ t.unixSeconds) ∧
      (t.unixSeconds < x.value → Leaves queue entry t m) := by
  have hmember : entry ∈ (delayedEntries m queue).members := List.mem_map.2 ⟨_, hx, rfl⟩
  have honly : ∀ y, (y, entry) ∈ delayedEntries m queue → y = x := fun y hy =>
    SortedSet.score_unique hn hy hx
  have hdue : entry ∈ (due (delayedEntries m queue) t).members ↔ x.value ≤ t.unixSeconds := by
    constructor
    · intro hmem
      obtain ⟨e, he, rfl⟩ := List.mem_map.1 hmem
      obtain ⟨he, hle⟩ := List.mem_filter.1 he
      rw [← honly e.1 he]
      exact of_decide_eq_true hle
    · intro hle
      exact List.mem_map.2 ⟨(x, entry), List.mem_filter.2 ⟨hx, decide_eq_true hle⟩, rfl⟩
  have hwaits : ∀ y, (y, entry) ∈ delayedEntries (answer (promote queue t) m).2 queue ↔
      y = x ∧ t.unixSeconds < x.value := by
    intro y
    rw [delayedEntries_promote h ht hn, notDue, List.mem_filter, decide_eq_true_eq]
    constructor
    · rintro ⟨hy, hlt⟩
      obtain rfl := honly y hy
      exact ⟨rfl, hlt⟩
    · rintro ⟨rfl, hlt⟩
      exact ⟨hx, hlt⟩
  have hcount := count_promote h ht hn t entry
  refine ⟨⟨?_, ?_⟩, ?_⟩
  · rintro ⟨-, hgone, -⟩
    refine not_lt.1 fun hlt => hgone ?_
    exact List.mem_map.2 ⟨(x, entry), (hwaits x).2 ⟨rfl, hlt⟩, rfl⟩
  · intro hle
    refine ⟨hmember, fun hmem => ?_, by rw [hcount, if_pos (hdue.2 hle)]⟩
    obtain ⟨e, he, rfl⟩ := List.mem_map.1 hmem
    exact absurd ((hwaits e.1).1 he).2 (not_lt.2 hle)
  · intro hlt
    refine ⟨fun y => (hwaits y).trans ⟨?_, fun hy => ⟨honly y hy, hlt⟩⟩,
      by rw [hcount, if_neg fun hmem => not_le.2 hlt (hdue.1 hmem), Nat.add_zero]⟩
    rintro ⟨rfl, -⟩
    exact hx

end Promote

/-- What is put off by a delay waits under its second, and under no other. -/
theorem Crowd.Sound.mem_delayedEntries_pushDelayed
    {s : Crowd}
    (hs : s.Sound)
    (queue : String)
    (job : Job)
    (delay : Duration)
    (fresh : String)
    (now : Calendar.Timestamp)
    (x : Binary64) :
    let put := (pushDelayed queue job delay fresh now).run s.store
    (x, (job.ensureDefaults fresh now).write) ∈ delayedEntries put.2 queue ↔
      x = readyScore (readyTime now delay) := by
  intro put
  refine (hs.mem_delayedEntries_step_schedule queue job (readyTime now delay) fresh now).trans
    ⟨?_, ?_⟩
  · rintro (hschedules | ⟨-, hspares⟩)
    · exact (Crowd.schedules_iff.1 hschedules).2.2.symm
    · exact absurd (Crowd.schedules_iff.2 ⟨rfl, rfl, rfl⟩)
        (hspares.1 (readyScore (readyTime now delay)))
  · rintro rfl
    exact Or.inl (Crowd.schedules_iff.2 ⟨rfl, rfl, rfl⟩)

/-- **A job that is put off by a delay is promoted to the second.**  After every run of
clients, putting off a job by any delay at any clock reading succeeds, and the entry of the
job has one score: the whole second, rounded down, of the reading with the delay added, or
of the last instant of the calendar where the sum is behind it.  The scores of all instants
are exact.  As long as the job is not scheduled again, whatever else the clients do, its
entry waits until a move takes it out.  While it waits, a promotion at a reading moves it if
the whole second of the reading is at least the score, and leaves it alone if not; so it is
moved at every reading at or behind the sum, and never a full second before the ready time.
Of two delays at one reading, the longer does not end at an earlier second. -/
theorem moved_to_the_second
    (clock : Nat)
    (run : List Move)
    (queue : String)
    (job : Job)
    (delay : Duration)
    (fresh : String)
    (now : Calendar.Timestamp) :
    let s := (Crowd.start clock).run run
    let entry := (job.ensureDefaults fresh now).write
    let put := (pushDelayed queue job delay fresh now).run s.store
    put.1.1 = .ok () ∧
      (∃ score : Binary64, score.value = readySecond now delay ∧
        ∀ x, (x, entry) ∈ delayedEntries put.2 queue ↔ x = score) ∧
      (∀ instant : Calendar.Timestamp, (readyScore instant).value = instant.unixSeconds) ∧
      (∀ rest, (∀ move ∈ rest, ∀ x, ¬ move.Schedules queue entry x) →
        let m := ((s.withStore put.2).run rest).store
        (entry ∈ (delayedEntries m queue).members ↔
          (s.withStore put.2).Untouched queue entry rest) ∧
        (entry ∈ (delayedEntries m queue).members → ∀ t : Calendar.Timestamp,
          (Promotes queue entry t m ↔ readySecond now delay ≤ t.unixSeconds) ∧
          (t.unixSeconds < readySecond now delay → Leaves queue entry t m) ∧
          (now.unixNanos + delay.nanos ≤ t.unixNanos → Promotes queue entry t m) ∧
          (Promotes queue entry t m → readyNanos now delay - 1000000000 < t.unixNanos))) ∧
      ∀ longer : Duration, delay.nanos ≤ longer.nanos →
        readySecond now delay ≤ readySecond now longer := by
  intro s entry put
  have hs : s.Sound := (Crowd.sound_start clock).run run
  let move : Move := .act (.schedule queue job (readyTime now delay) fresh now)
  have hput : s.withStore put.2 = s.step move := rfl
  have hscore : (readyScore (readyTime now delay)).value = readySecond now delay := by
    rw [value_readyScore, unixSeconds_readyTime]
  have hentry : ∀ x, (x, entry) ∈ delayedEntries put.2 queue ↔
      x = readyScore (readyTime now delay) :=
    hs.mem_delayedEntries_pushDelayed queue job delay fresh now
  refine ⟨?_, ⟨_, hscore, hentry⟩, value_readyScore, fun rest hrest => ?_,
    fun longer => readySecond_mono now⟩
  · show ((pushDelayedAt queue job (readyTime now delay) fresh now).run s.store).1.1 = _
    rw [pushDelayedAt_run hs.unlocked]
  intro m
  have hs' : (s.withStore put.2).Sound := hput ▸ hs.step move
  -- No later move gives the entry another score.
  have hwaits : ∀ x, (x, entry) ∈ delayedEntries m queue ↔
      x = readyScore (readyTime now delay) ∧ (s.withStore put.2).Untouched queue entry rest := by
    intro x
    rw [hs'.mem_delayedEntries_run rest, or_iff_left]
    · exact and_congr_left' (hentry x)
    · rintro ⟨before, later, after, rfl, hschedules, -⟩
      exact hrest later (by simp) x hschedules
  refine ⟨⟨fun hmem => ?_, fun huntouched => ?_⟩, fun hmem t => ?_⟩
  · obtain ⟨e, he, hentry⟩ := List.mem_map.1 hmem
    exact ((hwaits e.1).1 (by rwa [← hentry])).2
  · exact List.mem_map.2 ⟨(_, entry), (hwaits _).2 ⟨rfl, huntouched⟩, rfl⟩
  · obtain ⟨e, he, hentry⟩ := List.mem_map.1 hmem
    have hx : (readyScore (readyTime now delay), entry) ∈ delayedEntries m queue :=
      (hwaits _).2 ⟨rfl, ((hwaits e.1).1 (by rwa [← hentry])).2⟩
    have hm : m = ((Crowd.start clock).run (run ++ move :: rest)).store := by
      rw [Crowd.run_append]
      rfl
    have htimed : Timed (delayedEntries m queue) := hm ▸ timed_delayedEntries clock _ queue
    have hm' := hs'.run rest
    obtain ⟨hmoved, hleft⟩ := promotes_iff hm'.unlocked htimed (hm'.nodup_delayedEntries queue) hx t
    rw [hscore, Int.cast_le] at hmoved
    rw [hscore, Int.cast_lt] at hleft
    obtain ⟨hlate, hearly⟩ := readySecond_le_iff now t delay
    refine ⟨hmoved, hleft, fun hsum => hmoved.2 (hlate ?_), fun h => hearly (hmoved.1 h)⟩
    exact Int.le_trans (Int.min_le_left _ _) hsum

end Queue
end Courier
