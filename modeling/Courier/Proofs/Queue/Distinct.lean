import Courier.Proofs.Json.Insertion
import Courier.Proofs.Queue.Separation
import Courier.Proofs.Record.RoundTrip

/-!
# Different jobs stay apart while they wait

A job that waits for its time is known by its bytes alone.  Different jobs have different
bytes, those included whose payload is too deep to be read back, so as many jobs wait as
different ones have been scheduled.  The order in which the members of a payload were given
makes no different job.

**Results.**
* `Plan`, `scheduleAll`, `scheduleAll_run`: jobs that are scheduled one after the other.
* `Data.members_sortedAddAll`: entries of different bytes are all listed.
* `Queue.different_jobs_stay_apart`: the jobs, their bytes, and the number of those that wait.
-/

namespace Courier

/-- Gives members of a sorted set their scores, one after the other. -/
def Data.sortedAddAll (d : Data) (key : String) (entries : List (Binary64 × Bytes)) : Data :=
  entries.foldl (fun d e => d.sortedAdd key e.2 e.1) d

/-- Entries of different bytes, none of them in the set, are all listed. -/
theorem Data.members_sortedAddAll
    {d : Data}
    {key : String}
    {entries : List (Binary64 × Bytes)}
    (h : ((d.sortedSet key).members ++ SortedSet.members entries).Nodup) :
    ((d.sortedAddAll key entries).sortedSet key).members =
      (d.sortedSet key).members ++ SortedSet.members entries := by
  induction entries generalizing d with
  | nil => exact (List.append_nil _).symm
  | cons e entries ih =>
      have hfresh : e.2 ∉ (d.sortedSet key).members := fun hmem =>
        (List.nodup_append.1 h).2.2 e.2 hmem e.2 List.mem_cons_self rfl
      have hadd : ((d.sortedAdd key e.2 e.1).sortedSet key).members =
          (d.sortedSet key).members ++ [e.2] := by
        rw [sortedSet_sortedAdd, if_pos rfl, SortedSet.members_add, if_neg hfresh]
      rw [SortedSet.members_cons, List.append_cons, ← hadd] at h ⊢
      exact ih h

/-- A job with an identifier and a creation time is scheduled as it is. -/
theorem Job.ensureDefaults_of_complete
    {job : Job}
    (hid : job.id ≠ "")
    (htime : job.createdAt.isSome = true)
    (fresh : String)
    (now : Calendar.Timestamp) :
    job.ensureDefaults fresh now = job := by
  obtain ⟨t, ht⟩ := Option.isSome_iff_exists.1 htime
  obtain ⟨id, type, payload, createdAt, retries⟩ := job
  simp only at hid ht
  subst ht
  rw [ensureDefaults, if_neg hid]
  rfl

namespace Queue

/-- A job with the time at which it becomes ready, and what the call that schedules it gives
a job that has no identifier or no creation time. -/
structure Plan where
  job : Job
  readyAt : Calendar.Timestamp
  fresh : String
  now : Calendar.Timestamp

/-- The job as it is scheduled. -/
def Plan.filled (p : Plan) : Job :=
  p.job.ensureDefaults p.fresh p.now

/-- The entry of the job in the delayed set. -/
def Plan.entry (p : Plan) : Binary64 × Bytes :=
  (readyScore p.readyAt, p.filled.write)

/-- Lets jobs wait for their times, one after the other. -/
def scheduleAll {σ : Type} [Store σ] (queue : String) (plans : List Plan) :
    StateM σ (List (Except QueueError Unit × Job)) :=
  plans.mapM fun p => pushDelayedAt queue p.job p.readyAt p.fresh p.now

theorem scheduleAll_run_cons
    (queue : String)
    (p : Plan)
    (plans : List Plan)
    (m : Memory) :
    (scheduleAll queue (p :: plans)).run m =
      let first := (pushDelayedAt queue p.job p.readyAt p.fresh p.now).run m
      let others := (scheduleAll queue plans).run first.2
      (first.1 :: others.1, others.2) := by
  rw [scheduleAll, List.mapM_cons]
  rfl

/-- Every job is accepted, and its entry is given its time. -/
theorem scheduleAll_run
    {m : Memory}
    (h : m.poisoned = false)
    (queue : String)
    (plans : List Plan) :
    (scheduleAll queue plans).run m =
      (plans.map fun p => (.ok (), p.filled),
        { m with data := m.data.sortedAddAll (delayedKey queue) (plans.map Plan.entry) }) := by
  induction plans generalizing m with
  | nil => rfl
  | cons p plans ih =>
      have hothers := ih (m := { m with
        data := m.data.sortedAdd (delayedKey queue) p.filled.write (readyScore p.readyAt) }) h
      rw [scheduleAll_run_cons, pushDelayedAt_run h]
      exact congrArg (fun others => ((.ok (), p.filled) :: others.1, others.2)) hothers

/-- The delayed set lists the jobs of a plan that is carried out on an empty queue. -/
theorem members_scheduleAll
    {m : Memory}
    {queue : String}
    (hempty : delayedEntries m queue = [])
    {plans : List Plan}
    (hentries : (plans.map fun p => p.filled.write).Nodup) :
    ((m.data.sortedAddAll (delayedKey queue) (plans.map Plan.entry)).sortedSet
      (delayedKey queue)).members = plans.map fun p => p.filled.write := by
  have hmembers : SortedSet.members (plans.map Plan.entry) = plans.map fun p => p.filled.write :=
    List.map_map
  have hnone : (m.data.sortedSet (delayedKey queue)).members = [] :=
    congrArg SortedSet.members hempty
  have hnodup : ((m.data.sortedSet (delayedKey queue)).members ++
      SortedSet.members (plans.map Plan.entry)).Nodup := by
    rwa [hnone, List.nil_append, hmembers]
  rw [Data.members_sortedAddAll hnodup, hnone, List.nil_append, hmembers]

/-- **Different jobs stay apart while they wait.**  Two jobs without floating-point numbers,
however deep their payloads are, are encoded as the same bytes exactly if they are the same
job, and the order in which the members of a payload are given, at any level, makes no other
payload.  On a queue where no job waits, jobs that have an identifier and a creation time and
are pairwise different are all accepted as they are, for whatever times, and then as many
jobs wait. -/
theorem different_jobs_stay_apart :
    (∀ j k : Job, j.payload.isExact = true → k.payload.isExact = true →
      ∃ a b, Codec.encode Job.kind j = .ok a ∧ Codec.encode Job.kind k = .ok b ∧
        (a = b ↔ j = k)) ∧
    (∀ ms ns : List (String × Json.Value), Json.Value.Reordered (.object ms) (.object ns) →
      Json.Object.ofMembers ms = Json.Object.ofMembers ns) ∧
    ∀ (m : Memory) (queue : String) (plans : List Plan), m.poisoned = false →
      delayedEntries m queue = [] →
      (∀ p ∈ plans, p.job.payload.isExact = true ∧ p.job.id ≠ "" ∧
        p.job.createdAt.isSome = true) →
      (plans.map Plan.job).Nodup →
      ∃ after, (scheduleAll queue plans).run m = (plans.map fun p => (.ok (), p.job), after) ∧
        (answer (delayedSize queue) after).1 = .ok plans.length := by
  refine ⟨fun j k hj hk => ⟨j.write, k.write, rfl, rfl, Job.write_inj hj hk⟩,
    fun ms ns => Json.Object.ofMembers_eq_of_reordered,
    fun m queue plans hlock hempty hplans hjobs => ?_⟩
  have hfilled : ∀ p ∈ plans, p.filled = p.job := fun p hp =>
    Job.ensureDefaults_of_complete (hplans p hp).2.1 (hplans p hp).2.2 p.fresh p.now
  have hentries : (plans.map fun p => p.filled.write).Nodup := by
    refine List.Nodup.map_on (fun p hp q hq hwrite => ?_) hjobs.of_map
    rw [hfilled p hp, hfilled q hq, Job.write_inj (hplans p hp).1 (hplans q hq).1] at hwrite
    exact List.inj_on_of_nodup_map hjobs hp hq hwrite
  let after : Memory :=
    { m with data := m.data.sortedAddAll (delayedKey queue) (plans.map Plan.entry) }
  have hlength := congrArg List.length (members_scheduleAll hempty hentries)
  rw [SortedSet.members, List.length_map, List.length_map] at hlength
  refine ⟨after, ?_, ?_⟩
  · rw [scheduleAll_run hlock,
      List.map_congr_left fun p hp => congrArg (Prod.mk (Except.ok ())) (hfilled p hp)]
  · rw [delayedSize_answer (m := after) hlock]
    exact congrArg Except.ok hlength

end Queue
end Courier
