import Courier.Proofs.Binary64.Value
import Courier.Proofs.Queue.Scores
import Courier.Proofs.Store.Independence

/-!
# What a promotion moves

Every job that waits is listed under the whole second at which it becomes ready, and
that second is exact.  A promotion therefore moves the jobs whose second has come, and
no others.  It puts them one by one at the front of the live queue, from which jobs are
taken at the back: what was live before is taken first, and then what was moved, the
earliest second first.

**Results.**
* `value_readyScore`: the score of a ready time is its second.
* `timed_delayedEntries`: every delayed entry has the score of some ready time.
* `pops_eq`: what one client takes from a queue when it takes alone.
* `promoted_when_due`: a promotion, after every run.
-/

namespace Courier

namespace Calendar.Timestamp

/-- Seconds of the calendar have far fewer than 53 bits. -/
theorem natAbs_unixSeconds_lt
    (t : Timestamp) :
    t.unixSeconds.natAbs < 2 ^ 53 := by
  have hmin : (-96465292 : Int) ≤ minDay := by decide
  have hmax : maxDay ≤ 95026236 := by decide
  have hlow := t.minDay_le
  have hhigh := t.day_le
  have hsecond := t.second_lt
  rw [unixSeconds]
  omega

end Calendar.Timestamp

namespace Queue

theorem value_readyScore
    (t : Calendar.Timestamp) :
    (readyScore t).value = t.unixSeconds :=
  Binary64.value_ofInt t.natAbs_unixSeconds_lt

/-- Every entry of a set has the score of some ready time. -/
def Timed (s : SortedSet) : Prop :=
  ∀ e ∈ s, ∃ t, e.1 = readyScore t

/-- One entry is ready before another: at an earlier second, or with smaller bytes at the
same second. -/
def Earlier (a b : Binary64 × Bytes) : Prop :=
  a.1.value < b.1.value ∨ (a.1.value = b.1.value ∧ a.2 < b.2)

/-- The entries whose second has come. -/
def due (s : SortedSet) (now : Calendar.Timestamp) : SortedSet :=
  s.filter fun e => e.1.value ≤ now.unixSeconds

/-- The entries whose second is still to come. -/
def notDue (s : SortedSet) (now : Calendar.Timestamp) : SortedSet :=
  s.filter fun e => now.unixSeconds < e.1.value

/-- The entries whose second has come, in the order in which they are promoted. -/
def ready (s : SortedSet) (now : Calendar.Timestamp) : SortedSet :=
  (due s now).mergeSort SortedSet.entryLe

namespace Timed

variable {s : SortedSet} (hs : Timed s)
include hs

theorem totalKey_lt_iff
    {a b : Binary64 × Bytes}
    (ha : a ∈ s)
    (hb : b ∈ s) :
    a.1.totalKey < b.1.totalKey ↔ a.1.value < b.1.value := by
  obtain ⟨t, ht⟩ := hs a ha
  obtain ⟨u, hu⟩ := hs b hb
  rw [ht, hu]
  exact Binary64.totalKey_lt_iff (Binary64.value_ofInt_ne_zero t.natAbs_unixSeconds_lt)
    (Binary64.value_ofInt_ne_zero u.natAbs_unixSeconds_lt)

theorem earlier
    {a b : Binary64 × Bytes}
    (ha : a ∈ s)
    (hb : b ∈ s)
    (hab : SortedSet.Before a b) :
    Earlier a b := by
  rcases hab with hlt | ⟨heq, hbytes⟩
  · exact Or.inl ((hs.totalKey_lt_iff ha hb).1 hlt)
  · refine Or.inr ⟨le_antisymm ?_ ?_, hbytes⟩
    · exact not_lt.1 fun h => Int.ne_of_lt ((hs.totalKey_lt_iff hb ha).2 h) heq.symm
    · exact not_lt.1 fun h => Int.ne_of_lt ((hs.totalKey_lt_iff ha hb).2 h) heq

theorem filter_eq_due
    (now : Calendar.Timestamp) :
    (s.filter fun e => Binary64.negInfinity.le e.1 && e.1.le (readyScore now)) = due s now := by
  refine List.filter_congr fun e he => ?_
  obtain ⟨t, ht⟩ := hs e he
  rw [ht, readyScore, Binary64.negInfinity_le_ofInt, Bool.true_and, readyScore,
    Binary64.le_eq_decide_value (Binary64.isNaN_ofInt _) (Binary64.isNaN_ofInt _)]
  exact decide_eq_decide.2 (by rw [← readyScore, ← readyScore, value_readyScore now])

/-- What a promoter reads are the members of the entries whose second has come. -/
theorem range_eq
    (now : Calendar.Timestamp) :
    s.range .negInfinity (readyScore now) = (ready s now).members := by
  rw [SortedSet.range, hs.filter_eq_due]
  rfl

theorem pairwise_ready
    (hn : s.members.Nodup)
    (now : Calendar.Timestamp) :
    (ready s now).Pairwise Earlier := by
  have hsub : (due s now).Sublist s := List.filter_sublist
  have hmem : ∀ e ∈ ready s now, e ∈ s := fun e he =>
    hsub.mem ((List.mergeSort_perm _ _).mem_iff.1 he)
  have hbefore : (ready s now).Pairwise SortedSet.Before :=
    SortedSet.pairwise_mergeSort (hn.sublist (hsub.map _))
  exact hbefore.imp_of_mem fun ha hb => hs.earlier (hmem _ ha) (hmem _ hb)

omit hs in
theorem perm_ready
    (s : SortedSet)
    (now : Calendar.Timestamp) :
    (ready s now).Perm (due s now) :=
  List.mergeSort_perm _ _

omit hs in
/-- Without the members whose second has come, the others are left. -/
theorem filter_notMem_ready
    (hn : s.members.Nodup)
    (now : Calendar.Timestamp) :
    (s.filter fun e => e.2 ∉ (ready s now).members) = notDue s now := by
  refine List.filter_congr fun e he => decide_eq_decide.2 ?_
  rw [SortedSet.members, ((perm_ready s now).map _).mem_iff, List.mem_map]
  constructor
  · intro h
    refine not_le.1 fun hle => h ⟨e, List.mem_filter.2 ⟨he, decide_eq_true hle⟩, rfl⟩
  · rintro hlt ⟨e', he', hsame⟩
    obtain ⟨hmem, hle⟩ := List.mem_filter.1 he'
    -- The member is listed once, so the entry found is the one at hand.
    obtain rfl : e' = e := List.inj_on_of_nodup_map hn hmem he hsame
    exact absurd (of_decide_eq_true hle) (not_le.2 hlt)

omit hs in
theorem due_notDue
    (s : SortedSet)
    (now : Calendar.Timestamp) :
    due (notDue s now) now = [] := by
  refine List.filter_eq_nil_iff.2 fun e he hle => ?_
  exact absurd (of_decide_eq_true hle) (not_le.2 (of_decide_eq_true (List.mem_filter.1 he).2))

theorem notDue
    (now : Calendar.Timestamp) :
    Timed (notDue s now) :=
  fun e he => hs e (List.mem_filter.1 he).1

end Timed

/-- After every run, each delayed entry has the score of some ready time. -/
theorem timed_delayedEntries
    (clock : Nat)
    (moves : List Move)
    (queue : String) :
    Timed (delayedEntries ((Crowd.start clock).run moves).store queue) := by
  rintro ⟨x, entry⟩ he
  rcases ((Crowd.sound_start clock).mem_delayedEntries_run moves).1 he with ⟨hstart, -⟩ | hlast
  · exact absurd hstart List.not_mem_nil
  · obtain ⟨-, m, -, -, ⟨job, readyAt, fresh, now, -, -, hscore⟩, -⟩ := hlast
    exact ⟨readyAt, hscore.symm⟩

/-- The answers to a number of pops, one after the other. -/
def pops (queue : String) : Nat → Memory → List (Except QueueError (Option Job))
  | 0, _ => []
  | n + 1, m =>
      (answer (popNonBlocking queue) m).1 :: pops queue n (answer (popNonBlocking queue) m).2

/-- One client that takes alone takes the live entries from back to front, and finds
nothing once they are taken. -/
theorem pops_eq
    {m : Memory}
    (h : m.poisoned = false)
    (queue : String)
    (n : Nat) :
    pops queue n m =
      (List.range n).map fun i => popped ((liveEntries m queue).reverse[i]?) := by
  induction n generalizing m with
  | zero => rfl
  | succ n ih =>
      have hrest : ∀ i, (liveEntries m queue).dropLast.reverse[i]? =
          (liveEntries m queue).reverse[i + 1]? := by
        intro i
        rw [← List.tail_reverse, List.getElem?_tail]
      let after : Memory := { m with data := (m.data.popBack queue).2 }
      have hafter : liveEntries after queue = (liveEntries m queue).dropLast := by
        rw [liveEntries, Data.list_popBack, if_pos rfl]
        rfl
      have hp : after.poisoned = false := h
      rw [pops, popNonBlocking_answer h]
      show popped (liveEntries m queue).getLast? :: pops queue n after = _
      rw [ih hp, hafter, List.range_succ_eq_map, List.map_cons, List.map_map,
        ← List.head?_eq_getElem?, List.head?_reverse]
      simp only [hrest]
      rfl

/-- Moving entries leaves alone what is not the live list of their queue or its
delayed set. -/
theorem under_applyAll_moves
    (d : Data)
    (queue key : String)
    (entries : List Bytes) :
    let after := (d.applyAll (moves queue entries)).under key
    (queue ≠ key → after.list = (d.under key).list) ∧
      (delayedKey queue ≠ key → after.sorted = (d.under key).sorted) ∧
      after.value = (d.under key).value := by
  induction entries generalizing d with
  | nil => exact ⟨fun _ => rfl, fun _ => rfl, rfl⟩
  | cons entry entries ih =>
      rw [applyAll_moves_cons]
      obtain ⟨hlist, hsorted, hvalue⟩ := ih ((d.pushFront queue entry).sortedRemove
        (delayedKey queue) entry).2
      rw [Data.under_sortedRemove, Data.under_pushFront] at hlist hsorted hvalue
      refine ⟨fun hne => ?_, fun hne => ?_, ?_⟩
      · rw [hlist hne, if_neg hne]
        split <;> rfl
      · rw [hsorted hne, if_neg hne]
        split <;> rfl
      · rw [hvalue]
        split <;> split <;> rfl

section Promote

variable
    {m : Memory}
    (h : m.poisoned = false)
    {queue : String}
    (ht : Timed (delayedEntries m queue))
include h ht

theorem promote_answer_ready
    (now : Calendar.Timestamp) :
    let entries := (ready (delayedEntries m queue) now).members
    answer (promote queue now) m =
      (.ok entries.length, { m with data := m.data.applyAll (moves queue entries) }) := by
  have hanswer := promote_answer h queue now
  rw [show m.data.sortedSet (delayedKey queue) = delayedEntries m queue from rfl,
    ht.range_eq] at hanswer
  exact hanswer

theorem liveEntries_promote
    (now : Calendar.Timestamp) :
    (liveEntries (answer (promote queue now) m).2 queue).reverse =
      (liveEntries m queue).reverse ++ (ready (delayedEntries m queue) now).members := by
  rw [promote_answer_ready h ht, liveEntries, list_applyAll_moves, if_pos rfl,
    List.reverse_append, List.reverse_reverse]
  rfl

theorem delayedEntries_promote
    (hn : (delayedEntries m queue).members.Nodup)
    (now : Calendar.Timestamp) :
    delayedEntries (answer (promote queue now) m).2 queue =
      notDue (delayedEntries m queue) now := by
  rw [promote_answer_ready h ht, delayedEntries, sortedSet_applyAll_moves, if_pos rfl]
  exact Timed.filter_notMem_ready hn now

end Promote

theorem length_due_add_notDue
    (s : SortedSet)
    (now : Calendar.Timestamp) :
    (due s now).length + (notDue s now).length = s.length := by
  rw [due, notDue, ← List.countP_eq_length_filter, ← List.countP_eq_length_filter,
    List.length_eq_countP_add_countP fun e => decide (e.1.value ≤ (now.unixSeconds : ℚ))]
  refine congrArg (List.countP _ s + ·) (List.countP_congr fun e _ => ?_)
  rw [decide_eq_true_eq, decide_eq_true_eq, decide_eq_true_eq, not_le]

/-- Dropping the delayed jobs of a queue is clearing the queue that has the name of their
key, so that runs of clients that clear any queue include it. -/
theorem clearDelayed_eq_clear
    (queue : String)
    (m : Memory) :
    answer (clearDelayed queue) m = answer (clear (delayedKey queue)) m := rfl

/-- **A promotion moves what is due, in order, and nothing else.**  After every run of
clients that put jobs on any queues, schedule them, take them, clear queues and promote
them, a promotion of a queue answers the number of entries of its delayed set whose
score is at most the whole second of its reading; every score is the whole second of
some ready time.  The other entries stay in the set with the scores that they had.
Whoever takes alone from the queue then takes what was live before, in the order it was
in, and after it the entries that were moved, by score and where scores agree by bytes.
The number of live jobs has grown by what was moved and that of delayed jobs has fallen
by it; no other list, no other set and no value of the store has changed; and a second
promotion at the same reading has nothing left to move. -/
theorem promoted_when_due
    (clock : Nat)
    (run : List Move)
    (queue : String)
    (now : Calendar.Timestamp) :
    let m := ((Crowd.start clock).run run).store
    let after := (answer (promote queue now) m).2
    let n := (due (delayedEntries m queue) now).length
    Timed (delayedEntries m queue) ∧
      (answer (promote queue now) m).1 = .ok n ∧
      delayedEntries after queue = notDue (delayedEntries m queue) now ∧
      (∃ moved : SortedSet, moved.Perm (due (delayedEntries m queue) now) ∧
        moved.Pairwise Earlier ∧
        (liveEntries after queue).reverse = (liveEntries m queue).reverse ++ moved.members ∧
        ∀ k, pops queue k after = (List.range k).map fun i =>
          popped ((liveEntries m queue).reverse ++ moved.members)[i]?) ∧
      (∃ live waiting,
        (answer (size queue) m).1 = .ok live ∧
        (answer (size queue) after).1 = .ok (live + n) ∧
        (answer (delayedSize queue) m).1 = .ok (waiting + n) ∧
        (answer (delayedSize queue) after).1 = .ok waiting) ∧
      (after = { m with data := after.data } ∧ ∀ key,
        (queue ≠ key → (after.data.under key).list = (m.data.under key).list) ∧
        (delayedKey queue ≠ key → (after.data.under key).sorted = (m.data.under key).sorted) ∧
        (after.data.under key).value = (m.data.under key).value) ∧
      (answer (promote queue now) after).1 = .ok 0 := by
  intro m after n
  have hs : ((Crowd.start clock).run run).Sound := (Crowd.sound_start clock).run run
  have h : m.poisoned = false := hs.unlocked
  have hn : (delayedEntries m queue).members.Nodup := hs.nodup_delayedEntries queue
  have ht : Timed (delayedEntries m queue) := timed_delayedEntries clock run queue
  have hlength : (ready (delayedEntries m queue) now).members.length = n := by
    rw [SortedSet.members, List.length_map, (Timed.perm_ready _ now).length_eq]
  have hanswer := promote_answer_ready h ht now
  have hafter : after = { m with
      data := m.data.applyAll (moves queue (ready (delayedEntries m queue) now).members) } :=
    congrArg Prod.snd hanswer
  have hp : after.poisoned = false := by
    rw [hafter]
    exact h
  have hlive := liveEntries_promote h ht now
  have hwaiting : delayedEntries after queue = notDue (delayedEntries m queue) now :=
    delayedEntries_promote h ht hn now
  refine ⟨ht, ?_, hwaiting, ⟨ready (delayedEntries m queue) now, Timed.perm_ready _ now,
    ht.pairwise_ready hn now, hlive, fun k => ?_⟩,
    ⟨(liveEntries m queue).length, (notDue (delayedEntries m queue) now).length,
      ?_, ?_, ?_, ?_⟩,
    ⟨?_, fun key => ?_⟩, ?_⟩
  · rw [hanswer, hlength]
  · rw [pops_eq hp, hlive]
  · rw [size_answer h]
    rfl
  · have hsize := congrArg List.length hlive
    rw [List.length_reverse, List.length_append, List.length_reverse, hlength] at hsize
    rw [size_answer hp]
    exact congrArg Except.ok hsize
  · rw [delayedSize_answer h, Nat.add_comm, length_due_add_notDue]
    rfl
  · rw [delayedSize_answer hp]
    exact congrArg (fun s : SortedSet => Except.ok s.length) hwaiting
  · rw [hafter]
  · rw [hafter]
    exact under_applyAll_moves m.data queue key _
  · have ht' : Timed (delayedEntries after queue) := by
      rw [hwaiting]
      exact ht.notDue now
    rw [promote_answer_ready hp ht', hwaiting, ready, Timed.due_notDue, List.mergeSort_nil]
    rfl

end Queue
end Courier
