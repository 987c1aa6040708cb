import Courier.Proofs.Store.Existence
import Courier.Proofs.Store.Locking
import Mathlib.Data.List.Induction

/-!
# What a range of scores lists

The scores under a key come about by changes, one after the other: a member is given a
score, a member is taken out, or the key is cleared of all it holds.  A score stands for a
member if nothing that came later concerns the member.  The members that a range lists are
those with a standing score in its bounds, and their order is that of the scores and then
of the bytes, whatever the place of the members in the set.

**Results.**
* `Binary64.totalKey_injective`, `Binary64.totalKey_lt_iff_le`: the order of the scores.
* `SortedSet.pairwise_range`, `SortedSet.range_congr`: the order of a range, which its
  members and their scores determine.
* `ScoreChange`, `Standing`: changes of scores, and the scores that stand after them.
* `SortedSet.mem_changed`: the members of a set after its changes.
* `Call.sortedSet_perform`, `Store.sortedSet_after`: the changes that a run makes.
* `Store.range_by_standing_scores`: all of it, after every run.
-/

namespace Courier

namespace Binary64

theorem toNat_bits
    (x : Binary64) :
    x.bits.toNat = (if x.isNegative then signBit else 0) + x.magnitude := by
  have hbits : x.bits.toNat < 2 ^ 64 := x.bits.toNat_lt
  by_cases h : signBit ≤ x.bits.toNat
  · simp only [isNegative, magnitude, h, decide_true, if_true]
    simp only [signBit] at h ⊢
    omega
  · simp only [isNegative, magnitude, h, decide_false, Bool.false_eq_true, if_false]
    rw [Nat.mod_eq_of_lt (Nat.not_le.1 h), Nat.zero_add]

/-- Words at the same place of the total order are the same. -/
theorem totalKey_injective :
    Function.Injective totalKey := by
  intro x y h
  have hx := x.toNat_bits
  have hy := y.toNat_bits
  have hbits : x.bits.toNat = y.bits.toNat := by
    rw [totalKey, totalKey] at h
    cases hxn : x.isNegative with
    | true =>
        cases hyn : y.isNegative with
        | true =>
            simp only [hxn, hyn, if_true] at h hx hy
            omega
        | false =>
            simp only [hxn, hyn, if_true, Bool.false_eq_true, if_false] at h
            omega
    | false =>
        cases hyn : y.isNegative with
        | true =>
            simp only [hxn, hyn, if_true, Bool.false_eq_true, if_false] at h
            omega
        | false =>
            simp only [hxn, hyn, Bool.false_eq_true, if_false] at h hx hy
            omega
  have hword : x.bits = y.bits := UInt64.toNat_inj.1 hbits
  cases x
  cases y
  exact congrArg mk hword

/-- Numbers are in the total order as they are in the numeric one, but that the negative
zero comes before zero. -/
theorem totalKey_lt_iff_le
    {x y : Binary64}
    (hx : x.isNaN = false)
    (hy : y.isNaN = false) :
    x.totalKey < y.totalKey ↔ y.le x = false ∨ (x = zero.neg ∧ y = zero) := by
  have hnegZero : x = zero.neg ↔ x.totalKey = -1 := by
    rw [← totalKey_injective.eq_iff]
    rfl
  have hzero : y = zero ↔ y.totalKey = 0 := by
    rw [← totalKey_injective.eq_iff]
    rfl
  have hle : y.le x = false ↔ x.orderKey < y.orderKey := by
    rw [le, hx, hy]
    simp
  rw [hnegZero, hzero, hle, totalKey, totalKey, orderKey, orderKey]
  split
  · split
    · omega
    · omega
  · split
    · omega
    · omega

end Binary64

namespace SortedSet

theorem not_before_of_before
    {a b : Binary64 × Bytes}
    (hab : Before a b) :
    ¬ Before b a := by
  rintro (hba | ⟨heq, hba⟩)
  · rcases hab with hab | ⟨heq, -⟩
    · exact absurd hab (Int.not_lt.2 (Int.le_of_lt hba))
    · exact absurd heq.symm (Int.ne_of_lt hba)
  · rcases hab with hab | ⟨-, hab⟩
    · exact absurd heq.symm (Int.ne_of_lt hab)
    · exact List.lt_asymm hab hba

/-- A range is in the order of the scores, and of the bytes where scores agree. -/
theorem pairwise_range
    {s : SortedSet}
    (h : s.members.Nodup)
    (min max : Binary64) :
    (s.range min max).Pairwise fun b c =>
      ∀ x y, (x, b) ∈ s → (y, c) ∈ s → Before (x, b) (y, c) := by
  have hsub : (s.filter fun e => min.le e.1 && e.1.le max).Sublist s := List.filter_sublist
  have hsorted := pairwise_mergeSort (h.sublist (hsub.map _))
  rw [range, List.pairwise_map]
  refine hsorted.imp_of_mem fun {a b} ha hb hab x y hx hy => ?_
  have ha : a ∈ s := hsub.mem (List.mem_mergeSort.1 ha)
  have hb : b ∈ s := hsub.mem (List.mem_mergeSort.1 hb)
  obtain rfl := score_unique h hx ha
  obtain rfl := score_unique h hy hb
  exact hab

/-- The members with their scores determine a range, whatever their places are. -/
theorem range_congr
    {s t : SortedSet}
    (hs : s.members.Nodup)
    (ht : t.members.Nodup)
    (h : ∀ e, e ∈ s ↔ e ∈ t)
    (min max : Binary64) :
    s.range min max = t.range min max := by
  let inBounds : Binary64 × Bytes → Bool := fun e => min.le e.1 && e.1.le max
  have hperm : (s.filter inBounds).Perm (t.filter inBounds) :=
    ((List.perm_ext_iff_of_nodup hs.of_map ht.of_map).2 h).filter inBounds
  have hsorted : ∀ {u : SortedSet}, u.members.Nodup →
      ((u.filter inBounds).mergeSort entryLe).Pairwise Before := fun hu =>
    pairwise_mergeSort (hu.sublist (List.filter_sublist.map _))
  have hlisted : (s.filter inBounds).mergeSort entryLe = (t.filter inBounds).mergeSort entryLe :=
    List.Perm.eq_of_pairwise (fun a b _ _ hab hba => absurd hba (not_before_of_before hab))
      (hsorted hs) (hsorted ht)
      ((List.mergeSort_perm _ _).trans (hperm.trans (List.mergeSort_perm _ _).symm))
  exact congrArg (List.map (·.2)) hlisted

end SortedSet

/-- A change of the scores in a store. -/
inductive ScoreChange where
  /-- A member is given a score. -/
  | give (key : String) (member : Bytes) (score : Binary64)
  /-- A member is taken out. -/
  | take (key : String) (member : Bytes)
  /-- All members under a key are taken out. -/
  | clear (key : String)

namespace ScoreChange

/-- A change gives a member a score or takes it out. -/
def Concerns (key : String) (member : Bytes) : ScoreChange → Prop
  | .give k b _ => k = key ∧ b = member
  | .take k b => k = key ∧ b = member
  | .clear k => k = key

/-- The set under a key after a change. -/
def effect (key : String) (s : SortedSet) : ScoreChange → SortedSet
  | .give k b x => if k = key then s.add b x else s
  | .take k b => if k = key then s.remove b else s
  | .clear k => if k = key then [] else s

variable {key : String} {s : SortedSet}

theorem nodup_effect
    (h : s.members.Nodup)
    (change : ScoreChange) :
    (change.effect key s).members.Nodup := by
  cases change with
  | give k b x =>
      rw [effect]
      split
      · exact SortedSet.nodup_members_add h b x
      · exact h
  | take k b =>
      rw [effect]
      split
      · exact SortedSet.nodup_members_remove h b
      · exact h
  | clear k =>
      rw [effect]
      split
      · exact List.nodup_nil
      · exact h

/-- After a change a member has the score that it is given, or the one that it had if the
change does not concern it. -/
theorem mem_effect
    (h : s.members.Nodup)
    (change : ScoreChange)
    {x : Binary64}
    {b : Bytes} :
    (x, b) ∈ change.effect key s ↔
      change = .give key b x ∨ ((x, b) ∈ s ∧ ¬ change.Concerns key b) := by
  cases change with
  | give k c y =>
      rw [effect, Concerns, give.injEq]
      by_cases hk : k = key
      · rw [if_pos hk, SortedSet.mem_add h, eq_comm (a := b), eq_comm (a := x), ne_comm (a := b),
          and_comm (a := c ≠ b)]
        simp only [hk, true_and]
      · rw [if_neg hk]
        simp [hk]
  | take k c =>
      rw [effect, Concerns]
      by_cases hk : k = key
      · rw [if_pos hk, SortedSet.remove, List.mem_filter, decide_eq_true_eq]
        simp only [reduceCtorEq, false_or, hk, true_and, ne_comm (a := b), ne_eq]
      · rw [if_neg hk]
        simp [hk]
  | clear k =>
      rw [effect, Concerns]
      by_cases hk : k = key
      · simp [hk]
      · simp [hk]

end ScoreChange

/-- A score was given to a member by the last change that concerns it. -/
def Standing (changes : List ScoreChange) (key : String) (member : Bytes) (x : Binary64) : Prop :=
  ∃ before rest, changes = before ++ .give key member x :: rest ∧
    ∀ change ∈ rest, ¬ change.Concerns key member

theorem standing_concat
    {changes : List ScoreChange}
    {change : ScoreChange}
    {key : String}
    {member : Bytes}
    {x : Binary64} :
    Standing (changes ++ [change]) key member x ↔
      change = .give key member x ∨
        (Standing changes key member x ∧ ¬ change.Concerns key member) := by
  constructor
  · rintro ⟨before, rest, hsplit, hrest⟩
    rcases rest.eq_nil_or_concat with rfl | ⟨rest, last, rfl⟩
    · obtain ⟨-, hlast⟩ := List.append_inj' hsplit rfl
      exact Or.inl (List.singleton_inj.1 hlast)
    · rw [List.concat_eq_append] at hsplit hrest
      have hsplit' : changes ++ [change] = (before ++ .give key member x :: rest) ++ [last] := by
        rw [hsplit, List.append_assoc, List.cons_append]
      obtain ⟨hchanges, hlast⟩ := List.append_inj' hsplit' rfl
      obtain rfl := List.singleton_inj.1 hlast
      refine Or.inr ⟨⟨before, rest, hchanges, fun c hc => hrest c ?_⟩, hrest change ?_⟩
      · exact List.mem_append_left _ hc
      · exact List.mem_append_right _ (List.mem_singleton_self change)
  · rintro (rfl | ⟨⟨before, rest, rfl, hrest⟩, hchange⟩)
    · exact ⟨changes, [], rfl, fun c hc => absurd hc List.not_mem_nil⟩
    · refine ⟨before, rest ++ [change], by simp, fun c hc => ?_⟩
      rcases List.mem_append.1 hc with hc | hc
      · exact hrest c hc
      · rwa [List.mem_singleton.1 hc]

namespace SortedSet

/-- The set under a key after changes from the beginning. -/
def changed (key : String) (changes : List ScoreChange) : SortedSet :=
  changes.foldl (fun s change => change.effect key s) []

theorem changed_concat
    (key : String)
    (changes : List ScoreChange)
    (change : ScoreChange) :
    changed key (changes ++ [change]) = change.effect key (changed key changes) := by
  rw [changed, List.foldl_append]
  rfl

theorem nodup_changed
    (key : String)
    (changes : List ScoreChange) :
    (changed key changes).members.Nodup := by
  induction changes using List.reverseRecOn with
  | nil => exact List.nodup_nil
  | append_singleton changes change ih =>
      rw [changed_concat]
      exact change.nodup_effect ih

/-- **The members of a set are those with a standing score.** -/
theorem mem_changed
    {key : String}
    {changes : List ScoreChange}
    {x : Binary64}
    {b : Bytes} :
    (x, b) ∈ changed key changes ↔ Standing changes key b x := by
  induction changes using List.reverseRecOn with
  | nil =>
      refine iff_of_false List.not_mem_nil ?_
      rintro ⟨before, rest, hsplit, -⟩
      exact absurd hsplit (by simp)
  | append_singleton changes change ih =>
      rw [changed_concat, change.mem_effect (nodup_changed key changes), standing_concat, ih]

end SortedSet

/-- The change of scores that an operation of a batch makes. -/
def BatchOp.scoreChange? : BatchOp → Option ScoreChange
  | .pushFront _ _ => none
  | .sortedAdd key member score => some (.give key member score)
  | .sortedRemove key member => some (.take key member)

namespace Store

/-- The changes of scores that a call makes. -/
def Call.scoreChanges : Call → List ScoreChange
  | .sortedAdd key member score => [.give key member score]
  | .sortedRemove key member => [.take key member]
  | .delete keys => keys.map .clear
  | .executeBatch ops => ops.filterMap BatchOp.scoreChange?
  | .set key _ _ => [.clear key]
  | _ => []

def Move.scoreChanges : Move → List ScoreChange
  | .call c => c.scoreChanges
  | _ => []

/-- The changes of scores that a run makes, in order. -/
def scoreChanges (moves : List Move) : List ScoreChange :=
  moves.flatMap Move.scoreChanges

/-- A call gives scores, takes members out or deletes keys. -/
def Call.OnScores : Call → Prop
  | .sortedAdd .. | .sortedRemove .. | .delete .. | .executeBatch .. => True
  | _ => False

theorem scoreChanges_concat
    (moves : List Move)
    (move : Move) :
    scoreChanges (moves ++ [move]) = scoreChanges moves ++ move.scoreChanges := by
  rw [scoreChanges, List.flatMap_append, List.flatMap_singleton]
  rfl

end Store

namespace Data

theorem sortedSet_apply
    (d : Data)
    (op : BatchOp)
    (key : String) :
    (d.apply op).sortedSet key =
      op.scoreChange?.toList.foldl (fun s change => change.effect key s) (d.sortedSet key) := by
  cases op with
  | pushFront k value => rfl
  | sortedAdd k member score => exact d.sortedSet_sortedAdd k key member score
  | sortedRemove k member => exact d.sortedSet_sortedRemove k key member

theorem sortedSet_applyAll
    (d : Data)
    (ops : List BatchOp)
    (key : String) :
    (d.applyAll ops).sortedSet key =
      (ops.filterMap BatchOp.scoreChange?).foldl (fun s change => change.effect key s)
        (d.sortedSet key) := by
  induction ops generalizing d with
  | nil => rfl
  | cons op ops ih =>
      show ((d.apply op).applyAll ops).sortedSet key = _
      rw [ih, sortedSet_apply, List.filterMap_cons]
      cases op.scoreChange? with
      | none => rfl
      | some change => rfl

theorem sortedSet_removeAll
    (d : Data)
    (now : Nat)
    (keys : List String)
    (key : String) :
    (d.removeAll now keys).2.sortedSet key =
      (keys.map ScoreChange.clear).foldl (fun s change => change.effect key s)
        (d.sortedSet key) := by
  induction keys generalizing d with
  | nil => rfl
  | cons k ks ih =>
      show ((d.remove now k).2.removeAll now ks).2.sortedSet key = _
      rw [ih, sortedSet_remove]
      rfl

theorem sortedSet_purge
    (d : Data)
    (now : Nat)
    (k key : String) :
    (d.purge now k).sortedSet key = d.sortedSet key := by
  obtain ⟨values, hpurge⟩ := d.purge_eq now k
  rw [hpurge]
  rfl

theorem sortedSet_increment
    (d : Data)
    (now : Nat)
    (k : String)
    (amount : Int64)
    (key : String) :
    (d.increment now k amount).2.sortedSet key = d.sortedSet key := by
  rw [← d.sortedSet_purge now k]
  simp only [increment]
  split
  · rfl
  · split
    · rfl
    · split
      · rfl
      · rfl

end Data

namespace Store

section Perform

variable {m : Memory} (h : m.poisoned = false)

theorem sortedSet_store
    (m : Memory)
    (d : Data)
    (k : String)
    (value : Bytes)
    (ttl : Option Duration)
    (key : String) :
    (m.store d k value ttl).2.data.sortedSet key = d.sortedSet key := by
  rw [Memory.store_eq]
  split
  · rfl
  · rfl

include h

theorem sortedSet_onData
    {α : Type}
    (f : Data → Except StoreError α × Data)
    (key : String) :
    (m.onData f).2.data.sortedSet key = (f m.data).2.sortedSet key := by
  rw [Memory.onData_of_not_poisoned h]

theorem sortedSet_useData
    {α : Type}
    (f : Data → α × Data)
    (key : String) :
    (m.useData f).2.data.sortedSet key = (f m.data).2.sortedSet key :=
  sortedSet_onData h _ key

theorem sortedSet_setIfAbsent
    (k : String)
    (value : Bytes)
    (ttl : Option Duration)
    (key : String) :
    (m.setIfAbsent k value ttl).2.data.sortedSet key = m.data.sortedSet key := by
  rw [Memory.setIfAbsent_eq h]
  split
  · exact m.data.sortedSet_purge m.clock k key
  · exact (sortedSet_store m _ k value ttl key).trans (m.data.sortedSet_purge m.clock k key)

theorem sortedSet_blockingPopBack
    (k : String)
    (wait : Duration)
    (key : String) :
    (m.blockingPopBack k wait).2.data.sortedSet key = m.data.sortedSet key := by
  cases hd : deadline? m.clock wait with
  | none => rw [Memory.blockingPopBack_overflow hd]
  | some deadline =>
      rw [Memory.blockingPopBack_eq h hd]
      exact m.data.sortedSet_popBack k key

/-- **A call.**  Where the data can be locked, a call changes the set under a key by the
changes of scores that it makes. -/
theorem Call.sortedSet_perform
    (call : Call)
    (key : String) :
    (m.perform call).2.data.sortedSet key =
      call.scoreChanges.foldl (fun s change => change.effect key s) (m.data.sortedSet key) := by
  cases call
  all_goals simp only [Memory.perform]
  case pushFront k value => exact sortedSet_useData h _ key
  case popBack k => exact (sortedSet_useData h _ key).trans (m.data.sortedSet_popBack k key)
  case blockingPopBack k wait => exact sortedSet_blockingPopBack h k wait key
  case listLen k => exact sortedSet_useData h _ key
  case delete ks =>
    exact (sortedSet_useData h _ key).trans (m.data.sortedSet_removeAll m.clock ks key)
  case sortedAdd k member score =>
    exact (sortedSet_useData h _ key).trans (m.data.sortedSet_sortedAdd k key member score)
  case rangeByScore k min max => exact sortedSet_useData h _ key
  case sortedRemove k member =>
    exact (sortedSet_useData h _ key).trans (m.data.sortedSet_sortedRemove k key member)
  case sortedLen k => exact sortedSet_useData h _ key
  case executeBatch ops =>
    exact (sortedSet_useData h _ key).trans (m.data.sortedSet_applyAll ops key)
  case set k value ttl =>
    rw [Memory.set_eq h]
    exact (sortedSet_store m _ k value ttl key).trans (m.data.sortedSet_remove m.clock k key)
  case setIfAbsent k value ttl => exact sortedSet_setIfAbsent h k value ttl key
  case get k => exact (sortedSet_useData h _ key).trans (m.data.sortedSet_purge m.clock k key)
  case contains k => exact (sortedSet_useData h _ key).trans (m.data.sortedSet_purge m.clock k key)
  case increment k amount =>
    exact (sortedSet_onData h _ key).trans (m.data.sortedSet_increment m.clock k amount key)
  case keysMatching pattern => exact sortedSet_useData h _ key
  case nextMessage id wait =>
    rw [Memory.nextMessage]
    split
    · rfl
    · rfl
  all_goals rfl

end Perform

/-- **A run.**  A run that leaves the data lockable leaves under a key the set that the
changes of scores make. -/
theorem sortedSet_after
    {now : Nat}
    {moves : List Move}
    (h : (Memory.after now moves).poisoned = false)
    (key : String) :
    (Memory.after now moves).data.sortedSet key = SortedSet.changed key (scoreChanges moves) := by
  induction moves using List.reverseRecOn with
  | nil => rfl
  | append_singleton moves move ih =>
      rw [Memory.after_concat] at h ⊢
      have hbefore : (Memory.after now moves).poisoned = false := by
        by_contra hbefore
        rw [Bool.not_eq_false] at hbefore
        have hpoisoned := (poisoned_step (Memory.after now moves) move).2 (Or.inl hbefore)
        rw [h] at hpoisoned
        exact Bool.false_ne_true hpoisoned
      rw [scoreChanges_concat, SortedSet.changed, List.foldl_append, ← SortedSet.changed,
        ← ih hbefore]
      cases move with
      | call call => exact call.sortedSet_perform hbefore key
      | release id => rfl
      | pass time => rfl

/-- Calls that give scores, take members out or delete keys leave the data lockable. -/
theorem not_poisoned_of_onScores
    (now : Nat)
    {calls : List Call}
    (h : ∀ call ∈ calls, call.OnScores) :
    (Memory.after now (calls.map .call)).poisoned = false := by
  rw [← Bool.not_eq_true, poisoned_after]
  rintro ⟨before, call, rest, hsplit, hbreaks⟩
  have hmem : Move.call call ∈ calls.map Move.call := by
    rw [hsplit]
    exact List.mem_append_right _ List.mem_cons_self
  obtain ⟨call', hmem', heq⟩ := List.mem_map.1 hmem
  obtain rfl := Move.call.inj heq
  have hscores := h call' hmem'
  cases call' with
  | set key value ttl => exact hscores
  | setIfAbsent key value ttl => exact hscores
  | _ => exact hbreaks

theorem rangeByScore_eq
    {m : Memory}
    (h : m.poisoned = false)
    (key : String)
    (min max : Binary64) :
    (m.rangeByScore key min max).1 = .ok ((m.data.sortedSet key).range min max) := by
  rw [Memory.rangeByScore, Memory.useData_of_not_poisoned h]

/-- **A range lists the members by the scores that stand.**  Calls that give scores, take
members out, delete keys or do so in batches leave a store whose data can be locked.
After every run that does, a range under a key is answered.  It lists each member whose
standing score is in its bounds, none twice and no other, in the total order of the
scores and, at one score, in the order of the bytes.  Two runs after which the same
scores stand under a key have the same ranges there.  The total order of two numbers is
their numeric order, but that the negative zero comes before zero. -/
theorem range_by_standing_scores :
    (∀ (now : Nat) (calls : List Call), (∀ call ∈ calls, call.OnScores) →
      (Memory.after now (calls.map .call)).poisoned = false) ∧
    (∀ now moves, (Memory.after now moves).poisoned = false → ∀ key min max, ∃ answer,
      ((Memory.after now moves).rangeByScore key min max).1 = .ok answer ∧
        answer.Nodup ∧
        (∀ member, member ∈ answer ↔
          ∃ x, Standing (scoreChanges moves) key member x ∧
            min.le x = true ∧ x.le max = true) ∧
        answer.Pairwise fun b c =>
          ∀ x y, Standing (scoreChanges moves) key b x → Standing (scoreChanges moves) key c y →
            x.totalKey < y.totalKey ∨ (x = y ∧ b < c)) ∧
    (∀ now later moves others, (Memory.after now moves).poisoned = false →
      (Memory.after later others).poisoned = false → ∀ key,
      (∀ member x, Standing (scoreChanges moves) key member x ↔
        Standing (scoreChanges others) key member x) → ∀ min max,
      ((Memory.after now moves).rangeByScore key min max).1 =
        ((Memory.after later others).rangeByScore key min max).1) ∧
    ∀ x y : Binary64, x.isNaN = false → y.isNaN = false →
      (x.totalKey < y.totalKey ↔
        y.le x = false ∨ (x = Binary64.zero.neg ∧ y = Binary64.zero)) := by
  have hrange : ∀ {now moves}, (Memory.after now moves).poisoned = false → ∀ key min max,
      ((Memory.after now moves).rangeByScore key min max).1 =
        .ok ((SortedSet.changed key (scoreChanges moves)).range min max) := by
    intro now moves hlock key min max
    rw [rangeByScore_eq hlock, sortedSet_after hlock]
  refine ⟨fun now calls => not_poisoned_of_onScores now, fun now moves hlock key min max => ?_,
    fun now later moves others hlock hothers key hsame min max => ?_,
    fun x y hx hy => Binary64.totalKey_lt_iff_le hx hy⟩
  · have hnodup := SortedSet.nodup_changed key (scoreChanges moves)
    refine ⟨_, hrange hlock key min max, SortedSet.nodup_range hnodup min max,
      fun member => ?_, ?_⟩
    · simp only [SortedSet.mem_range, SortedSet.mem_changed]
    · refine (SortedSet.pairwise_range hnodup min max).imp fun hbefore x y hx hy => ?_
      rcases hbefore x y (SortedSet.mem_changed.2 hx) (SortedSet.mem_changed.2 hy) with
        hlt | ⟨heq, hbytes⟩
      · exact Or.inl hlt
      · exact Or.inr ⟨Binary64.totalKey_injective heq, hbytes⟩
  · rw [hrange hlock, hrange hothers]
    refine congrArg Except.ok (SortedSet.range_congr (SortedSet.nodup_changed key _)
      (SortedSet.nodup_changed key _) ?_ min max)
    rintro ⟨x, b⟩
    rw [SortedSet.mem_changed, SortedSet.mem_changed]
    exact hsame b x

end Store
end Courier
