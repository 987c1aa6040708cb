import Courier.Store.Data
import Mathlib.Data.List.Basic
import Mathlib.Data.List.Nodup

/-!
# What is seen of the data of a store

A list is seen as its values from front to back and a sorted set as its members
with their scores; a key that is absent is seen as empty.  Each operation on the
data is described by what it does to these two views, for its own key and for
every other one.

**Results.**
* `list_pushFront`, `list_popBack`: the operations on lists.
* `SortedSet.members_add`, `SortedSet.members_remove`, `SortedSet.mem_add`: the members
  of a changed set.
* `sortedSet_sortedAdd`, `sortedSet_sortedRemove`: the operations on sorted sets.
* `list_remove`, `sortedSet_remove`: the removal of a key of any kind.
* `SortedSet.mem_range`, `SortedSet.nodup_range`: a range lists members of the
  set, each once.
* `SortedSet.pairwise_mergeSort`: it lists them by score, and by bytes where scores agree.
-/

namespace Courier

/-- What a call to a store took, if it took anything. -/
def taken {α : Type} : Except StoreError (Option α) → List α
  | .ok (some a) => [a]
  | _ => []

@[simp] theorem taken_ok
    {α : Type}
    (a : Option α) :
    taken (.ok a) = a.toList := by
  cases a with
  | none => rfl
  | some a => rfl

namespace KeyMap

variable {β : Type}

theorem get?_set
    (m : KeyMap β)
    (k l : String)
    (v : Option β) :
    (m.set k v).get? l = if k = l then v else m.get? l := by
  cases v with
  | none => exact get?_erase m k l
  | some v => exact get?_insert m k l v

end KeyMap

namespace SortedSet

/-- The members of a sorted set, without their scores. -/
def members (s : SortedSet) : List Bytes :=
  s.map (·.2)

@[simp] theorem members_nil : members [] = [] := rfl

@[simp] theorem members_cons
    (e : Binary64 × Bytes)
    (es : SortedSet) :
    members (e :: es) = e.2 :: members es := rfl

theorem members_add
    (s : SortedSet)
    (member : Bytes)
    (score : Binary64) :
    (s.add member score).members =
      if member ∈ s.members then s.members else s.members ++ [member] := by
  induction s with
  | nil => simp [add]
  | cons e es ih =>
      simp only [add]
      by_cases h : e.2 = member
      · subst h
        simp
      · have hne : ¬ member = e.2 := fun he => h he.symm
        simp only [h, if_false, members_cons, List.mem_cons, hne, false_or, ih]
        split
        · rfl
        · rw [List.cons_append]

theorem members_remove
    (s : SortedSet)
    (member : Bytes) :
    (s.remove member).members = s.members.filter (· ≠ member) := by
  simp [remove, members, List.filter_map, Function.comp_def]

theorem mem_members_add
    {s : SortedSet}
    {member b : Bytes}
    {score : Binary64} :
    b ∈ (s.add member score).members ↔ b = member ∨ b ∈ s.members := by
  rw [members_add]
  split
  · next h =>
      constructor
      · exact Or.inr
      · rintro (rfl | hb)
        · exact h
        · exact hb
  · rw [List.mem_append, List.mem_singleton, or_comm]

theorem nodup_members_add
    {s : SortedSet}
    (h : s.members.Nodup)
    (member : Bytes)
    (score : Binary64) :
    (s.add member score).members.Nodup := by
  rw [members_add]
  split
  · exact h
  · next hm =>
      rw [List.nodup_append]
      refine ⟨h, List.nodup_singleton member, ?_⟩
      intro a ha b hb hab
      rw [List.mem_singleton.1 hb] at hab
      exact hm (hab ▸ ha)

/-- A member of a set has one score. -/
theorem score_unique
    {s : SortedSet}
    (h : s.members.Nodup)
    {x y : Binary64}
    {b : Bytes}
    (hx : (x, b) ∈ s)
    (hy : (y, b) ∈ s) :
    x = y :=
  congrArg Prod.fst (List.inj_on_of_nodup_map h hx hy rfl)

/-- Giving a member a score keeps those of the others. -/
theorem mem_add
    {s : SortedSet}
    (h : s.members.Nodup)
    {member b : Bytes}
    {score x : Binary64} :
    (x, b) ∈ s.add member score ↔ (b = member ∧ x = score) ∨ (b ≠ member ∧ (x, b) ∈ s) := by
  induction s with
  | nil =>
      rw [add, List.mem_singleton, Prod.mk.injEq, and_comm]
      simp
  | cons e es ih =>
      rw [members_cons, List.nodup_cons] at h
      rw [add]
      split
      · next he =>
          subst he
          -- The member is not listed again, so the rest lists others.
          have hrest : (x, b) ∈ es → b ≠ e.2 := by
            rintro hb rfl
            exact h.1 (List.mem_map.2 ⟨_, hb, rfl⟩)
          rw [List.mem_cons, List.mem_cons, Prod.mk.injEq, and_comm]
          refine or_congr Iff.rfl ⟨fun hb => ⟨hrest hb, Or.inr hb⟩, ?_⟩
          rintro ⟨hne, rfl | hb⟩
          · exact absurd rfl hne
          · exact hb
      · next he =>
          rw [List.mem_cons, List.mem_cons, ih h.2]
          constructor
          · rintro (rfl | hb | ⟨hne, hb⟩)
            · exact Or.inr ⟨he, Or.inl rfl⟩
            · exact Or.inl hb
            · exact Or.inr ⟨hne, Or.inr hb⟩
          · rintro (hb | ⟨hne, rfl | hb⟩)
            · exact Or.inr (Or.inl hb)
            · exact Or.inl rfl
            · exact Or.inr (Or.inr ⟨hne, hb⟩)

/-- A range lists members whose scores are in bounds, in another order. -/
theorem range_perm
    (s : SortedSet)
    (min max : Binary64) :
    (s.range min max).Perm (members (s.filter fun e => min.le e.1 && e.1.le max)) :=
  (List.mergeSort_perm _ _).map _

theorem mem_range
    {s : SortedSet}
    {min max : Binary64}
    {b : Bytes} :
    b ∈ s.range min max ↔ ∃ x, (x, b) ∈ s ∧ min.le x = true ∧ x.le max = true := by
  rw [(range_perm s min max).mem_iff, members, List.mem_map]
  constructor
  · rintro ⟨⟨x, c⟩, hx, rfl⟩
    simp only [List.mem_filter, Bool.and_eq_true] at hx
    exact ⟨x, hx⟩
  · rintro ⟨x, hx, hmin, hmax⟩
    exact ⟨(x, b), List.mem_filter.2 ⟨hx, by simp [hmin, hmax]⟩, rfl⟩

theorem nodup_range
    {s : SortedSet}
    (h : s.members.Nodup)
    (min max : Binary64) :
    (s.range min max).Nodup := by
  rw [(range_perm s min max).nodup_iff]
  exact h.sublist (List.filter_sublist.map _)

theorem entryLe_iff
    {a b : Binary64 × Bytes} :
    entryLe a b = true ↔
      a.1.totalKey < b.1.totalKey ∨ (a.1.totalKey = b.1.totalKey ∧ a.2 ≤ b.2) := by
  simp only [entryLe, Bool.or_eq_true, Bool.and_eq_true, decide_eq_true_eq]

theorem entryLe_trans
    (a b c : Binary64 × Bytes)
    (hab : entryLe a b = true)
    (hbc : entryLe b c = true) :
    entryLe a c = true := by
  rw [entryLe_iff] at hab hbc ⊢
  rcases hab with hab | ⟨hab, hle⟩
  · rcases hbc with hbc | ⟨hbc, -⟩
    · exact Or.inl (Int.lt_trans hab hbc)
    · exact Or.inl (hbc ▸ hab)
  · rcases hbc with hbc | ⟨hbc, hle'⟩
    · exact Or.inl (hab ▸ hbc)
    · exact Or.inr ⟨hab.trans hbc, List.le_trans hle hle'⟩

theorem entryLe_total
    (a b : Binary64 × Bytes) :
    (entryLe a b || entryLe b a) = true := by
  rw [Bool.or_eq_true, entryLe_iff, entryLe_iff]
  rcases Int.lt_trichotomy a.1.totalKey b.1.totalKey with hlt | heq | hgt
  · exact Or.inl (Or.inl hlt)
  · rcases List.le_total a.2 b.2 with hle | hle
    · exact Or.inl (Or.inr ⟨heq, hle⟩)
    · exact Or.inr (Or.inr ⟨heq.symm, hle⟩)
  · exact Or.inr (Or.inl hgt)

/-- One entry is listed before another. -/
def Before (a b : Binary64 × Bytes) : Prop :=
  a.1.totalKey < b.1.totalKey ∨ (a.1.totalKey = b.1.totalKey ∧ a.2 < b.2)

/-- Entries that are listed once each are listed in strict order. -/
theorem pairwise_mergeSort
    {s : SortedSet}
    (h : s.members.Nodup) :
    (s.mergeSort entryLe).Pairwise Before := by
  have hsorted : (s.mergeSort entryLe).Pairwise fun a b => entryLe a b = true :=
    List.pairwise_mergeSort entryLe_trans entryLe_total s
  have hmembers : (s.mergeSort entryLe).Pairwise fun a b => a.2 ≠ b.2 := by
    have hperm : (members (s.mergeSort entryLe)).Perm s.members := (List.mergeSort_perm _ _).map _
    exact List.pairwise_map.1 (hperm.nodup_iff.2 h)
  refine (hsorted.and hmembers).imp fun {a b} hab => ?_
  obtain ⟨hle, hne⟩ := hab
  rcases entryLe_iff.1 hle with hlt | ⟨heq, hle⟩
  · exact Or.inl hlt
  · refine Or.inr ⟨heq, ?_⟩
    rcases List.le_iff_lt_or_eq.1 hle with hlt | hsame
    · exact hlt
    · exact absurd hsame hne

end SortedSet

namespace Data

theorem list_pushFront
    (d : Data)
    (key l : String)
    (value : Bytes) :
    (d.pushFront key value).list l =
      if key = l then value :: d.list l else d.list l := by
  simp only [pushFront, list, KeyMap.get?_insert]
  split
  · next h => simp [h]
  · rfl

@[simp] theorem sortedSet_pushFront
    (d : Data)
    (key l : String)
    (value : Bytes) :
    (d.pushFront key value).sortedSet l = d.sortedSet l := rfl

theorem popBack_fst
    (d : Data)
    (key : String) :
    (d.popBack key).1 = (d.list key).getLast? := by
  simp only [popBack, list]
  split
  · next h => simp [h]
  · next h => simp [h]

theorem list_popBack
    (d : Data)
    (key l : String) :
    (d.popBack key).2.list l = if key = l then (d.list l).dropLast else d.list l := by
  simp only [popBack, list]
  split
  · next h =>
      split
      · next hk => simp [← hk, h]
      · rfl
  · next vs h =>
      simp only [KeyMap.get?_set]
      by_cases hk : key = l
      · subst hk
        by_cases hd : vs.dropLast = []
        · simp [h, hd]
        · simp [h, hd]
      · simp [hk]

/-- Once there is nothing to take, taking again changes nothing. -/
theorem popBack_popBack_of_nil
    {d : Data}
    {key : String}
    (h : d.list key = []) :
    ((d.popBack key).2.popBack key).2 = (d.popBack key).2 := by
  cases hget : d.lists.get? key with
  | none => simp only [popBack, hget]
  | some vs =>
      obtain rfl : vs = [] := by simpa [list, hget] using h
      simp [popBack, hget, KeyMap.get?_set]

@[simp] theorem sortedSet_popBack
    (d : Data)
    (key l : String) :
    (d.popBack key).2.sortedSet l = d.sortedSet l := by
  simp only [popBack]
  split
  · rfl
  · rfl

theorem sortedSet_sortedAdd
    (d : Data)
    (key l : String)
    (member : Bytes)
    (score : Binary64) :
    (d.sortedAdd key member score).sortedSet l =
      if key = l then (d.sortedSet l).add member score else d.sortedSet l := by
  simp only [sortedAdd, sortedSet, KeyMap.get?_insert]
  split
  · next h => simp [h]
  · rfl

@[simp] theorem list_sortedAdd
    (d : Data)
    (key l : String)
    (member : Bytes)
    (score : Binary64) :
    (d.sortedAdd key member score).list l = d.list l := rfl

theorem sortedSet_sortedRemove
    (d : Data)
    (key l : String)
    (member : Bytes) :
    (d.sortedRemove key member).2.sortedSet l =
      if key = l then (d.sortedSet l).remove member else d.sortedSet l := by
  simp only [sortedRemove, sortedSet]
  split
  · next h =>
      split
      · next hk => simp [← hk, h, SortedSet.remove]
      · rfl
  · next s h =>
      simp only [KeyMap.get?_set]
      by_cases hk : key = l
      · subst hk
        by_cases hd : SortedSet.remove s member = []
        · simp [h, hd]
        · simp [h, hd]
      · simp [hk]

@[simp] theorem list_sortedRemove
    (d : Data)
    (key l : String)
    (member : Bytes) :
    (d.sortedRemove key member).2.list l = d.list l := by
  simp only [sortedRemove]
  split
  · rfl
  · rfl

theorem purge_eq
    (d : Data)
    (now : Nat)
    (key : String) :
    ∃ values, d.purge now key = { d with values } := by
  unfold purge
  split
  · split
    · exact ⟨_, rfl⟩
    · exact ⟨_, rfl⟩
  · exact ⟨_, rfl⟩

theorem list_remove
    (d : Data)
    (now : Nat)
    (key l : String) :
    (d.remove now key).2.list l = if key = l then [] else d.list l := by
  obtain ⟨values, hpurge⟩ := d.purge_eq now key
  simp only [remove, contains, hpurge, list, KeyMap.get?_erase]
  split
  · rfl
  · rfl

theorem sortedSet_remove
    (d : Data)
    (now : Nat)
    (key l : String) :
    (d.remove now key).2.sortedSet l = if key = l then [] else d.sortedSet l := by
  obtain ⟨values, hpurge⟩ := d.purge_eq now key
  simp only [remove, contains, hpurge, sortedSet, KeyMap.get?_erase]
  split
  · rfl
  · rfl

end Data
end Courier
