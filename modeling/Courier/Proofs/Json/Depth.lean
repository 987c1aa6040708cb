import Courier.Proofs.Json.Integers
import Courier.Proofs.Json.Values

/-!
# What is read nests no deeper than the limit

The reader of a value opens no more containers than it may, so what it reads has no more
levels.  Putting members in their order adds none, even where equal keys are merged.  What a
record passes over is not limited, but nothing of it is kept.

**Results.**
* `elementsFrom_keeps`, `membersFrom_keeps`: what holds of each entry that is read.
* `nesting_of_value`: the levels of a value that is read.
* `Value.nesting_normalize`: its canonical form has no more.
* `nesting_of_read_object`: the levels of an object that is read.
-/

namespace Courier
namespace Json

theorem exists_of_map_ok
    {ε α β : Type}
    {x : Except ε α}
    {f : α → β}
    {w : β}
    (h : x.map f = .ok w) :
    ∃ v, x = .ok v ∧ f v = w := by
  cases x with
  | error e => exact absurd h (by simp [Except.map])
  | ok v => exact ⟨v, rfl, Except.ok.inj h⟩

section Entries

variable {α : Type} {item : Reader α} {P : α → Prop}
variable (hitem : ∀ s v (r : Rest s), item s = .ok (v, r) → P v)
include hitem

/-- What holds of all that a reader reads holds of the elements of a list. -/
theorem elementsFrom_keeps
    {first : Bool}
    {acc vs : List α}
    {s : Bytes}
    {r : Rest s}
    (hread : elementsFrom item first acc s = .ok (vs, r))
    (hacc : ∀ v ∈ acc, P v) :
    ∀ v ∈ vs, P v := by
  induction first, acc, s using elementsFrom.induct item generalizing vs with
  | case1 first acc s f hnext =>
      rw [elementsFrom, hnext] at hread
      exact absurd hread (by simp)
  | case2 first acc s q hnext =>
      rw [elementsFrom, hnext] at hread
      obtain ⟨p, -, hentries⟩ := exists_of_map_ok hread
      obtain rfl := (Prod.mk.inj hentries).1
      exact fun v hv => hacc v (List.mem_reverse.1 hv)
  | case3 first acc s q hnext f hfail =>
      rw [elementsFrom, hnext] at hread
      simp only [hfail] at hread
      exact absurd hread (by simp)
  | case4 first acc s q hnext v p hv ih =>
      rw [elementsFrom, hnext] at hread
      simp only [hv] at hread
      obtain ⟨ws, z, hrest, rfl, -⟩ := of_map_eq_ok (fun _ _ => ⟨rfl, rfl⟩) hread
      exact ih hrest (List.forall_mem_cons.2 ⟨hitem _ v p hv, hacc⟩)

/-- What holds of all that a reader reads holds of the members of an object. -/
theorem membersFrom_keeps
    {first : Bool}
    {acc ms : List (String × α)}
    {s : Bytes}
    {r : Rest s}
    (hread : membersFrom item first acc s = .ok (ms, r))
    (hacc : ∀ m ∈ acc, P m.2) :
    ∀ m ∈ ms, P m.2 := by
  induction first, acc, s using membersFrom.induct item generalizing ms with
  | case1 first acc s f hnext =>
      rw [membersFrom, hnext] at hread
      exact absurd hread (by simp)
  | case2 first acc s q hnext =>
      rw [membersFrom, hnext] at hread
      obtain ⟨p, -, hentries⟩ := exists_of_map_ok hread
      obtain rfl := (Prod.mk.inj hentries).1
      exact fun m hm => hacc m (List.mem_reverse.1 hm)
  | case3 first acc s q hnext f hkey =>
      rw [membersFrom, hnext] at hread
      simp only [hkey] at hread
      exact absurd hread (by simp)
  | case4 first acc s q hnext key p hkey f hcolon =>
      rw [membersFrom, hnext] at hread
      simp only [hkey, hcolon] at hread
      exact absurd hread (by simp)
  | case5 first acc s q hnext key p hkey c hcolon f hfail =>
      rw [membersFrom, hnext] at hread
      simp only [hkey, hcolon, hfail] at hread
      exact absurd hread (by simp)
  | case6 first acc s q hnext key p hkey c hcolon v z hv ih =>
      rw [membersFrom, hnext] at hread
      simp only [hkey, hcolon, hv] at hread
      obtain ⟨ws, y, hrest, rfl, -⟩ := of_map_eq_ok (fun _ _ => ⟨rfl, rfl⟩) hread
      exact ih hrest (List.forall_mem_cons.2 ⟨hitem _ v z hv, hacc⟩)

end Entries

/-- What is read is no container, or a container whose entries the inner reader has read. -/
theorem valueOf_cases
    {inner? : Option (Reader Value)}
    {s : Bytes}
    {v : Value}
    {r : Rest s}
    (h : valueOf inner? s = .ok (v, r)) :
    v.nesting = 0 ∨
      (∃ entry t vs, ∃ q : Rest t, inner? = some entry ∧
        elementsFrom entry true [] t = .ok (vs, q) ∧ v = .array vs) ∨
      ∃ entry t ms, ∃ q : Rest t, inner? = some entry ∧
        membersFrom entry true [] t = .ok (ms, q) ∧ v = .object ms := by
  have plain : ∀ {β : Type} {t : Bytes} {x : Except Fault β} {g : β → Value × Rest t}
      {w : Value} {q : Rest t}, (∀ y, (g y).1.nesting = 0) → x.map g = .ok (w, q) →
      w.nesting = 0 := by
    intro β t x g w q hplain hmap
    obtain ⟨y, -, hy⟩ := exists_of_map_ok hmap
    rw [← hplain y, hy]
  rw [valueOf, atToken] at h
  split at h
  · exact absurd h (by simp)
  · next b t hle hfront =>
      obtain ⟨w, q, hread, rfl, -⟩ := of_map_eq_ok (f := id) (fun _ _ => ⟨rfl, rfl⟩) h
      split at hread
      · exact Or.inl (plain (fun _ => rfl) hread)
      split at hread
      · exact Or.inl (plain (fun _ => rfl) hread)
      split at hread
      · exact Or.inl (plain (fun _ => rfl) hread)
      split at hread
      · exact Or.inl (plain (fun _ => rfl) hread)
      split at hread
      · exact Or.inl (plain (fun _ => rfl) hread)
      split at hread
      · exact Or.inl (plain (fun _ => rfl) hread)
      split at hread
      · cases inner? with
        | none => exact absurd hread (by simp)
        | some entry =>
            obtain ⟨⟨vs, z⟩, helements, harray⟩ := exists_of_map_ok hread
            exact Or.inr (Or.inl ⟨entry, t, vs, z, rfl, helements, (Prod.mk.inj harray).1.symm⟩)
      split at hread
      · cases inner? with
        | none => exact absurd hread (by simp)
        | some entry =>
            obtain ⟨⟨ms, z⟩, hmembers, hobject⟩ := exists_of_map_ok hread
            exact Or.inr (Or.inr ⟨entry, t, ms, z, rfl, hmembers, (Prod.mk.inj hobject).1.symm⟩)
      · exact absurd hread (by simp)

/-- **A value that is read has no more levels than containers may be opened.** -/
theorem nesting_of_value
    {depth : Nat}
    {s : Bytes}
    {v : Value}
    {r : Rest s}
    (h : value depth s = .ok (v, r)) :
    v.nesting ≤ depth := by
  induction depth generalizing s v with
  | zero =>
      rw [value] at h
      rcases valueOf_cases h with hzero | ⟨entry, -, -, -, hnone, -⟩ | ⟨entry, -, -, -, hnone, -⟩
      · exact Nat.le_of_eq hzero
      · exact absurd hnone (by simp)
      · exact absurd hnone (by simp)
  | succ d ih =>
      rw [value] at h
      rcases valueOf_cases h with hzero | ⟨entry, t, vs, q, hinner, helements, rfl⟩ |
        ⟨entry, t, ms, q, hinner, hmembers, rfl⟩
      · exact hzero ▸ Nat.zero_le _
      · obtain rfl := Option.some.inj hinner
        have hitems := elementsFrom_keeps (fun _ _ _ => ih) helements (List.forall_mem_nil _)
        rw [Value.nesting, Nat.add_le_add_iff_right, Value.nestingItems_le]
        exact hitems
      · obtain rfl := Option.some.inj hinner
        have hitems := membersFrom_keeps (fun _ _ _ => ih) hmembers (List.forall_mem_nil _)
        rw [Value.nesting, Nat.add_le_add_iff_right, Value.nestingMembers_le]
        exact hitems

namespace Value

theorem mem_of_mem_insertMember
    {k : String}
    {v : Value}
    {ms : List (String × Value)}
    {m : String × Value}
    (h : m ∈ insertMember k v ms) :
    m = (k, v) ∨ m ∈ ms := by
  induction ms with
  | nil => exact Or.inl (List.mem_singleton.1 h)
  | cons n ms ih =>
      obtain ⟨l, w⟩ := n
      rw [insertMember] at h
      split at h
      · exact List.mem_cons.1 h
      · split at h
        · rcases List.mem_cons.1 h with rfl | hm
          · exact Or.inl rfl
          · exact Or.inr (List.mem_cons_of_mem _ hm)
        · rcases List.mem_cons.1 h with rfl | hm
          · exact Or.inr List.mem_cons_self
          · rcases ih hm with rfl | hm
            · exact Or.inl rfl
            · exact Or.inr (List.mem_cons_of_mem _ hm)

/-- The members that are put in order have the canonical values of those that were given. -/
theorem nesting_of_mem_normalizeMembers
    {d : Nat}
    {acc ms : List (String × Value)}
    (hacc : ∀ m ∈ acc, m.2.nesting ≤ d)
    (hms : ∀ m ∈ ms, m.2.normalize.nesting ≤ d) :
    ∀ m ∈ normalizeMembers acc ms, m.2.nesting ≤ d := by
  induction ms generalizing acc with
  | nil =>
      rw [normalizeMembers]
      exact hacc
  | cons n ms ih =>
      obtain ⟨k, v⟩ := n
      rw [List.forall_mem_cons] at hms
      rw [normalizeMembers]
      refine ih (fun m hm => ?_) hms.2
      rcases mem_of_mem_insertMember hm with rfl | hm
      · exact hms.1
      · exact hacc m hm

theorem nesting_of_mem_normalizeItems
    {d : Nat}
    {vs : List Value}
    (h : ∀ v ∈ vs, v.normalize.nesting ≤ d) :
    ∀ v ∈ normalizeItems vs, v.nesting ≤ d := by
  induction vs with
  | nil =>
      rw [normalizeItems]
      exact List.forall_mem_nil _
  | cons v vs ih =>
      rw [List.forall_mem_cons] at h
      rw [normalizeItems, List.forall_mem_cons]
      exact ⟨h.1, ih h.2⟩

/-- **The canonical form of a value has no more levels.** -/
theorem nesting_normalize
    (v : Value) :
    v.normalize.nesting ≤ v.nesting := by
  induction v using entriesInduction with
  | null => exact Nat.le_refl _
  | bool b => exact Nat.le_refl _
  | number n => exact Nat.le_refl _
  | string s => exact Nat.le_refl _
  | array vs ih =>
      have hvs := (nestingItems_le vs).1 (Nat.le_refl _)
      rw [normalize, nesting, nesting, Nat.add_le_add_iff_right, nestingItems_le]
      exact nesting_of_mem_normalizeItems fun v hv => Nat.le_trans (ih v hv) (hvs v hv)
  | object ms ih =>
      have hms := (nestingMembers_le ms).1 (Nat.le_refl _)
      rw [normalize, nesting, nesting, Nat.add_le_add_iff_right, nestingMembers_le]
      exact nesting_of_mem_normalizeMembers (List.forall_mem_nil _) fun m hm =>
        Nat.le_trans (ih m hm) (hms m hm)

end Value

theorem Object.nesting_ofMembers_le
    {d : Nat}
    {ms : List (String × Value)}
    (h : ∀ m ∈ ms, m.2.nesting ≤ d) :
    (ofMembers ms).nesting ≤ d + 1 := by
  rw [nesting, Nat.add_le_add_iff_right, Value.nestingMembers_le]
  exact Value.nesting_of_mem_normalizeMembers (List.forall_mem_nil _) fun m hm =>
    Nat.le_trans m.2.nesting_normalize (h m hm)

/-- **An object that is read has no more levels than containers may be opened.** -/
theorem nesting_of_read_object
    {depth : Nat}
    {s : Bytes}
    {o : Object}
    {r : Rest s}
    (h : Decode.read (α := Object) depth s = .ok (o, r)) :
    o.nesting ≤ depth := by
  simp only [Decode.read, atToken] at h
  split at h
  · exact absurd h (by simp)
  · next b t hle hfront =>
      obtain ⟨v, q, hread, rfl, -⟩ := of_map_eq_ok (f := id) (fun _ _ => ⟨rfl, rfl⟩) h
      split at hread
      · cases depth with
        | zero => exact absurd hread (by simp)
        | succ d =>
            obtain ⟨⟨ms, z⟩, hmembers, hobject⟩ := exists_of_map_ok hread
            obtain rfl := (Prod.mk.inj hobject).1
            exact Object.nesting_ofMembers_le <|
              membersFrom_keeps (fun _ _ _ => nesting_of_value) hmembers (List.forall_mem_nil _)
      · exact absurd hread (wrongType_ne_ok _ _ _)

end Json
end Courier
