/-!
# Maps from keys

A finite map from texts, as the list of its entries in strictly ascending order
of their keys.  Two maps that answer alike are therefore equal.

**Results.**
* `get?`, `insert`, `erase`: reading and changing one key.
* `get?_insert`, `get?_erase`: what the changed maps answer.
-/

namespace Courier

/-- Whether every key of a list of entries is above `k`. -/
def KeyMap.above {β : Type} (k : String) (es : List (String × β)) : Prop :=
  ∀ e, e ∈ es → k < e.1

/-- Whether entries are in strictly ascending order of their keys. -/
def KeyMap.Ascending {β : Type} : List (String × β) → Prop
  | [] => True
  | e :: es => KeyMap.above e.1 es ∧ KeyMap.Ascending es

/-- A finite map from texts. -/
structure KeyMap (β : Type) where
  entries : List (String × β)
  ascending : KeyMap.Ascending entries

namespace KeyMap

variable {β : Type}

/-- The map without entries. -/
def empty : KeyMap β := ⟨[], trivial⟩

instance : Inhabited (KeyMap β) := ⟨empty⟩

/-- The value under a key among entries. -/
def lookup (k : String) : List (String × β) → Option β
  | [] => none
  | e :: es => if e.1 = k then some e.2 else lookup k es

/-- The value under a key. -/
def get? (m : KeyMap β) (k : String) : Option β :=
  lookup k m.entries

/-- Whether a key has a value. -/
def contains (m : KeyMap β) (k : String) : Bool :=
  (m.get? k).isSome

/-- The keys in ascending order. -/
def keys (m : KeyMap β) : List String :=
  m.entries.map (·.1)

/-- Puts an entry in its place, replacing one of the same key. -/
def insertEntry (k : String) (v : β) : List (String × β) → List (String × β)
  | [] => [(k, v)]
  | e :: es =>
      if k < e.1 then (k, v) :: e :: es
      else if k = e.1 then (k, v) :: es
      else e :: insertEntry k v es

/-- Leaves out the entry of a key. -/
def eraseEntry (k : String) (es : List (String × β)) : List (String × β) :=
  es.filter fun e => e.1 ≠ k

theorem lt_of_not_lt_of_ne
    {k l : String}
    (h₁ : ¬ k < l)
    (h₂ : ¬ k = l) :
    l < k := by
  rcases Std.lt_trichotomy k l with h | h | h
  · exact absurd h h₁
  · exact absurd h h₂
  · exact h

theorem mem_insertEntry
    {k : String}
    {v : β}
    {e : String × β}
    (es : List (String × β))
    (h : e ∈ insertEntry k v es) :
    e = (k, v) ∨ e ∈ es := by
  induction es with
  | nil => simpa [insertEntry] using h
  | cons d es ih =>
      simp only [insertEntry] at h
      split at h
      · simpa using h
      · split at h
        · rcases List.mem_cons.1 h with h | h
          · exact Or.inl h
          · exact Or.inr (List.mem_cons_of_mem _ h)
        · rcases List.mem_cons.1 h with h | h
          · exact Or.inr (h ▸ List.mem_cons_self)
          · rcases ih h with h | h
            · exact Or.inl h
            · exact Or.inr (List.mem_cons_of_mem _ h)

theorem ascending_insertEntry
    (k : String)
    (v : β)
    (es : List (String × β))
    (h : Ascending es) :
    Ascending (insertEntry k v es) := by
  induction es with
  | nil => exact ⟨fun e he => by simp at he, trivial⟩
  | cons d es ih =>
      simp only [insertEntry]
      split
      · next hk =>
          refine ⟨fun e he => ?_, h⟩
          rcases List.mem_cons.1 he with he | he
          · exact he ▸ hk
          · exact Std.lt_trans hk (h.1 e he)
      · split
        · next hk => exact ⟨fun e he => by subst hk; exact h.1 e he, h.2⟩
        · next h₁ h₂ =>
            refine ⟨fun e he => ?_, ih h.2⟩
            rcases mem_insertEntry es he with he | he
            · exact he ▸ lt_of_not_lt_of_ne h₁ h₂
            · exact h.1 e he

theorem ascending_filter
    (p : String × β → Bool)
    (es : List (String × β))
    (h : Ascending es) :
    Ascending (es.filter p) := by
  induction es with
  | nil => trivial
  | cons d es ih =>
      simp only [List.filter_cons]
      split
      · exact ⟨fun e he => h.1 e (List.mem_filter.1 he).1, ih h.2⟩
      · exact ih h.2

/-- The map with a value under a key. -/
def insert (m : KeyMap β) (k : String) (v : β) : KeyMap β :=
  ⟨insertEntry k v m.entries, ascending_insertEntry k v _ m.ascending⟩

/-- The map without a key. -/
def erase (m : KeyMap β) (k : String) : KeyMap β :=
  ⟨eraseEntry k m.entries, ascending_filter _ _ m.ascending⟩

/-- The map with a value under a key, or without the key. -/
def set (m : KeyMap β) (k : String) : Option β → KeyMap β
  | some v => m.insert k v
  | none => m.erase k

theorem lookup_insertEntry
    (k l : String)
    (v : β)
    (es : List (String × β)) :
    lookup l (insertEntry k v es) = if k = l then some v else lookup l es := by
  induction es with
  | nil => simp [insertEntry, lookup]
  | cons d es ih =>
      simp only [insertEntry]
      split
      · simp [lookup]
      · split
        · next hk => subst hk; simp only [lookup]; split <;> rfl
        · next _ hk =>
            simp only [lookup, ih]
            by_cases hd : d.1 = l
            · simp [hd, show ¬ k = l from hd ▸ hk]
            · simp [hd]

theorem lookup_eraseEntry
    (k l : String)
    (es : List (String × β)) :
    lookup l (eraseEntry k es) = if k = l then none else lookup l es := by
  induction es with
  | nil => simp [eraseEntry, lookup]
  | cons d es ih =>
      unfold eraseEntry at ih ⊢
      simp only [List.filter_cons]
      by_cases hd : d.1 = k
      · simp only [hd, ne_eq, not_true_eq_false, decide_false, Bool.false_eq_true, ↓reduceIte, ih,
          lookup]
        by_cases hk : k = l <;> simp [hk]
      · simp only [ne_eq, hd, not_false_eq_true, decide_true, ↓reduceIte, lookup, ih]
        by_cases hl : d.1 = l
        · simp [hl, show ¬ k = l from fun h => hd (hl.trans h.symm)]
        · simp [hl]

@[simp] theorem get?_empty
    (k : String) :
    (empty : KeyMap β).get? k = none := rfl

theorem get?_insert
    (m : KeyMap β)
    (k l : String)
    (v : β) :
    (m.insert k v).get? l = if k = l then some v else m.get? l :=
  lookup_insertEntry k l v m.entries

theorem get?_erase
    (m : KeyMap β)
    (k l : String) :
    (m.erase k).get? l = if k = l then none else m.get? l :=
  lookup_eraseEntry k l m.entries

end KeyMap
end Courier
