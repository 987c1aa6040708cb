import Courier.Proofs.Json.Values

/-!
# The order in which members are given

The members of an object may be given in any order, at every level of a value.  Two members
with different keys find their places independently of each other, so the canonical form does
not depend on which of them comes first.  Of equal keys the last wins, and their order does
matter.

**Results.**
* `Value.insertMember_comm`: members with different keys.
* `Value.Reordered`: values that differ in the order of their members only.
* `Value.Reordered.normalize_eq`, `Object.ofMembers_eq_of_reordered`: they have the same
  canonical form.
-/

namespace Courier
namespace Json

namespace Value

theorem insertMember_of_keyBelow
    {k : String}
    {ms : List (String × Value)}
    (h : keyBelow k ms = true)
    (v : Value) :
    insertMember k v ms = (k, v) :: ms := by
  cases ms with
  | nil => rfl
  | cons m ms =>
      obtain ⟨l, w⟩ := m
      rw [insertMember, if_pos (by simpa [keyBelow] using h)]

theorem insertMember_cons_self
    (k : String)
    (v w : Value)
    (ms : List (String × Value)) :
    insertMember k v ((k, w) :: ms) = (k, v) :: ms := by
  rw [insertMember, if_neg (String.lt_irrefl k), if_pos rfl]

theorem insertMember_cons_of_lt
    {k l : String}
    (h : l < k)
    (v w : Value)
    (ms : List (String × Value)) :
    insertMember k v ((l, w) :: ms) = (l, w) :: insertMember k v ms := by
  have hne : k ≠ l := by
    rintro rfl
    exact String.lt_irrefl k h
  rw [insertMember, if_neg (String.lt_asymm h), if_neg hne]

theorem insertMember_comm_of_lt
    {k l : String}
    (h : k < l)
    (v w : Value)
    (ms : List (String × Value)) :
    insertMember k v (insertMember l w ms) = insertMember l w (insertMember k v ms) := by
  induction ms with
  | nil =>
      rw [insertMember, insertMember, insertMember_cons_of_lt h, insertMember, insertMember,
        if_pos h]
  | cons m ms ih =>
      obtain ⟨j, u⟩ := m
      rcases Std.lt_trichotomy k j with hkj | rfl | hjk
      · -- The first key comes before all others, that of the other new member included.
        have hbelow : keyBelow k ((j, u) :: ms) = true := by simpa [keyBelow] using hkj
        rw [insertMember_of_keyBelow hbelow, insertMember_cons_of_lt h,
          insertMember_of_keyBelow (keyBelow_insertMember h hbelow)]
      · rw [insertMember_cons_of_lt h, insertMember_cons_self, insertMember_cons_self,
          insertMember_cons_of_lt h]
      · rw [insertMember_cons_of_lt (String.lt_trans hjk h), insertMember_cons_of_lt hjk, ih,
          insertMember_cons_of_lt hjk, insertMember_cons_of_lt (String.lt_trans hjk h)]

/-- **Members with different keys find the same places in either order.** -/
theorem insertMember_comm
    {k l : String}
    (h : k ≠ l)
    (v w : Value)
    (ms : List (String × Value)) :
    insertMember k v (insertMember l w ms) = insertMember l w (insertMember k v ms) := by
  rcases Std.lt_trichotomy k l with hlt | heq | hgt
  · exact insertMember_comm_of_lt hlt v w ms
  · exact absurd heq h
  · exact (insertMember_comm_of_lt hgt w v ms).symm

theorem normalizeMembers_eq_foldl
    (acc ms : List (String × Value)) :
    normalizeMembers acc ms = ms.foldl (fun acc m => insertMember m.1 m.2.normalize acc) acc := by
  induction ms generalizing acc with
  | nil => rw [normalizeMembers, List.foldl_nil]
  | cons m ms ih =>
      obtain ⟨k, v⟩ := m
      rw [normalizeMembers, ih, List.foldl_cons]

theorem normalizeItems_eq_map
    (vs : List Value) :
    normalizeItems vs = vs.map normalize := by
  induction vs with
  | nil => rw [normalizeItems, List.map_nil]
  | cons v vs ih => rw [normalizeItems, ih, List.map_cons]

/-- Two values differ, at any levels, in the order of members with different keys only. -/
inductive Reordered : Value → Value → Prop where
  | refl (v : Value) : Reordered v v
  | trans
      {u v w : Value}
      (first : Reordered u v)
      (second : Reordered v w) :
      Reordered u w
  | item
      (before rest : List Value)
      {v w : Value}
      (entry : Reordered v w) :
      Reordered (.array (before ++ v :: rest)) (.array (before ++ w :: rest))
  | member
      (before rest : List (String × Value))
      (key : String)
      {v w : Value}
      (entry : Reordered v w) :
      Reordered (.object (before ++ (key, v) :: rest)) (.object (before ++ (key, w) :: rest))
  | swap
      (before rest : List (String × Value))
      {m n : String × Value}
      (hkeys : m.1 ≠ n.1) :
      Reordered (.object (before ++ m :: n :: rest)) (.object (before ++ n :: m :: rest))

/-- **The canonical form does not depend on the order of the members.** -/
theorem Reordered.normalize_eq
    {v w : Value}
    (h : Reordered v w) :
    v.normalize = w.normalize := by
  induction h with
  | refl v => rfl
  | trans _ _ ihfirst ihsecond => exact ihfirst.trans ihsecond
  | item before rest _ ih =>
      simp only [normalize, normalizeItems_eq_map, List.map_append, List.map_cons, ih]
  | member before rest key _ ih =>
      simp only [normalize, normalizeMembers_eq_foldl, List.foldl_append, List.foldl_cons, ih]
  | swap before rest hkeys =>
      simp only [normalize, normalizeMembers_eq_foldl, List.foldl_append, List.foldl_cons,
        insertMember_comm hkeys]

end Value

/-- **An object does not depend on the order in which its members are given.** -/
theorem Object.ofMembers_eq_of_reordered
    {ms ns : List (String × Value)}
    (h : Value.Reordered (.object ms) (.object ns)) :
    ofMembers ms = ofMembers ns := by
  have hmembers : Value.normalizeMembers [] ms = Value.normalizeMembers [] ns := by
    have hnormal := h.normalize_eq
    rw [Value.normalize, Value.normalize] at hnormal
    exact Value.object.inj hnormal
  simp only [ofMembers, hmembers]

end Json
end Courier
