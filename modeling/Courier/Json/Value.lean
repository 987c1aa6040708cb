import Courier.Binary64.Basic

/-!
# JSON values

A value is a tree.  Equal contents have one tree each: the members of an object
are in strictly ascending order of their keys, an integer that fits 64 bits is
kept exactly and every other number is a finite binary64.

**Results.**
* `Value.isCanonical`: members are in strictly ascending order at every level.
* `Value.normalize`: the canonical tree, the last of equal keys winning.
* `Object`: canonical members, the type of payloads and message data.
-/

namespace Courier
namespace Json

/-- A JSON number: an integer of 64 bits, signed or unsigned, or a finite binary64. -/
inductive Number where
  | integer (n : Int) (least : -0x8000000000000000 ≤ n) (most : n < 0x10000000000000000)
  | float (x : Binary64) (finite : x.isFinite = true)
  deriving DecidableEq

/-- The integer as a number, if it fits. -/
def Number.ofInt? (n : Int) : Option Number :=
  if h : -0x8000000000000000 ≤ n ∧ n < 0x10000000000000000 then some (.integer n h.1 h.2) else none

/-- The finite word as a number. -/
def Number.ofBinary64? (x : Binary64) : Option Number :=
  if h : x.isFinite = true then some (.float x h) else none

/-- A JSON value. -/
inductive Value where
  | null
  | bool (b : Bool)
  | number (n : Number)
  | string (s : String)
  | array (items : List Value)
  | object (members : List (String × Value))

instance : Inhabited Value := ⟨.null⟩

namespace Value

mutual

/-- Whether two values are equal. -/
def beq : Value → Value → Bool
  | .null, .null => true
  | .bool a, .bool b => a == b
  | .number a, .number b => decide (a = b)
  | .string a, .string b => a == b
  | .array a, .array b => beqItems a b
  | .object a, .object b => beqMembers a b
  | _, _ => false

/-- Whether two lists of values are equal. -/
def beqItems : List Value → List Value → Bool
  | [], [] => true
  | v :: vs, w :: ws => beq v w && beqItems vs ws
  | _, _ => false

/-- Whether two lists of members are equal. -/
def beqMembers : List (String × Value) → List (String × Value) → Bool
  | [], [] => true
  | (k, v) :: vs, (l, w) :: ws => k == l && beq v w && beqMembers vs ws
  | _, _ => false

end

instance : BEq Value := ⟨beq⟩

/-- Whether `k` comes before the first key of some members. -/
def keyBelow (k : String) : List (String × Value) → Bool
  | [] => true
  | (l, _) :: _ => decide (k < l)

mutual

/-- Whether members are in strictly ascending order of their keys at every level. -/
def isCanonical : Value → Bool
  | .array vs => isCanonicalItems vs
  | .object ms => isCanonicalMembers ms
  | _ => true

/-- Whether every item is canonical. -/
def isCanonicalItems : List Value → Bool
  | [] => true
  | v :: vs => isCanonical v && isCanonicalItems vs

/-- Whether members are in strictly ascending order and their values canonical. -/
def isCanonicalMembers : List (String × Value) → Bool
  | [] => true
  | (k, v) :: ms => keyBelow k ms && isCanonical v && isCanonicalMembers ms

end

/-- Puts a member in its place among ascending members, replacing one of the same key. -/
def insertMember (k : String) (v : Value) : List (String × Value) → List (String × Value)
  | [] => [(k, v)]
  | (l, w) :: ms =>
      if k < l then (k, v) :: (l, w) :: ms
      else if k = l then (k, v) :: ms
      else (l, w) :: insertMember k v ms

mutual

/-- The canonical tree of a value. -/
def normalize : Value → Value
  | .array vs => .array (normalizeItems vs)
  | .object ms => .object (normalizeMembers [] ms)
  | v => v

/-- The canonical trees of a list of values. -/
def normalizeItems : List Value → List Value
  | [] => []
  | v :: vs => normalize v :: normalizeItems vs

/-- The ascending members `acc` with more members put in their places. -/
def normalizeMembers (acc : List (String × Value)) :
    List (String × Value) → List (String × Value)
  | [] => acc
  | (k, v) :: ms => normalizeMembers (insertMember k (normalize v) acc) ms

end

theorem isCanonicalMembers_cons
    (k : String)
    (v : Value)
    (ms : List (String × Value)) :
    isCanonicalMembers ((k, v) :: ms) =
      (keyBelow k ms && isCanonical v && isCanonicalMembers ms) := by
  rw [isCanonicalMembers]

theorem keyBelow_insertMember
    {j k : String}
    {v : Value}
    {ms : List (String × Value)}
    (hjk : j < k)
    (hj : keyBelow j ms = true) :
    keyBelow j (insertMember k v ms) = true := by
  cases ms with
  | nil => simpa [insertMember, keyBelow] using hjk
  | cons m ms =>
      obtain ⟨l, w⟩ := m
      simp only [insertMember]
      split
      · simpa [keyBelow] using hjk
      · split
        · simpa [keyBelow] using hjk
        · simpa [keyBelow] using hj

theorem isCanonicalMembers_insertMember
    {k : String}
    {v : Value}
    (hv : isCanonical v = true)
    (ms : List (String × Value))
    (hms : isCanonicalMembers ms = true) :
    isCanonicalMembers (insertMember k v ms) = true := by
  induction ms with
  | nil => simp [insertMember, isCanonicalMembers_cons, keyBelow, hv, isCanonicalMembers]
  | cons m ms ih =>
      obtain ⟨l, w⟩ := m
      rw [isCanonicalMembers_cons, Bool.and_eq_true, Bool.and_eq_true] at hms
      obtain ⟨⟨hl, hw⟩, hms⟩ := hms
      simp only [insertMember]
      split
      · next h =>
          have hk : keyBelow k ((l, w) :: ms) = true := by simpa [keyBelow] using h
          rw [isCanonicalMembers_cons, hk, hv, isCanonicalMembers_cons, hl, hw, hms]
          rfl
      · split
        · next h =>
            subst h
            simp [isCanonicalMembers_cons, hl, hv, hms]
        · next h₁ h₂ =>
            have hlk : l < k := by
              rcases Std.lt_trichotomy k l with h | h | h
              · exact absurd h h₁
              · exact absurd h h₂
              · exact h
            rw [isCanonicalMembers_cons, keyBelow_insertMember hlk hl, hw, ih hms]
            rfl

mutual

theorem isCanonical_normalize : (v : Value) → isCanonical (normalize v) = true
  | .array vs => by
      simp only [normalize, isCanonical]
      exact isCanonicalItems_normalizeItems vs
  | .object ms => by
      simp only [normalize, isCanonical]
      exact isCanonicalMembers_normalizeMembers [] ms (by simp [isCanonicalMembers])
  | .null => by simp [normalize, isCanonical]
  | .bool _ => by simp [normalize, isCanonical]
  | .number _ => by simp [normalize, isCanonical]
  | .string _ => by simp [normalize, isCanonical]

theorem isCanonicalItems_normalizeItems :
    (vs : List Value) → isCanonicalItems (normalizeItems vs) = true
  | [] => by simp [normalizeItems, isCanonicalItems]
  | v :: vs => by
      simp only [normalizeItems, isCanonicalItems, Bool.and_eq_true]
      exact ⟨isCanonical_normalize v, isCanonicalItems_normalizeItems vs⟩

theorem isCanonicalMembers_normalizeMembers
    (acc : List (String × Value)) :
    (ms : List (String × Value)) → isCanonicalMembers acc = true →
      isCanonicalMembers (normalizeMembers acc ms) = true
  | [], h => by simpa [normalizeMembers] using h
  | (k, v) :: ms, h => by
      simp only [normalizeMembers]
      exact isCanonicalMembers_normalizeMembers _ ms
        (isCanonicalMembers_insertMember (isCanonical_normalize v) acc h)

end

end Value

/-- The members of an object in their canonical order. -/
structure Object where
  members : List (String × Value)
  canonical : Value.isCanonicalMembers members = true

namespace Object

/-- The object without members. -/
def empty : Object := ⟨[], by simp [Value.isCanonicalMembers]⟩

instance : Inhabited Object := ⟨empty⟩

instance : BEq Object := ⟨fun a b => Value.beqMembers a.members b.members⟩

/-- The object of members in any order, the last of equal keys winning. -/
def ofMembers (ms : List (String × Value)) : Object :=
  ⟨Value.normalizeMembers [] ms,
    Value.isCanonicalMembers_normalizeMembers [] ms (by simp [Value.isCanonicalMembers])⟩

/-- The value under a key. -/
def get? (o : Object) (k : String) : Option Value :=
  (o.members.find? fun m => m.1 == k).map (·.2)

/-- The object with one member. -/
def single (k : String) (v : Value) : Object :=
  ofMembers [(k, v)]

end Object

end Json
end Courier
