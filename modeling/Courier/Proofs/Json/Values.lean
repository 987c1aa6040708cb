import Courier.Proofs.Json.Tokens

/-!
# Written values are read back within the depth limit

The writer has no limit and the reader may open only so many containers at a
time.  A written value that nests no deeper is read back, and every deeper one is
refused for its depth and for nothing else.

**Results.**
* `Value.nesting`, `Value.isExact`: the depth of a value, and values without
  floating-point numbers.
* `Within`: an outcome that depends on a limit being kept.
* `bare_elementsFrom`, `bare_membersFrom`: one entry of a container.
* `ReadsEntries.within_all`: the entries of a container, of either kind.
* `readsBack`: reading a written value.
* `normalize_of_isCanonical`: a canonical value is its own canonical form.
-/

namespace Courier
namespace Json

namespace Value

mutual

/-- How many containers lie one within the other. -/
def nesting : Value → Nat
  | .array vs => nestingItems vs + 1
  | .object ms => nestingMembers ms + 1
  | _ => 0

/-- The depth of the deepest item. -/
def nestingItems : List Value → Nat
  | [] => 0
  | v :: vs => max (nesting v) (nestingItems vs)

/-- The depth of the deepest member. -/
def nestingMembers : List (String × Value) → Nat
  | [] => 0
  | (_, v) :: ms => max (nesting v) (nestingMembers ms)

end

mutual

/-- Whether no floating-point number occurs. -/
def isExact : Value → Bool
  | .number (.integer _ _ _) => true
  | .number (.float _ _) => false
  | .array vs => isExactItems vs
  | .object ms => isExactMembers ms
  | _ => true

/-- Whether no floating-point number occurs in any item. -/
def isExactItems : List Value → Bool
  | [] => true
  | v :: vs => isExact v && isExactItems vs

/-- Whether no floating-point number occurs in any member. -/
def isExactMembers : List (String × Value) → Bool
  | [] => true
  | (_, v) :: ms => isExact v && isExactMembers ms

end

/-- What holds of a value if it holds of the entries of its containers holds of
every value. -/
@[elab_as_elim]
theorem entriesInduction
    {motive : Value → Prop}
    (null : motive .null)
    (bool : ∀ b, motive (.bool b))
    (number : ∀ n, motive (.number n))
    (string : ∀ s, motive (.string s))
    (array : ∀ vs, (∀ v ∈ vs, motive v) → motive (.array vs))
    (object : ∀ ms : List (String × Value), (∀ m ∈ ms, motive m.2) → motive (.object ms))
    (v : Value) :
    motive v :=
  @Value.rec motive (fun vs => ∀ v ∈ vs, motive v) (fun ms => ∀ m ∈ ms, motive m.2)
    (fun m => motive m.2) null bool number string array object
    (List.forall_mem_nil _)
    (fun _ _ hv hvs => List.forall_mem_cons.2 ⟨hv, hvs⟩)
    (List.forall_mem_nil _)
    (fun _ _ hm hms => List.forall_mem_cons.2 ⟨hm, hms⟩)
    (fun _ _ hv => hv) v

theorem nestingItems_le
    {d : Nat}
    (vs : List Value) :
    nestingItems vs ≤ d ↔ ∀ v ∈ vs, v.nesting ≤ d := by
  induction vs with
  | nil => simp [nestingItems]
  | cons v vs ih => rw [nestingItems, Nat.max_le, ih, List.forall_mem_cons]

theorem nestingMembers_le
    {d : Nat}
    (ms : List (String × Value)) :
    nestingMembers ms ≤ d ↔ ∀ m ∈ ms, m.2.nesting ≤ d := by
  induction ms with
  | nil => simp [nestingMembers]
  | cons m ms ih =>
      obtain ⟨k, v⟩ := m
      rw [nestingMembers, Nat.max_le, ih, List.forall_mem_cons]

theorem isExactItems_iff
    (vs : List Value) :
    isExactItems vs = true ↔ ∀ v ∈ vs, v.isExact = true := by
  induction vs with
  | nil => simp [isExactItems]
  | cons v vs ih => rw [isExactItems, Bool.and_eq_true, ih, List.forall_mem_cons]

theorem isCanonicalItems_iff
    (vs : List Value) :
    isCanonicalItems vs = true ↔ ∀ v ∈ vs, v.isCanonical = true := by
  induction vs with
  | nil => simp [isCanonicalItems]
  | cons v vs ih => rw [isCanonicalItems, Bool.and_eq_true, ih, List.forall_mem_cons]

theorem isExactMembers_iff
    (ms : List (String × Value)) :
    isExactMembers ms = true ↔ ∀ m ∈ ms, m.2.isExact = true := by
  induction ms with
  | nil => simp [isExactMembers]
  | cons m ms ih =>
      obtain ⟨k, v⟩ := m
      rw [isExactMembers, Bool.and_eq_true, ih, List.forall_mem_cons]

end Value

section Within

variable {α β : Type}

/-- The value with the text behind it if the limit is kept, and a refusal for the
depth if it is not. -/
def Within (fits : Prop) (x : Except Fault (α × Bytes)) (v : α) (rest : Bytes) : Prop :=
  (fits → x = .ok (v, rest)) ∧ (¬ fits → ∃ left, x = .error ⟨.recursionLimit, left⟩)

theorem Within.of_eq_ok
    {fits : Prop}
    {x : Except Fault (α × Bytes)}
    {v : α}
    {rest : Bytes}
    (hfits : fits)
    (hx : x = .ok (v, rest)) :
    Within fits x v rest :=
  ⟨fun _ => hx, fun h => absurd hfits h⟩

theorem Within.of_eq_error
    {fits : Prop}
    {x : Except Fault (α × Bytes)}
    {v : α}
    {left : Nat}
    {rest : Bytes}
    (hfits : ¬ fits)
    (hx : x = .error ⟨.recursionLimit, left⟩) :
    Within fits x v rest :=
  ⟨fun h => absurd h hfits, fun _ => ⟨left, hx⟩⟩

/-- A reader behind a reader keeps the limit if both do. -/
theorem Within.bind
    {fits more : Prop}
    {x : Except Fault (α × Bytes)}
    {k : α × Bytes → Except Fault (β × Bytes)}
    {v : α}
    {w : β}
    {t rest : Bytes}
    (hx : Within fits x v t)
    (hk : Within more (k (v, t)) w rest) :
    Within (fits ∧ more) (x.bind k) w rest := by
  constructor
  · rintro ⟨hfits, hmore⟩
    rw [hx.1 hfits]
    exact hk.1 hmore
  · intro h
    by_cases hfits : fits
    · rw [hx.1 hfits]
      exact hk.2 fun hmore => h ⟨hfits, hmore⟩
    · obtain ⟨left, hleft⟩ := hx.2 hfits
      rw [hleft]
      exact ⟨left, rfl⟩

theorem Within.map
    {fits : Prop}
    {x : Except Fault (α × Bytes)}
    {v : α}
    {rest : Bytes}
    (f : α → β)
    (hx : Within fits x v rest) :
    Within fits (x.map fun y => (f y.1, y.2)) (f v) rest := by
  constructor
  · intro hfits
    rw [hx.1 hfits]
    rfl
  · intro hfits
    obtain ⟨left, hleft⟩ := hx.2 hfits
    rw [hleft]
    exact ⟨left, rfl⟩

theorem Within.iff
    {fits more : Prop}
    {x : Except Fault (α × Bytes)}
    {v : α}
    {rest : Bytes}
    (h : fits ↔ more)
    (hx : Within fits x v rest) :
    Within more x v rest :=
  ⟨fun hmore => hx.1 (h.2 hmore), fun hmore => hx.2 fun hfits => hmore (h.1 hfits)⟩

end Within

/-- Where an entry of a list may start: at no white space and at no closing bracket. -/
def StartsEntry (s : Bytes) : Prop :=
  ∃ b t, s = b :: t ∧ isBlank b = false ∧ b ≠ 0x5D

theorem StartsEntry.append
    {s : Bytes}
    (h : StartsEntry s)
    (t : Bytes) :
    StartsEntry (s ++ t) := by
  obtain ⟨b, u, rfl, hb, hne⟩ := h
  exact ⟨b, u ++ t, rfl, hb, hne⟩

/-- The text in front of an entry, the separator standing before it unless it is
the first. -/
def entry (first : Bool) (separator : UInt8) (s : Bytes) : Bytes :=
  if first then s else separator :: s

theorem nextElement_entry
    {s : Bytes}
    (first : Bool)
    (hs : StartsEntry s) :
    ∃ h, nextElement first (entry first 0x2C s) = .ok (true, ⟨s, h⟩) := by
  obtain ⟨b, t, rfl, hb, hne⟩ := hs
  cases first with
  | true =>
      refine ⟨Nat.le_refl _, ?_⟩
      show nextElement true (b :: t) = _
      rw [nextElement, front_cons t hb]
      simp only
      rw [if_neg hne, if_pos trivial]
      rfl
  | false =>
      refine ⟨Nat.le_succ _, ?_⟩
      show nextElement false (0x2C :: b :: t) = _
      rw [nextElement, front_cons _ (by decide)]
      simp only
      rw [if_neg (by decide), if_neg (by decide), if_pos trivial, front_cons t hb]
      simp only
      rw [if_neg hne]
      rfl

theorem nextElement_end
    (first : Bool)
    (t : Bytes) :
    ∃ h, nextElement first (0x5D :: t) = .ok (false, ⟨0x5D :: t, h⟩) := by
  refine ⟨Nat.le_refl _, ?_⟩
  rw [nextElement, front_cons t (by decide)]
  simp only
  rw [if_pos trivial]

theorem endList_end
    (t : Bytes) :
    ∃ h, endList (0x5D :: t) = .ok ⟨t, h⟩ := by
  refine ⟨Nat.lt_succ_self _, ?_⟩
  rw [endList, front_cons t (by decide)]
  simp only
  rw [if_pos trivial]
  rfl

theorem bare_elementsFrom
    {α : Type}
    {item : Reader α}
    {first : Bool}
    {s t : Bytes}
    {h : t.length ≤ s.length}
    (acc : List α)
    (hnext : nextElement first s = .ok (true, ⟨t, h⟩)) :
    bare (elementsFrom item first acc s) =
      (bare (item t)).bind fun y => bare (elementsFrom item false (y.1 :: acc) y.2) := by
  rw [elementsFrom, hnext]
  simp only
  rcases hitem : item t with f | ⟨v, q⟩
  · rfl
  · exact bare_map_same fun _ _ => ⟨rfl, rfl⟩

theorem bare_elementsFrom_end
    {α : Type}
    (item : Reader α)
    (first : Bool)
    (acc : List α)
    (t : Bytes) :
    bare (elementsFrom item first acc (0x5D :: t)) = .ok (acc.reverse, t) := by
  obtain ⟨_, hnext⟩ := nextElement_end first t
  obtain ⟨_, hend⟩ := endList_end t
  rw [elementsFrom, hnext]
  simp only
  rw [hend]
  rfl

theorem nextMember_entry
    (first : Bool)
    (t : Bytes) :
    ∃ h, nextMember first (entry first 0x2C (0x22 :: t)) = .ok (true, ⟨0x22 :: t, h⟩) := by
  cases first with
  | true =>
      refine ⟨Nat.le_refl _, ?_⟩
      show nextMember true (0x22 :: t) = _
      rw [nextMember, front_cons t (by decide)]
      rfl
  | false =>
      refine ⟨Nat.le_succ _, ?_⟩
      show nextMember false (0x2C :: 0x22 :: t) = _
      rw [nextMember, front_cons _ (by decide)]
      simp only
      rw [if_neg (by decide), if_neg (by decide), if_pos trivial, front_cons t (by decide)]
      rfl

theorem nextMember_end
    (first : Bool)
    (t : Bytes) :
    ∃ h, nextMember first (0x7D :: t) = .ok (false, ⟨0x7D :: t, h⟩) := by
  refine ⟨Nat.le_refl _, ?_⟩
  rw [nextMember, front_cons t (by decide)]
  rfl

theorem endObject_end
    (t : Bytes) :
    ∃ h, endObject (0x7D :: t) = .ok ⟨t, h⟩ := by
  refine ⟨Nat.lt_succ_self _, ?_⟩
  rw [endObject, front_cons t (by decide)]
  rfl

theorem colon_colon
    (t : Bytes) :
    ∃ h, colon (0x3A :: t) = .ok ⟨t, h⟩ := by
  refine ⟨Nat.lt_succ_self _, ?_⟩
  rw [colon, front_cons t (by decide)]
  rfl

theorem writeString_append
    (k : String)
    (t : Bytes) :
    writeString k ++ t = 0x22 :: (k.toList.flatMap writeChar ++ 0x22 :: t) := by
  rw [writeString, List.cons_append, List.append_assoc]
  rfl

theorem nextMember_writeString
    (first : Bool)
    (k : String)
    (t : Bytes) :
    ∃ h, nextMember first (entry first 0x2C (writeString k ++ t)) =
      .ok (true, ⟨writeString k ++ t, h⟩) := by
  rw [writeString_append]
  exact nextMember_entry first _

theorem memberKey_writeString
    (k : String)
    (t : Bytes) :
    ∃ h, memberKey (writeString k ++ t) = .ok (k, ⟨t, h⟩) := by
  have hbare : bare (memberKey (writeString k ++ t)) = .ok (k, t) := by
    rw [writeString_append, memberKey]
    exact (bare_map_same fun _ _ => ⟨rfl, rfl⟩).trans (bare_stringBody k t)
  exact bare_eq_ok.1 hbare

theorem bare_membersFrom
    {α : Type}
    (item : Reader α)
    (first : Bool)
    (acc : List (String × α))
    (k : String)
    (t : Bytes) :
    bare (membersFrom item first acc (entry first 0x2C (writeString k ++ 0x3A :: t))) =
      (bare (item t)).bind fun y =>
        bare (membersFrom item false ((k, y.1) :: acc) y.2) := by
  obtain ⟨hn, hnext⟩ := nextMember_writeString first k (0x3A :: t)
  obtain ⟨hk, hkey⟩ := memberKey_writeString k (0x3A :: t)
  obtain ⟨hc, hcolon⟩ := colon_colon t
  rw [membersFrom, hnext]
  simp only
  rw [hkey]
  simp only
  rw [hcolon]
  simp only
  rcases hitem : item t with f | ⟨v, q⟩
  · rfl
  · exact bare_map_same fun _ _ => ⟨rfl, rfl⟩

theorem bare_membersFrom_end
    {α : Type}
    (item : Reader α)
    (first : Bool)
    (acc : List (String × α))
    (t : Bytes) :
    bare (membersFrom item first acc (0x7D :: t)) = .ok (acc.reverse, t) := by
  obtain ⟨_, hnext⟩ := nextMember_end first t
  obtain ⟨_, hend⟩ := endObject_end t
  rw [membersFrom, hnext]
  simp only
  rw [hend]
  rfl

/-- Entries with a comma between any two. -/
def writeEntries {α : Type} (write : α → Bytes) : List α → Bytes
  | [] => []
  | v :: vs => write v ++ vs.flatMap fun w => 0x2C :: write w

theorem writeItems_eq
    (vs : List Value) :
    writeItems vs = writeEntries Value.write vs := by
  cases vs with
  | nil => rfl
  | cons v vs =>
      induction vs generalizing v with
      | nil => rw [writeItems, writeEntries, List.flatMap_nil, List.append_nil]
      | cons w vs ih =>
          rw [writeItems, ih, writeEntries, writeEntries, List.flatMap_cons, List.cons_append]

/-- The bytes of one member. -/
def writeMember (m : String × Value) : Bytes :=
  writeString m.1 ++ 0x3A :: m.2.write

theorem writeMember_append
    (m : String × Value)
    (t : Bytes) :
    writeMember m ++ t = writeString m.1 ++ 0x3A :: (m.2.write ++ t) := by
  rw [writeMember, List.append_assoc, List.cons_append]

theorem writeMembers_eq
    (ms : List (String × Value)) :
    writeMembers ms = writeEntries writeMember ms := by
  cases ms with
  | nil => rfl
  | cons m ms =>
      induction ms generalizing m with
      | nil =>
          obtain ⟨k, v⟩ := m
          rw [writeMembers, writeEntries, List.flatMap_nil, List.append_nil]
          rfl
      | cons n ms ih =>
          obtain ⟨k, v⟩ := m
          rw [writeMembers, ih, writeEntries, writeEntries, writeMember_append (k, v),
            List.flatMap_cons, List.cons_append]

/-- What stands behind the entries of a container: more entries, each behind a
comma, and the closing byte. -/
theorem stops_flatMap_comma
    {α : Type}
    (write : α → Bytes)
    (vs : List α)
    {b : UInt8}
    (rest : Bytes)
    (h : Bytes.isDigit b = false ∧ b ≠ 0x2E ∧ isExponentMark b = false) :
    Stops (vs.flatMap (fun v => 0x2C :: write v) ++ b :: rest) := by
  cases vs with
  | nil => exact stops_cons rest h
  | cons v vs => exact stops_cons _ (by decide)

/-- How the entries of a container are read: the closing byte ends them, and an
entry is read on its own in front of those behind it. -/
structure ReadsEntries {α : Type}
    (readFrom : Bool → List α → Bytes → Except Fault (List α × Bytes))
    (write : α → Bytes) (closing : UInt8) (fits : α → Prop) (vs : List α) : Prop where
  stops : Bytes.isDigit closing = false ∧ closing ≠ 0x2E ∧ isExponentMark closing = false
  ends : ∀ first acc t, readFrom first acc (closing :: t) = .ok (acc.reverse, t)
  reads : ∀ v ∈ vs, ∀ first acc t, Stops t → ∃ x, Within (fits v) x v t ∧
    readFrom first acc (entry first 0x2C (write v ++ t)) =
      x.bind fun y => readFrom false (y.1 :: acc) y.2

namespace ReadsEntries

variable {α : Type} {readFrom : Bool → List α → Bytes → Except Fault (List α × Bytes)}
variable {write : α → Bytes} {closing : UInt8} {fits : α → Prop} {v : α} {vs : List α}

theorem tail
    (h : ReadsEntries readFrom write closing fits (v :: vs)) :
    ReadsEntries readFrom write closing fits vs :=
  ⟨h.stops, h.ends, fun w hw => h.reads w (List.mem_cons_of_mem _ hw)⟩

/-- One entry in front of entries that are read. -/
theorem within_cons
    (h : ReadsEntries readFrom write closing fits (v :: vs))
    (first : Bool)
    (acc : List α)
    (rest : Bytes)
    (hvs : Within (∀ w ∈ vs, fits w)
      (readFrom false (v :: acc) (vs.flatMap (fun w => 0x2C :: write w) ++ closing :: rest))
      ((v :: acc).reverse ++ vs) rest) :
    Within (∀ w ∈ v :: vs, fits w)
      (readFrom first acc
        (entry first 0x2C
          (write v ++ (vs.flatMap (fun w => 0x2C :: write w) ++ closing :: rest))))
      (acc.reverse ++ v :: vs) rest := by
  obtain ⟨x, hx, hread⟩ := h.reads v List.mem_cons_self first acc _
    (stops_flatMap_comma write vs rest h.stops)
  rw [List.reverse_cons, List.append_assoc, List.singleton_append] at hvs
  rw [hread]
  exact (hx.bind hvs).iff List.forall_mem_cons.symm

theorem within_behind
    (h : ReadsEntries readFrom write closing fits vs)
    (acc : List α)
    (rest : Bytes) :
    Within (∀ v ∈ vs, fits v)
      (readFrom false acc (vs.flatMap (fun w => 0x2C :: write w) ++ closing :: rest))
      (acc.reverse ++ vs) rest := by
  induction vs generalizing acc with
  | nil =>
      rw [List.append_nil]
      exact Within.of_eq_ok (List.forall_mem_nil _) (h.ends false acc rest)
  | cons v vs ih =>
      rw [List.flatMap_cons, List.append_assoc, List.cons_append]
      exact h.within_cons false acc rest (ih h.tail (v :: acc))

/-- The entries of a container behind its opening byte. -/
theorem within_all
    (h : ReadsEntries readFrom write closing fits vs)
    (rest : Bytes) :
    Within (∀ v ∈ vs, fits v) (readFrom true [] (writeEntries write vs ++ closing :: rest))
      vs rest := by
  cases vs with
  | nil => exact Within.of_eq_ok (List.forall_mem_nil _) (h.ends true [] rest)
  | cons v vs =>
      rw [writeEntries, List.append_assoc]
      exact h.within_cons true [] rest (h.tail.within_behind [v] rest)

end ReadsEntries

/-- Reading a value from its own bytes keeps the limit `d`. -/
def ReadsBack (d : Nat) (v : Value) : Prop :=
  ∀ rest, Stops rest → Within (v.nesting ≤ d) (bare (value d (v.write ++ rest))) v rest

theorem readsEntries_items
    {d : Nat}
    {vs : List Value}
    (hstart : ∀ v ∈ vs, StartsEntry v.write)
    (hvs : ∀ v ∈ vs, ReadsBack d v) :
    ReadsEntries (fun first acc s => bare (elementsFrom (value d) first acc s)) Value.write 0x5D
      (fun v => v.nesting ≤ d) vs where
  stops := by decide
  ends first acc t := bare_elementsFrom_end _ first acc t
  reads v hv first acc t ht := by
    obtain ⟨_, hnext⟩ := nextElement_entry first ((hstart v hv).append t)
    exact ⟨_, hvs v hv t ht, bare_elementsFrom acc hnext⟩

theorem readsEntries_members
    {d : Nat}
    {ms : List (String × Value)}
    (hms : ∀ m ∈ ms, ReadsBack d m.2) :
    ReadsEntries (fun first acc s => bare (membersFrom (value d) first acc s)) writeMember 0x7D
      (fun m => m.2.nesting ≤ d) ms where
  stops := by decide
  ends first acc t := bare_membersFrom_end _ first acc t
  reads m hm first acc t ht := by
    refine ⟨_, (hms m hm t ht).map (fun v => (m.1, v)), ?_⟩
    rw [writeMember_append, bare_membersFrom]
    cases bare (value d (m.2.write ++ t)) with
    | ok y => rfl
    | error f => rfl

/-- What the entries of containers are read with when so many may be open. -/
def entryReader : Nat → Option (Reader Value)
  | 0 => none
  | d + 1 => some (value d)

theorem value_eq_valueOf
    (d : Nat) :
    value d = valueOf (entryReader d) := by
  cases d with
  | zero => rfl
  | succ d => rfl

/-- An integer is written as its digits, behind a sign if it is negative. -/
theorem integer_write
    (n : Int)
    (least : -0x8000000000000000 ≤ n)
    (most : n < 0x10000000000000000) :
    (∃ m : Nat, n = m ∧ (Value.number (.integer n least most)).write = digitBytes m) ∨
      (∃ m : Nat, 0 < m ∧ n = -(m : Int) ∧
        (Value.number (.integer n least most)).write = 0x2D :: digitBytes m) := by
  rw [Value.write, Number.write]
  rcases Int.lt_or_le n 0 with h | h
  · refine Or.inr ⟨n.natAbs, by omega, by omega, ?_⟩
    have hneg : n = -(n.natAbs : Int) := by omega
    rw [hneg, ofAscii_toString_neg (by omega), Int.natAbs_neg, Int.natAbs_natCast]
  · obtain ⟨m, rfl⟩ := Int.eq_ofNat_of_zero_le h
    exact Or.inl ⟨m, rfl, ofAscii_toString_nat m⟩

theorem isDigit_cases
    {b : UInt8}
    (h : Bytes.isDigit b = true) :
    isBlank b = false ∧ b ≠ 0x5D ∧ b ≠ 0x6E ∧ b ≠ 0x74 ∧ b ≠ 0x66 ∧ b ≠ 0x2D := by
  simp only [Bytes.isDigit, Bool.and_eq_true, decide_eq_true_eq, UInt8.le_iff_toNat_le] at h
  have hne : ∀ c : UInt8, c.toNat < 0x30 ∨ 0x39 < c.toNat → b ≠ c := by
    rintro c hc rfl
    have h₁ : 0x30 ≤ b.toNat := h.1
    have h₂ : b.toNat ≤ 0x39 := h.2
    omega
  refine ⟨?_, hne _ (by decide), hne _ (by decide), hne _ (by decide), hne _ (by decide),
    hne _ (by decide)⟩
  simp only [isBlank, Bool.or_eq_false_iff, beq_eq_false_iff_ne]
  exact ⟨⟨⟨hne _ (by decide), hne _ (by decide)⟩, hne _ (by decide)⟩, hne _ (by decide)⟩

theorem digitBytes_cons
    (n : Nat) :
    ∃ b ds, digitBytes n = b :: ds ∧ Bytes.isDigit b = true := by
  cases h : digitBytes n with
  | nil => exact absurd (List.map_eq_nil_iff.1 h) Nat.toDigits_ne_nil
  | cons b ds => exact ⟨b, ds, rfl, isDigit_of_mem_digitBytes (h ▸ List.mem_cons_self ..)⟩

/-- An exact value is written with a first byte that starts an entry. -/
theorem startsEntry_write
    (v : Value)
    (hv : v.isExact = true) :
    StartsEntry v.write := by
  cases v with
  | null => exact ⟨_, _, by rw [Value.write], by decide, by decide⟩
  | bool b =>
      cases b with
      | false => exact ⟨_, _, by rw [Value.write], by decide, by decide⟩
      | true => exact ⟨_, _, by rw [Value.write], by decide, by decide⟩
  | number n =>
      cases n with
      | integer n least most =>
          rcases integer_write n least most with ⟨m, _, h⟩ | ⟨m, _, _, h⟩
          · obtain ⟨b, ds, hbytes, hb⟩ := digitBytes_cons m
            exact ⟨b, ds, h.trans hbytes, (isDigit_cases hb).1, (isDigit_cases hb).2.1⟩
          · exact ⟨_, _, h, by decide, by decide⟩
      | float x finite => exact absurd hv (by simp [Value.isExact])
  | string s => exact ⟨_, _, by rw [Value.write, writeString], by decide, by decide⟩
  | array vs => exact ⟨_, _, by rw [Value.write], by decide, by decide⟩
  | object ms => exact ⟨_, _, by rw [Value.write], by decide, by decide⟩

/-- An integer is read back, whatever its containers are read with. -/
theorem bare_valueOf_integer
    (inner? : Option (Reader Value))
    (n : Int)
    (least : -0x8000000000000000 ≤ n)
    (most : n < 0x10000000000000000)
    {rest : Bytes}
    (hrest : Stops rest) :
    bare (valueOf inner? ((Value.number (.integer n least most)).write ++ rest)) =
      .ok (.number (.integer n least most), rest) := by
  rcases integer_write n least most with ⟨m, rfl, h⟩ | ⟨m, hm, rfl, h⟩
  · obtain ⟨b, ds, hbytes, hb⟩ := digitBytes_cons m
    obtain ⟨hblank, _, hn, ht, hf, hminus⟩ := isDigit_cases hb
    have hread := bare_number_natural hrest least most
    rw [hbytes, List.cons_append] at hread
    rw [h, hbytes, List.cons_append, valueOf, bare_atToken _ _ hblank]
    rw [if_neg hn, if_neg ht, if_neg hf, if_neg hminus, if_pos hb]
    rw [bare_map (fun n => Value.number n) fun _ _ => ⟨rfl, rfl⟩, hread]
    rfl
  · have hread := bare_number_negative hm hrest least most
    rw [h, List.cons_append, valueOf, bare_atToken _ _ (by decide)]
    rw [if_neg (by decide), if_neg (by decide), if_neg (by decide), if_pos rfl]
    rw [bare_map (fun n => Value.number n) fun _ _ => ⟨rfl, rfl⟩, hread]
    rfl

/-- The words and the strings are read back, whatever their containers are read with. -/
theorem bare_valueOf_word
    (inner? : Option (Reader Value))
    (rest : Bytes) :
    bare (valueOf inner? (Value.null.write ++ rest)) = .ok (.null, rest) ∧
      (∀ b, bare (valueOf inner? ((Value.bool b).write ++ rest)) = .ok (.bool b, rest)) := by
  obtain ⟨_, hnull⟩ := word_append restOfNull rest
  obtain ⟨_, htrue⟩ := word_append restOfTrue rest
  obtain ⟨_, hfalse⟩ := word_append restOfFalse rest
  refine ⟨?_, ?_⟩
  · show bare (valueOf inner? (0x6E :: (restOfNull ++ rest))) = _
    rw [valueOf, bare_atToken _ _ (by decide), if_pos rfl, hnull]
    rfl
  · intro b
    cases b with
    | true =>
        show bare (valueOf inner? (0x74 :: (restOfTrue ++ rest))) = _
        rw [valueOf, bare_atToken _ _ (by decide), if_neg (by decide), if_pos rfl, htrue]
        rfl
    | false =>
        show bare (valueOf inner? (0x66 :: (restOfFalse ++ rest))) = _
        rw [valueOf, bare_atToken _ _ (by decide), if_neg (by decide), if_neg (by decide),
          if_pos rfl, hfalse]
        rfl

theorem bare_valueOf_string
    (inner? : Option (Reader Value))
    (s : String)
    (rest : Bytes) :
    bare (valueOf inner? ((Value.string s).write ++ rest)) = .ok (.string s, rest) := by
  rw [Value.write, writeString_append, valueOf, bare_atToken _ _ (by decide), if_neg (by decide),
    if_neg (by decide), if_neg (by decide), if_neg (by decide), if_neg (by decide), if_pos rfl,
    bare_map (fun x => Value.string x) fun _ _ => ⟨rfl, rfl⟩, bare_stringBody]
  rfl

/-- A container is read by reading its entries one level down, and refused where
none may be opened. -/
theorem bare_valueOf_array
    (d : Nat)
    (t : Bytes) :
    bare (value (d + 1) (0x5B :: t)) =
      (bare (elementsFrom (value d) true [] t)).map fun y => (.array y.1, y.2) := by
  rw [value, valueOf, bare_atToken _ _ (by decide), if_neg (by decide), if_neg (by decide),
    if_neg (by decide), if_neg (by decide), if_neg (by decide), if_neg (by decide), if_pos rfl]
  exact bare_map (fun vs => Value.array vs) fun _ _ => ⟨rfl, rfl⟩

theorem bare_valueOf_object
    (d : Nat)
    (t : Bytes) :
    bare (value (d + 1) (0x7B :: t)) =
      (bare (membersFrom (value d) true [] t)).map fun y => (.object y.1, y.2) := by
  rw [value, valueOf, bare_atToken _ _ (by decide), if_neg (by decide), if_neg (by decide),
    if_neg (by decide), if_neg (by decide), if_neg (by decide), if_neg (by decide),
    if_neg (by decide), if_pos rfl]
  exact bare_map (fun ms => Value.object ms) fun _ _ => ⟨rfl, rfl⟩

theorem bare_value_zero
    {b : UInt8}
    (t : Bytes)
    (hb : b = 0x5B ∨ b = 0x7B) :
    bare (value 0 (b :: t)) = .error ⟨.recursionLimit, t.length⟩ := by
  rcases hb with rfl | rfl
  · rw [value, valueOf, bare_atToken _ _ (by decide)]
    rfl
  · rw [value, valueOf, bare_atToken _ _ (by decide)]
    rfl

/-- **A written value without floating-point numbers is read back if it nests no
deeper than the reader may go, and refused for its depth if it does.** -/
theorem readsBack
    (v : Value)
    (hv : v.isExact = true)
    (d : Nat) :
    ReadsBack d v := by
  induction v using Value.entriesInduction generalizing d with
  | null =>
      intro rest _
      rw [value_eq_valueOf]
      exact Within.of_eq_ok (Nat.zero_le d) (bare_valueOf_word _ rest).1
  | bool b =>
      intro rest _
      rw [value_eq_valueOf]
      exact Within.of_eq_ok (Nat.zero_le d) ((bare_valueOf_word _ rest).2 b)
  | number n =>
      intro rest hrest
      rw [value_eq_valueOf]
      cases n with
      | integer n least most =>
          exact Within.of_eq_ok (Nat.zero_le d) (bare_valueOf_integer _ n least most hrest)
      | float x finite => exact absurd hv (by simp [Value.isExact])
  | string s =>
      intro rest _
      rw [value_eq_valueOf]
      exact Within.of_eq_ok (Nat.zero_le d) (bare_valueOf_string _ s rest)
  | array vs ih =>
      intro rest _
      rw [Value.isExact, Value.isExactItems_iff] at hv
      rw [Value.nesting, Value.write, writeItems_eq, List.cons_append, List.append_assoc,
        List.singleton_append]
      -- The limit is spent where the container opens, so its entries are read one level down.
      cases d with
      | zero => exact Within.of_eq_error (Nat.not_succ_le_zero _) (bare_value_zero _ (Or.inl rfl))
      | succ d =>
          have hitems := (readsEntries_items (fun v h => startsEntry_write v (hv v h))
            fun v h => ih v h (hv v h) d).within_all rest
          rw [bare_valueOf_array]
          exact (hitems.map fun vs => Value.array vs).iff
            ((Value.nestingItems_le vs).symm.trans Nat.add_le_add_iff_right.symm)
  | object ms ih =>
      intro rest _
      rw [Value.isExact, Value.isExactMembers_iff] at hv
      rw [Value.nesting, Value.write, writeMembers_eq, List.cons_append, List.append_assoc,
        List.singleton_append]
      cases d with
      | zero => exact Within.of_eq_error (Nat.not_succ_le_zero _) (bare_value_zero _ (Or.inr rfl))
      | succ d =>
          have hmembers := (readsEntries_members fun m h => ih m h (hv m h) d).within_all rest
          rw [bare_valueOf_object]
          exact (hmembers.map fun ms => Value.object ms).iff
            ((Value.nestingMembers_le ms).symm.trans Nat.add_le_add_iff_right.symm)

namespace Value

/-- The keys of canonical members ascend, and their values are canonical. -/
theorem ascending_of_isCanonicalMembers
    {ms : List (String × Value)}
    (h : isCanonicalMembers ms = true) :
    ms.Pairwise (fun m n => m.1 < n.1) ∧ ∀ m ∈ ms, m.2.isCanonical = true := by
  induction ms with
  | nil => exact ⟨List.Pairwise.nil, List.forall_mem_nil _⟩
  | cons m ms ih =>
      obtain ⟨k, v⟩ := m
      rw [isCanonicalMembers_cons, Bool.and_eq_true, Bool.and_eq_true] at h
      obtain ⟨⟨hk, hv⟩, hms⟩ := h
      obtain ⟨hpair, hvalues⟩ := ih hms
      refine ⟨List.pairwise_cons.2 ⟨?_, hpair⟩, List.forall_mem_cons.2 ⟨hv, hvalues⟩⟩
      intro n hn
      cases ms with
      | nil => exact absurd hn List.not_mem_nil
      | cons l ls =>
          have hkl : k < l.1 := by simpa [keyBelow] using hk
          rcases List.mem_cons.1 hn with rfl | hn
          · exact hkl
          · exact String.lt_trans hkl ((List.pairwise_cons.1 hpair).1 n hn)

/-- A member whose key is above all others is put behind them. -/
theorem insertMember_of_above
    {k : String}
    (v : Value)
    {ms : List (String × Value)}
    (h : ∀ m ∈ ms, m.1 < k) :
    insertMember k v ms = ms ++ [(k, v)] := by
  induction ms with
  | nil => rfl
  | cons m ms ih =>
      obtain ⟨l, w⟩ := m
      rw [List.forall_mem_cons] at h
      obtain ⟨hl, hms⟩ := h
      rw [insertMember, if_neg (String.lt_asymm hl), if_neg, ih hms, List.cons_append]
      rintro rfl
      exact String.lt_irrefl _ hl

theorem normalizeItems_eq_self
    {vs : List Value}
    (h : ∀ v ∈ vs, v.normalize = v) :
    normalizeItems vs = vs := by
  induction vs with
  | nil => rfl
  | cons v vs ih =>
      rw [List.forall_mem_cons] at h
      rw [normalizeItems, h.1, ih h.2]

theorem normalizeMembers_eq_append
    {ms acc : List (String × Value)}
    (hascending : (acc ++ ms).Pairwise fun m n => m.1 < n.1)
    (h : ∀ m ∈ ms, m.2.normalize = m.2) :
    normalizeMembers acc ms = acc ++ ms := by
  induction ms generalizing acc with
  | nil => rw [normalizeMembers, List.append_nil]
  | cons m ms ih =>
      obtain ⟨k, v⟩ := m
      rw [List.forall_mem_cons] at h
      have habove : ∀ n ∈ acc, n.1 < k := fun n hn =>
        (List.pairwise_append.1 hascending).2.2 n hn (k, v) (List.mem_cons_self ..)
      rw [List.append_cons] at hascending
      rw [normalizeMembers, h.1, insertMember_of_above v habove, ih hascending h.2,
        ← List.append_cons]

/-- **A canonical value is its own canonical form.** -/
theorem normalize_of_isCanonical
    (v : Value)
    (hv : v.isCanonical = true) :
    v.normalize = v := by
  induction v using entriesInduction with
  | null => rfl
  | bool b => rfl
  | number n => rfl
  | string s => rfl
  | array vs ih =>
      rw [isCanonical, isCanonicalItems_iff] at hv
      rw [normalize, normalizeItems_eq_self fun v h => ih v h (hv v h)]
  | object ms ih =>
      rw [isCanonical] at hv
      obtain ⟨hascending, hvalues⟩ := ascending_of_isCanonicalMembers hv
      have hmembers : normalizeMembers [] ms = ms :=
        normalizeMembers_eq_append hascending fun m h => ih m h (hvalues m h)
      rw [normalize, hmembers]

end Value

namespace Object

/-- How many containers lie one within the other, the object itself being one. -/
def nesting (o : Object) : Nat :=
  Value.nestingMembers o.members + 1

/-- Whether no floating-point number occurs. -/
def isExact (o : Object) : Bool :=
  Value.isExactMembers o.members

theorem ofMembers_members
    (o : Object) :
    ofMembers o.members = o := by
  obtain ⟨hascending, hvalues⟩ := Value.ascending_of_isCanonicalMembers o.canonical
  have hmembers : Value.normalizeMembers [] o.members = o.members :=
    Value.normalizeMembers_eq_append hascending fun m h =>
      Value.normalize_of_isCanonical m.2 (hvalues m h)
  simp only [ofMembers, hmembers]

end Object

end Json
end Courier
