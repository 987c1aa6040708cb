import Courier.Proofs.Glob.Language

/-!
# The classes of a glob pattern

A class runs from its opening bracket to the first bracket that closes it.  Which one that is
depends on what brackets, hyphens and backslashes stand for at their places: the first item may
begin with a bracket, a backslash takes the next byte with it, and a hyphen makes a range of
the bytes around it unless the class ends behind it.  The byte that is tested has no part in it.

**Results.**
* `ClassText`: the text of a class, as a grammar.
* `readItems_eq_some_iff`, `readClass_eq_some_iff`: the reader of classes follows the grammar.
* `Body.append`: where items end does not depend on what follows their class.
* `classAt_eq_some_iff`: what comes of a class, by its items and its end.
* `class_takes_items`: the classes of a pattern, and the two that items make.
-/

namespace Courier
namespace Glob

/-- How an item is written in front of what follows it.  A backslash is no item by itself, and
a byte in front of a hyphen begins a range unless the class is closed behind the hyphen. -/
inductive Item.Written : Item → Bytes → Bytes → Prop
  | escape
      (b : UInt8)
      (follow : Bytes) :
      Item.Written (.byte b) [0x5C, b] follow
  | range
      {a b : UInt8}
      (ha : a ≠ 0x5C)
      (hb : b ≠ 0x5D)
      (follow : Bytes) :
      Item.Written (.range a b) [a, 0x2D, b] follow
  | single
      {b : UInt8}
      {follow : Bytes}
      (hb : b ≠ 0x5C)
      (hrange : ∀ e rest, follow = 0x2D :: e :: rest → e = 0x5D) :
      Item.Written (.byte b) [b] follow

/-- Items up to the bracket that closes their class, and what follows it.  Only the first item
of a class may begin with a bracket, and there is one. -/
inductive Body : Bool → List Item → Bytes → Bytes → Prop
  | close
      (rest : Bytes) :
      Body false [] (0x5D :: rest) rest
  | item
      {first : Bool}
      {i : Item}
      {items : List Item}
      {text follow rest : Bytes}
      (hi : i.Written text follow)
      (hfirst : first = false → text.head? ≠ some 0x5D)
      (hbody : Body false items follow rest) :
      Body first (i :: items) (text ++ follow) rest

/-- Whether a byte negates the class that it leads. -/
def Negates (b : UInt8) : Prop :=
  b = 0x5E ∨ b = 0x21

/-- Whether a text is led by a byte that negates a class. -/
def NegatesFirst : Bytes → Prop
  | [] => False
  | b :: _ => Negates b

/-- A class behind its opening bracket, and what follows it. -/
inductive ClassText : Bool → List Item → Bytes → Bytes → Prop
  | plain
      {items : List Item}
      {text rest : Bytes}
      (hmark : ¬ NegatesFirst text)
      (hbody : Body true items text rest) :
      ClassText false items text rest
  | negated
      {items : List Item}
      {b : UInt8}
      {text rest : Bytes}
      (hb : Negates b)
      (hbody : Body true items text rest) :
      ClassText true items (b :: text) rest

/-- Items that fill a class between its brackets. -/
def ItemText (items : List Item) (text : Bytes) : Prop :=
  Body true items (text ++ [0x5D]) []

theorem Item.Written.exists_cons
    {i : Item}
    {text follow : Bytes}
    (h : i.Written text follow) :
    ∃ b tail, text = b :: tail := by
  cases h <;> exact ⟨_, _, rfl⟩

namespace Body

variable {first : Bool} {items : List Item} {p rest : Bytes}

theorem isSuffix
    (h : Body first items p rest) :
    rest <:+ p := by
  induction h with
  | close rest => exact List.suffix_cons _ rest
  | item hi hfirst hbody ih => exact ih.trans (List.suffix_append _ _)

theorem length_lt
    (h : Body first items p rest) :
    rest.length < p.length := by
  induction h with
  | close rest => simp
  | item hi hfirst hbody ih =>
      rw [List.length_append]
      omega

/-- The first item and the closing bracket take a byte each. -/
theorem length_lt_of_first
    (h : Body true items p rest) :
    rest.length + 1 < p.length := by
  cases h with
  | item hi hfirst hbody =>
      obtain ⟨b, tail, rfl⟩ := hi.exists_cons
      have hlt := hbody.length_lt
      simp only [List.length_append, List.length_cons]
      omega

/-- Items end at the same bracket, whatever follows it. -/
theorem append
    (h : Body first items p rest)
    (after : Bytes) :
    Body first items (p ++ after) (rest ++ after) := by
  induction h with
  | close rest => exact .close (rest ++ after)
  | item hi hfirst hbody ih =>
      rw [List.append_assoc]
      refine .item ?_ hfirst ih
      cases hi with
      | escape b follow => exact .escape b _
      | range ha hb follow => exact .range ha hb _
      | @single b follow hb hrange =>
          refine .single hb ?_
          intro e r hfollow
          -- What follows goes on to the closing bracket, so a hyphen in it is not its last byte
          -- and the byte behind that hyphen is not one of `after`.
          cases hbody with
          | close rest => simp at hfollow
          | @item _ j js text follow' _ hj _ hbody' =>
              obtain ⟨d, tail, rfl⟩ := hj.exists_cons
              have hlt := hbody'.length_lt
              cases hcut : tail ++ follow' with
              | nil =>
                  obtain ⟨_, rfl⟩ := List.append_eq_nil_iff.1 hcut
                  simp at hlt
              | cons d' r' =>
                  simp only [List.cons_append, hcut, List.cons.injEq] at hfollow
                  obtain ⟨rfl, rfl, -⟩ := hfollow
                  exact hrange d' r' (by simp [hcut])

end Body

namespace ClassText

variable {negated : Bool} {items : List Item} {p rest : Bytes}

theorem isSuffix
    (h : ClassText negated items p rest) :
    rest <:+ p := by
  cases h with
  | plain hmark hbody => exact hbody.isSuffix
  | negated hb hbody => exact hbody.isSuffix.trans (List.suffix_cons _ _)

theorem length_lt
    (h : ClassText negated items p rest) :
    rest.length + 1 < p.length := by
  cases h with
  | plain hmark hbody => exact hbody.length_lt_of_first
  | negated hb hbody => exact Nat.lt_succ_of_lt hbody.length_lt_of_first

end ClassText

theorem readItem_of_written
    {i : Item}
    {text follow : Bytes}
    (h : i.Written text follow) :
    ∃ b tail, text = b :: tail ∧ readItem b (tail ++ follow) = (i, follow) := by
  cases h with
  | escape b follow => exact ⟨0x5C, [b], rfl, by simp [readItem]⟩
  | @range a b ha hb follow => exact ⟨a, [0x2D, b], rfl, by simp [readItem, ha, hb]⟩
  | @single b follow hb hrange =>
      refine ⟨b, [], rfl, ?_⟩
      rw [List.nil_append]
      cases follow with
      | nil => rfl
      | cons e q =>
          cases q with
          | nil => simp [readItem, hb]
          | cons d rest =>
              have hno : ¬ (e = 0x2D ∧ d ≠ 0x5D) := by
                rintro ⟨rfl, hd⟩
                exact hd (hrange d rest rfl)
              simp [readItem, hb, hno]

/-- An item that something follows is read as it is written; a last lone backslash is none. -/
theorem written_readItem
    {b : UInt8}
    {p : Bytes}
    (hfollow : (readItem b p).2 ≠ []) :
    ∃ tail, p = tail ++ (readItem b p).2 ∧
      (readItem b p).1.Written (b :: tail) (readItem b p).2 := by
  cases p with
  | nil => simp [readItem] at hfollow
  | cons e q =>
      by_cases hb : b = 0x5C
      · subst hb
        exact ⟨[e], by simp [readItem], by simpa [readItem] using .escape e q⟩
      cases q with
      | nil =>
          exact ⟨[], by simp [readItem, hb], by simpa [readItem, hb] using .single hb (by simp)⟩
      | cons d r =>
          by_cases hrange : e = 0x2D ∧ d ≠ 0x5D
          · obtain ⟨rfl, hd⟩ := hrange
            exact ⟨[0x2D, d], by simp [readItem, hb, hd],
              by simpa [readItem, hb, hd] using .range hb hd r⟩
          · refine ⟨[], by simp [readItem, hb, hrange], ?_⟩
            simp only [readItem, hb, hrange, if_false]
            refine .single hb ?_
            intro e' r' heq
            simp only [List.cons.injEq] at heq
            obtain ⟨rfl, rfl, rfl⟩ := heq
            simpa using hrange

/-- The reader of items follows the grammar, and leaves what follows the closing bracket. -/
theorem readItems_eq_some_iff
    {first : Bool}
    {items : List Item}
    {p rest : Bytes} :
    readItems first p = some (items, rest) ↔ Body first items p rest := by
  constructor
  · intro h
    fun_induction readItems first p generalizing items rest with
    | case1 => simp at h
    | case2 first b q hb =>
        obtain ⟨rfl, rfl⟩ := hb
        cases h
        exact .close q
    | case3 first b q hb ih =>
        obtain ⟨⟨items', rest'⟩, hread, heq⟩ := Option.map_eq_some_iff.1 h
        cases heq
        have hbody := ih hread
        obtain ⟨tail, hq, hi⟩ := written_readItem (List.ne_nil_of_length_pos
          (Nat.lt_of_le_of_lt (Nat.zero_le _) hbody.length_lt))
        have hcons : b :: q = (b :: tail) ++ (readItem b q).2 := congrArg (b :: ·) hq
        rw [hcons]
        refine .item hi ?_ hbody
        intro hfirst hhead
        exact hb ⟨by simpa using hhead, hfirst⟩
  · intro h
    induction h with
    | close rest => simp [readItems]
    | @item first i items text follow rest hi hfirst hbody ih =>
        obtain ⟨b, tail, rfl, hread⟩ := readItem_of_written hi
        have hb : ¬ (b = 0x5D ∧ first = false) := fun hb => hfirst hb.2 (by simp [hb.1])
        rw [List.cons_append, readItems, if_neg hb, hread, ih]
        rfl

/-- The reader of classes follows the grammar. -/
theorem readClass_eq_some_iff
    {k : Token}
    {p rest : Bytes} :
    readClass p = some (k, rest) ↔
      ∃ negated items, k = .byteClass negated items ∧ ClassText negated items p rest := by
  constructor
  · intro h
    cases p with
    | nil => simp [readClass] at h
    | cons b q =>
        simp only [readClass] at h
        split at h
        · next hb =>
            obtain ⟨⟨items, rest'⟩, hread, heq⟩ := Option.map_eq_some_iff.1 h
            cases heq
            exact ⟨true, items, rfl, .negated hb (readItems_eq_some_iff.1 hread)⟩
        · next hb =>
            obtain ⟨⟨items, rest'⟩, hread, heq⟩ := Option.map_eq_some_iff.1 h
            cases heq
            exact ⟨false, items, rfl, .plain hb (readItems_eq_some_iff.1 hread)⟩
  · rintro ⟨negated, items, rfl, h⟩
    cases h with
    | @negated items b text rest hb hbody =>
        have hmark : b = 0x5E ∨ b = 0x21 := hb
        simp only [readClass, if_pos hmark, readItems_eq_some_iff.2 hbody, Option.map_some]
    | plain hmark hbody =>
        cases p with
        | nil => simpa using hbody.length_lt
        | cons b q =>
            have hplain : ¬ (b = 0x5E ∨ b = 0x21) := hmark
            simp only [readClass, if_neg hplain, readItems_eq_some_iff.2 hbody, Option.map_some]

/-- Whether the class that is opened at an index of a pattern takes the byte `c`, and the index
behind its closing bracket; nothing if it is never closed. -/
def classAt (pattern : Bytes) (start : Nat) (c : UInt8) : Option (Bool × Nat) :=
  (scanClass c (pattern.drop (start + 1))).map fun r => (r.1, pattern.length - r.2.length)

variable {pattern : Bytes} {start next : Nat} {c : UInt8} {m : Bool}

theorem drop_length_sub
    {p rest : Bytes}
    (h : rest <:+ p) :
    p.drop (p.length - rest.length) = rest :=
  (List.suffix_iff_eq_drop.1 h).symm

/-- The result of a class is the one of its items, whatever byte is tested, and its end is
where they end. -/
theorem classAt_eq_some_iff :
    classAt pattern start c = some (m, next) ↔
      next ≤ pattern.length ∧ ∃ negated items,
        ClassText negated items (pattern.drop (start + 1)) (pattern.drop next) ∧
          m = ((items.any fun i => i.holds c) != negated) := by
  simp only [classAt, scanClass_eq_readClass, Option.map_map]
  constructor
  · intro h
    obtain ⟨⟨k, rest⟩, hread, heq⟩ := Option.map_eq_some_iff.1 h
    cases heq
    obtain ⟨negated, items, rfl, htext⟩ := readClass_eq_some_iff.1 hread
    have hsuffix : rest <:+ pattern := htext.isSuffix.trans (List.drop_suffix _ _)
    refine ⟨Nat.sub_le _ _, negated, items, ?_, rfl⟩
    exact (drop_length_sub hsuffix).symm ▸ htext
  · rintro ⟨hnext, negated, items, htext, rfl⟩
    have hread := readClass_eq_some_iff.2 ⟨negated, items, rfl, htext⟩
    have hend : pattern.length - (pattern.drop next).length = next := by
      rw [List.length_drop]
      omega
    simp only [hread, Option.map_some, Function.comp_apply, hend, Token.takes]

/-- A closed class has an item and a bracket behind its opening one. -/
theorem lt_of_classAt
    (h : classAt pattern start c = some (m, next)) :
    start + 2 < next := by
  obtain ⟨hnext, negated, items, htext, -⟩ := classAt_eq_some_iff.1 h
  have hlt := htext.length_lt
  simp only [List.length_drop] at hlt
  omega

/-- A class that is the whole pattern matches the bytes that it takes. -/
theorem acceptsBytes_class
    {negated : Bool}
    {items : List Item}
    {p : Bytes}
    (h : ClassText negated items p [])
    (c : UInt8) :
    acceptsBytes (0x5B :: p) [c] = ((items.any fun i => i.holds c) != negated) := by
  have hread : readToken 0x5B p = (.byteClass negated items, []) := by
    simp [readToken, readClass_eq_some_iff.2 ⟨negated, items, rfl, h⟩]
  have htokens : tokens (0x5B :: p) = [.byteClass negated items] := by
    rw [tokens_cons, hread, tokens]
  rw [Bool.eq_iff_iff, acceptsBytes, State.run_eq_true_iff _ (State.anchored_start _ _),
    State.promising_start_iff, htokens, matches_cons_iff (by simp), matches_nil_iff,
    and_iff_left rfl]
  rfl

theorem negatesFirst_append_iff
    {text after : Bytes} :
    NegatesFirst (text ++ 0x5D :: after) ↔ NegatesFirst text := by
  cases text with
  | nil => simp [NegatesFirst, Negates]
  | cons b text => rfl

namespace ItemText

variable {items : List Item} {text : Bytes}

theorem body
    (h : ItemText items text)
    (after : Bytes) :
    Body true items (text ++ 0x5D :: after) after := by
  have hbody := Body.append h after
  rwa [List.append_assoc] at hbody

theorem plain
    (h : ItemText items text)
    (hmark : ¬ NegatesFirst text)
    (after : Bytes) :
    ClassText false items (text ++ 0x5D :: after) after :=
  .plain (negatesFirst_append_iff.not.2 hmark) (h.body after)

theorem negated
    (h : ItemText items text)
    {mark : UInt8}
    (hmark : Negates mark)
    (after : Bytes) :
    ClassText true items (mark :: (text ++ 0x5D :: after)) after :=
  .negated hmark (h.body after)

end ItemText

/-- A class that is written out within a pattern. -/
theorem classAt_of_classText
    {negated : Bool}
    {items : List Item}
    {p after : Bytes}
    (h : ClassText negated items p after)
    (before : Bytes)
    (c : UInt8) :
    classAt (before ++ 0x5B :: p) before.length c =
      some ((items.any fun i => i.holds c) != negated,
        before.length + 1 + (p.length - after.length)) := by
  have hopened : ∀ n, (before ++ 0x5B :: p).drop (before.length + 1 + n) = p.drop n := by
    intro n
    rw [Nat.add_assoc, List.drop_length_add_append, Nat.add_comm 1 n]
    rfl
  refine classAt_eq_some_iff.2 ⟨?_, negated, items, ?_, rfl⟩
  · rw [List.length_append, List.length_cons]
    omega
  · rw [hopened, drop_length_sub h.isSuffix]
    exact (hopened 0).symm ▸ h

/-- A class is closed for every byte or for none, and has one reading and one end. -/
theorem classAt_unclosed_or_closed
    (pattern : Bytes)
    (start : Nat) :
    (∀ c, classAt pattern start c = none) ∧
        (∀ negated items rest, ¬ ClassText negated items (pattern.drop (start + 1)) rest) ∨
      ∃ negated items next, start + 2 < next ∧ next ≤ pattern.length ∧
        (∀ negated' items' rest, ClassText negated' items' (pattern.drop (start + 1)) rest ↔
          negated' = negated ∧ items' = items ∧ rest = pattern.drop next) ∧
        ∀ c, classAt pattern start c =
          some ((items.any fun i => i.holds c) != negated, next) := by
  cases hread : readClass (pattern.drop (start + 1)) with
  | none =>
      left
      refine ⟨fun c => ?_, fun negated items rest htext => ?_⟩
      · rw [classAt, scanClass_eq_readClass, hread]
        rfl
      · rw [readClass_eq_some_iff.2 ⟨negated, items, rfl, htext⟩] at hread
        cases hread
  | some r =>
      right
      obtain ⟨k, rest⟩ := r
      obtain ⟨negated, items, rfl, htext⟩ := readClass_eq_some_iff.1 hread
      have hrest : pattern.drop (pattern.length - rest.length) = rest :=
        drop_length_sub (htext.isSuffix.trans (List.drop_suffix _ _))
      have hclass : ∀ c, classAt pattern start c =
          some ((items.any fun i => i.holds c) != negated, pattern.length - rest.length) := by
        intro c
        refine classAt_eq_some_iff.2 ⟨Nat.sub_le _ _, negated, items, ?_, rfl⟩
        rwa [hrest]
      refine ⟨negated, items, _, lt_of_classAt (hclass 0), Nat.sub_le _ _,
        fun negated' items' rest' => ?_, hclass⟩
      rw [hrest]
      constructor
      · intro htext'
        have hread' := readClass_eq_some_iff.2 ⟨negated', items', rfl, htext'⟩
        rw [hread] at hread'
        cases hread'
        exact ⟨rfl, rfl, rfl⟩
      · rintro ⟨rfl, rfl, rfl⟩
        exact htext

/-- **The classes of a pattern.**  A class that is opened at an index is closed for every byte
or for none, as what stands behind it is the text of a class or not.  If it is closed, that
text has one reading, and whatever byte is tested, the index behind the class is more than two
above the one of its opening bracket and lies within the pattern.  The class takes the bytes
that one of its items holds, or those that none holds if a mark leads it.

A text of items that no mark leads therefore makes two classes that take complementary bytes,
with a mark and without one, wherever they stand. -/
theorem class_takes_items
    (pattern : Bytes)
    (start : Nat) :
    ((∀ c, classAt pattern start c = none) ∧
        (∀ negated items rest, ¬ ClassText negated items (pattern.drop (start + 1)) rest) ∨
      ∃ negated items next, start + 2 < next ∧ next ≤ pattern.length ∧
        (∀ negated' items' rest, ClassText negated' items' (pattern.drop (start + 1)) rest ↔
          negated' = negated ∧ items' = items ∧ rest = pattern.drop next) ∧
        ∀ c, classAt pattern start c =
          some ((items.any fun i => i.holds c) != negated, next)) ∧
    ∀ items text, ItemText items text → ¬ NegatesFirst text → ∀ mark, Negates mark →
      ∀ c, (∀ before after,
          classAt (before ++ 0x5B :: (text ++ 0x5D :: after)) before.length c =
            some (items.any fun i => i.holds c, before.length + text.length + 2) ∧
          classAt (before ++ 0x5B :: mark :: (text ++ 0x5D :: after)) before.length c =
            some (!items.any fun i => i.holds c, before.length + text.length + 3)) ∧
        acceptsBytes (0x5B :: (text ++ [0x5D])) [c] = (items.any fun i => i.holds c) ∧
        acceptsBytes (0x5B :: mark :: (text ++ [0x5D])) [c] = !items.any fun i => i.holds c := by
  refine ⟨classAt_unclosed_or_closed pattern start, ?_⟩
  intro items text hitems hplain mark hmark c
  have hplain' := hitems.plain hplain
  have hnegated := hitems.negated hmark
  refine ⟨fun before after => ⟨?_, ?_⟩, ?_, ?_⟩
  · rw [classAt_of_classText (hplain' after), Bool.bne_false, List.length_append, List.length_cons]
    congr 2
    omega
  · rw [classAt_of_classText (hnegated after), Bool.bne_true, List.length_cons, List.length_append,
      List.length_cons]
    congr 2
    omega
  · rw [acceptsBytes_class (hplain' []), Bool.bne_false]
  · rw [acceptsBytes_class (hnegated []), Bool.bne_true]

/-- A class whose items are a bracket that comes first, a range, a hyphen behind a backslash and
one in front of the closing bracket. -/
theorem hyphens_in_class :
    let items : List Item :=
      [.byte 0x5D, .range 0x61 0x63, .byte 0x2D, .byte 0x78, .byte 0x2D]
    let text := Bytes.ofAscii "]a-c\\-x-"
    ItemText items text ∧ ¬ NegatesFirst text ∧ Negates 0x5E ∧
      classAt (Bytes.ofAscii "y[]a-c\\-x-]z") 1 0x62 = some (true, 11) ∧
      classAt (Bytes.ofAscii "y[^]a-c\\-x-]z") 1 0x62 = some (false, 12) ∧
      ∀ c, acceptsBytes (Bytes.ofAscii "[^]a-c\\-x-]") [c] =
        !acceptsBytes (Bytes.ofAscii "[]a-c\\-x-]") [c] := by
  intro items text
  have hitems : ItemText items text := by
    show Body true items
      ([0x5D] ++ ([0x61, 0x2D, 0x63] ++ ([0x5C, 0x2D] ++ ([0x78] ++ ([0x2D] ++ [0x5D]))))) []
    refine .item (.single (by decide) (by simp)) (by simp) ?_
    refine .item (.range (by decide) (by decide) _) (by simp) ?_
    refine .item (.escape 0x2D _) (by simp) ?_
    refine .item (.single (by decide) (by simp)) (by simp) ?_
    exact .item (.single (by decide) (by simp)) (by simp) (.close [])
  have hplain : ¬ NegatesFirst text := by
    rintro (h | h) <;> exact absurd h (by decide)
  have hmark : Negates 0x5E := .inl rfl
  obtain ⟨-, htwo⟩ := class_takes_items (Bytes.ofAscii "y[]a-c\\-x-]z") 1
  obtain ⟨hwithin, -⟩ := htwo items text hitems hplain 0x5E hmark 0x62
  obtain ⟨hclass, hnegated⟩ := hwithin (Bytes.ofAscii "y") (Bytes.ofAscii "z")
  refine ⟨hitems, hplain, hmark, hclass, hnegated, fun c => ?_⟩
  obtain ⟨-, halone, hmarked⟩ := htwo items text hitems hplain 0x5E hmark c
  exact hmarked.trans (congrArg not halone.symm)

end Glob
end Courier
