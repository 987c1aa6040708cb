import Courier.Proofs.Json.Kept

/-!
# Every text is passed over

A value under an unknown key is passed over token by token, with the open containers on a
stack.  Whatever well-formed text stands there, of any depth, with numbers of any size and
with surrogates without a partner, the machine stops right behind it.

**Results.**
* `left`: where a reader stops.
* `left_skipString`, `left_skipNumber`: strings and numbers.
* `Skip.Passes`, `Skip.left_run_opened`: the entries of a container.
* `Tree.left_run`, `Tree.bare_skipValue`: a whole value.
-/

namespace Courier
namespace Json

/-- Where a reader stops, without the proof that this is further on. -/
def left {p : Bytes → Prop} (x : Except Fault (Subtype p)) : Except Fault Bytes :=
  x.map Subtype.val

section Left

variable {p q : Bytes → Prop}

@[simp] theorem left_ok
    (r : Subtype p) :
    left (.ok r) = .ok r.val := rfl

theorem left_map_same
    {x : Except Fault (Subtype p)}
    {g : Subtype p → Subtype q}
    (hg : ∀ r, (g r).val = r.val) :
    left (x.map g) = left x := by
  rcases x with e | r
  · rfl
  · exact congrArg Except.ok (hg r)

theorem map_map
    {α β γ : Type}
    (x : Except Fault α)
    (g : α → β)
    (f : β → γ) :
    (x.map g).map f = x.map fun y => f (g y) := by
  cases x with
  | error e => rfl
  | ok y => rfl

theorem left_eq_ok
    {x : Except Fault (Subtype p)}
    {t : Bytes} :
    left x = .ok t ↔ ∃ h, x = .ok ⟨t, h⟩ := by
  rcases x with e | ⟨r, hr⟩
  · simp [left, Except.map]
  · simp only [left_ok, Except.ok.injEq, Subtype.mk.injEq]
    constructor
    · rintro rfl
      exact ⟨hr, rfl⟩
    · rintro ⟨-, ht⟩
      exact ht

end Left

/-- An ASCII byte of a character is the character. -/
theorem toNat_of_mem_utf8EncodeChar
    {c : Char}
    {b : UInt8}
    (h : b ∈ String.utf8EncodeChar c)
    (hb : b.toNat < 0x80) :
    c.toNat = b.toNat := by
  have hmem : b ∈ Utf8.encodeChars [c] := by
    rw [Utf8.encodeChars_cons]
    exact List.mem_append_left _ h
  have hchar := Utf8.mem_decode?_of_ascii (Utf8.decode?_encodeChars [c]) hmem hb
  rw [List.mem_singleton] at hchar
  rw [← hchar, Char.ofNat, dif_pos (Or.inl (by omega))]
  rfl

theorem left_skipString_plain
    {bs : Bytes}
    (h : ∀ b ∈ bs, b ≠ 0x22 ∧ b ≠ 0x5C ∧ ¬ b < 0x20)
    (t : Bytes) :
    left (skipString (bs ++ t)) = left (skipString t) := by
  induction bs with
  | nil => rfl
  | cons b bs ih =>
      rw [List.forall_mem_cons] at h
      obtain ⟨⟨hquote, hbackslash, hcontrol⟩, hbs⟩ := h
      rw [List.cons_append, skipString, if_neg hquote, if_neg hbackslash, if_neg hcontrol]
      exact Eq.trans (left_map_same fun _ => rfl) (ih hbs)

theorem left_skipString_escape
    {s t : Bytes}
    (h : left (skipEscape s) = .ok t) :
    left (skipString (0x5C :: s)) = left (skipString t) := by
  obtain ⟨_, hescape⟩ := left_eq_ok.1 h
  rw [skipString, if_neg (by decide), if_pos rfl, hescape]
  exact left_map_same fun _ => rfl

theorem left_skipEscape_unit
    (u : HexUnit)
    (t : Bytes) :
    left (skipEscape (0x75 :: (u.bytes ++ t))) = .ok t := by
  obtain ⟨_, hunit⟩ := bare_eq_ok.1 (bare_hexUnit u t)
  rw [skipEscape, if_neg (by decide), if_pos rfl, hunit]
  rfl

/-- A piece is passed over, whether or not it is a character. -/
theorem left_skipString_piece
    (p : Piece)
    (t : Bytes) :
    left (skipString (p.text ++ t)) = left (skipString t) := by
  cases p with
  | plain c h =>
      obtain ⟨hcontrol, hquote, hbackslash⟩ := h
      refine left_skipString_plain (fun b hb => ⟨?_, ?_, ?_⟩) t
      · rintro rfl
        exact hquote (Char.toNat_inj.1 (toNat_of_mem_utf8EncodeChar hb (by decide)))
      · rintro rfl
        exact hbackslash (Char.toNat_inj.1 (toNat_of_mem_utf8EncodeChar hb (by decide)))
      · intro hlt
        have hlt : b.toNat < 0x20 := UInt8.lt_iff_toNat_lt.1 hlt
        have hchar := toNat_of_mem_utf8EncodeChar hb (by omega)
        omega
  | short e h =>
      refine left_skipString_escape ?_
      show left (skipEscape (e :: t)) = _
      rw [skipEscape, if_pos h]
      rfl
  | unit u => exact left_skipString_escape (left_skipEscape_unit u t)
  | pair high low h =>
      rw [Piece.text, List.cons_append, List.cons_append, List.append_assoc, List.cons_append,
        List.cons_append, left_skipString_escape (left_skipEscape_unit high _)]
      exact left_skipString_escape (left_skipEscape_unit low t)

/-- **Every string is passed over.** -/
theorem left_skipString
    (ps : List Piece)
    (t : Bytes) :
    left (skipString (ps.flatMap Piece.text ++ 0x22 :: t)) = .ok t := by
  induction ps with
  | nil =>
      show left (skipString (0x22 :: t)) = _
      rw [skipString, if_pos rfl]
      rfl
  | cons p ps ih =>
      rw [List.flatMap_cons, List.append_assoc, left_skipString_piece, ih]

theorem left_skipExponent
    (e : Exponent)
    {rest : Bytes}
    (hrest : ∀ b ∈ rest.head?, Bytes.isDigit b = false) :
    left (skipExponent (e.sign.toList ++ (e.digits.val ++ rest))) = .ok rest := by
  obtain ⟨mark, isMark, sign, isSign, ds, hne, hds⟩ := e
  obtain ⟨b, u, rfl⟩ := List.exists_cons_of_ne_nil hne
  have hb := hds b List.mem_cons_self
  have hafter := (digits_all_append hds hrest).2
  rw [List.cons_append] at hafter
  cases sign with
  | none =>
      have hsign : ¬ (b = 0x2B ∨ b = 0x2D) := by
        rintro (rfl | rfl)
        · exact absurd hb (by decide)
        · exact absurd hb (by decide)
      show left (skipExponent (b :: (u ++ rest))) = _
      simp only [skipExponent]
      rw [if_neg hsign]
      simp only [Tail.all]
      rw [if_pos hb]
      exact congrArg Except.ok hafter
  | some c =>
      show left (skipExponent (c :: b :: (u ++ rest))) = _
      simp only [skipExponent]
      rw [if_pos (isSign c rfl)]
      simp only [Tail.all, Tail.behind, Rest.toTail]
      rw [if_pos hb]
      exact congrArg Except.ok hafter

theorem left_skipMaybeExponent
    (l : Literal)
    {rest : Bytes}
    (hrest : Stops rest) :
    left (skipMaybeExponent (l.exponentText ++ rest)) = .ok rest := by
  rw [Literal.exponentText]
  cases l.exponent with
  | none =>
      cases rest with
      | nil => rfl
      | cons b t =>
          show left (skipMaybeExponent (b :: t)) = _
          rw [skipMaybeExponent, if_neg (by simp [(hrest b rfl).2.2])]
          rfl
  | some e =>
      show left (skipMaybeExponent (e.text ++ rest)) = _
      rw [Exponent.text, List.cons_append, List.append_assoc, skipMaybeExponent, if_pos e.isMark]
      exact Eq.trans (left_map_same fun _ => rfl) (left_skipExponent e hrest.no_digit)

theorem left_skipFraction
    (l : Literal)
    {rest : Bytes}
    (hrest : Stops rest) :
    left (skipFraction (l.fractionText ++ (l.exponentText ++ rest))) = .ok rest := by
  have hexponent := left_skipMaybeExponent l hrest
  have hhead := exponentText_append_cases l hrest
  rw [Literal.fractionText]
  cases l.fraction with
  | none =>
      show left (skipFraction (l.exponentText ++ rest)) = _
      cases hs : l.exponentText ++ rest with
      | nil =>
          rw [hs] at hexponent
          exact hexponent
      | cons b t =>
          rw [hs] at hexponent hhead
          rw [skipFraction, if_neg (hhead b rfl).2]
          exact hexponent
  | some ds =>
      obtain ⟨hrun, hafter⟩ := digits_all_append ds.property.2 fun b hb => (hhead b hb).1
      show left (skipFraction (0x2E :: (ds.val ++ (l.exponentText ++ rest)))) = _
      rw [skipFraction, if_pos rfl, if_neg (by rw [hrun]; exact ds.property.1)]
      refine Eq.trans (left_map_same fun _ => rfl) ?_
      show left (skipMaybeExponent
        ((ds.val ++ (l.exponentText ++ rest)).dropWhile Bytes.isDigit)) = _
      rw [hafter]
      exact hexponent

/-- **Every number is passed over.** -/
theorem left_skipNumber
    (l : Literal)
    {rest : Bytes}
    (hrest : Stops rest) :
    left (skipNumber (l.body ++ rest)) = .ok rest := by
  have hfraction := left_skipFraction l hrest
  have hhead := fractionText_append_no_digit l hrest
  rw [Literal.body, List.append_assoc, List.append_assoc]
  rcases Nat.eq_zero_or_pos l.whole with hzero | hpos
  · have hrun : digitRun (l.fractionText ++ (l.exponentText ++ rest)) = [] :=
      (takeWhile_digits hhead).1
    rw [hzero]
    show left (skipNumber (0x30 :: (l.fractionText ++ (l.exponentText ++ rest)))) = _
    rw [skipNumber, if_pos rfl, if_pos hrun]
    exact Eq.trans (left_map_same fun _ => rfl) hfraction
  · obtain ⟨b, ds, hbytes, hb⟩ := digitBytes_of_pos hpos
    have hdigits : ∀ d ∈ b :: ds, Bytes.isDigit d = true := fun d hd =>
      isDigit_of_mem_digitBytes (hbytes ▸ hd)
    have hafter := (digits_all_append (fun d hd => hdigits d (List.mem_cons_of_mem b hd)) hhead).2
    rw [hbytes, List.cons_append, skipNumber, if_neg hb, if_pos (hdigits b List.mem_cons_self)]
    refine Eq.trans (left_map_same fun _ => rfl) ?_
    show left (skipFraction
      ((ds ++ (l.fractionText ++ (l.exponentText ++ rest))).dropWhile Bytes.isDigit)) = _
    rw [hafter]
    exact hfraction

namespace Skip

/-- Where the machine stops once a value has ended in front of `t`. -/
def resume (open_ : List Frame) (t : Bytes) : Except Fault Bytes :=
  if open_ = [] then .ok t else left (run .after open_ t)

theorem left_run_more
    {mode mode' : Skip}
    {open_ open' : List Frame}
    {s t : Bytes}
    (h : ∃ hlt, step mode open_ s = .ok (.more mode' open' ⟨t, hlt⟩)) :
    left (run mode open_ s) = left (run mode' open' t) := by
  obtain ⟨_, hstep⟩ := h
  rw [run, hstep]
  exact left_map_same fun _ => rfl

theorem left_run_ended
    {mode : Skip}
    {open_ open' : List Frame}
    {s t : Bytes}
    (h : ∃ hlt, step mode open_ s = .ok (ended open' ⟨t, hlt⟩)) :
    left (run mode open_ s) = resume open' t := by
  obtain ⟨hlt, hstep⟩ := h
  rw [resume]
  by_cases hopen : open' = []
  · rw [if_pos hopen]
    rw [ended, if_pos hopen] at hstep
    rw [run, hstep]
    rfl
  · rw [if_neg hopen]
    rw [ended, if_neg hopen] at hstep
    exact left_run_more ⟨hlt, hstep⟩

/-- An opening byte opens its frame. -/
theorem left_run_open
    (open_ : List Frame)
    (w : Blanks)
    (t : Bytes) :
    left (run .value open_ (w.val ++ 0x5B :: t)) = left (run (.opened .list) open_ t) ∧
      left (run .value open_ (w.val ++ 0x7B :: t)) = left (run (.opened .object) open_ t) := by
  constructor
  · obtain ⟨_, hfront⟩ := front_blanks w t (b := 0x5B) (by decide)
    refine left_run_more ⟨?_, ?_⟩
    · simp
      omega
    · simp only [step, valueStep, hfront]
      rfl
  · obtain ⟨_, hfront⟩ := front_blanks w t (b := 0x7B) (by decide)
    refine left_run_more ⟨?_, ?_⟩
    · simp
      omega
    · simp only [step, valueStep, hfront]
      rfl

/-- The first token of a value that is no container is the whole value. -/
theorem left_run_leaf
    {open_ : List Frame}
    {w : Blanks}
    {b : UInt8}
    {t rest : Bytes}
    {x : Except Fault (Rest (b :: t))}
    (hb : isBlank b = false)
    (hx : left x = .ok rest)
    (hstep : ∀ (s : Bytes) (h : (b :: t).length ≤ s.length), front s = .byte b t h →
      valueStep open_ s = x.map fun r => ended open_ (r.ofLe h)) :
    left (run .value open_ (w.val ++ b :: t)) = resume open_ rest := by
  obtain ⟨_, rfl⟩ := left_eq_ok.1 hx
  obtain ⟨hle, hfront⟩ := front_blanks w t hb
  exact left_run_ended ⟨_, hstep _ hle hfront⟩

theorem left_word
    (b : UInt8)
    (letters : List UInt8)
    (rest : Bytes) :
    left ((word letters (letters ++ rest)).map fun r =>
      (r.behind : Rest (b :: (letters ++ rest)))) = .ok rest := by
  obtain ⟨_, hword⟩ := word_append letters rest
  rw [hword]
  rfl

/-- An entry of an open container that is passed over, up to white space behind it. -/
structure Passes (frame : Frame) (x : Bytes) : Prop where
  starts : ∃ (w : Blanks) (b : UInt8) (t : Bytes),
    x = w.val ++ b :: t ∧ isBlank b = false ∧ b ≠ frame.closer
  passed : ∃ v : Blanks, ∀ (open_ : List Frame) (w : Blanks) (rest : Bytes), Stops rest →
    left (run (entry frame) (frame :: open_) (w.val ++ (x ++ rest))) =
      left (run .after (frame :: open_) (v.val ++ rest))

theorem closer_cases
    (frame : Frame) :
    isBlank frame.closer = false ∧ frame.closer ≠ 0x2C ∧
      Bytes.isDigit frame.closer = false ∧ frame.closer ≠ 0x2E ∧
        isExponentMark frame.closer = false := by
  cases frame with
  | list => decide
  | object => decide

/-- Behind an entry the others are passed over, and the container is closed. -/
theorem left_run_after
    {frame : Frame}
    {xs : List Bytes}
    (hxs : ∀ x ∈ xs, Passes frame x)
    (open_ : List Frame)
    (w inner : Blanks)
    (rest : Bytes) :
    left (run .after (frame :: open_)
      (w.val ++ (joined false xs ++ (inner.val ++ frame.closer :: rest)))) = resume open_ rest := by
  obtain ⟨hblank, hcomma, hstops⟩ := closer_cases frame
  induction xs generalizing w with
  | nil =>
      -- White space behind the last entry and in front of the closing byte is read as one.
      obtain ⟨_, hfront⟩ := front_blanks (w.append inner) rest hblank
      rw [joined, List.nil_append, ← List.append_assoc]
      refine left_run_ended ⟨?_, ?_⟩
      · simp
        omega
      · show step .after (frame :: open_) ((w.append inner).val ++ frame.closer :: rest) = _
        simp only [step, hfront, if_neg hcomma, if_true]
        rfl
  | cons x xs ih =>
      rw [List.forall_mem_cons] at hxs
      obtain ⟨⟨v, hpassed⟩, hxs⟩ := And.intro hxs.1.passed hxs.2
      have hcomma : left (run .after (frame :: open_) (w.val ++ 0x2C ::
          (x ++ (joined false xs ++ (inner.val ++ frame.closer :: rest))))) =
          left (run (entry frame) (frame :: open_)
            (x ++ (joined false xs ++ (inner.val ++ frame.closer :: rest)))) := by
        obtain ⟨_, hfront⟩ := front_blanks w
          (x ++ (joined false xs ++ (inner.val ++ frame.closer :: rest)))
          (b := 0x2C) (by decide)
        refine left_run_more ⟨?_, ?_⟩
        · simp
          omega
        · simp only [step, hfront, if_true]
          rfl
      rw [joined, entry_append, List.append_assoc]
      refine hcomma.trans ?_
      exact (hpassed open_ .none _ (stops_joined xs inner rest hstops)).trans (ih hxs v)

/-- **An open container is passed over** with all its entries. -/
theorem left_run_opened
    {frame : Frame}
    {xs : List Bytes}
    (hxs : ∀ x ∈ xs, Passes frame x)
    (open_ : List Frame)
    (inner : Blanks)
    (rest : Bytes) :
    left (run (.opened frame) open_ (joined true xs ++ (inner.val ++ frame.closer :: rest))) =
      resume open_ rest := by
  obtain ⟨hblank, -, hstops⟩ := closer_cases frame
  cases xs with
  | nil =>
      obtain ⟨_, hfront⟩ := front_blanks inner rest hblank
      rw [joined, List.nil_append]
      refine left_run_ended ⟨?_, ?_⟩
      · simp
        omega
      · simp only [step, hfront, if_true]
        rfl
  | cons x xs =>
      rw [List.forall_mem_cons] at hxs
      obtain ⟨hx, hxs⟩ := hxs
      obtain ⟨v, hpassed⟩ := hx.passed
      obtain ⟨w, b, t, hstart, hb, hne⟩ := hx.starts
      -- The first entry is read as an entry, since it does not close the container.
      have hentry : left (run (.opened frame) open_
          (x ++ (joined false xs ++ (inner.val ++ frame.closer :: rest)))) =
          left (run (entry frame) (frame :: open_)
            (x ++ (joined false xs ++ (inner.val ++ frame.closer :: rest)))) := by
        obtain ⟨_, hfront⟩ := front_blanks w
          (t ++ (joined false xs ++ (inner.val ++ frame.closer :: rest))) hb
        rw [hstart, List.append_assoc, List.cons_append, run, run]
        simp only [step, hfront, if_neg hne]
        cases frame with
        | list => rfl
        | object => rfl
      rw [joined, entry_append, List.append_assoc]
      refine hentry.trans ?_
      exact (hpassed open_ .none _ (stops_joined xs inner rest hstops)).trans
        (left_run_after hxs open_ v inner rest)

/-- An item is passed over if its value is. -/
theorem passes_item
    {i : Item Tree}
    (h : ∀ (open_ : List Frame) (w : Blanks) (rest : Bytes), Stops rest →
      left (run .value open_ (w.val ++ (i.value.text ++ rest))) = resume open_ rest) :
    Passes .list i.text where
  starts := by
    obtain ⟨b, t, hstart, hb, hne⟩ := i.value.startsEntry_text
    refine ⟨i.before, b, t ++ i.after.val, ?_, hb, hne⟩
    rw [Item.text, hstart, List.cons_append]
  passed := by
    refine ⟨i.after, fun open_ w rest hrest => ?_⟩
    have hvalue := h (.list :: open_) (w.append i.before) (i.after.val ++ rest)
      (stops_blanks i.after hrest)
    rw [resume, if_neg (List.cons_ne_nil _ _)] at hvalue
    rw [Item.text, List.append_assoc, List.append_assoc, ← List.append_assoc]
    exact hvalue

/-- A member is passed over if its value is, whatever its key is. -/
theorem passes_member
    {m : Member Tree}
    (h : ∀ (open_ : List Frame) (w : Blanks) (rest : Bytes), Stops rest →
      left (run .value open_ (w.val ++ (m.item.value.text ++ rest))) = resume open_ rest) :
    Passes .object m.text where
  starts :=
    ⟨m.before, 0x22, _, congrArg (m.before.val ++ ·) (quote_append m.key _), by decide,
      by decide⟩
  passed := by
    refine ⟨m.item.after, fun open_ w rest hrest => ?_⟩
    have hvalue := h (.object :: open_) m.item.before (m.item.after.val ++ rest)
      (stops_blanks m.item.after hrest)
    rw [resume, if_neg (List.cons_ne_nil _ _)] at hvalue
    have hkey : left (run .key (.object :: open_) (w.val ++ (m.text ++ rest))) =
        left (run .value (.object :: open_) (m.item.text ++ rest)) := by
      obtain ⟨_, hfront⟩ := front_blanks (w.append m.before)
        (m.key.flatMap Piece.text ++ 0x22 :: (m.gap.val ++ 0x3A :: (m.item.text ++ rest)))
        (b := 0x22) (by decide)
      obtain ⟨_, hskip⟩ := left_eq_ok.1
        (left_skipString m.key (m.gap.val ++ 0x3A :: (m.item.text ++ rest)))
      obtain ⟨_, hcolon⟩ := front_blanks m.gap (m.item.text ++ rest) (b := 0x3A) (by decide)
      rw [member_append, quote_append, ← List.append_assoc]
      refine left_run_more ⟨?_, ?_⟩
      · simp
        omega
      · show keyStep _ ((w.append m.before).val ++ _) = _
        simp only [keyStep, hfront, hskip, hcolon, if_true]
        rfl
    refine hkey.trans ?_
    rw [Item.text, List.append_assoc, List.append_assoc]
    exact hvalue

end Skip

namespace Tree

open Skip (resume left_run_leaf left_run_open left_run_opened left_word passes_item passes_member)

theorem left_run_number
    (l : Literal)
    (open_ : List Frame)
    (w : Blanks)
    {rest : Bytes}
    (hrest : Stops rest) :
    left (Skip.run .value open_ (w.val ++ (l.text ++ rest))) = resume open_ rest := by
  have hskip := left_skipNumber l hrest
  rw [Literal.text]
  cases l.negative with
  | true =>
      rw [if_pos rfl, List.cons_append]
      refine left_run_leaf (x := (skipNumber (l.body ++ rest)).map (·.behind)) (by decide) ?_ ?_
      · exact Eq.trans (left_map_same fun _ => rfl) hskip
      · intro s hle hfront
        simp only [Skip.valueStep, hfront]
        rw [if_neg (by decide), if_neg (by decide), if_neg (by decide), if_pos trivial]
        rw [map_map]
  | false =>
      obtain ⟨b, ds, hbody, hb⟩ := l.body_cons
      obtain ⟨hblank, -, hn, ht, hf, hminus⟩ := isDigit_cases hb
      rw [if_neg (by decide), hbody, List.cons_append]
      rw [hbody, List.cons_append] at hskip
      refine left_run_leaf hblank hskip ?_
      intro s hle hfront
      simp only [Skip.valueStep, hfront, if_neg hn, if_neg ht, if_neg hf, if_neg hminus, if_pos hb]

/-- **A value is passed over from any of its texts**, whatever containers are open. -/
theorem left_run
    (t : Tree)
    (open_ : List Frame)
    (w : Blanks)
    {rest : Bytes}
    (hrest : Stops rest) :
    left (Skip.run .value open_ (w.val ++ (t.text ++ rest))) = resume open_ rest := by
  -- The entries of a container are passed over with one more frame on the stack.
  induction t using entriesInduction generalizing open_ w rest with
  | null =>
      show left (Skip.run .value open_ (w.val ++ 0x6E :: (restOfNull ++ rest))) = _
      refine left_run_leaf (by decide) (left_word _ restOfNull rest) ?_
      intro s hle hfront
      simp only [Skip.valueStep, hfront]
      rw [if_pos trivial]
      rw [map_map]
  | bool b =>
      cases b with
      | true =>
          show left (Skip.run .value open_ (w.val ++ 0x74 :: (restOfTrue ++ rest))) = _
          refine left_run_leaf (by decide) (left_word _ restOfTrue rest) ?_
          intro s hle hfront
          simp only [Skip.valueStep, hfront]
          rw [if_neg (by decide), if_pos trivial]
          rw [map_map]
      | false =>
          show left (Skip.run .value open_ (w.val ++ 0x66 :: (restOfFalse ++ rest))) = _
          refine left_run_leaf (by decide) (left_word _ restOfFalse rest) ?_
          intro s hle hfront
          simp only [Skip.valueStep, hfront]
          rw [if_neg (by decide), if_neg (by decide), if_pos trivial]
          rw [map_map]
  | number l => exact left_run_number l open_ w hrest
  | string ps =>
      rw [text, quote_append]
      refine left_run_leaf
        (x := (skipString (ps.flatMap Piece.text ++ 0x22 :: rest)).map (·.behind))
        (by decide) (Eq.trans (left_map_same fun _ => rfl) (left_skipString ps rest)) ?_
      intro s hle hfront
      simp only [Skip.valueStep, hfront]
      rw [if_neg (by decide), if_neg (by decide), if_neg (by decide), if_neg (by decide),
        if_neg (by decide), if_pos trivial]
      rw [map_map]
  | array items inner ih =>
      have hitems : ∀ x ∈ items.map Item.text, Skip.Passes .list x := by
        intro x hx
        obtain ⟨i, hi, rfl⟩ := List.mem_map.1 hx
        exact passes_item (ih i hi)
      rw [text, itemTexts_eq, List.cons_append, List.append_assoc, List.append_assoc,
        List.singleton_append]
      exact (left_run_open open_ w _).1.trans (left_run_opened hitems open_ inner rest)
  | object members inner ih =>
      have hmembers : ∀ x ∈ members.map Member.text, Skip.Passes .object x := by
        intro x hx
        obtain ⟨m, hm, rfl⟩ := List.mem_map.1 hx
        exact passes_member (ih m hm)
      rw [text, memberTexts_eq, List.cons_append, List.append_assoc, List.append_assoc,
        List.singleton_append]
      exact (left_run_open open_ w _).2.trans (left_run_opened hmembers open_ inner rest)

/-- A value under an unknown key is passed over from any of its texts. -/
theorem bare_skipValue
    (t : Tree)
    (w : Blanks)
    {rest : Bytes}
    (hrest : Stops rest) :
    bare (skipValue (w.val ++ (t.text ++ rest))) = .ok ((), rest) := by
  obtain ⟨h, hrun⟩ := left_eq_ok.1 (left_run t [] w hrest)
  rw [skipValue, hrun]
  rfl

end Tree

end Json
end Courier
