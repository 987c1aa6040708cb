import Courier.Proofs.Json.Literals
import Mathlib.Data.List.TakeWhile

/-!
# Values are read from all their texts

White space between tokens is passed over wherever it may stand, escapes are resolved, and the
entries of a container are read in the order in which they stand.  So a value is read from
every text that stands for it, if it nests no deeper than the reader may go.

**Results.**
* `front_blanks`: white space in front of a token.
* `bare_quote`: a string with its escapes.
* `bare_elementsFrom_items`, `bare_membersFrom_members`: the entries of a container.
* `Tree.isRead`: a value.
* `Tree.bare_stringOf`, `Tree.bare_read_object`, `Tree.bare_read_uint32`,
  `Tree.bare_read_timestamp`: a string, an object, an integer and a timestamp.
-/

namespace Courier
namespace Json

/-- White space behind white space. -/
def Blanks.append (w v : Blanks) : Blanks :=
  ⟨w.val ++ v.val, fun b hb => (List.mem_append.1 hb).elim (w.property b) (v.property b)⟩

theorem front_blanks
    (w : Blanks)
    {b : UInt8}
    (t : Bytes)
    (hb : isBlank b = false) :
    ∃ h, front (w.val ++ b :: t) = .byte b t h := by
  have hdrop : (w.val ++ b :: t).dropWhile isBlank = b :: t := by
    rw [List.dropWhile_append_of_pos w.property]
    exact List.dropWhile_cons_of_neg (by simp [hb])
  refine ⟨by simp, ?_⟩
  unfold front
  split
  · next h =>
      rw [hdrop] at h
      exact absurd h (List.cons_ne_nil _ _)
  · next c u h =>
      rw [hdrop] at h
      injection h with h₁ h₂
      subst h₁ h₂
      rfl

theorem front_blanks_end
    (w : Blanks) :
    front w.val = .ended := by
  have hdrop : w.val.dropWhile isBlank = [] := List.dropWhile_eq_nil_iff.2 w.property
  unfold front
  split
  · rfl
  · next c u h =>
      rw [hdrop] at h
      exact absurd h.symm (List.cons_ne_nil _ _)

theorem bare_atToken_blanks
    {α : Type}
    (read : (b : UInt8) → (t : Bytes) → Except Fault (α × Rest (b :: t)))
    (w : Blanks)
    {b : UInt8}
    (t : Bytes)
    (hb : isBlank b = false) :
    bare (atToken read (w.val ++ b :: t)) = bare (read b t) := by
  obtain ⟨h, hfront⟩ := front_blanks w t hb
  rw [atToken, hfront]
  exact bare_map_same fun _ _ => ⟨rfl, rfl⟩

theorem isBlank_cases
    {b : UInt8}
    (h : isBlank b = true) :
    b = 0x20 ∨ b = 0x09 ∨ b = 0x0A ∨ b = 0x0D := by
  simpa [isBlank, or_assoc] using h

theorem stops_blanks
    (w : Blanks)
    {s : Bytes}
    (hs : Stops s) :
    Stops (w.val ++ s) := by
  obtain ⟨_ | ⟨b, w⟩, hw⟩ := w
  · exact hs
  · refine stops_cons _ ?_
    rcases isBlank_cases (hw b List.mem_cons_self) with rfl | rfl | rfl | rfl
    · decide
    · decide
    · decide
    · decide

/-- What stands behind an entry stops a number. -/
theorem stops_joined
    (xs : List Bytes)
    (inner : Blanks)
    {b : UInt8}
    (rest : Bytes)
    (hb : Bytes.isDigit b = false ∧ b ≠ 0x2E ∧ isExponentMark b = false) :
    Stops (joined false xs ++ (inner.val ++ b :: rest)) := by
  cases xs with
  | nil => exact stops_blanks inner (stops_cons rest hb)
  | cons x xs => exact stops_cons _ (by decide)

theorem entry_append
    (first : Bool)
    (separator : UInt8)
    (s t : Bytes) :
    entry first separator s ++ t = entry first separator (s ++ t) := by
  cases first with
  | true => rfl
  | false => rfl

/-- Where a byte that is no white space follows: directly, or behind a comma. -/
theorem front_entry
    (w v : Blanks)
    {b : UInt8}
    (t : Bytes)
    (hb : isBlank b = false) :
    (∃ h, front (w.val ++ entry true 0x2C (v.val ++ b :: t)) = .byte b t h) ∧
      ∃ h, front (w.val ++ entry false 0x2C (v.val ++ b :: t)) =
        .byte 0x2C (v.val ++ b :: t) h := by
  constructor
  · have hfront := front_blanks (w.append v) t hb
    rw [Blanks.append, List.append_assoc] at hfront
    exact hfront
  · exact front_blanks w _ (by decide)

theorem bare_hexUnit
    (u : HexUnit)
    (t : Bytes) :
    bare (hexUnit (u.bytes ++ t)) = .ok (u.value, t) := by
  obtain ⟨a, b, c, d, h⟩ := u
  have hsome : ∀ x ∈ [a, b, c, d], Bytes.hexValue? x = some ((Bytes.hexValue? x).getD 0) := by
    intro x hx
    obtain ⟨n, hn⟩ := Option.isSome_iff_exists.1 (h x hx)
    rw [hn]
    rfl
  show bare (hexUnit (a :: b :: c :: d :: t)) = _
  rw [hexUnit, hsome a (by simp), hsome b (by simp), hsome c (by simp), hsome d (by simp)]
  simp only [HexUnit.value, HexUnit.bytes, List.foldl_cons, List.foldl_nil, Nat.zero_mul,
    Nat.zero_add]
  rfl

theorem surrogateMark_cons
    (mark : UInt8)
    (t : Bytes) :
    ∃ h, surrogateMark mark (mark :: t) = .ok ⟨t, h⟩ := by
  refine ⟨Nat.le_succ _, ?_⟩
  rw [surrogateMark, if_pos rfl]
  rfl

theorem bare_unicodeEscape_unit
    (u : HexUnit)
    (hu : ¬ (u.IsHigh ∨ u.IsLow))
    (t : Bytes) :
    bare (unicodeEscape (u.bytes ++ t)) = .ok (Char.ofNat u.value, t) := by
  obtain ⟨h, hunit⟩ := bare_eq_ok.1 (bare_hexUnit u t)
  have hlow : ¬ (0xDC00 ≤ u.value ∧ u.value ≤ 0xDFFF) := fun h => hu (Or.inr h)
  have hhigh : ¬ (0xD800 ≤ u.value ∧ u.value ≤ 0xDBFF) := fun h => hu (Or.inl h)
  simp only [unicodeEscape, hunit, bind, Except.bind]
  rw [if_neg hlow, if_neg hhigh]
  rfl

theorem bare_unicodeEscape_pair
    {high low : HexUnit}
    (hpair : high.IsHigh ∧ low.IsLow)
    (t : Bytes) :
    bare (unicodeEscape (high.bytes ++ 0x5C :: 0x75 :: (low.bytes ++ t))) =
      .ok (Char.ofNat ((high.value - 0xD800) * 0x400 + (low.value - 0xDC00) + 0x10000), t) := by
  obtain ⟨⟨hleast, hmost⟩, hlow₁, hlow₂⟩ := hpair
  obtain ⟨_, hfirst⟩ := bare_eq_ok.1 (bare_hexUnit high (0x5C :: 0x75 :: (low.bytes ++ t)))
  obtain ⟨_, hbackslash⟩ := surrogateMark_cons 0x5C (0x75 :: (low.bytes ++ t))
  obtain ⟨_, hletter⟩ := surrogateMark_cons 0x75 (low.bytes ++ t)
  obtain ⟨_, hsecond⟩ := bare_eq_ok.1 (bare_hexUnit low t)
  simp only [unicodeEscape, hfirst, bind, Except.bind]
  rw [if_neg (by omega), if_pos ⟨hleast, hmost⟩]
  simp only [hbackslash, hletter, hsecond]
  rw [if_pos ⟨hlow₁, hlow₂⟩]
  exact bare_ok _ _

theorem bare_stringBodyFrom_escape
    {c : Char}
    {s t : Bytes}
    (acc : List Char)
    (hescape : bare (unicodeEscape s) = .ok (c, t)) :
    bare (stringBodyFrom acc none (0x5C :: 0x75 :: s)) =
      bare (stringBodyFrom (c :: acc) none t) := by
  obtain ⟨_, hescape⟩ := bare_eq_ok.1 hescape
  have hshort : shortEscape? 0x75 = none := by decide
  rw [stringBodyFrom, if_neg (by decide), if_pos rfl]
  simp only [escape, hshort, if_true, hescape]
  exact bare_map_same fun _ _ => ⟨rfl, rfl⟩

/-- A piece is read as its character. -/
theorem bare_stringBodyFrom_piece
    {p : Piece}
    {c : Char}
    (hp : p.char? = some c)
    (acc : List Char)
    (t : Bytes) :
    bare (stringBodyFrom acc none (p.text ++ t)) = bare (stringBodyFrom (c :: acc) none t) := by
  cases p with
  | plain d h =>
      obtain rfl := Option.some.inj hp
      obtain ⟨hcontrol, hquote, hbackslash⟩ := h
      exact bare_stringBodyFrom_plain acc t (fun h => hquote (Char.toNat_inj.1 h))
        (fun h => hbackslash (Char.toNat_inj.1 h)) (Nat.not_lt.2 hcontrol)
  | short e h => exact bare_stringBodyFrom_shortEscape acc t hp
  | unit u =>
      rw [Piece.char?] at hp
      split at hp
      · exact absurd hp (by simp)
      · next hu =>
          obtain rfl := Option.some.inj hp
          exact bare_stringBodyFrom_escape acc (bare_unicodeEscape_unit u hu t)
  | pair high low h =>
      obtain rfl := Option.some.inj hp
      rw [Piece.text, List.cons_append, List.cons_append, List.append_assoc, List.cons_append,
        List.cons_append]
      exact bare_stringBodyFrom_escape acc (bare_unicodeEscape_pair h t)

theorem bare_stringBodyFrom_pieces
    {ps : List Piece}
    {cs : List Char}
    (hps : ps.mapM Piece.char? = some cs)
    (acc : List Char)
    (t : Bytes) :
    bare (stringBodyFrom acc none (ps.flatMap Piece.text ++ 0x22 :: t)) =
      .ok (String.ofList (acc.reverse ++ cs), t) := by
  induction ps generalizing acc cs with
  | nil =>
      obtain rfl : [] = cs := by simpa using hps
      show bare (stringBodyFrom acc none (0x22 :: t)) = _
      rw [stringBodyFrom, if_pos rfl, List.append_nil]
      rfl
  | cons p ps ih =>
      rw [List.mapM_cons] at hps
      obtain ⟨c, hc, hrest⟩ := Option.bind_eq_some_iff.1 hps
      obtain ⟨ds, hds, hcs⟩ := Option.bind_eq_some_iff.1 hrest
      obtain rfl : c :: ds = cs := Option.some.inj hcs
      rw [List.flatMap_cons, List.append_assoc, bare_stringBodyFrom_piece hc, ih hds,
        List.reverse_cons, List.append_assoc, List.singleton_append]

theorem quote_append
    (ps : List Piece)
    (t : Bytes) :
    quote ps ++ t = 0x22 :: (ps.flatMap Piece.text ++ 0x22 :: t) := by
  rw [quote, List.cons_append, List.append_assoc]
  rfl

/-- **A string is read with its escapes resolved.** -/
theorem bare_quote
    {ps : List Piece}
    {x : String}
    (hx : unescape? ps = some x)
    (t : Bytes) :
    bare (stringBody (ps.flatMap Piece.text ++ 0x22 :: t)) = .ok (x, t) := by
  obtain ⟨cs, hcs, rfl⟩ := Option.map_eq_some_iff.1 hx
  exact bare_stringBodyFrom_pieces hcs [] t

theorem nextElement_item
    (first : Bool)
    (w v : Blanks)
    {s : Bytes}
    (hs : StartsEntry s) :
    ∃ h, nextElement first (w.val ++ entry first 0x2C (v.val ++ s)) = .ok (true, ⟨s, h⟩) := by
  obtain ⟨b, t, rfl, hb, hne⟩ := hs
  obtain ⟨⟨hle, htrue⟩, _, hfalse⟩ := front_entry w v t hb
  cases first with
  | true =>
      refine ⟨hle, ?_⟩
      rw [nextElement, htrue]
      simp only
      rw [if_neg hne, if_pos trivial]
  | false =>
      obtain ⟨_, hbehind⟩ := front_blanks v t hb
      refine ⟨?_, ?_⟩
      · simp [entry]
        omega
      · rw [nextElement, hfalse]
        simp only
        rw [if_neg (by decide), if_neg (by decide), if_pos trivial, hbehind]
        simp only
        rw [if_neg hne]
        rfl

theorem nextElement_close
    (first : Bool)
    (w : Blanks)
    (t : Bytes) :
    ∃ h, nextElement first (w.val ++ 0x5D :: t) = .ok (false, ⟨0x5D :: t, h⟩) := by
  obtain ⟨h, hfront⟩ := front_blanks w t (b := 0x5D) (by decide)
  refine ⟨h, ?_⟩
  rw [nextElement, hfront]
  simp only
  rw [if_pos trivial]

theorem nextMember_key
    (first : Bool)
    (w v : Blanks)
    (t : Bytes) :
    ∃ h, nextMember first (w.val ++ entry first 0x2C (v.val ++ 0x22 :: t)) =
      .ok (true, ⟨0x22 :: t, h⟩) := by
  obtain ⟨⟨hle, htrue⟩, _, hfalse⟩ := front_entry w v t (b := 0x22) (by decide)
  cases first with
  | true =>
      refine ⟨hle, ?_⟩
      rw [nextMember, htrue]
      rfl
  | false =>
      obtain ⟨_, hbehind⟩ := front_blanks v t (b := 0x22) (by decide)
      refine ⟨?_, ?_⟩
      · simp [entry]
        omega
      · rw [nextMember, hfalse]
        simp only
        rw [if_neg (by decide), if_neg (by decide), if_pos trivial, hbehind]
        rfl

theorem nextMember_close
    (first : Bool)
    (w : Blanks)
    (t : Bytes) :
    ∃ h, nextMember first (w.val ++ 0x7D :: t) = .ok (false, ⟨0x7D :: t, h⟩) := by
  obtain ⟨h, hfront⟩ := front_blanks w t (b := 0x7D) (by decide)
  refine ⟨h, ?_⟩
  rw [nextMember, hfront]
  rfl

theorem colon_blanks
    (w : Blanks)
    (t : Bytes) :
    ∃ h, colon (w.val ++ 0x3A :: t) = .ok ⟨t, h⟩ := by
  obtain ⟨h, hfront⟩ := front_blanks w t (b := 0x3A) (by decide)
  refine ⟨by simp; omega, ?_⟩
  rw [colon, hfront]
  rfl

theorem memberKey_quote
    {ps : List Piece}
    {k : String}
    (hk : unescape? ps = some k)
    (t : Bytes) :
    ∃ h, memberKey (0x22 :: (ps.flatMap Piece.text ++ 0x22 :: t)) = .ok (k, ⟨t, h⟩) := by
  have hbare : bare (memberKey (0x22 :: (ps.flatMap Piece.text ++ 0x22 :: t))) = .ok (k, t) := by
    rw [memberKey]
    exact (bare_map_same fun _ _ => ⟨rfl, rfl⟩).trans (bare_quote hk t)
  exact bare_eq_ok.1 hbare

theorem member_append
    (m : Member Tree)
    (t : Bytes) :
    m.text ++ t =
      m.before.val ++ (quote m.key ++ (m.gap.val ++ 0x3A :: (m.item.text ++ t))) := by
  simp only [Member.text, List.append_assoc, List.cons_append]

/-- In front of a member the key is found, and behind its colon the value. -/
theorem member_front
    (first : Bool)
    (w : Blanks)
    {m : Member Tree}
    {k : String}
    (hk : m.name? = some k)
    (t : Bytes) :
    ∃ (r u : Bytes) (h₁ : r.length ≤ (w.val ++ entry first 0x2C (m.text ++ t)).length)
      (h₂ : u.length < r.length) (h₃ : (m.item.text ++ t).length < u.length),
      nextMember first (w.val ++ entry first 0x2C (m.text ++ t)) = .ok (true, ⟨r, h₁⟩) ∧
        memberKey r = .ok (k, ⟨u, h₂⟩) ∧ colon u = .ok ⟨m.item.text ++ t, h₃⟩ := by
  obtain ⟨_, hkey⟩ := memberKey_quote hk (m.gap.val ++ 0x3A :: (m.item.text ++ t))
  obtain ⟨_, hcolon⟩ := colon_blanks m.gap (m.item.text ++ t)
  rw [member_append, quote_append]
  obtain ⟨_, hnext⟩ := nextMember_key first w m.before
    (m.key.flatMap Piece.text ++ 0x22 :: (m.gap.val ++ 0x3A :: (m.item.text ++ t)))
  exact ⟨_, _, _, _, _, hnext, hkey, hcolon⟩

theorem bare_elementsFrom_items
    {α : Type}
    {item : Reader α}
    {items : List (Item Tree)}
    {vs : List α}
    (h : List.Forall₂ (fun i v => ∀ rest, Stops rest →
      bare (item (i.value.text ++ rest)) = .ok (v, rest)) items vs)
    (first : Bool)
    (acc : List α)
    (w inner : Blanks)
    (rest : Bytes) :
    bare (elementsFrom item first acc
      (w.val ++ (joined first (items.map Item.text) ++ (inner.val ++ 0x5D :: rest)))) =
      .ok (acc.reverse ++ vs, rest) := by
  induction h generalizing first acc w with
  | nil =>
      obtain ⟨_, hnext⟩ := nextElement_close first (w.append inner) rest
      obtain ⟨_, hend⟩ := endList_end rest
      rw [List.append_nil, List.map_nil, joined, List.nil_append, ← List.append_assoc]
      show bare (elementsFrom item first acc ((w.append inner).val ++ 0x5D :: rest)) = _
      rw [elementsFrom, hnext]
      simp only
      rw [hend]
      rfl
  | @cons i v items vs hi _ ih =>
      have hstops := stops_blanks i.after
        (stops_joined (items.map Item.text) inner rest (b := 0x5D) (by decide))
      obtain ⟨_, hnext⟩ := nextElement_item first w i.before
        (i.value.startsEntry_text.append (i.after.val ++
          (joined false (items.map Item.text) ++ (inner.val ++ 0x5D :: rest))))
      rw [List.map_cons, joined, entry_append, Item.text, List.append_assoc, List.append_assoc,
        List.append_assoc, bare_elementsFrom acc hnext, hi _ hstops]
      show bare (elementsFrom item false (v :: acc) _) = _
      rw [ih, List.reverse_cons, List.append_assoc, List.singleton_append]

theorem bare_membersFrom_member
    {α : Type}
    {item : Reader α}
    {first : Bool}
    {s r u c : Bytes}
    {k : String}
    {h₁ : r.length ≤ s.length}
    {h₂ : u.length < r.length}
    {h₃ : c.length < u.length}
    (acc : List (String × α))
    (hnext : nextMember first s = .ok (true, ⟨r, h₁⟩))
    (hkey : memberKey r = .ok (k, ⟨u, h₂⟩))
    (hcolon : colon u = .ok ⟨c, h₃⟩) :
    bare (membersFrom item first acc s) =
      (bare (item c)).bind fun y => bare (membersFrom item false ((k, y.1) :: acc) y.2) := by
  rw [membersFrom, hnext]
  simp only
  rw [hkey]
  simp only
  rw [hcolon]
  simp only
  rcases hitem : item c with f | ⟨v, q⟩
  · rfl
  · exact bare_map_same fun _ _ => ⟨rfl, rfl⟩

theorem bare_membersFrom_members
    {α : Type}
    {item : Reader α}
    {members : List (Member Tree)}
    {ms : List (String × α)}
    (h : List.Forall₂ (fun m w => m.name? = some w.1 ∧ ∀ (space : Blanks) rest, Stops rest →
      bare (item (space.val ++ (m.item.value.text ++ rest))) = .ok (w.2, rest)) members ms)
    (first : Bool)
    (acc : List (String × α))
    (w inner : Blanks)
    (rest : Bytes) :
    bare (membersFrom item first acc
      (w.val ++ (joined first (members.map Member.text) ++ (inner.val ++ 0x7D :: rest)))) =
      .ok (acc.reverse ++ ms, rest) := by
  induction h generalizing first acc w with
  | nil =>
      obtain ⟨_, hnext⟩ := nextMember_close first (w.append inner) rest
      obtain ⟨_, hend⟩ := endObject_end rest
      rw [List.append_nil, List.map_nil, joined, List.nil_append, ← List.append_assoc]
      show bare (membersFrom item first acc ((w.append inner).val ++ 0x7D :: rest)) = _
      rw [membersFrom, hnext]
      simp only
      rw [hend]
      rfl
  | @cons m v members ms hm _ ih =>
      obtain ⟨hname, hitem⟩ := hm
      obtain ⟨_, _, _, _, _, hnext, hkey, hcolon⟩ := member_front first w hname
        (joined false (members.map Member.text) ++ (inner.val ++ 0x7D :: rest))
      have hread := hitem m.item.before _ (stops_blanks m.item.after
        (stops_joined (members.map Member.text) inner rest (b := 0x7D) (by decide)))
      rw [List.map_cons, joined, entry_append, List.append_assoc,
        bare_membersFrom_member acc hnext hkey hcolon, Item.text, List.append_assoc,
        List.append_assoc, hread]
      show bare (membersFrom item false ((_, v.2) :: acc) _) = _
      rw [ih, List.reverse_cons, List.append_assoc, List.singleton_append]

theorem forall₂_of_mem
    {α β : Type}
    {R S : α → β → Prop}
    {l : List α}
    {u : List β}
    (h : List.Forall₂ R l u)
    (hstep : ∀ a ∈ l, ∀ b ∈ u, R a b → S a b) :
    List.Forall₂ S l u := by
  obtain ⟨hlength, hzip⟩ := List.forall₂_iff_zip.1 h
  refine List.forall₂_iff_zip.2 ⟨hlength, fun hab => ?_⟩
  obtain ⟨ha, hb⟩ := List.of_mem_zip hab
  exact hstep _ ha _ hb (hzip hab)

theorem bare_value_blanks
    (d : Nat)
    (w : Blanks)
    {s : Bytes}
    (hs : StartsEntry s) :
    bare (value d (w.val ++ s)) = bare (value d s) := by
  obtain ⟨b, t, rfl, hb, -⟩ := hs
  rw [value_eq_valueOf, valueOf, bare_atToken_blanks _ w t hb, bare_atToken _ t hb]

/-- A number is read, whatever its containers are read with. -/
theorem bare_valueOf_literal
    (inner? : Option (Reader Value))
    {l : Literal}
    {n : Number}
    (hl : l.number? = some n)
    {rest : Bytes}
    (hrest : Stops rest) :
    bare (valueOf inner? (l.text ++ rest)) = .ok (.number n, rest) := by
  have hread := Literal.bare_number hl hrest
  rw [Literal.text]
  cases hsign : l.negative with
  | true =>
      rw [hsign] at hread
      rw [if_pos rfl, List.cons_append, valueOf, bare_atToken _ _ (by decide), if_neg (by decide),
        if_neg (by decide), if_neg (by decide), if_pos rfl,
        bare_map (fun n => Value.number n) fun _ _ => ⟨rfl, rfl⟩]
      exact congrArg (Except.map _) hread
  | false =>
      rw [hsign] at hread
      obtain ⟨b, ds, hbody, hb⟩ := l.body_cons
      obtain ⟨hblank, -, hn, ht, hf, hminus⟩ := isDigit_cases hb
      rw [hbody, List.cons_append] at hread
      rw [if_neg (by decide), hbody, List.cons_append, valueOf, bare_atToken _ _ hblank, if_neg hn,
        if_neg ht, if_neg hf, if_neg hminus, if_pos hb,
        bare_map (fun n => Value.number n) fun _ _ => ⟨rfl, rfl⟩]
      exact congrArg (Except.map _) hread

theorem bare_valueOf_quote
    (inner? : Option (Reader Value))
    {ps : List Piece}
    {x : String}
    (hx : unescape? ps = some x)
    (rest : Bytes) :
    bare (valueOf inner? (quote ps ++ rest)) = .ok (.string x, rest) := by
  rw [quote_append, valueOf, bare_atToken _ _ (by decide), if_neg (by decide), if_neg (by decide),
    if_neg (by decide), if_neg (by decide), if_neg (by decide), if_pos rfl,
    bare_map (fun x => Value.string x) fun _ _ => ⟨rfl, rfl⟩, bare_quote hx]
  rfl

namespace Tree

/-- The members of an object are read if each value is read on its own. -/
theorem bare_membersFrom_values
    {d : Nat}
    {members : List (Member Tree)}
    {ms : List (String × Value)}
    (hms : memberValues? members = some ms)
    (hd : (Value.object ms).nesting ≤ d + 1)
    (hread : ∀ m ∈ members, ∀ v, m.item.value.value? = some v → v.nesting ≤ d → ∀ rest, Stops rest →
      bare (value d (m.item.value.text ++ rest)) = .ok (v, rest))
    (inner : Blanks)
    (rest : Bytes) :
    bare (membersFrom (value d) true []
      (joined true (members.map Member.text) ++ (inner.val ++ 0x7D :: rest))) = .ok (ms, rest) := by
  have hdeep := (Value.nestingMembers_le ms).1 (Nat.le_of_succ_le_succ hd)
  refine bare_membersFrom_members (forall₂_of_mem (memberValues?_eq_some.1 hms) ?_)
    true [] .none inner rest
  rintro m hm w hw ⟨hname, hvalue⟩
  refine ⟨hname, fun space rest hrest => ?_⟩
  rw [bare_value_blanks d space (m.item.value.startsEntry_text.append rest)]
  exact hread m hm w.2 hvalue (hdeep w hw) rest hrest

/-- **A value is read from all its texts**, if it nests no deeper than the reader may go. -/
theorem isRead
    (t : Tree)
    {v : Value}
    (ht : t.value? = some v)
    {d : Nat}
    (hd : v.nesting ≤ d)
    {rest : Bytes}
    (hrest : Stops rest) :
    bare (value d (t.text ++ rest)) = .ok (v, rest) := by
  induction t using entriesInduction generalizing v d rest with
  | null =>
      obtain rfl := Option.some.inj ht
      rw [text, value_eq_valueOf]
      exact (bare_valueOf_word _ rest).1
  | bool b =>
      obtain rfl := Option.some.inj ht
      rw [text, value_eq_valueOf]
      exact (bare_valueOf_word _ rest).2 b
  | number l =>
      obtain ⟨n, hn, rfl⟩ := Option.map_eq_some_iff.1 ht
      rw [text, value_eq_valueOf]
      exact bare_valueOf_literal _ hn hrest
  | string ps =>
      obtain ⟨x, hx, rfl⟩ := Option.map_eq_some_iff.1 ht
      rw [text, value_eq_valueOf]
      exact bare_valueOf_quote _ hx rest
  | array items inner ih =>
      obtain ⟨vs, hvs, rfl⟩ := Option.map_eq_some_iff.1 ht
      rw [itemValues?_eq_some] at hvs
      -- The limit is spent where the container opens, so its items are read one level down.
      obtain _ | d := d
      · exact absurd hd (Nat.not_succ_le_zero _)
      · have hdeep := (Value.nestingItems_le vs).1 (Nat.le_of_succ_le_succ hd)
        have hread := bare_elementsFrom_items (forall₂_of_mem hvs fun i hi v hv hvalue rest hrest =>
          ih i hi hvalue (hdeep v hv) hrest) true [] .none inner rest
        rw [text, itemTexts_eq, List.cons_append, List.append_assoc, List.append_assoc,
          List.singleton_append, bare_valueOf_array]
        exact congrArg (Except.map _) hread
  | object members inner ih =>
      obtain ⟨ms, hms, rfl⟩ := Option.map_eq_some_iff.1 ht
      obtain _ | d := d
      · exact absurd hd (Nat.not_succ_le_zero _)
      · have hread := bare_membersFrom_values hms hd
          (fun m hm v hv hdeep rest hrest => ih m hm hv hdeep hrest) inner rest
        rw [text, memberTexts_eq, List.cons_append, List.append_assoc, List.append_assoc,
          List.singleton_append, bare_valueOf_object]
        exact congrArg (Except.map _) hread

/-- The value of a layout tells what kind of layout it is. -/
theorem of_value?
    {t : Tree}
    {v : Value}
    (h : t.value? = some v) :
    match v with
    | .null => t = .null
    | .bool b => t = .bool b
    | .number n => ∃ l, t = .number l ∧ l.number? = some n
    | .string x => ∃ ps, t = .string ps ∧ unescape? ps = some x
    | .array vs => ∃ items inner, t = .array items inner ∧ itemValues? items = some vs
    | .object ms =>
        ∃ members inner, t = .object members inner ∧ memberValues? members = some ms := by
  cases t with
  | null =>
      obtain rfl := Option.some.inj h
      rfl
  | bool b =>
      obtain rfl := Option.some.inj h
      rfl
  | number l =>
      obtain ⟨n, hn, rfl⟩ := Option.map_eq_some_iff.1 h
      exact ⟨l, rfl, hn⟩
  | string ps =>
      obtain ⟨x, hx, rfl⟩ := Option.map_eq_some_iff.1 h
      exact ⟨ps, rfl, hx⟩
  | array items inner =>
      obtain ⟨vs, hvs, rfl⟩ := Option.map_eq_some_iff.1 h
      exact ⟨items, inner, rfl, hvs⟩
  | object members inner =>
      obtain ⟨ms, hms, rfl⟩ := Option.map_eq_some_iff.1 h
      exact ⟨members, inner, rfl, hms⟩

/-- A string is read from all its texts. -/
theorem bare_stringOf
    (expected : String)
    {t : Tree}
    {x : String}
    (h : t.value? = some (.string x))
    (w : Blanks)
    (rest : Bytes) :
    bare (stringOf expected (w.val ++ (t.text ++ rest))) = .ok (x, rest) := by
  obtain ⟨ps, rfl, hx⟩ := of_value? h
  rw [text, quote_append, stringOf, bare_atToken_blanks _ w _ (by decide), if_pos rfl]
  exact (bare_map_same fun _ _ => ⟨rfl, rfl⟩).trans (bare_quote hx rest)

/-- A number of any name is read from all its texts. -/
theorem bare_numberOf
    (expected : String)
    {t : Tree}
    {n : Number}
    (h : t.value? = some (.number n))
    (w : Blanks)
    {rest : Bytes}
    (hrest : Stops rest) :
    bare (numberOf expected (w.val ++ (t.text ++ rest))) = .ok (n, rest) := by
  obtain ⟨l, rfl, hl⟩ := of_value? h
  have hread := Literal.bare_number hl hrest
  rw [text, Literal.text]
  cases hsign : l.negative with
  | true =>
      rw [hsign] at hread
      rw [if_pos rfl, List.cons_append, numberOf, bare_atToken_blanks _ w _ (by decide), if_pos rfl]
      exact (bare_map_same fun _ _ => ⟨rfl, rfl⟩).trans hread
  | false =>
      rw [hsign] at hread
      obtain ⟨b, ds, hbody, hb⟩ := l.body_cons
      obtain ⟨hblank, -, -, -, -, hminus⟩ := isDigit_cases hb
      rw [hbody, List.cons_append] at hread
      rw [if_neg (by decide), hbody, List.cons_append, numberOf, bare_atToken_blanks _ w _ hblank,
        if_neg hminus, if_pos hb]
      exact hread

/-- An integer of 32 bits is read from all its texts. -/
theorem bare_read_uint32
    (depth : Nat)
    {t : Tree}
    {n : UInt32}
    {least : -0x8000000000000000 ≤ (n.toNat : Int)}
    {most : (n.toNat : Int) < 0x10000000000000000}
    (h : t.value? = some (.number (.integer n.toNat least most)))
    (w : Blanks)
    {rest : Bytes}
    (hrest : Stops rest) :
    bare (Decode.read (α := UInt32) depth (w.val ++ (t.text ++ rest))) = .ok (n, rest) := by
  have hlt := n.toNat_lt
  have hbounds : 0 ≤ (n.toNat : Int) ∧ (n.toNat : Int) ≤ Numeral.maxNat32 := by
    rw [Numeral.maxNat32]
    omega
  obtain ⟨_, hnumber⟩ := bare_eq_ok.1 (bare_numberOf "u32" h w hrest)
  simp only [Decode.read, integerOf, hnumber]
  rw [if_pos hbounds]
  show Except.ok (UInt32.ofNat n.toNat, rest) = _
  rw [UInt32.ofNat_toNat]

/-- An object is read from all its texts, in its canonical form: the last of equal keys
wins. -/
theorem bare_read_object
    {depth : Nat}
    {t : Tree}
    {ms : List (String × Value)}
    (h : t.value? = some (.object ms))
    (hdepth : (Value.object ms).nesting ≤ depth)
    (w : Blanks)
    (rest : Bytes) :
    bare (Decode.read (α := Object) depth (w.val ++ (t.text ++ rest))) =
      .ok (Object.ofMembers ms, rest) := by
  obtain ⟨members, inner, rfl, hms⟩ := of_value? h
  obtain _ | d := depth
  · exact absurd hdepth (Nat.not_succ_le_zero _)
  · have hread := bare_membersFrom_values hms hdepth
      (fun m _ v hv hdeep rest hrest => m.item.value.isRead hv hdeep hrest) inner rest
    rw [text, memberTexts_eq, List.cons_append, List.append_assoc, List.append_assoc,
      List.singleton_append]
    simp only [Decode.read]
    rw [bare_atToken_blanks _ w _ (by decide), if_pos rfl]
    exact (bare_map Object.ofMembers fun _ _ => ⟨rfl, rfl⟩).trans (congrArg (Except.map _) hread)

/-- No timestamp is read from `null`. -/
theorem bare_read_no_timestamp
    (depth : Nat)
    {t : Tree}
    (h : t.value? = some .null)
    (w : Blanks)
    (rest : Bytes) :
    bare (Decode.read (α := Option Calendar.Timestamp) depth (w.val ++ (t.text ++ rest))) =
      .ok (none, rest) := by
  obtain rfl : t = .null := of_value? h
  obtain ⟨_, hfront⟩ := front_blanks w (restOfNull ++ rest) (b := 0x6E) (by decide)
  obtain ⟨_, hword⟩ := word_append restOfNull rest
  show bare (optional _ (w.val ++ 0x6E :: (restOfNull ++ rest))) = _
  rw [optional, hfront]
  simp only
  rw [if_pos trivial, hword]
  rfl

/-- A timestamp is read from every text of a string that says it. -/
theorem bare_read_timestamp
    (depth : Nat)
    {t : Tree}
    {x : String}
    {time : Calendar.Timestamp}
    (h : t.value? = some (.string x))
    (htime : Calendar.readTimestamp x = .ok time)
    (w : Blanks)
    (rest : Bytes) :
    bare (Decode.read (α := Option Calendar.Timestamp) depth (w.val ++ (t.text ++ rest))) =
      .ok (some time, rest) := by
  obtain ⟨_, hstring⟩ :=
    bare_eq_ok.1 (bare_stringOf "an RFC 3339 formatted date and time string" h w rest)
  have hread : bare (Decode.read (α := Calendar.Timestamp) depth (w.val ++ (t.text ++ rest))) =
      .ok (time, rest) := by
    simp only [Decode.read, hstring, htime]
    rfl
  obtain ⟨ps, rfl, -⟩ := of_value? h
  rw [text, quote_append] at hread ⊢
  obtain ⟨_, hfront⟩ := front_blanks w (ps.flatMap Piece.text ++ 0x22 :: rest) (b := 0x22)
    (by decide)
  show bare (optional _ _) = _
  rw [optional, hfront]
  simp only
  rw [if_neg (by decide)]
  exact (bare_map some fun _ _ => ⟨rfl, rfl⟩).trans (congrArg (Except.map _) hread)

end Tree

end Json
end Courier
