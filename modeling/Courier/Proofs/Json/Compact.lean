import Courier.Proofs.Json.Literals

/-!
# What is written is one of the texts

The compact form has no white space, escapes as few characters as it can and writes integers
without fraction and exponent.  So it is the text of a layout, and this layout stands for the
value that is written.

**Results.**
* `exists_pieces`: a written string.
* `joined_eq_writeEntries`: written entries.
* `Value.exists_tree`: a written value without floating-point numbers.
-/

namespace Courier
namespace Json

/-- The bytes of a character are a piece that stands for it. -/
theorem exists_piece
    (c : Char) :
    ∃ p : Piece, p.text = writeChar c ∧ p.char? = some c := by
  rcases writeChar_cases c with ⟨e, he, hwrite⟩ | ⟨hquote, hbackslash, hwrite⟩
  · exact ⟨.short e (by rw [he]; rfl), hwrite.symm, he⟩
  · by_cases hcontrol : c.toNat < 0x20
    · have hhigh := hexValue?_hexDigit (c.toNat / 16) (by omega)
      have hlow := hexValue?_hexDigit (c.toNat % 16) (by omega)
      have hhex : ∀ x ∈ [0x30, 0x30, UInt8.ofNat (Bytes.hexDigit (c.toNat / 16)).toNat,
          UInt8.ofNat (Bytes.hexDigit (c.toNat % 16)).toNat],
          (Bytes.hexValue? x).isSome = true := by
        simp only [List.forall_mem_cons, hhigh, hlow, Option.isSome_some]
        exact ⟨by decide, by decide, trivial, trivial, List.forall_mem_nil _⟩
      have hvalue : HexUnit.value ⟨_, _, _, _, hhex⟩ = c.toNat := by
        have hzero : Bytes.hexValue? 0x30 = some 0 := by decide
        simp only [HexUnit.value, HexUnit.bytes, List.foldl_cons, List.foldl_nil, hzero, hhigh,
          hlow, Option.getD_some]
        omega
      refine ⟨.unit ⟨_, _, _, _, hhex⟩, by rw [hwrite, if_pos hcontrol]; rfl, ?_⟩
      have hsingle : ¬ (HexUnit.IsHigh ⟨_, _, _, _, hhex⟩ ∨ HexUnit.IsLow ⟨_, _, _, _, hhex⟩) := by
        simp only [HexUnit.IsHigh, HexUnit.IsLow, hvalue]
        omega
      rw [Piece.char?, if_neg hsingle, hvalue, Char.ofNat_toNat]
    · exact ⟨.plain c ⟨Nat.not_lt.1 hcontrol, hquote, hbackslash⟩,
        by rw [hwrite, if_neg hcontrol]; rfl, rfl⟩

/-- **A written string is a string in its quotes, and stands for what was written.** -/
theorem exists_pieces
    (s : String) :
    ∃ ps, quote ps = writeString s ∧ unescape? ps = some s := by
  have hchars : ∀ cs : List Char, ∃ ps : List Piece,
      ps.flatMap Piece.text = cs.flatMap writeChar ∧ ps.mapM Piece.char? = some cs := by
    intro cs
    induction cs with
    | nil => exact ⟨[], rfl, rfl⟩
    | cons c cs ih =>
        obtain ⟨p, htext, hchar⟩ := exists_piece c
        obtain ⟨ps, htexts, hcs⟩ := ih
        refine ⟨p :: ps, ?_, ?_⟩
        · rw [List.flatMap_cons, List.flatMap_cons, htext, htexts]
        · rw [List.mapM_cons, hchar, hcs]
          rfl
  obtain ⟨ps, htexts, hcs⟩ := hchars s.toList
  exact ⟨ps, by rw [quote, htexts, writeString],
    by rw [unescape?, hcs, Option.map_some, String.ofList_toList]⟩

theorem joined_false
    (xs : List Bytes) :
    joined false xs = xs.flatMap (0x2C :: ·) := by
  induction xs with
  | nil => rfl
  | cons x xs ih =>
      rw [joined, ih, List.flatMap_cons]
      rfl

/-- Entries are joined as they are written. -/
theorem joined_eq_writeEntries
    {α : Type}
    (write : α → Bytes)
    (vs : List α) :
    joined true (vs.map write) = writeEntries write vs := by
  cases vs with
  | nil => rfl
  | cons v vs =>
      rw [List.map_cons, joined, joined_false, writeEntries, List.flatMap_map]
      rfl

theorem exists_forall₂
    {α β : Type}
    {R : α → β → Prop}
    {l : List α}
    (h : ∀ a ∈ l, ∃ b, R a b) :
    ∃ u, List.Forall₂ R l u := by
  induction l with
  | nil => exact ⟨[], .nil⟩
  | cons a l ih =>
      rw [List.forall_mem_cons] at h
      obtain ⟨⟨b, hb⟩, hl⟩ := h
      obtain ⟨u, hu⟩ := ih hl
      exact ⟨b :: u, .cons hb hu⟩

theorem map_eq_map_of_forall₂
    {α β γ : Type}
    {f : α → γ}
    {g : β → γ}
    {l : List α}
    {u : List β}
    (h : List.Forall₂ (fun a b => g b = f a) l u) :
    u.map g = l.map f := by
  induction h with
  | nil => rfl
  | cons hab _ ih => rw [List.map_cons, List.map_cons, hab, ih]

/-- An item without white space. -/
def Item.compact (t : Tree) : Item Tree :=
  ⟨.none, t, .none⟩

theorem Item.text_compact
    (t : Tree) :
    (Item.compact t).text = t.text := by
  show [] ++ (t.text ++ []) = t.text
  rw [List.nil_append, List.append_nil]

/-- A member without white space. -/
def Member.compact (key : List Piece) (t : Tree) : Member Tree :=
  ⟨.none, key, .none, .compact t⟩

theorem Member.text_compact
    (key : List Piece)
    (t : Tree) :
    (Member.compact key t).text = quote key ++ 0x3A :: t.text := by
  show [] ++ (quote key ++ ([] ++ 0x3A :: (Item.compact t).text)) = _
  rw [Item.text_compact, List.nil_append, List.nil_append]

/-- **A written value is the text of a layout that stands for it.** -/
theorem Value.exists_tree
    (v : Value)
    (hv : v.isExact = true) :
    ∃ t : Tree, t.text = v.write ∧ t.value? = some v := by
  induction v using Value.entriesInduction with
  | null => exact ⟨.null, rfl, rfl⟩
  | bool b => exact ⟨.bool b, rfl, rfl⟩
  | number n =>
      cases n with
      | float x finite => exact absurd hv (by simp [Value.isExact])
      | integer n least most =>
          rcases integer_write n least most with ⟨m, rfl, hwrite⟩ | ⟨m, hm, rfl, hwrite⟩
          · refine ⟨.number ⟨false, m, none, none⟩, ?_, ?_⟩
            · rw [hwrite, Tree.text, Literal.text, if_neg Bool.false_ne_true, Literal.body_whole,
                List.append_nil]
            · rw [Tree.value?, Literal.number?_natural m least most]
              rfl
          · refine ⟨.number ⟨true, m, none, none⟩, ?_, ?_⟩
            · rw [hwrite, Tree.text, Literal.text, if_pos rfl, Literal.body_whole, List.append_nil]
            · rw [Tree.value?, Literal.number?_negative hm least most]
              rfl
  | string s =>
      obtain ⟨ps, htext, hs⟩ := exists_pieces s
      exact ⟨.string ps, by rw [Tree.text, htext, Value.write], by rw [Tree.value?, hs]; rfl⟩
  | array vs ih =>
      rw [Value.isExact, Value.isExactItems_iff] at hv
      obtain ⟨items, hitems⟩ := exists_forall₂
        (R := fun v (i : Item Tree) => i.text = v.write ∧ i.value.value? = some v) fun v hmem => by
          obtain ⟨t, htext, hvalue⟩ := ih v hmem (hv v hmem)
          exact ⟨.compact t, (Item.text_compact t).trans htext, hvalue⟩
      refine ⟨.array items .none, ?_, ?_⟩
      · rw [Tree.text, Tree.itemTexts_eq, map_eq_map_of_forall₂ (hitems.imp fun _ _ h => h.1),
          joined_eq_writeEntries, Value.write, writeItems_eq]
        rfl
      · rw [Tree.value?, Tree.itemValues?_eq_some.2 (hitems.flip.imp fun _ _ h => h.2)]
        rfl
  | object ms ih =>
      rw [Value.isExact, Value.isExactMembers_iff] at hv
      obtain ⟨members, hmembers⟩ := exists_forall₂
        (R := fun w (m : Member Tree) => m.text = writeMember w ∧
          m.name? = some w.1 ∧ m.item.value.value? = some w.2) fun w hmem => by
          obtain ⟨ps, hquote, hname⟩ := exists_pieces w.1
          obtain ⟨t, htext, hvalue⟩ := ih w hmem (hv w hmem)
          refine ⟨.compact ps t, ?_, hname, hvalue⟩
          rw [Member.text_compact, hquote, htext]
          rfl
      refine ⟨.object members .none, ?_, ?_⟩
      · rw [Tree.text, Tree.memberTexts_eq, map_eq_map_of_forall₂ (hmembers.imp fun _ _ h => h.1),
          joined_eq_writeEntries, Value.write, writeMembers_eq]
        rfl
      · rw [Tree.value?, Tree.memberValues?_eq_some.2 (hmembers.flip.imp fun _ _ h => h.2)]
        rfl

end Json
end Courier
