import Courier.Json.Record
import Courier.Proofs.Json.Integers
import Courier.Proofs.Text.Mended

/-!
# What readers leave is the end of their text

A reader takes bytes from the front and leaves the others as they are.  A byte that a text
does not have is therefore in nothing that is left of it, and what cannot be read without
that byte is not read at all.

**Results.**
* `stringBodyFrom_suffix`, `stringOf_suffix`: what is left behind a string.
* `mem_of_read_object`: an object is not read without its opening brace.
* `Record.elements_cons`: a required field of a record that is read from a list.
-/

namespace Courier
namespace Json

/-- A property of whatever an answer leaves is inherited by an answer that leaves the same. -/
theorem suffix_of_map
    {α β : Type}
    {p q : Bytes → Prop}
    {x : Except Fault (α × Subtype p)}
    {g : α × Subtype p → β × Subtype q}
    {f : α → β}
    {s : Bytes}
    (hg : ∀ v r, (g (v, r)).1 = f v ∧ (g (v, r)).2.val = r.val)
    (hx : ∀ v r, x = .ok (v, r) → r.val <:+ s)
    {w : β}
    {r : Subtype q}
    (h : x.map g = .ok (w, r)) :
    r.val <:+ s := by
  obtain ⟨v, t, hok, -, hr⟩ := of_map_eq_ok hg h
  exact hr ▸ hx v t hok

theorem of_front_suffix
    {s t : Bytes}
    {b : UInt8}
    {hle : (b :: t).length ≤ s.length}
    (hfront : front s = .byte b t hle) :
    b :: t <:+ s := by
  obtain ⟨blanks, rfl, -⟩ := of_front_byte hfront
  exact List.suffix_append _ _

theorem utf8_front_suffix
    (b : UInt8)
    (t : Bytes) :
    (Utf8.front b t).2 <:+ b :: t := by
  rcases hfront : Utf8.front b t with ⟨_ | c, r⟩
  · obtain ⟨p, hp, -⟩ := Utf8.illFormedPart_of_front hfront
    rw [hp]
    exact List.suffix_append _ _
  · rw [Utf8.of_front_char hfront]
    exact List.suffix_append _ _

theorem hexUnit_suffix
    {s : Bytes}
    {n : Nat}
    {r : Tail s}
    (h : hexUnit s = .ok (n, r)) :
    r.val <:+ s := by
  unfold hexUnit at h
  split at h
  · next a b c d t =>
      split at h
      · obtain rfl := (Prod.mk.inj (Except.ok.inj h)).2
        exact ⟨[a, b, c, d], rfl⟩
      · exact absurd h (by simp)
  · exact absurd h (by simp)

theorem surrogateMark_suffix
    {mark : UInt8}
    {s : Bytes}
    {r : Tail s}
    (h : surrogateMark mark s = .ok r) :
    r.val <:+ s := by
  unfold surrogateMark at h
  split at h
  · exact absurd h (by simp)
  · next b t =>
      split at h
      · obtain rfl := Except.ok.inj h
        exact List.suffix_cons b t
      · exact absurd h (by simp)

theorem unicodeEscape_suffix
    {s : Bytes}
    {c : Char}
    {r : Tail s}
    (h : unicodeEscape s = .ok (c, r)) :
    r.val <:+ s := by
  simp only [unicodeEscape, bind, Except.bind] at h
  split at h
  · exact absurd h (by simp)
  · next y hunit =>
      have hfirst := hexUnit_suffix hunit
      split at h
      · exact absurd h (by simp)
      · split at h
        · split at h
          · exact absurd h (by simp)
          · next r₁ hbackslash =>
              split at h
              · exact absurd h (by simp)
              · next r₂ hletter =>
                  split at h
                  · exact absurd h (by simp)
                  · next z hunit₂ =>
                      split at h
                      · obtain rfl := (Prod.mk.inj (Except.ok.inj h)).2
                        exact (hexUnit_suffix hunit₂).trans ((surrogateMark_suffix hletter).trans
                          ((surrogateMark_suffix hbackslash).trans hfirst))
                      · exact absurd h (by simp)
        · obtain rfl := (Prod.mk.inj (Except.ok.inj h)).2
          exact hfirst

theorem escape_suffix
    {s : Bytes}
    {c : Char}
    {r : Tail s}
    (h : escape s = .ok (c, r)) :
    r.val <:+ s := by
  unfold escape at h
  split at h
  · exact absurd h (by simp)
  · next b t =>
      split at h
      · obtain rfl := (Prod.mk.inj (Except.ok.inj h)).2
        exact List.suffix_cons b t
      · split at h
        · exact suffix_of_map (fun _ _ => ⟨rfl, rfl⟩)
            (fun _ _ hx => (unicodeEscape_suffix hx).trans (List.suffix_cons b t)) h
        · exact absurd h (by simp)

/-- **What is left behind a string is the end of the text.** -/
theorem stringBodyFrom_suffix
    {acc : List Char}
    {bad : Option Nat}
    {s : Bytes}
    {x : String}
    {r : Rest s}
    (h : stringBodyFrom acc bad s = .ok (x, r)) :
    r.val <:+ s := by
  induction acc, bad, s using stringBodyFrom.induct generalizing x with
  | case1 acc bad =>
      rw [stringBodyFrom.eq_def] at h
      exact absurd h (by simp)
  | case2 acc t =>
      rw [stringBodyFrom.eq_def] at h
      simp only [↓reduceIte] at h
      obtain rfl := (Prod.mk.inj (Except.ok.inj h)).2
      exact List.suffix_cons _ t
  | case3 acc t decoded =>
      rw [stringBodyFrom.eq_def] at h
      simp only [↓reduceIte] at h
      exact absurd h (by simp)
  | case4 acc bad t f hescape hquote =>
      rw [stringBodyFrom.eq_def] at h
      simp only [hquote, hescape, ↓reduceIte] at h
      exact absurd h (by simp)
  | case5 acc bad t c q hescape hquote ih =>
      rw [stringBodyFrom.eq_def] at h
      simp only [hquote, hescape, ↓reduceIte] at h
      have hq : q.val <:+ 0x5C :: t := (escape_suffix hescape).trans (List.suffix_cons _ t)
      exact suffix_of_map (fun _ _ => ⟨rfl, rfl⟩) (fun _ _ hx => (ih hx).trans hq) h
  | case6 acc bad b t hquote hbackslash hcontrol =>
      rw [stringBodyFrom.eq_def] at h
      simp only [hquote, hbackslash, hcontrol, ↓reduceIte] at h
      exact absurd h (by simp)
  | case7 acc bad b t hquote hbackslash hcontrol p width acc' =>
      rename_i bad' ih
      rw [stringBodyFrom.eq_def] at h
      simp only [hquote, hbackslash, hcontrol, ↓reduceIte] at h
      exact suffix_of_map (fun _ _ => ⟨rfl, rfl⟩)
        (fun _ _ hx => (ih hx).trans (utf8_front_suffix b t)) h

theorem stringOf_suffix
    {expected : String}
    {s : Bytes}
    {x : String}
    {r : Rest s}
    (h : stringOf expected s = .ok (x, r)) :
    r.val <:+ s := by
  rw [stringOf, atToken] at h
  split at h
  · exact absurd h (by simp)
  · next b t hle hfront =>
      refine suffix_of_map (fun _ _ => ⟨rfl, rfl⟩) (fun y q hq => ?_) h
      split at hq
      · exact suffix_of_map (fun _ _ => ⟨rfl, rfl⟩) (fun _ _ hx => (stringBodyFrom_suffix hx).trans
          ((List.suffix_cons b t).trans (of_front_suffix hfront))) hq
      · exact absurd hq (wrongType_ne_ok _ _ _)

theorem nextElement_suffix
    {first more : Bool}
    {s : Bytes}
    {r : Tail s}
    (h : nextElement first s = .ok (more, r)) :
    r.val <:+ s := by
  unfold nextElement at h
  split at h
  · exact absurd h (by simp)
  · next b t hle hfront =>
      have hs := of_front_suffix hfront
      split at h
      · obtain rfl := (Prod.mk.inj (Except.ok.inj h)).2
        exact hs
      · split at h
        · obtain rfl := (Prod.mk.inj (Except.ok.inj h)).2
          exact hs
        · split at h
          · split at h
            · exact absurd h (by simp)
            · next c u hle' hfront' =>
                split at h
                · exact absurd h (by simp)
                · obtain rfl := (Prod.mk.inj (Except.ok.inj h)).2
                  exact (of_front_suffix hfront').trans ((List.suffix_cons b t).trans hs)
          · exact absurd h (by simp)

/-- **An object is not read without its opening brace.** -/
theorem mem_of_read_object
    {depth : Nat}
    {s : Bytes}
    {o : Object}
    {r : Rest s}
    (h : Decode.read (α := Object) depth s = .ok (o, r)) :
    0x7B ∈ s := by
  simp only [Decode.read, atToken] at h
  split at h
  · exact absurd h (by simp)
  · next b t hle hfront =>
      obtain ⟨v, q, hread, -, -⟩ := of_map_eq_ok (fun _ _ => ⟨rfl, rfl⟩) h
      split at hread
      · next hb =>
          subst hb
          exact (of_front_suffix hfront).mem List.mem_cons_self
      · exact absurd hread (wrongType_ne_ok _ _ _)

/-- A record that is read from a list has its first field there if it is required, and its
other fields are read behind it. -/
theorem Record.elements_cons
    {ρ α : Type}
    {rec : Record ρ α}
    {depth i : Nat}
    {f : Field ρ}
    {fs : List (Field ρ)}
    {first : Bool}
    {draft filled : ρ}
    {s : Bytes}
    {r : Tail s}
    (hrequired : f.required = true)
    (h : rec.elements depth (f :: fs) i first draft s = .ok (filled, r)) :
    ∃ (t : Bytes) (set : ρ → ρ) (q : Rest t) (p : Tail q.val), t <:+ s ∧
      f.read depth t = .ok (set, q) ∧
      rec.elements depth fs (i + 1) false (set draft) q.val = .ok (filled, p) := by
  rw [elements] at h
  split at h
  · exact absurd h (by simp)
  · rw [if_pos hrequired] at h
    split at h
    · exact absurd h (by simp)
    · exact absurd h (by simp)
  · next t hnext =>
      split at h
      · exact absurd h (by simp)
      · next set q hread =>
          obtain ⟨v, p, hbehind, rfl, -⟩ := of_map_eq_ok (fun _ _ => ⟨rfl, rfl⟩) h
          exact ⟨t.val, set, q, p, nextElement_suffix hnext, hread, hbehind⟩

end Json
end Courier
