import Courier.Text.Blank
import Mathlib.Data.List.TakeWhile

/-!
# White space around a text

Every text is, in one way only, a text without white space at its ends between two runs of
white space; trimming takes these runs away.

**Results.**
* `Blanks`, `Bare`: runs of white space, and texts with none at their ends.
* `Padded`: a text with white space around another one.
* `trim_eq_iff`: what a text is trimmed to.
-/

namespace Courier
namespace Text

/-- A run of white space. -/
abbrev Blanks := {cs : List Char // ∀ c ∈ cs, isBlank c = true}

/-- No white space. -/
def Blanks.nil : Blanks :=
  ⟨[], fun _ hc => absurd hc List.not_mem_nil⟩

/-- White space stands at neither end. -/
structure Bare (cs : List Char) : Prop where
  head : ∀ c ∈ cs.head?, isBlank c = false
  last : ∀ c ∈ cs.getLast?, isBlank c = false

/-- Characters with white space around others, at whose ends there is none. -/
def Padded (cs body : List Char) : Prop :=
  Bare body ∧ ∃ before after : Blanks, cs = before.val ++ body ++ after.val

theorem bare_nil :
    Bare [] :=
  ⟨fun _ hc => absurd hc (by simp), fun _ hc => absurd hc (by simp)⟩

theorem trimStart_append
    (w : Blanks)
    {cs : List Char}
    (h : ∀ c ∈ cs.head?, isBlank c = false) :
    trimStart (w.val ++ cs) = cs := by
  rw [trimStart, List.dropWhile_append_of_pos w.property]
  cases cs with
  | nil => rfl
  | cons c cs => exact List.dropWhile_cons_of_neg (by simp [h c rfl])

theorem trimEnd_append
    {cs : List Char}
    (h : ∀ c ∈ cs.getLast?, isBlank c = false)
    (w : Blanks) :
    trimEnd (cs ++ w.val) = cs := by
  have hw : ∀ c ∈ w.val.reverse, isBlank c = true := fun c hc =>
    w.property c (List.mem_reverse.1 hc)
  have hrest : trimStart (w.val.reverse ++ cs.reverse) = cs.reverse := by
    refine trimStart_append ⟨w.val.reverse, hw⟩ fun c hc => h c ?_
    rwa [List.head?_reverse] at hc
  rw [trimEnd, List.reverse_append, hrest, List.reverse_reverse]

theorem exists_trimStart
    (cs : List Char) :
    ∃ w : Blanks, cs = w.val ++ trimStart cs ∧ ∀ c ∈ (trimStart cs).head?, isBlank c = false := by
  refine ⟨⟨cs.takeWhile isBlank, fun c hc => List.mem_takeWhile_imp hc⟩,
    List.takeWhile_append_dropWhile.symm, fun c hc => ?_⟩
  have hhead := List.head?_dropWhile_not isBlank cs
  have hc' : (cs.dropWhile isBlank).head? = some c := hc
  rw [hc'] at hhead
  exact hhead

theorem exists_trimEnd
    (cs : List Char) :
    ∃ w : Blanks, cs = trimEnd cs ++ w.val ∧ ∀ c ∈ (trimEnd cs).getLast?, isBlank c = false := by
  obtain ⟨w, hw, hhead⟩ := exists_trimStart cs.reverse
  refine ⟨⟨w.val.reverse, fun c hc => w.property c (List.mem_reverse.1 hc)⟩, ?_, ?_⟩
  · rw [trimEnd, ← List.reverse_append, ← hw, List.reverse_reverse]
  · rw [trimEnd, List.getLast?_reverse]
    exact hhead

/-- What stands at the end is trimmed without touching the beginning. -/
theorem head?_trimEnd
    (cs : List Char) :
    ∀ c ∈ (trimEnd cs).head?, c ∈ cs.head? := by
  obtain ⟨w, hw, -⟩ := exists_trimEnd cs
  intro c hc
  obtain ⟨rest, hrest⟩ := List.head?_eq_some_iff.1 hc
  rw [hw, hrest]
  rfl

/-- Two runs of white space and what stands between them. -/
theorem trimEnd_trimStart
    {body : List Char}
    (h : Bare body)
    (before after : Blanks) :
    trimEnd (trimStart (before.val ++ body ++ after.val)) = body := by
  cases body with
  | nil =>
      -- The two runs are one then, and the first trimming takes all of it.
      have hall : ∀ c ∈ before.val ++ after.val, isBlank c = true := fun c hc =>
        (List.mem_append.1 hc).elim (before.property c) (after.property c)
      have hstart := trimStart_append ⟨_, hall⟩ bare_nil.head
      rw [List.append_nil] at hstart ⊢
      rw [hstart]
      rfl
  | cons c cs =>
      have hhead : ∀ d ∈ (c :: cs ++ after.val).head?, isBlank d = false := fun d hd =>
        h.head d hd
      rw [List.append_assoc, trimStart_append before hhead, trimEnd_append h.last]

/-- **Trimming**: a text is trimmed to the one that it has between white space. -/
theorem trim_eq_iff
    {s body : String} :
    trim s = body ↔ Padded s.toList body.toList := by
  have hlist : (trim s).toList = trimEnd (trimStart s.toList) := String.toList_ofList
  rw [← String.toList_inj, hlist]
  constructor
  · intro h
    obtain ⟨before, hbefore, hhead⟩ := exists_trimStart s.toList
    obtain ⟨after, hafter, hlast⟩ := exists_trimEnd (trimStart s.toList)
    rw [← h]
    refine ⟨⟨fun c hc => hhead c (head?_trimEnd _ c hc), hlast⟩, before, after, ?_⟩
    rw [List.append_assoc, ← hafter]
    exact hbefore
  · rintro ⟨hbare, before, after, h⟩
    rw [h, trimEnd_trimStart hbare]

end Text
end Courier
