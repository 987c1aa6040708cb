import Courier.KeyMap
import Mathlib.Data.List.Basic

/-!
# Maps from keys as what they answer

A map is the list of its entries in ascending order of their keys, so that it is
known from its answers.  Leaving out the entries that fail a test is described by
what the smaller map answers.

**Results.**
* `get?_eq_some_iff`, `mem_keys_iff`, `pairwise_keys`: answers, entries and keys.
* `ext_get?`: maps that answer alike are equal.
* `filter`, `get?_filter`, `get?_filter_notMem`: a map without some of its entries.
-/

namespace Courier
namespace KeyMap

variable {β : Type}

theorem lookup_of_above
    {k : String}
    {es : List (String × β)}
    (h : above k es) :
    lookup k es = none := by
  induction es with
  | nil => rfl
  | cons e es ih =>
      have hne : e.1 ≠ k := by
        intro heq
        exact Std.lt_irrefl (heq ▸ h e List.mem_cons_self)
      rw [lookup, if_neg hne]
      exact ih fun d hd => h d (List.mem_cons_of_mem e hd)

theorem above_of_lt
    {k l : String}
    {es : List (String × β)}
    (hkl : k < l)
    (h : above l es) :
    above k es :=
  fun e he => Std.lt_trans hkl (h e he)

theorem lookup_eq_some_iff
    {k : String}
    {v : β}
    {es : List (String × β)}
    (h : Ascending es) :
    lookup k es = some v ↔ (k, v) ∈ es := by
  induction es with
  | nil => simp [lookup]
  | cons e es ih =>
      obtain ⟨l, w⟩ := e
      rw [lookup, List.mem_cons]
      by_cases hkey : l = k
      · subst hkey
        have habsent : (l, v) ∉ es := fun hmem => Std.lt_irrefl (h.1 (l, v) hmem)
        simp [habsent, eq_comm]
      · have hne : (k, v) ≠ (l, w) := fun heq => hkey (congrArg Prod.fst heq).symm
        rw [if_neg hkey, ih h.2, or_iff_right hne]

theorem lookup_ext
    {es fs : List (String × β)}
    (hes : Ascending es)
    (hfs : Ascending fs)
    (h : ∀ k, lookup k es = lookup k fs) :
    es = fs := by
  induction es generalizing fs with
  | nil =>
      cases fs with
      | nil => rfl
      | cons f fs => exact absurd (h f.1) (by simp [lookup])
  | cons e es ih =>
      cases fs with
      | nil => exact absurd (h e.1) (by simp [lookup])
      | cons f fs =>
          obtain ⟨k, v⟩ := e
          obtain ⟨l, w⟩ := f
          -- The first keys agree: the smaller one would be missing from the other list.
          have hkey : k = l := by
            rcases Std.lt_trichotomy k l with hlt | heq | hlt
            · have hnone : lookup k ((l, w) :: fs) = none := by
                rw [lookup, if_neg fun heq => Std.lt_irrefl (heq ▸ hlt)]
                exact lookup_of_above (above_of_lt hlt hfs.1)
              have hk := h k
              rw [hnone, lookup, if_pos rfl] at hk
              exact absurd hk (by simp)
            · exact heq
            · have hnone : lookup l ((k, v) :: es) = none := by
                rw [lookup, if_neg fun heq => Std.lt_irrefl (heq ▸ hlt)]
                exact lookup_of_above (above_of_lt hlt hes.1)
              have hl := h l
              rw [hnone, lookup, if_pos rfl] at hl
              exact absurd hl (by simp)
          subst hkey
          have hvalue : v = w := by simpa [lookup] using h k
          subst hvalue
          have htail : es = fs := by
            refine ih hes.2 hfs.2 fun x => ?_
            by_cases hx : k = x
            · subst hx
              rw [lookup_of_above hes.1, lookup_of_above hfs.1]
            · simpa [lookup, hx] using h x
          rw [htail]

theorem get?_eq_some_iff
    {m : KeyMap β}
    {k : String}
    {v : β} :
    m.get? k = some v ↔ (k, v) ∈ m.entries :=
  lookup_eq_some_iff m.ascending

theorem contains_iff
    {m : KeyMap β}
    {k : String} :
    m.contains k = true ↔ ∃ v, m.get? k = some v := by
  rw [contains, Option.isSome_iff_exists]

theorem mem_keys_iff
    {m : KeyMap β}
    {k : String} :
    k ∈ m.keys ↔ m.contains k = true := by
  simp only [contains_iff, get?_eq_some_iff, keys, List.mem_map]
  constructor
  · rintro ⟨e, he, rfl⟩
    exact ⟨e.2, he⟩
  · rintro ⟨v, hv⟩
    exact ⟨(k, v), hv, rfl⟩

theorem pairwise_keys
    (m : KeyMap β) :
    m.keys.Pairwise (· < ·) := by
  have hpairwise : ∀ es : List (String × β), Ascending es → (es.map (·.1)).Pairwise (· < ·) := by
    intro es hes
    induction es with
    | nil => exact List.Pairwise.nil
    | cons e es ih =>
        refine List.pairwise_cons.2 ⟨?_, ih hes.2⟩
        intro k hk
        obtain ⟨d, hd, rfl⟩ := List.mem_map.1 hk
        exact hes.1 d hd
  exact hpairwise m.entries m.ascending

/-- Maps that answer alike are equal. -/
theorem ext_get?
    {m n : KeyMap β}
    (h : ∀ k, m.get? k = n.get? k) :
    m = n := by
  have hentries : m.entries = n.entries := lookup_ext m.ascending n.ascending h
  cases m
  cases n
  simp only at hentries
  subst hentries
  rfl

/-- The map without the entries that fail a test. -/
def filter (m : KeyMap β) (p : String × β → Bool) : KeyMap β :=
  ⟨m.entries.filter p, ascending_filter p _ m.ascending⟩

theorem get?_filter
    (m : KeyMap β)
    (p : String × β → Bool)
    (k : String) :
    (m.filter p).get? k = (m.get? k).filter fun v => p (k, v) := by
  ext v
  simp only [Option.filter_eq_some_iff, get?_eq_some_iff, filter, List.mem_filter]

/-- A map without some keys. -/
theorem get?_filter_notMem
    (m : KeyMap β)
    (keys : List String)
    (k : String) :
    (m.filter fun e => decide (e.1 ∉ keys)).get? k = if k ∈ keys then none else m.get? k := by
  rw [get?_filter]
  cases m.get? k with
  | none => rw [Option.filter_none, ite_self]
  | some v =>
      rw [Option.filter_some]
      by_cases hk : k ∈ keys
      · simp [hk]
      · simp [hk]

end KeyMap
end Courier
