import Courier.Calendar.Date
import Mathlib.Algebra.Ring.Nat

/-!
# Days and dates

The years cut the days into consecutive stretches of 365 or 366 days and the
months cut each of them again, so the date of a day exists and names that day.

**Results.**
* `yearOfDay_spec`: a day lies in its year.
* `yearStart_succ`: how long a year is.
* `monthOfOrdinal_spec`: a day of the year lies in its month.
* `Date.toDay?_ofDay`: the date of a day names it.
* `Date.ofDay_month`, `Date.ofDay_day`, `Date.ofDay_year`: the range of each part.
-/

namespace Courier
namespace Calendar

theorem yearStart_mono
    {y z : Int}
    (h : y ≤ z) :
    yearStart y ≤ yearStart z := by
  unfold yearStart
  omega

/-- The estimated year is off by one at most. -/
theorem yearOfDay_spec
    (n : Int) :
    yearStart (yearOfDay n) ≤ n ∧ n < yearStart (yearOfDay n + 1) := by
  simp only [yearOfDay]
  split
  · next h =>
      refine ⟨h, ?_⟩
      unfold yearStart
      omega
  · next h =>
      split
      · next k =>
          refine ⟨?_, ?_⟩
          · unfold yearStart
            omega
          · simpa using k
      · next k => exact ⟨by omega, by omega⟩

theorem yearStart_succ
    (y : Int) :
    yearStart (y + 1) = yearStart y + (if isLeapYear y then 366 else 365) := by
  unfold yearStart isLeapYear
  split
  · next h =>
      simp at h
      omega
  · next h =>
      simp at h
      omega

/-- A day of the months that follow each other lies in the one found for it. -/
theorem monthOfOrdinal_spec
    (lengths : List Nat)
    (k : Nat)
    (h : k < lengths.sum) :
    ∃ l, lengths[(monthOfOrdinal lengths k).1]? = some l ∧
      (monthOfOrdinal lengths k).2 < l ∧
      (lengths.take (monthOfOrdinal lengths k).1).sum + (monthOfOrdinal lengths k).2 = k := by
  induction lengths generalizing k with
  | nil => simp at h
  | cons l ls ih =>
      simp only [monthOfOrdinal]
      split
      · next hk => exact ⟨l, rfl, hk, by simp⟩
      · next hk =>
          rw [List.sum_cons] at h
          obtain ⟨m, hm, hlt, hsum⟩ := ih (k - l) (by omega)
          refine ⟨m, by simpa using hm, hlt, ?_⟩
          simp only [List.take_succ_cons, List.sum_cons]
          omega

theorem sum_monthLengths
    (leap : Bool) :
    (monthLengths leap).sum = if leap then 366 else 365 := by
  cases leap with
  | false => rfl
  | true => rfl

namespace Date

/-- The day of the year, counted from zero, falls into the months. -/
theorem ordinal_lt
    (n : Int) :
    (n - yearStart (yearOfDay n)).toNat <
      (monthLengths (isLeapYear (yearOfDay n))).sum := by
  obtain ⟨hle, hlt⟩ := yearOfDay_spec n
  rw [yearStart_succ] at hlt
  rw [sum_monthLengths]
  split at hlt
  · next h =>
      rw [if_pos h]
      omega
  · next h =>
      rw [if_neg h]
      omega

/-- **The date of a day names that day.** -/
theorem toDay?_ofDay
    (n : Int) :
    (ofDay n).toDay? = some n := by
  obtain ⟨l, hl, hlt, hsum⟩ := monthOfOrdinal_spec _ _ (ordinal_lt n)
  have hle := (yearOfDay_spec n).1
  simp only [ofDay, toDay?, Nat.add_sub_cancel, hl]
  rw [if_neg (by omega), if_neg (by omega), ← List.sum_eq_foldr, hsum]
  congr 1
  omega

theorem ofDay_month
    (n : Int) :
    1 ≤ (ofDay n).month ∧ (ofDay n).month ≤ 12 := by
  obtain ⟨l, hl, _, _⟩ := monthOfOrdinal_spec _ _ (ordinal_lt n)
  have hlength := (List.getElem?_eq_some_iff.1 hl).1
  have htwelve : (monthLengths (isLeapYear (yearOfDay n))).length = 12 := rfl
  rw [htwelve] at hlength
  exact ⟨Nat.le_add_left 1 _, hlength⟩

theorem le_of_mem_monthLengths
    {leap : Bool}
    {l : Nat}
    (h : l ∈ monthLengths leap) :
    l ≤ 31 := by
  simp only [monthLengths, List.mem_cons, List.not_mem_nil, or_false] at h
  split at h <;> omega

theorem ofDay_day
    (n : Int) :
    1 ≤ (ofDay n).day ∧ (ofDay n).day ≤ 31 := by
  obtain ⟨l, hl, hlt, _⟩ := monthOfOrdinal_spec _ _ (ordinal_lt n)
  have hl31 := le_of_mem_monthLengths (List.mem_of_getElem? hl)
  exact ⟨Nat.le_add_left 1 _, Nat.le_trans hlt hl31⟩

theorem ofDay_year
    {n : Int}
    (hmin : minDay ≤ n)
    (hmax : n ≤ maxDay) :
    minYear ≤ (ofDay n).year ∧ (ofDay n).year ≤ maxYear := by
  obtain ⟨hle, hlt⟩ := yearOfDay_spec n
  have hyear : (ofDay n).year = yearOfDay n := rfl
  rw [hyear]
  refine ⟨?_, ?_⟩
  · rcases Int.lt_or_le (yearOfDay n) minYear with h | h
    · have hmono := yearStart_mono (Int.add_one_le_of_lt h)
      rw [← minDay_eq_yearStart] at hmono
      omega
    · exact h
  · rcases Int.lt_or_le maxYear (yearOfDay n) with h | h
    · have hmono := yearStart_mono (Int.add_one_le_of_lt h)
      rw [← maxDay_eq_yearStart] at hmono
      omega
    · exact h

end Date

end Calendar
end Courier
