import Courier.Calendar.Timestamp

/-!
# Instants on one line

Every instant has a place on the line of nanoseconds since 1970, on which whole seconds
are rounded down on both sides of 1970.  Adding a duration is adding its nanoseconds to
that place, and fails for no other reason than that the sum lies behind the last instant.

**Results.**
* `Timestamp.unixNanos`: the place of an instant.
* `Timestamp.unixNanos_div`: the whole second of a place.
* `Timestamp.unixNanos_of_add?`, `Timestamp.add?_eq_none_iff`: what an addition gives.
-/

namespace Courier
namespace Calendar
namespace Timestamp

/-- Nanoseconds since 1970-01-01.  A leap second has the places of the second in front of
it once more. -/
def unixNanos (t : Timestamp) : Int :=
  t.unixSeconds * 1000000000 + (t.nano % 1000000000 : Nat)

/-- Rounding a place down gives the whole second. -/
theorem unixNanos_div
    (t : Timestamp) :
    t.unixNanos / 1000000000 = t.unixSeconds := by
  rw [unixNanos]
  omega

theorem unixSeconds_bounds
    (t : Timestamp) :
    minDay * 86400 ≤ t.unixSeconds ∧ t.unixSeconds ≤ max.unixSeconds := by
  have hmax : max.unixSeconds = maxDay * 86400 + 86399 := rfl
  have hlow := t.minDay_le
  have hhigh := t.day_le
  have hsecond := t.second_lt
  rw [hmax, unixSeconds]
  omega

/-- No instant has a place behind that of the last one. -/
theorem unixNanos_le_max
    (t : Timestamp) :
    t.unixNanos ≤ max.unixNanos := by
  have hmax : max.unixNanos = max.unixSeconds * 1000000000 + 999999999 := rfl
  have hseconds := t.unixSeconds_bounds.2
  rw [hmax, unixNanos]
  omega

/-- An instant of the calendar is given by its parts. -/
theorem ofParts?_eq_some
    (day : Int)
    (second nano : Nat)
    (hday : minDay ≤ day ∧ day ≤ maxDay)
    (hsecond : second < 86400)
    (hnano : nano < 2000000000)
    (hleap : 1000000000 ≤ nano → second % 60 = 59) :
    ∃ r, ofParts? day second nano = some r ∧ r.unixSeconds = day * 86400 + second ∧
      r.nano = nano :=
  ⟨⟨day, second, nano, hday.1, hday.2, hsecond, hnano, hleap⟩,
    dif_pos ⟨hday, hsecond, hnano, hleap⟩, rfl, rfl⟩

/-- A second from the first one on has its instants unless it is behind the last one. -/
theorem ofUnix?_cases
    (seconds : Int)
    (nano : Nat)
    (hmin : minDay * 86400 ≤ seconds)
    (hnano : nano < 1000000000) :
    (seconds ≤ max.unixSeconds ∧ ∃ r, ofUnix? seconds nano = some r ∧
        r.unixNanos = seconds * 1000000000 + nano) ∨
      (max.unixSeconds < seconds ∧ ofUnix? seconds nano = none) := by
  have hmax : max.unixSeconds = maxDay * 86400 + 86399 := rfl
  rw [hmax]
  rcases Int.lt_or_le (maxDay * 86400 + 86399) seconds with hbehind | hwithin
  · refine Or.inr ⟨hbehind, dif_neg ?_⟩
    rintro ⟨⟨-, hday⟩, -⟩
    omega
  · obtain ⟨r, hr, hseconds, hrnano⟩ := ofParts?_eq_some (seconds / 86400)
      (seconds % 86400).toNat nano (by omega) (by omega) (by omega) (by omega)
    refine Or.inl ⟨hwithin, r, hr, ?_⟩
    rw [unixNanos, hseconds, hrnano]
    omega

/-- **Adding a duration** adds its nanoseconds, or the sum lies behind the last instant. -/
theorem add?_cases
    (t : Timestamp)
    (d : Duration) :
    (∃ r, t.add? d = some r ∧ r.unixNanos = t.unixNanos + d.nanos) ∨
      (t.add? d = none ∧ max.unixNanos < t.unixNanos + d.nanos) := by
  have hmax : max.unixNanos = max.unixSeconds * 1000000000 + 999999999 := rfl
  have hnanos : d.wholeSeconds * 1000000000 + d.subNanos = d.nanos := by
    rw [Duration.wholeSeconds, Duration.subNanos]
    omega
  have hsub : d.subNanos < 1000000000 := Nat.mod_lt _ (by decide)
  have hlt := t.nano_lt
  unfold add?
  split
  · next hstays =>
      -- The sum is in the leap second in which the addition starts.
      obtain ⟨r, hr, hseconds, hrnano⟩ := ofParts?_eq_some _ _ _ ⟨t.minDay_le, t.day_le⟩
        t.second_lt hstays.2.2 fun _ => t.leap hstays.1
      refine Or.inl ⟨r, hr, ?_⟩
      rw [unixNanos, unixNanos, hseconds, hrnano, unixSeconds]
      omega
  · have hfraction : (if 1000000000 ≤ t.nano then t.nano - 1000000000 else t.nano) =
        t.nano % 1000000000 := by
      split <;> omega
    simp only [hfraction]
    have hstart := t.unixSeconds_bounds.1
    rcases ofUnix?_cases (t.unixSeconds +
      (d.wholeSeconds + (t.nano % 1000000000 + d.subNanos) / 1000000000 : Nat))
      ((t.nano % 1000000000 + d.subNanos) % 1000000000) (by omega)
      (Nat.mod_lt _ (by decide)) with ⟨-, r, hr, hplace⟩ | ⟨hbehind, hnone⟩
    · refine Or.inl ⟨r, hr, ?_⟩
      rw [hplace, unixNanos]
      omega
    · refine Or.inr ⟨hnone, ?_⟩
      rw [hmax, unixNanos]
      omega

theorem unixNanos_of_add?
    {t r : Timestamp}
    {d : Duration}
    (h : t.add? d = some r) :
    r.unixNanos = t.unixNanos + d.nanos := by
  rcases add?_cases t d with ⟨r', hr, hplace⟩ | ⟨hnone, -⟩
  · rw [h] at hr
    rw [Option.some.inj hr, hplace]
  · rw [h] at hnone
    exact absurd hnone (by simp)

/-- **An addition fails exactly where the sum lies behind the last instant.** -/
theorem add?_eq_none_iff
    {t : Timestamp}
    {d : Duration} :
    t.add? d = none ↔ max.unixNanos < t.unixNanos + d.nanos := by
  constructor
  · intro hnone
    rcases add?_cases t d with ⟨r, hr, -⟩ | ⟨-, hbehind⟩
    · rw [hnone] at hr
      exact absurd hr (by simp)
    · exact hbehind
  · intro hbehind
    rcases add?_cases t d with ⟨r, -, hplace⟩ | ⟨hnone, -⟩
    · have hle := r.unixNanos_le_max
      omega
    · exact hnone

/-- A duration that cannot be added to an instant leads behind the last one from everywhere. -/
theorem lt_unixNanos_add_of_not_isSpan
    (t : Timestamp)
    {d : Duration}
    (h : d.isSpan = false) :
    max.unixNanos < t.unixNanos + d.nanos := by
  have hspan : Duration.maxSpan < d.nanos := by simpa [Duration.isSpan] using h
  have hmax : max.unixNanos < 0x7FFFFFFFFFFFFFFF * 1000000 + minDay * 86400 * 1000000000 := by
    decide
  have hstart := t.unixSeconds_bounds.1
  have hplace : t.unixNanos = t.unixSeconds * 1000000000 + (t.nano % 1000000000 : Nat) := rfl
  rw [Duration.maxSpan] at hspan
  omega

end Timestamp
end Calendar
end Courier
