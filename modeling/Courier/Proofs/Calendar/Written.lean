import Courier.Calendar.Reader
import Courier.Calendar.Written
import Courier.Proofs.Calendar.Date
import Courier.Proofs.Text.Decimal

/-!
# Written timestamps are read back

Every reader of a part of a timestamp takes the part as it is written and leaves
what follows it, as long as that does not start with a digit.

**Results.**
* `readDigits_append`: the digits in front of anything else.
* `readField_padded`, `readYear_yearText`, `readFraction_fractionText`: the parts.
* `Timestamp.readFields_text`: all parts of a written timestamp.
* `Timestamp.toTimestamp_clock`: the instant of the parts.
* `Timestamp.readTimestamp_text`: reading what was written.
-/

namespace Courier
namespace Calendar

open Numeral (padded valueFrom valueFrom_padded padded_ne_nil isDigit_of_mem_padded)

/-- No digit stands at the front. -/
def Unnumbered (s : List Char) : Prop :=
  ∀ c ∈ s.head?, Numeral.isDigit c = false

theorem takeWhile_append_of_unnumbered
    {digits rest : List Char}
    (hdigits : ∀ c ∈ digits, Numeral.isDigit c = true)
    (hrest : Unnumbered rest) :
    (digits ++ rest).takeWhile Numeral.isDigit = digits := by
  rw [List.takeWhile_append_of_pos hdigits]
  cases rest with
  | nil => simp
  | cons c cs => rw [List.takeWhile_cons_of_neg (by simp [hrest c rfl]), List.append_nil]

theorem Unnumbered.take
    {s : List Char}
    (h : Unnumbered s)
    (n : Nat) :
    Unnumbered (s.take n) := by
  cases n with
  | zero => simp [Unnumbered]
  | succ n =>
      cases s with
      | nil => exact h
      | cons c cs => exact h

/-- The digits in front of anything else are read, if there is room for them. -/
theorem readDigits_append
    {digits rest : List Char}
    (width : Option Nat)
    (hne : digits ≠ [])
    (hdigits : ∀ c ∈ digits, Numeral.isDigit c = true)
    (hwidth : ∀ w ∈ width, digits.length ≤ w)
    (hvalue : (valueFrom 0 digits : Int) ≤ Numeral.maxInt64)
    (hrest : Unnumbered rest) :
    readDigits width (digits ++ rest) = .ok (valueFrom 0 digits, rest) := by
  have hrun : ∀ run, run = digits →
      (if Numeral.maxInt64 < valueFrom 0 run then .error .outOfRange
        else .ok (valueFrom 0 run, (digits ++ rest).drop run.length)) =
      (Except.ok (valueFrom 0 digits, rest) : Reading (Nat × List Char)) := by
    rintro run rfl
    rw [if_neg (by omega), List.drop_left]
  cases digits with
  | nil => exact absurd rfl hne
  | cons c cs =>
      have hc := hdigits c (List.mem_cons_self ..)
      simp only [readDigits, List.cons_append, hc, if_true]
      cases width with
      | none => exact hrun _ (takeWhile_append_of_unnumbered hdigits hrest)
      | some w =>
          refine hrun _ ?_
          simp only
          rw [← List.cons_append, List.take_append, List.take_of_length_le (hwidth w rfl)]
          exact takeWhile_append_of_unnumbered hdigits (hrest.take _)

theorem isBlank_eq_false_of_isDigit
    {c : Char}
    (h : Numeral.isDigit c = true) :
    Text.isBlank c = false := by
  rw [Numeral.isDigit_iff] at h
  simp only [Text.isBlank, Bool.or_eq_false_iff, Bool.and_eq_false_iff, decide_eq_false_iff_not,
    beq_eq_false_iff_ne]
  omega

/-- Digits do not follow white space. -/
theorem trimStart_append_of_isDigit
    {digits : List Char}
    (hne : digits ≠ [])
    (hdigits : ∀ c ∈ digits, Numeral.isDigit c = true)
    (rest : List Char) :
    Text.trimStart (digits ++ rest) = digits ++ rest := by
  cases digits with
  | nil => exact absurd rfl hne
  | cons c cs =>
      have hc := isBlank_eq_false_of_isDigit (hdigits c (List.mem_cons_self ..))
      exact List.dropWhile_cons_of_neg (by simp [hc])

theorem readField_padded
    {least greatest n : Nat}
    {rest : List Char}
    (hleast : least ≤ n)
    (hgreatest : n ≤ greatest)
    (hn : n < 100)
    (hrest : Unnumbered rest) :
    readField least greatest ((padded 2 n).toList ++ rest) = .ok (n, rest) := by
  have hlength : (padded 2 n).toList.length = 2 := Numeral.length_padded (by decide) hn
  have hread := readDigits_append (some 2) (padded_ne_nil 2 n)
    (fun c => isDigit_of_mem_padded) (by simp [hlength])
    (by rw [valueFrom_padded, Numeral.maxInt64]; omega) hrest
  rw [valueFrom_padded] at hread
  simp only [readField, trimStart_append_of_isDigit (padded_ne_nil 2 n)
    (fun c => isDigit_of_mem_padded), hread, bind, Except.bind]
  rw [if_pos ⟨hleast, hgreatest⟩]

theorem readSeparator_cons
    {rest : List Char}
    (sep : Char)
    (h : Text.isBlank sep = false) :
    readSeparator sep (sep :: rest) = .ok ((), rest) := by
  simp [readSeparator, Text.trimStart, h]

/-- The years of timestamps pass the check that ends the reading of a year. -/
theorem checkYear
    {x : Reading (Int × List Char)}
    {y : Int}
    {rest : List Char}
    (hmin : minYear ≤ y)
    (hmax : y ≤ maxYear)
    (hx : x = .ok (y, rest)) :
    (do
      let (y, r) ← x
      if -0x80000000 ≤ y ∧ y < 0x80000000 then .ok (y, r) else .error .outOfRange) =
      (.ok (y, rest) : Reading (Int × List Char)) := by
  have hrange : -0x80000000 ≤ y ∧ y < 0x80000000 := by
    rw [minYear] at hmin
    rw [maxYear] at hmax
    omega
  subst hx
  exact if_pos hrange

theorem readYear_minus
    {s rest : List Char}
    {n : Nat}
    (hmin : minYear ≤ -(n : Int))
    (h : readDigits none s = .ok (n, rest)) :
    readYear ('-' :: s) = .ok (-(n : Int), rest) := by
  have htrim : Text.trimStart ('-' :: s) = '-' :: s := rfl
  have hmax : -(n : Int) ≤ maxYear := by
    rw [maxYear]
    omega
  rw [readYear, htrim]
  refine checkYear hmin hmax ?_
  rw [h, Except.map]

theorem readYear_plus
    {s rest : List Char}
    {n : Nat}
    (hmax : (n : Int) ≤ maxYear)
    (h : readDigits none s = .ok (n, rest)) :
    readYear ('+' :: s) = .ok ((n : Int), rest) := by
  have htrim : Text.trimStart ('+' :: s) = '+' :: s := rfl
  have hmin : minYear ≤ (n : Int) := by
    rw [minYear]
    omega
  rw [readYear, htrim]
  refine checkYear hmin hmax ?_
  rw [h, Except.map]

theorem readYear_digits
    {digits rest : List Char}
    {n : Nat}
    (hne : digits ≠ [])
    (hdigits : ∀ c ∈ digits, Numeral.isDigit c = true)
    (hmax : (n : Int) ≤ maxYear)
    (h : readDigits (some 4) (digits ++ rest) = .ok (n, rest)) :
    readYear (digits ++ rest) = .ok ((n : Int), rest) := by
  have hmin : minYear ≤ (n : Int) := by
    rw [minYear]
    omega
  have hsign : ∀ c r, digits ++ rest = c :: r → Numeral.isDigit c = true := by
    intro c r hc
    cases digits with
    | nil => exact absurd rfl hne
    | cons d ds =>
        injection hc with hd
        exact hd ▸ hdigits d (List.mem_cons_self ..)
  rw [readYear, trimStart_append_of_isDigit hne hdigits]
  split
  · next r hr => exact absurd (hsign _ _ hr) (by decide)
  · next r hr => exact absurd (hsign _ _ hr) (by decide)
  · refine checkYear hmin hmax ?_
    rw [h, Except.map]

theorem readYear_yearText
    {y : Int}
    {rest : List Char}
    (hmin : minYear ≤ y)
    (hmax : y ≤ maxYear)
    (hrest : Unnumbered rest) :
    readYear ((yearText y).toList ++ rest) = .ok (y, rest) := by
  have hbounds : -262143 ≤ y ∧ y ≤ 262142 := ⟨hmin, hmax⟩
  have hread : ∀ (width : Option Nat) (n : Nat), n ≤ 1000000 →
      (∀ w ∈ width, (padded 4 n).toList.length ≤ w) →
      readDigits width ((padded 4 n).toList ++ rest) = .ok (n, rest) := by
    intro width n hn hwidth
    have hvalue : (valueFrom 0 (padded 4 n).toList : Int) ≤ Numeral.maxInt64 := by
      rw [valueFrom_padded, Numeral.maxInt64]
      omega
    rw [readDigits_append width (padded_ne_nil 4 n) (fun c => isDigit_of_mem_padded) hwidth hvalue
      hrest, valueFrom_padded]
  rw [yearText]
  split
  · next h =>
      obtain ⟨n, rfl⟩ := Int.eq_ofNat_of_zero_le h.1
      rw [Int.toNat_natCast]
      have hlength : (padded 4 n).toList.length = 4 :=
        Numeral.length_padded (by decide) (by omega)
      exact readYear_digits (padded_ne_nil 4 n) (fun c => isDigit_of_mem_padded) hmax
        (hread (some 4) n (by omega) (by simp [hlength]))
  · next h =>
      have hyear := hread none y.natAbs (by omega) (by simp)
      split
      · next hneg =>
          have habs : -(y.natAbs : Int) = y := by omega
          have htext : ("-" ++ padded 4 y.natAbs).toList = '-' :: (padded 4 y.natAbs).toList := by
            simp
          have h := readYear_minus (by rw [habs]; exact hmin) hyear
          rw [habs] at h
          rw [htext]
          exact h
      · next hpos =>
          have habs : (y.natAbs : Int) = y := by omega
          have htext : ("+" ++ padded 4 y.natAbs).toList = '+' :: (padded 4 y.natAbs).toList := by
            simp
          have h := readYear_plus (by rw [habs]; exact hmax) hyear
          rw [habs] at h
          rw [htext]
          exact h

theorem unnumbered_cons
    {c : Char}
    {s : List Char}
    (h : Numeral.isDigit c = false) :
    Unnumbered (c :: s) := by
  intro d hd
  obtain rfl : c = d := by simpa using hd
  exact h

theorem toList_point
    (s : String) :
    ("." ++ s).toList = '.' :: s.toList := by
  simp

/-- A fraction of up to nine digits counts nanoseconds. -/
theorem readFraction_padded
    {width n : Nat}
    (hpos : 0 < width)
    (hwidth : width ≤ 9)
    (hn : n < 10 ^ width) :
    readFraction ('.' :: ((padded width n).toList ++ ['Z'])) =
      .ok (n * 10 ^ (9 - width), ['Z']) := by
  have hlength : (padded width n).toList.length = width := Numeral.length_padded hpos hn
  have hpow : 10 ^ width ≤ 10 ^ 9 := Nat.pow_le_pow_right (by decide) hwidth
  have hvalue : (valueFrom 0 (padded width n).toList : Int) ≤ Numeral.maxInt64 := by
    rw [valueFrom_padded, Numeral.maxInt64]
    omega
  have hread := readDigits_append (some 9) (padded_ne_nil width n)
    (fun c => isDigit_of_mem_padded) (by simpa [hlength] using hwidth) hvalue
    (unnumbered_cons rfl : Unnumbered ['Z'])
  rw [valueFrom_padded] at hread
  have hcount : ((padded width n).toList ++ ['Z']).length - ['Z'].length = width := by
    rw [List.length_append, hlength, Nat.add_sub_cancel]
  simp only [readFraction, hread, bind, Except.bind, hcount]
  rfl

theorem readFraction_fractionText
    {nano : Nat}
    (h : nano < 1000000000) :
    readFraction ((fractionText nano).toList ++ ['Z']) = .ok (nano, ['Z']) := by
  rw [fractionText]
  split
  · next hzero =>
      subst hzero
      rfl
  · have hform : ∀ width n, 0 < width → width ≤ 9 → n < 10 ^ width →
        n * 10 ^ (9 - width) = nano →
        readFraction (("." ++ padded width n).toList ++ ['Z']) = .ok (nano, ['Z']) := by
      rintro width n hpos hwidth hn rfl
      rw [toList_point]
      exact readFraction_padded hpos hwidth hn
    split
    · exact hform 3 _ (by decide) (by decide) (by omega) (by omega)
    · split
      · exact hform 6 _ (by decide) (by decide) (by omega) (by omega)
      · exact hform 9 _ (by decide) (by decide) (by omega) (by omega)

theorem unnumbered_fractionText
    (nano : Nat) :
    Unnumbered ((fractionText nano).toList ++ ['Z']) := by
  have hpoint : ∀ s, Unnumbered (("." ++ s).toList ++ ['Z']) := by
    intro s
    rw [toList_point]
    exact unnumbered_cons rfl
  rw [fractionText]
  split
  · exact unnumbered_cons rfl
  · split
    · exact hpoint _
    · split
      · exact hpoint _
      · exact hpoint _

namespace Timestamp

theorem toList_text
    (t : Timestamp) :
    t.text.toList =
      (yearText (Date.ofDay t.day).year).toList ++ '-' ::
        ((padded 2 (Date.ofDay t.day).month).toList ++ '-' ::
          ((padded 2 (Date.ofDay t.day).day).toList ++ 'T' ::
            ((padded 2 (t.second / 3600)).toList ++ ':' ::
              ((padded 2 (t.second / 60 % 60)).toList ++ ':' ::
                ((padded 2 t.clockSecond).toList ++
                  ((fractionText (t.nano % 1000000000)).toList ++ ['Z'])))))) := by
  simp [text, Date.text]

/-- A leap second is second 60, every other one is below. -/
theorem clockSecond_le
    (t : Timestamp) :
    t.clockSecond ≤ 60 := by
  have hnano := t.nano_lt
  have hleap := t.leap
  rw [clockSecond]
  omega

/-- The parts in which a timestamp is written. -/
def clock (t : Timestamp) : Fields where
  date := Date.ofDay t.day
  hour := t.second / 3600
  minute := t.second / 60 % 60
  second := t.clockSecond
  nano := t.nano % 1000000000
  offset := 0

theorem readFields_text
    (t : Timestamp) :
    readFields t.text.toList = .ok (t.clock, []) := by
  obtain ⟨hminYear, hmaxYear⟩ := Date.ofDay_year t.minDay_le t.day_le
  obtain ⟨hminMonth, hmaxMonth⟩ := Date.ofDay_month t.day
  obtain ⟨hminDay, hmaxDay⟩ := Date.ofDay_day t.day
  have hsecond := t.second_lt
  have hclock := t.clockSecond_le
  have hfraction : t.nano % 1000000000 < 1000000000 := Nat.mod_lt _ (by decide)
  have hoffset : readOffset ['Z'] = .ok (0, []) := rfl
  have hdivider : ∀ r, readDivider ('T' :: r) = .ok ((), r) := fun r => rfl
  have hhour : ∀ r, readField 0 23 ((padded 2 (t.second / 3600)).toList ++ ':' :: r) =
      .ok (t.second / 3600, ':' :: r) := fun r =>
    readField_padded (Nat.zero_le _) (by omega) (by omega) (unnumbered_cons rfl)
  have hminute : ∀ r, readField 0 59 ((padded 2 (t.second / 60 % 60)).toList ++ ':' :: r) =
      .ok (t.second / 60 % 60, ':' :: r) := fun r =>
    readField_padded (Nat.zero_le _) (by omega) (by omega) (unnumbered_cons rfl)
  rw [toList_text, readFields]
  simp only [bind, Except.bind, hdivider, hhour, hminute,
    readYear_yearText hminYear hmaxYear (unnumbered_cons (c := '-') rfl),
    readSeparator_cons '-' rfl, readSeparator_cons ':' rfl,
    readField_padded hminMonth hmaxMonth (by omega) (unnumbered_cons (c := '-') rfl),
    readField_padded hminDay hmaxDay (by omega) (unnumbered_cons (c := 'T') rfl),
    readField_padded (Nat.zero_le _) hclock (by omega) (unnumbered_fractionText _),
    readFraction_fractionText hfraction, hoffset]
  rw [clock]

theorem ofParts?_self
    (t : Timestamp) :
    ofParts? t.day t.second t.nano = some t :=
  dif_pos ⟨⟨t.minDay_le, t.day_le⟩, t.second_lt, t.nano_lt, t.leap⟩

/-- Second 60 takes its whole second back into the nanoseconds. -/
theorem toTimestamp_clock
    (t : Timestamp) :
    t.clock.toTimestamp = .ok t := by
  have hsecond := t.second_lt
  have hnano := t.nano_lt
  have hleap := t.leap
  have hday : t.clock.date.toDay? = some t.day := Date.toDay?_ofDay t.day
  have hcarry : t.clockSecond / 60 = t.nano / 1000000000 := by
    rw [clockSecond]
    omega
  have hrest : t.nano % 1000000000 + t.nano / 1000000000 * 1000000000 = t.nano := by omega
  have hseconds : t.day * 86400 + (t.second / 3600 * 3600 + t.second / 60 % 60 * 60 +
      (t.clockSecond - t.nano / 1000000000) : Nat) - 0 = t.day * 86400 + t.second := by
    rw [clockSecond]
    omega
  have hquot : (t.day * 86400 + (t.second : Int)) / 86400 = t.day := by omega
  have hrem : ((t.day * 86400 + (t.second : Int)) % 86400).toNat = t.second := by omega
  rw [Fields.toTimestamp, hday]
  simp only [clock, hcarry]
  rw [if_pos ⟨t.minDay_le, t.day_le, by decide⟩, hseconds, hrest, ofUnix?, hquot, hrem,
    ofParts?_self]

/-- **A written timestamp is read back**, whatever its year and its fraction, and in
leap seconds too. -/
theorem readTimestamp_text
    (t : Timestamp) :
    readTimestamp t.text = .ok t := by
  have htrim : Text.trimStart [] = [] := rfl
  rw [readTimestamp, readFields_text]
  simp only [bind, Except.bind, htrim, if_true, toTimestamp_clock]

end Timestamp

end Calendar
end Courier
