import Courier.Text.Numeral
import Mathlib.Algebra.Ring.Nat

/-!
# Decimal numerals and their values

The numeral of a number consists of digits, is never empty, starts with a zero
for zero only and has the number as its value; zeros in front change nothing but
the length.

**Results.**
* `valueFrom_toDigits`, `valueFrom_padded`: a numeral has the value it was written for.
* `isDigit_of_mem_padded`, `length_padded`: its characters and its length.
* `head_toDigits_ne_zero`: no zero stands in front of a positive number.
-/

namespace Courier
namespace Numeral

theorem isDigit_iff
    (c : Char) :
    isDigit c = true ↔ 48 ≤ c.toNat ∧ c.toNat ≤ 57 := by
  simp only [isDigit, Bool.and_eq_true, decide_eq_true_eq, Char.le_def, UInt32.le_iff_toNat_le]
  rfl

theorem valueFrom_eq_ofDigitChars
    (acc : Nat)
    (cs : List Char) :
    valueFrom acc cs = Nat.ofDigitChars 10 cs acc := by
  have hstep : (fun (n : Nat) (c : Char) => n * 10 + (c.toNat - 48)) =
      fun n c => 10 * n + (c.toNat - '0'.toNat) := by
    funext n c
    have hzero : '0'.toNat = 48 := by decide
    rw [Nat.mul_comm, hzero]
  rw [Nat.ofDigitChars_eq_foldl, ← hstep]
  rfl

theorem valueFrom_cons
    (acc : Nat)
    (c : Char)
    (cs : List Char) :
    valueFrom acc (c :: cs) = valueFrom (acc * 10 + (c.toNat - 48)) cs := by
  rw [valueFrom, List.foldl_cons, ← valueFrom]

theorem le_valueFrom
    (acc : Nat)
    (cs : List Char) :
    acc ≤ valueFrom acc cs := by
  induction cs generalizing acc with
  | nil => exact Nat.le_refl _
  | cons c cs ih =>
      rw [valueFrom_cons]
      exact Nat.le_trans (by omega) (ih _)

theorem isDigit_of_mem_toDigits
    {n : Nat}
    {c : Char}
    (h : c ∈ Nat.toDigits 10 n) :
    isDigit c = true := by
  have hc := Nat.isDigit_of_mem_toDigits (by decide) (by decide) h
  rw [Char.isDigit_iff_toNat, show '0'.toNat = 48 from rfl, show '9'.toNat = 57 from rfl] at hc
  exact (isDigit_iff c).2 hc

theorem valueFrom_toDigits
    (n : Nat) :
    valueFrom 0 (Nat.toDigits 10 n) = n := by
  rw [valueFrom_eq_ofDigitChars, Nat.ofDigitChars_ten_toDigits]

theorem head_toDigits_ne_zero
    {n : Nat}
    (hn : 0 < n) :
    (Nat.toDigits 10 n).head? ≠ some '0' := by
  induction n using Nat.strongRecOn with
  | ind n ih =>
      rw [Nat.toDigits_eq_if (by decide)]
      split
      · simp only [List.head?_cons, ne_eq, Option.some.injEq, Nat.digitChar_eq_zero]
        omega
      · have h := ih (n / 10) (by omega) (by omega)
        cases hd : Nat.toDigits 10 (n / 10) with
        | nil => exact absurd hd Nat.toDigits_ne_nil
        | cons c cs =>
            rw [hd] at h
            exact h

theorem toList_padded
    (width n : Nat) :
    (padded width n).toList =
      List.replicate (width - (Nat.toDigits 10 n).length) '0' ++ Nat.toDigits 10 n := by
  simp [padded, Nat.repr_eq_ofList_toDigits]

theorem padded_ne_nil
    (width n : Nat) :
    (padded width n).toList ≠ [] := by
  rw [toList_padded]
  simp

theorem isDigit_of_mem_padded
    {width n : Nat}
    {c : Char}
    (h : c ∈ (padded width n).toList) :
    isDigit c = true := by
  rw [toList_padded, List.mem_append] at h
  rcases h with h | h
  · rw [List.eq_of_mem_replicate h]
    decide
  · exact isDigit_of_mem_toDigits h

theorem valueFrom_padded
    (width n : Nat) :
    valueFrom 0 (padded width n).toList = n := by
  rw [toList_padded, valueFrom_eq_ofDigitChars, Nat.ofDigitChars_append,
    Nat.ofDigitChars_replicate_zero, Nat.mul_zero, Nat.ofDigitChars_ten_toDigits]

theorem length_padded
    {width n : Nat}
    (hw : 0 < width)
    (hn : n < 10 ^ width) :
    (padded width n).toList.length = width := by
  have h := (Nat.length_toDigits_le_iff (b := 10) (by decide) hw).2 hn
  rw [toList_padded, List.length_append, List.length_replicate]
  omega

end Numeral
end Courier
