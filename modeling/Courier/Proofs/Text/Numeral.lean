import Courier.Proofs.Text.Blank
import Courier.Proofs.Text.Decimal

/-!
# What numerals denote

A natural number is written with its digits behind any number of zeros, and with a plus
or without; an integer may have a minus in front instead.  The readers of numerals accept
these texts up to their limits, and nothing else.

**Results.**
* `Decimal`, `Natural`, `Integer`: the numerals of a number.
* `digits?_eq_some_iff`, `natural?_eq_some_iff`, `integer?_eq_some_iff`: what is read.
-/

namespace Courier
namespace Numeral

/-- The digits of a number behind any number of zeros. -/
def Decimal (n : Nat) (cs : List Char) : Prop :=
  ∃ zeros, cs = List.replicate zeros '0' ++ Nat.toDigits 10 n

/-- The numerals of a natural number. -/
inductive Natural (n : Nat) : List Char → Prop
  | unsigned
      {cs : List Char}
      (h : Decimal n cs) :
      Natural n cs
  | plus
      {cs : List Char}
      (h : Decimal n cs) :
      Natural n ('+' :: cs)

/-- The numerals of an integer. -/
inductive Integer : Int → List Char → Prop
  | natural
      {n : Nat}
      {cs : List Char}
      (h : Natural n cs) :
      Integer n cs
  | minus
      {n : Nat}
      {cs : List Char}
      (h : Decimal n cs) :
      Integer (-n) ('-' :: cs)

namespace Decimal

variable {n : Nat} {cs : List Char}

theorem ne_nil
    (h : Decimal n cs) :
    cs ≠ [] := by
  obtain ⟨zeros, rfl⟩ := h
  exact List.append_ne_nil_of_right_ne_nil _ Nat.toDigits_ne_nil

theorem isDigit
    (h : Decimal n cs) :
    ∀ c ∈ cs, Numeral.isDigit c = true := by
  obtain ⟨zeros, rfl⟩ := h
  intro c hc
  rcases List.mem_append.1 hc with hc | hc
  · rw [List.eq_of_mem_replicate hc]
    decide
  · exact isDigit_of_mem_toDigits hc

theorem valueFrom
    (h : Decimal n cs) :
    Numeral.valueFrom 0 cs = n := by
  obtain ⟨zeros, rfl⟩ := h
  rw [valueFrom_eq_ofDigitChars, Nat.ofDigitChars_append, Nat.ofDigitChars_replicate_zero,
    Nat.mul_zero, Nat.ofDigitChars_ten_toDigits]

/-- A single digit. -/
theorem single
    {c : Char}
    (h : Numeral.isDigit c = true) :
    Decimal (c.toNat - 48) [c] := by
  rw [isDigit_iff] at h
  have hlt : c.toNat - 48 < 10 := by omega
  have hc : Nat.digitChar (c.toNat - 48) = c := by
    refine Char.toNat_inj.1 ?_
    rw [Nat.toNat_digitChar_of_lt_ten hlt]
    omega
  refine ⟨0, ?_⟩
  rw [Nat.toDigits_of_lt_base hlt, hc]
  rfl

/-- One more digit makes a number ten times as large, and zero no longer. -/
theorem concat
    (h : Decimal n cs)
    {c : Char}
    (hc : Numeral.isDigit c = true) :
    Decimal (n * 10 + (c.toNat - 48)) (cs ++ [c]) := by
  obtain ⟨zeros, rfl⟩ := h
  obtain ⟨more, hlast⟩ := single hc
  have hlt : c.toNat - 48 < 10 := by
    rw [isDigit_iff] at hc
    omega
  rcases Nat.eq_zero_or_pos n with rfl | hn
  · refine ⟨zeros + 1 + more, ?_⟩
    rw [Nat.zero_mul, Nat.zero_add, hlast, ← List.append_assoc, ← List.replicate_append_replicate,
      List.replicate_succ']
    rfl
  · have hmore : more = 0 := by
      rw [Nat.toDigits_of_lt_base hlt] at hlast
      simpa using congrArg List.length hlast
    subst hmore
    refine ⟨zeros, ?_⟩
    rw [hlast, Nat.mul_comm, ← Nat.toDigits_append_toDigits (by decide) hn hlt, List.append_assoc]
    rfl

/-- Digits read behind others. -/
theorem append
    (h : Decimal n cs)
    {ds : List Char}
    (hds : ∀ c ∈ ds, Numeral.isDigit c = true) :
    Decimal (Numeral.valueFrom n ds) (cs ++ ds) := by
  induction ds generalizing n cs with
  | nil =>
      rw [List.append_nil]
      exact h
  | cons c ds ih =>
      have hrest := ih (h.concat (hds c List.mem_cons_self)) fun d hd =>
        hds d (List.mem_cons_of_mem c hd)
      rw [List.append_assoc] at hrest
      exact hrest

end Decimal

/-- Every run of digits is the decimal form of its value. -/
theorem decimal_valueFrom
    {cs : List Char}
    (hne : cs ≠ [])
    (hdigits : ∀ c ∈ cs, isDigit c = true) :
    Decimal (valueFrom 0 cs) cs := by
  cases cs with
  | nil => exact absurd rfl hne
  | cons c cs =>
      have h := (Decimal.single (hdigits c List.mem_cons_self)).append fun d hd =>
        hdigits d (List.mem_cons_of_mem c hd)
      rw [valueFrom_cons, Nat.zero_mul, Nat.zero_add]
      exact h

theorem digits?_eq_some_iff
    {cs : List Char}
    {n : Nat} :
    digits? cs = some n ↔ Decimal n cs := by
  rw [digits?]
  constructor
  · intro h
    obtain ⟨⟨hne, hdigits⟩, hn⟩ := Option.ite_none_right_eq_some.1 h
    obtain rfl := Option.some.inj hn
    exact decimal_valueFrom hne (List.all_eq_true.1 hdigits)
  · intro h
    rw [if_pos ⟨h.ne_nil, List.all_eq_true.2 h.isDigit⟩, h.valueFrom]

/-- A numeral without a sign begins with no sign. -/
theorem Decimal.ne_cons
    {n : Nat}
    {c : Char}
    (hc : Numeral.isDigit c = false)
    (cs : List Char) :
    ¬ Decimal n (c :: cs) :=
  fun h => Bool.false_ne_true (hc.symm.trans (h.isDigit c List.mem_cons_self))

theorem natural?_eq_some_iff
    {limit n : Nat}
    {cs : List Char} :
    natural? limit cs = some n ↔ Natural n cs ∧ n ≤ limit := by
  rw [natural?.eq_def, Option.filter_eq_some_iff, decide_eq_true_eq]
  refine and_congr_left fun _ => ?_
  split
  · next ds =>
      rw [digits?_eq_some_iff]
      refine ⟨Natural.plus, fun h => ?_⟩
      cases h with
      | unsigned h => exact absurd h (Decimal.ne_cons (by decide) ds)
      | plus h => exact h
  · next hplus =>
      rw [digits?_eq_some_iff]
      refine ⟨Natural.unsigned, fun h => ?_⟩
      cases h with
      | unsigned h => exact h
      | plus h => exact absurd rfl (hplus _)

theorem integer?_eq_some_iff
    {least most i : Int}
    {cs : List Char} :
    integer? least most cs = some i ↔ Integer i cs ∧ least ≤ i ∧ i ≤ most := by
  rw [integer?.eq_def, Option.filter_eq_some_iff, decide_eq_true_eq]
  refine and_congr_left fun _ => ?_
  split
  · next ds =>
      rw [Option.map_eq_some_iff]
      constructor
      · rintro ⟨k, hk, rfl⟩
        obtain ⟨n, hn, hcast⟩ := Option.bind_eq_some_iff.1 hk
        obtain rfl := Option.some.inj hcast
        exact .minus (digits?_eq_some_iff.1 hn)
      · intro h
        cases h with
        | natural h =>
            cases h with
            | unsigned h => exact absurd h (Decimal.ne_cons (by decide) ds)
        | minus h => exact ⟨_, Option.bind_eq_some_iff.2 ⟨_, digits?_eq_some_iff.2 h, rfl⟩, rfl⟩
  · next ds =>
      simp only [Option.map_eq_some_iff, digits?_eq_some_iff]
      constructor
      · rintro ⟨n, h, rfl⟩
        exact .natural (.plus h)
      · intro h
        cases h with
        | natural h =>
            cases h with
            | unsigned h => exact absurd h (Decimal.ne_cons (by decide) ds)
            | plus h => exact ⟨_, h, rfl⟩
  · next hminus hplus =>
      simp only [Option.map_eq_some_iff, digits?_eq_some_iff]
      constructor
      · rintro ⟨n, h, rfl⟩
        exact .natural (.unsigned h)
      · intro h
        cases h with
        | natural h =>
            cases h with
            | unsigned h => exact ⟨_, h, rfl⟩
            | plus h => exact absurd rfl (hplus _)
        | minus h => exact absurd rfl (hminus _)

end Numeral
end Courier
