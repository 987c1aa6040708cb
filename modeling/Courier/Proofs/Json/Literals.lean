import Courier.Proofs.Json.Texts

/-!
# Numbers are read from their digits

The scanner of numbers takes digits while a word of 64 bits holds them and counts the
others.  What it finds is the number that the digits of a literal mean, whatever follows,
and it finds none where they mean none.

**Results.**
* `heldDigits_cons`, `fitDigits_eq`: the digits that are taken.
* `toOption_unsignedExponent`, `toOption_maybeExponent`: an exponent and what it makes of
  the digits in front of it.
* `Literal.toOption_number`, `Literal.bare_number`: the number of a literal.
* `Literal.number?_natural`, `Literal.number?_negative`: the literals of integers.
-/

namespace Courier
namespace Json

section Held

variable {limit n : Nat}

theorem le_appendDigits
    (n : Nat)
    (ds : Bytes) :
    n ≤ appendDigits n ds := by
  induction ds generalizing n with
  | nil => exact Nat.le_refl n
  | cons d ds ih => exact Nat.le_trans (by omega) (ih (n * 10 + Bytes.digitValue d))

theorem appendDigits_map
    (n : Nat)
    {cs : List Char}
    (hcs : ∀ c ∈ cs, Numeral.isDigit c = true) :
    appendDigits n (cs.map fun c => UInt8.ofNat c.toNat) = Numeral.valueFrom n cs := by
  induction cs generalizing n with
  | nil => rfl
  | cons c cs ih =>
      obtain ⟨hc, hcs⟩ := List.forall_mem_cons.1 hcs
      rw [Numeral.valueFrom_cons, ← ih _ hcs, ← toNat_digitByte hc]
      rfl

/-- The digits of a number make that number. -/
theorem appendDigits_digitBytes
    (n : Nat) :
    appendDigits 0 (digitBytes n) = n := by
  rw [digitBytes, appendDigits_map _ fun c => Numeral.isDigit_of_mem_toDigits,
    Numeral.valueFrom_toDigits]

/-- All digits are held if the number that they make is within the limit. -/
theorem heldDigits_of_le
    {ds : Bytes}
    (h : appendDigits n ds ≤ limit) :
    heldDigits limit n ds = ds := by
  rw [heldDigits, Nat.findGreatest_eq (by rw [List.take_length]; exact h), List.take_length]

/-- Otherwise some are not. -/
theorem length_heldDigits_lt
    {ds : Bytes}
    (hn : n ≤ limit)
    (h : limit < appendDigits n ds) :
    (heldDigits limit n ds).length < ds.length := by
  have hheld : appendDigits n (heldDigits limit n ds) ≤ limit :=
    Nat.findGreatest_spec (P := fun k => appendDigits n (ds.take k) ≤ limit) (Nat.zero_le _) hn
  have hsublist : (heldDigits limit n ds).Sublist ds := List.take_sublist _ _
  refine Nat.lt_of_le_of_ne hsublist.length_le fun hlength => ?_
  rw [hsublist.eq_of_length hlength] at hheld
  exact Nat.not_lt.2 hheld h

/-- A digit is held if it can be, and else neither it nor what follows it. -/
theorem heldDigits_cons
    (limit n : Nat)
    (d : UInt8)
    (ds : Bytes) :
    heldDigits limit n (d :: ds) =
      if n * 10 + Bytes.digitValue d ≤ limit then
        d :: heldDigits limit (n * 10 + Bytes.digitValue d) ds
      else [] := by
  let Held (k : Nat) : Prop := appendDigits (n * 10 + Bytes.digitValue d) (ds.take k) ≤ limit
  rw [heldDigits, heldDigits]
  split
  · next hd =>
      -- The digit in front is held, so one more is held than of those behind it.
      have hcount : Nat.findGreatest (fun k => appendDigits n ((d :: ds).take k) ≤ limit)
          (d :: ds).length = Nat.findGreatest Held ds.length + 1 := by
        refine Nat.findGreatest_eq_iff.2 ⟨Nat.succ_le_succ (Nat.findGreatest_le _), fun _ => ?_, ?_⟩
        · exact Nat.findGreatest_spec (P := Held) (Nat.zero_le _) hd
        · intro k hk hle
          obtain ⟨j, rfl⟩ := Nat.exists_eq_succ_of_ne_zero (Nat.ne_of_gt (Nat.zero_lt_of_lt hk))
          exact Nat.findGreatest_is_greatest (P := Held) (Nat.lt_of_succ_lt_succ hk)
            (Nat.le_of_succ_le_succ hle)
      rw [hcount, List.take_succ_cons]
  · next hd =>
      rw [Nat.findGreatest_eq_zero_iff.2, List.take_zero]
      intro k hk _ hheld
      obtain ⟨j, rfl⟩ := Nat.exists_eq_succ_of_ne_zero (Nat.ne_of_gt hk)
      exact hd (Nat.le_trans (le_appendDigits _ (ds.take j)) hheld)

/-- **The digits that are taken** are those that are held. -/
theorem fitDigits_eq
    (limit n : Nat)
    (ds : Bytes) :
    fitDigits limit n ds =
      (appendDigits n (heldDigits limit n ds), (heldDigits limit n ds).length,
        ds.drop (heldDigits limit n ds).length) := by
  induction ds generalizing n with
  | nil => rfl
  | cons d ds ih =>
      rw [fitDigits, heldDigits_cons]
      split
      · next hd =>
          rw [if_neg (Nat.not_le.2 hd)]
          rfl
      · next hd =>
          rw [if_pos (Nat.not_lt.1 hd), ih]
          rfl

end Held

theorem takeWhile_digits
    {rest : Bytes}
    (hrest : ∀ b ∈ rest.head?, Bytes.isDigit b = false) :
    rest.takeWhile Bytes.isDigit = [] ∧ rest.dropWhile Bytes.isDigit = rest := by
  cases rest with
  | nil => exact ⟨rfl, rfl⟩
  | cons b t =>
      have hb := hrest b rfl
      exact ⟨List.takeWhile_cons_of_neg (by simp [hb]), List.dropWhile_cons_of_neg (by simp [hb])⟩

/-- A run of digits ends where no digit follows. -/
theorem digits_all_append
    {ds rest : Bytes}
    (hds : ∀ b ∈ ds, Bytes.isDigit b = true)
    (hrest : ∀ b ∈ rest.head?, Bytes.isDigit b = false) :
    digitRun (ds ++ rest) = ds ∧ (ds ++ rest).dropWhile Bytes.isDigit = rest := by
  obtain ⟨htake, hdrop⟩ := takeWhile_digits hrest
  rw [digitRun, List.takeWhile_append_of_pos hds, htake, List.append_nil,
    List.dropWhile_append_of_pos hds]
  exact ⟨rfl, hdrop⟩

theorem Stops.no_digit
    {rest : Bytes}
    (h : Stops rest) :
    ∀ b ∈ rest.head?, Bytes.isDigit b = false :=
  fun b hb => (h b hb).1

theorem ne_of_isExponentMark
    {b : UInt8}
    (h : isExponentMark b = true) :
    Bytes.isDigit b = false ∧ b ≠ 0x2E := by
  have hcases : b = 0x65 ∨ b = 0x45 := by simpa [isExponentMark] using h
  rcases hcases with rfl | rfl
  · decide
  · decide

/-- Behind the digits of a fraction stands an exponent or what stops the number. -/
theorem exponentText_append_cases
    (l : Literal)
    {rest : Bytes}
    (hrest : Stops rest) :
    ∀ b ∈ (l.exponentText ++ rest).head?, Bytes.isDigit b = false ∧ b ≠ 0x2E := by
  rw [Literal.exponentText]
  cases l.exponent with
  | none => exact fun b hb => ⟨(hrest b hb).1, (hrest b hb).2.1⟩
  | some e =>
      intro b hb
      obtain rfl : e.mark = b := Option.some.inj hb
      exact ne_of_isExponentMark e.isMark

/-- Behind the digits in front of the point stands no other digit. -/
theorem fractionText_append_no_digit
    (l : Literal)
    {rest : Bytes}
    (hrest : Stops rest) :
    ∀ b ∈ (l.fractionText ++ (l.exponentText ++ rest)).head?, Bytes.isDigit b = false := by
  rw [Literal.fractionText]
  cases l.fraction with
  | none => exact fun b hb => (exponentText_append_cases l hrest b hb).1
  | some ds =>
      intro b hb
      obtain rfl : 0x2E = b := Option.some.inj hb
      decide

/-- A floating-point number is found as it is meant, and none where none is meant. -/
theorem toOption_scaled
    (negative : Bool)
    (significand : Nat)
    (e : Int)
    (s : Bytes) :
    (bare (scaled (!negative) significand e s)).toOption =
      (float? negative significand e).map (·, s) := by
  have hsign : ∀ x : Binary64,
      (if (!negative) = true then x else x.neg) = if negative then x.neg else x := by
    cases negative with
    | true => exact fun _ => rfl
    | false => exact fun _ => rfl
  simp only [scaled, hsign]
  split
  · next n hn =>
      have hfloat : float? negative significand e = some n := hn
      rw [hfloat]
      rfl
  · next hnone =>
      have hfloat : float? negative significand e = none := hnone
      rw [hfloat]
      rfl

theorem float?_zero
    (negative : Bool) :
    float? negative 0 0 = some (signedZero (!negative)) := by
  cases negative with
  | true => decide +kernel
  | false => decide +kernel

/-- An exponent behind its sign. -/
def unsignedExponent (positive : Bool) (significand : Nat) (e : Int) (up : Bool) (s : Bytes) :
    Except Fault (Number × Bytes) :=
  match s with
  | [] => .error (.at .eofValue [])
  | b :: u =>
      if Bytes.isDigit b then
        let after := (b :: u).dropWhile Bytes.isDigit
        let fit := fitDigits maxExponent 0 (digitRun (b :: u))
        if fit.2.2 = [] then
          bare (scaled positive significand (e + if up then (fit.1 : Int) else -(fit.1 : Int))
            after)
        else if up ∧ significand ≠ 0 then
          .error ⟨.numberOutOfRange, fit.2.2.length - 1 + after.length⟩
        else .ok (signedZero positive, after)
      else .error (.at .invalidNumber u)

theorem unsignedExponent_digits
    (positive : Bool)
    (significand : Nat)
    (e : Int)
    (up : Bool)
    (ds : Digits)
    {rest : Bytes}
    (hrest : ∀ b ∈ rest.head?, Bytes.isDigit b = false) :
    unsignedExponent positive significand e up (ds.val ++ rest) =
      if appendDigits 0 ds.val ≤ maxExponent then
        bare (scaled positive significand
          (e + if up then (appendDigits 0 ds.val : Int) else -(appendDigits 0 ds.val : Int)) rest)
      else if up ∧ significand ≠ 0 then
        .error ⟨.numberOutOfRange,
          (ds.val.drop (heldDigits maxExponent 0 ds.val).length).length - 1 + rest.length⟩
      else .ok (signedZero positive, rest) := by
  obtain ⟨hnonempty, hdigits⟩ := ds.property
  obtain ⟨hrun, hafter⟩ := digits_all_append hdigits hrest
  obtain ⟨b, u, hds⟩ := List.exists_cons_of_ne_nil hnonempty
  have hb : Bytes.isDigit b = true := hdigits b (hds ▸ List.mem_cons_self)
  rw [hds, List.cons_append] at hrun hafter ⊢
  rw [unsignedExponent, if_pos hb, hrun, hafter, fitDigits_eq]
  by_cases hsize : appendDigits 0 (b :: u) ≤ maxExponent
  · rw [if_pos hsize, heldDigits_of_le hsize]
    exact if_pos (List.drop_length)
  · have hleft := length_heldDigits_lt (Nat.zero_le _) (Nat.not_le.1 hsize)
    rw [if_neg hsize]
    exact if_neg fun hnil => Nat.not_le.2 hleft (List.drop_eq_nil_iff.1 hnil)

/-- An exponent is found at its value as long as that is counted. -/
theorem toOption_unsignedExponent
    (negative : Bool)
    (significand : Nat)
    (e : Int)
    (x : Exponent)
    {rest : Bytes}
    (hrest : ∀ b ∈ rest.head?, Bytes.isDigit b = false) :
    (unsignedExponent (!negative) significand e x.up (x.digits.val ++ rest)).toOption =
      (Exponent.raise? negative significand e (some x)).map (·, rest) := by
  rw [unsignedExponent_digits _ _ _ _ x.digits hrest, Exponent.raise?, Exponent.size]
  split
  · exact toOption_scaled _ _ _ _
  · split
    · rfl
    · rw [float?_zero]
      rfl

theorem bare_exponentPart
    (positive : Bool)
    (significand : Nat)
    (e : Int)
    (b : UInt8)
    (t : Bytes) :
    bare (exponentPart positive significand e (b :: t)) =
      if b = 0x2B then unsignedExponent positive significand e true t
      else if b = 0x2D then unsignedExponent positive significand e false t
      else unsignedExponent positive significand e true (b :: t) := by
  unfold exponentPart
  split
  next up q hsign =>
    trans unsignedExponent positive significand e up q.val
    · rcases q with ⟨_ | ⟨c, u⟩, hq⟩
      · rfl
      · simp only [unsignedExponent]
        split
        · split
          · exact bare_map_same fun _ _ => ⟨rfl, rfl⟩
          · split
            · rfl
            · rfl
        · rfl
    · simp only at hsign
      split at hsign
      · next hplus =>
          obtain ⟨rfl, rfl⟩ := Prod.mk.inj hsign
          rw [if_pos hplus]
          rfl
      · next hplus =>
          rw [if_neg hplus]
          split at hsign
          · next hminus =>
              obtain ⟨rfl, rfl⟩ := Prod.mk.inj hsign
              rw [if_pos hminus]
              rfl
          · next hminus =>
              obtain ⟨rfl, rfl⟩ := Prod.mk.inj hsign
              rw [if_neg hminus]
              rfl

theorem toOption_exponentPart
    (negative : Bool)
    (significand : Nat)
    (e : Int)
    (x : Exponent)
    {rest : Bytes}
    (hrest : ∀ b ∈ rest.head?, Bytes.isDigit b = false) :
    (bare (exponentPart (!negative) significand e
      (x.sign.toList ++ (x.digits.val ++ rest)))).toOption =
      (Exponent.raise? negative significand e (some x)).map (·, rest) := by
  rw [← toOption_unsignedExponent negative significand e x hrest]
  cases hsign : x.sign with
  | none =>
      have hup : x.up = true := by
        rw [Exponent.up, hsign]
        rfl
      obtain ⟨hnonempty, hdigits⟩ := x.digits.property
      obtain ⟨b, u, hds⟩ := List.exists_cons_of_ne_nil hnonempty
      obtain ⟨-, -, -, -, -, hminus⟩ := isDigit_cases (hdigits b (hds ▸ List.mem_cons_self))
      have hplus : b ≠ 0x2B := by
        rintro rfl
        exact absurd (hdigits _ (hds ▸ List.mem_cons_self)) (by decide)
      rw [hup, hds]
      show (bare (exponentPart (!negative) significand e (b :: (u ++ rest)))).toOption = _
      rw [bare_exponentPart, if_neg hplus, if_neg hminus]
      rfl
  | some b =>
      show (bare (exponentPart (!negative) significand e
        (b :: (x.digits.val ++ rest)))).toOption = _
      rw [bare_exponentPart, Exponent.up, hsign]
      rcases x.isSign b hsign with rfl | rfl
      · rfl
      · rfl

theorem bare_maybeExponent
    (positive : Bool)
    (significand : Nat)
    (e : Int)
    (b : UInt8)
    (t : Bytes) :
    bare (maybeExponent positive significand e (b :: t)) =
      if isExponentMark b then bare (exponentPart positive significand e t)
      else bare (scaled positive significand e (b :: t)) := by
  rw [maybeExponent]
  split
  · exact bare_map_same fun _ _ => ⟨rfl, rfl⟩
  · rfl

theorem maybeExponent_of_stops
    {rest : Bytes}
    (positive : Bool)
    (significand : Nat)
    (e : Int)
    (hrest : Stops rest) :
    maybeExponent positive significand e rest = scaled positive significand e rest := by
  cases rest with
  | nil => rfl
  | cons b t => rw [maybeExponent, if_neg (by simp [(hrest b rfl).2.2])]

/-- Behind its digits a floating-point number has an exponent or none. -/
theorem toOption_maybeExponent
    (l : Literal)
    (significand : Nat)
    (e : Int)
    {rest : Bytes}
    (hrest : Stops rest) :
    (bare (maybeExponent (!l.negative) significand e (l.exponentText ++ rest))).toOption =
      (Exponent.raise? l.negative significand e l.exponent).map (·, rest) := by
  rw [Literal.exponentText]
  cases l.exponent with
  | none =>
      show (bare (maybeExponent (!l.negative) significand e rest)).toOption = _
      rw [maybeExponent_of_stops _ _ _ hrest]
      exact toOption_scaled _ _ _ _
  | some x =>
      show (bare (maybeExponent (!l.negative) significand e (x.text ++ rest))).toOption = _
      rw [Exponent.text, List.cons_append, bare_maybeExponent, if_pos x.isMark, List.append_assoc]
      exact toOption_exponentPart _ _ _ x hrest.no_digit

/-- An integer, or one of too many digits. -/
def wholeOrScaled (positive : Bool) (significand extra : Nat) (s : Bytes) :
    Except Fault (Number × Bytes) :=
  if extra = 0 then bare (whole positive significand s)
  else bare (scaled positive significand extra s)

theorem bare_afterWhole
    (positive : Bool)
    (significand extra : Nat)
    (b : UInt8)
    (t : Bytes) :
    bare (afterWhole positive significand extra (b :: t)) =
      if b = 0x2E then bare (fractionPart positive significand extra t)
      else if isExponentMark b then bare (exponentPart positive significand extra t)
      else wholeOrScaled positive significand extra (b :: t) := by
  rw [afterWhole]
  split
  · exact bare_map_same fun _ _ => ⟨rfl, rfl⟩
  · split
    · exact bare_map_same fun _ _ => ⟨rfl, rfl⟩
    · exact apply_ite bare _ _ _

theorem bare_afterWhole_of_stops
    {rest : Bytes}
    (positive : Bool)
    (significand extra : Nat)
    (hrest : Stops rest) :
    bare (afterWhole positive significand extra rest) =
      wholeOrScaled positive significand extra rest := by
  cases rest with
  | nil => exact apply_ite bare _ _ _
  | cons b t =>
      obtain ⟨-, hpoint, hmark⟩ := hrest b rfl
      rw [bare_afterWhole, if_neg hpoint, if_neg (by simp [hmark])]

/-- Behind the point the digits are held that fit behind those in front of it. -/
theorem toOption_fractionPart
    (l : Literal)
    (ds : Digits)
    (significand : Nat)
    (e : Int)
    {rest : Bytes}
    (hrest : Stops rest) :
    (bare (fractionPart (!l.negative) significand e
      (ds.val ++ (l.exponentText ++ rest)))).toOption =
      (Exponent.raise? l.negative
        (appendDigits significand (heldDigits Numeral.maxNat64 significand ds.val))
        (e - (heldDigits Numeral.maxNat64 significand ds.val).length) l.exponent).map
        (·, rest) := by
  obtain ⟨hrun, hafter⟩ := digits_all_append ds.property.2 fun b hb =>
    (exponentText_append_cases l hrest b hb).1
  rw [← toOption_maybeExponent l _ _ hrest]
  simp only [fractionPart, hrun]
  rw [if_neg ds.property.1, bare_map_same fun _ _ => ⟨rfl, rfl⟩, fitDigits_eq]
  show (bare (maybeExponent _ _ _ ((ds.val ++ (l.exponentText ++ rest)).dropWhile
    Bytes.isDigit))).toOption = _
  rw [hafter]

/-- In front of what is no digit, all digits are taken, those that are not held as powers of
ten. -/
theorem bare_number_digits
    (positive : Bool)
    (n : Nat)
    {rest : Bytes}
    (hrest : ∀ b ∈ rest.head?, Bytes.isDigit b = false) :
    bare (number positive (digitBytes n ++ rest)) =
      bare (afterWhole positive (appendDigits 0 (heldDigits Numeral.maxNat64 0 (digitBytes n)))
        ((digitBytes n).length - (heldDigits Numeral.maxNat64 0 (digitBytes n)).length) rest) := by
  rcases Nat.eq_zero_or_pos n with rfl | hpos
  · rw [heldDigits_of_le (by decide)]
    show bare (number positive (0x30 :: rest)) = bare (afterWhole positive 0 0 rest)
    rw [number, if_pos rfl, if_pos (show digitRun rest = [] from (takeWhile_digits hrest).1)]
    exact bare_map_same fun _ _ => ⟨rfl, rfl⟩
  · obtain ⟨b, ds, hbytes, hb⟩ := digitBytes_of_pos hpos
    have hdigits : ∀ d ∈ b :: ds, Bytes.isDigit d = true := fun d hd =>
      isDigit_of_mem_digitBytes (hbytes ▸ hd)
    obtain ⟨hrun, -⟩ := digits_all_append hdigits hrest
    obtain ⟨-, hafter⟩ :=
      digits_all_append (fun d hd => hdigits d (List.mem_cons_of_mem b hd)) hrest
    rw [List.cons_append] at hrun
    rw [hbytes, List.cons_append, number, if_neg hb, if_pos (hdigits b List.mem_cons_self), hrun,
      fitDigits_eq]
    refine (bare_map_same fun _ _ => ⟨rfl, rfl⟩).trans ?_
    show bare (afterWhole _ _ _ ((ds ++ rest).dropWhile Bytes.isDigit)) = _
    rw [hafter, List.length_drop]

namespace Literal

variable {l : Literal} {rest : Bytes}

theorem number?_of_float
    (h : l.integer? = none) :
    l.number? = Exponent.raise? l.negative l.significand l.scale l.exponent := by
  rw [number?, h]
  rfl

theorem significand_of_no_fraction
    (h : l.fraction = none) :
    l.significand = appendDigits 0 l.wholeHeld := by
  rw [significand, fractionHeld, fractionDigits, h]
  rfl

theorem scale_of_no_fraction
    (h : l.fraction = none) :
    l.scale = ((digitBytes l.whole).length - l.wholeHeld.length : Nat) := by
  rw [scale, fractionHeld, fractionDigits, h]
  exact Int.sub_zero _

theorem integer?_whole
    (hfraction : l.fraction = none)
    (hexponent : l.exponent = none) :
    l.integer? =
      if l.negative ∧ l.whole = 0 then none
      else Number.ofInt? (if l.negative then -(l.whole : Int) else l.whole) := by
  rw [integer?, hfraction, hexponent]
  simp only [Option.isSome_none, Bool.false_eq_true, false_or]

/-- A whole number of 64 bits is an integer if its sign lets it be one. -/
theorem toOption_whole
    (hfraction : l.fraction = none)
    (hexponent : l.exponent = none)
    (hwhole : l.whole ≤ Numeral.maxNat64) :
    (bare (Json.whole (!l.negative) l.whole rest)).toOption =
      (l.integer?.or (float? l.negative l.whole 0)).map (·, rest) := by
  rw [Numeral.maxNat64] at hwhole
  rw [integer?_whole hfraction hexponent, Json.whole, Number.ofInt?, Number.ofInt?, Number.ofInt?]
  cases l.negative with
  | false =>
      have hfits : -0x8000000000000000 ≤ (l.whole : Int) ∧
          (l.whole : Int) < 0x10000000000000000 := by
        omega
      simp only [Bool.not_false, if_true, Bool.false_eq_true, false_and, if_false, dif_pos hfits]
      rfl
  | true =>
      have hscaled := toOption_scaled true l.whole 0 rest
      simp only [Bool.not_true, Bool.false_eq_true, if_false, if_true, true_and] at hscaled ⊢
      by_cases hzero : l.whole = 0
      · rw [if_pos (Or.inl hzero), if_pos hzero, Option.none_or]
        exact hscaled
      · by_cases hsmall : l.whole ≤ 0x8000000000000000
        · have hfits : -0x8000000000000000 ≤ -(l.whole : Int) ∧
              -(l.whole : Int) < 0x10000000000000000 := by omega
          rw [if_neg (by omega), if_neg hzero, dif_pos hfits]
          rfl
        · rw [if_pos (by omega), if_neg hzero, dif_neg (by omega), Option.none_or]
          exact hscaled

theorem integer?_eq_none_of_lt
    (h : Numeral.maxNat64 < l.whole) :
    l.integer? = none := by
  rw [Numeral.maxNat64] at h
  rw [integer?]
  split
  · rfl
  · rw [Number.ofInt?, dif_neg]
    split
    · omega
    · omega

theorem toOption_wholeOrScaled
    (hfraction : l.fraction = none)
    (hexponent : l.exponent = none)
    (rest : Bytes) :
    (wholeOrScaled (!l.negative) (appendDigits 0 l.wholeHeld)
      ((digitBytes l.whole).length - l.wholeHeld.length) rest).toOption =
      l.number?.map (·, rest) := by
  rw [number?, significand_of_no_fraction hfraction, scale_of_no_fraction hfraction, hexponent,
    wholeOrScaled]
  by_cases hwhole : l.whole ≤ Numeral.maxNat64
  · have hheld : l.wholeHeld = digitBytes l.whole :=
      heldDigits_of_le (by rw [appendDigits_digitBytes]; exact hwhole)
    rw [hheld, Nat.sub_self, if_pos rfl, appendDigits_digitBytes]
    exact toOption_whole hfraction hexponent hwhole
  · have hlarge := Nat.not_le.1 hwhole
    have hheld : l.wholeHeld.length < (digitBytes l.whole).length :=
      length_heldDigits_lt (Nat.zero_le _) (by rw [appendDigits_digitBytes]; exact hlarge)
    rw [if_neg (by omega), integer?_eq_none_of_lt hlarge]
    exact toOption_scaled _ _ _ _

/-- **The number that its digits mean is found, whatever follows a literal,** and none is
found where they mean none. -/
theorem toOption_number
    (l : Literal)
    (hrest : Stops rest) :
    (bare (number (!l.negative) (l.body ++ rest))).toOption = l.number?.map (·, rest) := by
  rw [body, List.append_assoc, List.append_assoc,
    bare_number_digits _ _ (fractionText_append_no_digit l hrest)]
  show (bare (afterWhole _ (appendDigits 0 l.wholeHeld)
    ((digitBytes l.whole).length - l.wholeHeld.length) _)).toOption = _
  rw [fractionText]
  cases hfraction : l.fraction with
  | some ds =>
      have hfloat : l.integer? = none := by
        rw [integer?, hfraction]
        exact if_pos (Or.inl rfl)
      have hread := toOption_fractionPart l ds (appendDigits 0 l.wholeHeld)
        ((digitBytes l.whole).length - l.wholeHeld.length : Nat) hrest
      rw [number?_of_float hfloat, significand, scale, fractionHeld, fractionDigits, hfraction]
      show (bare (afterWhole _ _ _ (0x2E :: (ds.val ++ (l.exponentText ++ rest))))).toOption = _
      rw [bare_afterWhole, if_pos rfl]
      exact hread
  | none =>
      show (bare (afterWhole _ _ _ (l.exponentText ++ rest))).toOption = _
      rw [exponentText]
      cases hexponent : l.exponent with
      | some x =>
          have hfloat : l.integer? = none := by
            rw [integer?, hexponent]
            exact if_pos (Or.inr (Or.inl rfl))
          rw [number?_of_float hfloat, significand_of_no_fraction hfraction,
            scale_of_no_fraction hfraction, hexponent]
          show (bare (afterWhole _ _ _ (x.text ++ rest))).toOption = _
          rw [Exponent.text, List.cons_append, bare_afterWhole,
            if_neg (ne_of_isExponentMark x.isMark).2, if_pos x.isMark, List.append_assoc]
          exact toOption_exponentPart _ _ _ x hrest.no_digit
      | none =>
          show (bare (afterWhole _ _ _ rest)).toOption = _
          rw [bare_afterWhole_of_stops _ _ _ hrest]
          exact toOption_wholeOrScaled hfraction hexponent rest

theorem bare_number
    {n : Number}
    (h : l.number? = some n)
    (hrest : Stops rest) :
    bare (number (!l.negative) (l.body ++ rest)) = .ok (n, rest) := by
  have hread := l.toOption_number hrest
  rw [h] at hread
  cases hfound : bare (number (!l.negative) (l.body ++ rest)) with
  | error f =>
      rw [hfound] at hread
      exact absurd hread (by simp [Except.toOption])
  | ok found =>
      rw [hfound] at hread
      exact congrArg Except.ok (Option.some.inj hread)

theorem body_whole
    (negative : Bool)
    (n : Nat) :
    (⟨negative, n, none, none⟩ : Literal).body = digitBytes n ++ [] := rfl

/-- The digits of a natural number of 64 bits are that number. -/
theorem number?_natural
    (n : Nat)
    (least : -0x8000000000000000 ≤ (n : Int))
    (most : (n : Int) < 0x10000000000000000) :
    (⟨false, n, none, none⟩ : Literal).number? = some (.integer n least most) := by
  rw [number?, integer?, if_neg (by simp), if_neg Bool.false_ne_true, Number.ofInt?,
    dif_pos ⟨least, most⟩]
  rfl

/-- The digits of a positive number behind a minus sign are its negative, if that has 64
bits. -/
theorem number?_negative
    {n : Nat}
    (hpos : 0 < n)
    (least : -0x8000000000000000 ≤ -(n : Int))
    (most : -(n : Int) < 0x10000000000000000) :
    (⟨true, n, none, none⟩ : Literal).number? = some (.integer (-n) least most) := by
  rw [number?, integer?, if_neg (by simp [Nat.ne_of_gt hpos]), if_pos rfl, Number.ofInt?,
    dif_pos ⟨least, most⟩]
  rfl

end Literal

end Json
end Courier
