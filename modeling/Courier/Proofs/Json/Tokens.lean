import Courier.Json.Reader
import Courier.Json.Writer
import Courier.Proofs.Text.Decimal
import Courier.Proofs.Text.Utf8

/-!
# Written tokens are read back

Readers carry the proof that what they leave is shorter.  Here their outcomes are
compared without it, so that a reader in front of a written token is equal to the
token with the text behind it.

**Results.**
* `bare`: an outcome without its proof.
* `front_cons`, `bare_atToken`: in front of a byte that is no white space.
* `bare_stringBody`: a written string behind its opening quote.
* `bare_number_natural`, `bare_number_negative`: written integers.
-/

namespace Courier
namespace Json

section Bare

variable {α β : Type}
variable {p q : Bytes → Prop}

/-- What a reader answers, without the proof that what it leaves is shorter. -/
def bare (x : Except Fault (α × Subtype p)) : Except Fault (α × Bytes) :=
  x.map fun y => (y.1, y.2.val)

@[simp] theorem bare_ok
    (v : α)
    (r : Subtype p) :
    bare (.ok (v, r)) = .ok (v, r.val) := rfl

@[simp] theorem bare_error
    (f : Fault) :
    bare (.error f : Except Fault (α × Subtype p)) = .error f := rfl

theorem bare_map
    {x : Except Fault (α × Subtype p)}
    {g : α × Subtype p → β × Subtype q}
    (f : α → β)
    (hg : ∀ v r, (g (v, r)).1 = f v ∧ (g (v, r)).2.val = r.val) :
    bare (x.map g) = (bare x).map fun y => (f y.1, y.2) := by
  rcases x with e | ⟨v, r⟩
  · rfl
  · simp [bare, Except.map, hg v r]

theorem bare_map_same
    {x : Except Fault (α × Subtype p)}
    {g : α × Subtype p → α × Subtype q}
    (hg : ∀ v r, (g (v, r)).1 = v ∧ (g (v, r)).2.val = r.val) :
    bare (x.map g) = bare x := by
  rw [bare_map id hg]
  rcases x with e | ⟨v, r⟩
  · rfl
  · rfl

theorem bare_eq_ok
    {x : Except Fault (α × Subtype p)}
    {v : α}
    {t : Bytes} :
    bare x = .ok (v, t) ↔ ∃ h, x = .ok (v, ⟨t, h⟩) := by
  rcases x with e | ⟨w, r, hr⟩
  · simp
  · simp only [bare_ok, Except.ok.injEq, Prod.mk.injEq, Subtype.mk.injEq]
    constructor
    · rintro ⟨rfl, rfl⟩
      exact ⟨hr, rfl, rfl⟩
    · rintro ⟨_, hv, ht⟩
      exact ⟨hv, ht⟩

theorem bare_eq_error
    {x : Except Fault (α × Subtype p)}
    {f : Fault} :
    bare x = .error f ↔ x = .error f := by
  rcases x with e | ⟨w, r⟩
  · simp
  · simp

/-- An answer with a shorter rest was one before. -/
theorem of_map_eq_ok
    {x : Except Fault (α × Subtype p)}
    {g : α × Subtype p → β × Subtype q}
    {f : α → β}
    (hg : ∀ v r, (g (v, r)).1 = f v ∧ (g (v, r)).2.val = r.val)
    {w : β}
    {r : Subtype q}
    (h : x.map g = .ok (w, r)) :
    ∃ v t, x = .ok (v, t) ∧ f v = w ∧ t.val = r.val := by
  rcases x with e | ⟨v, t⟩
  · exact absurd h (by simp [Except.map])
  · obtain ⟨hv, ht⟩ := hg v t
    have hout : g (v, t) = (w, r) := Except.ok.inj h
    rw [hout] at hv ht
    exact ⟨v, t, rfl, hv.symm, ht.symm⟩

end Bare

/-- A byte that is no white space is what follows the white space. -/
theorem front_cons
    {b : UInt8}
    (t : Bytes)
    (hb : isBlank b = false) :
    front (b :: t) = .byte b t (Nat.le_refl _) := by
  have hdrop : (b :: t).dropWhile isBlank = b :: t :=
    List.dropWhile_cons_of_neg (by simp [hb])
  unfold front
  split
  · next h =>
      rw [hdrop] at h
      exact absurd h (List.cons_ne_nil _ _)
  · next c u h =>
      rw [hdrop] at h
      injection h with h₁ h₂
      subst h₁ h₂
      rfl

theorem bare_atToken
    {α : Type}
    (read : (b : UInt8) → (t : Bytes) → Except Fault (α × Rest (b :: t)))
    {b : UInt8}
    (t : Bytes)
    (hb : isBlank b = false) :
    bare (atToken read (b :: t)) = bare (read b t) := by
  rw [atToken, front_cons t hb]
  exact bare_map_same fun _ _ => ⟨rfl, rfl⟩

theorem word_append
    (letters : List UInt8)
    (t : Bytes) :
    ∃ h, word letters (letters ++ t) = .ok ⟨t, h⟩ := by
  induction letters with
  | nil => exact ⟨Nat.le_refl _, rfl⟩
  | cons l ls ih =>
      obtain ⟨h, hw⟩ := ih
      refine ⟨Nat.le_succ_of_le h, ?_⟩
      show word (l :: ls) (l :: (ls ++ t)) = _
      rw [word, if_pos rfl, hw]
      rfl

/-- An ASCII byte at the front of a text is its character. -/
theorem eq_of_front_ascii
    {b : UInt8}
    {c : Char}
    {t u : Bytes}
    (h : Utf8.front b u = (some c, t))
    (hb : b.toNat < 0x80) :
    c.toNat = b.toNat := by
  have hvalid : b.toNat.isValidChar := Or.inl (by omega)
  rw [Utf8.front, Utf8.owed_ascii hb] at h
  obtain rfl : Char.ofNat b.toNat = c := by simpa using congrArg Prod.fst h
  rw [Char.ofNat, dif_pos hvalid]
  rfl

theorem hexValue?_hexDigit :
    ∀ n < 16, Bytes.hexValue? (UInt8.ofNat (Bytes.hexDigit n).toNat) = some n := by
  decide

theorem bare_stringBodyFrom_shortEscape
    {e : UInt8}
    {c : Char}
    (acc : List Char)
    (t : Bytes)
    (he : shortEscape? e = some c) :
    bare (stringBodyFrom acc none (0x5C :: e :: t)) = bare (stringBodyFrom (c :: acc) none t) := by
  rw [stringBodyFrom, if_neg (by decide), if_pos rfl]
  simp only [escape, he]
  exact bare_map_same fun _ _ => ⟨rfl, rfl⟩

/-- An escape of four hexadecimal digits, as controls are written. -/
theorem bare_stringBodyFrom_control
    {c : Char}
    (acc : List Char)
    (t : Bytes)
    (hc : c.toNat < 0x20) :
    bare (stringBodyFrom acc none (0x5C :: 0x75 :: 0x30 :: 0x30 ::
      UInt8.ofNat (Bytes.hexDigit (c.toNat / 16)).toNat ::
      UInt8.ofNat (Bytes.hexDigit (c.toNat % 16)).toNat :: t)) =
      bare (stringBodyFrom (c :: acc) none t) := by
  have hzero : Bytes.hexValue? 0x30 = some 0 := by decide
  have hhigh := hexValue?_hexDigit (c.toNat / 16) (by omega)
  have hlow := hexValue?_hexDigit (c.toNat % 16) (by omega)
  have hvalue : ((0 * 16 + 0) * 16 + c.toNat / 16) * 16 + c.toNat % 16 = c.toNat := by omega
  have hshort : shortEscape? 0x75 = none := by decide
  rw [stringBodyFrom, if_neg (by decide), if_pos rfl]
  simp only [escape, hshort, if_true, unicodeEscape, hexUnit, hzero, hhigh, hlow, hvalue, bind,
    Except.bind]
  rw [if_neg (by omega), if_neg (by omega), Char.ofNat_toNat]
  exact bare_map_same fun _ _ => ⟨rfl, rfl⟩

theorem bare_stringBodyFrom_plain
    {c : Char}
    (acc : List Char)
    (t : Bytes)
    (hquote : c.toNat ≠ 0x22)
    (hbackslash : c.toNat ≠ 0x5C)
    (hcontrol : ¬ c.toNat < 0x20) :
    bare (stringBodyFrom acc none (String.utf8EncodeChar c ++ t)) =
      bare (stringBodyFrom (c :: acc) none t) := by
  obtain ⟨b, u, hbytes, hfront⟩ := Utf8.front_utf8EncodeChar c t
  have hascii := fun hb => eq_of_front_ascii hfront hb
  rw [hbytes, stringBodyFrom, if_neg, if_neg, if_neg]
  · dsimp only
    refine (bare_map_same fun _ _ => ⟨rfl, rfl⟩).trans ?_
    rw [hfront]
    rfl
  · intro hb
    have hb : b.toNat < 0x20 := UInt8.lt_iff_toNat_lt.1 hb
    exact hcontrol (by rw [hascii (by omega)]; exact hb)
  · rintro rfl
    exact hbackslash (hascii (by decide))
  · rintro rfl
    exact hquote (hascii (by decide))

/-- A character is written as a short escape, or is neither a quote nor a backslash. -/
theorem writeChar_cases
    (c : Char) :
    (∃ e, shortEscape? e = some c ∧ writeChar c = [0x5C, e]) ∨
      (c ≠ '"' ∧ c ≠ '\\' ∧ writeChar c =
        if c.toNat < 0x20 then
          [0x5C, 0x75, 0x30, 0x30] ++
            [Bytes.hexDigit (c.toNat / 16), Bytes.hexDigit (c.toNat % 16)].map (UInt8.ofNat ·.toNat)
        else String.utf8EncodeChar c) := by
  unfold writeChar
  split
  · exact Or.inl ⟨0x22, rfl, rfl⟩
  · exact Or.inl ⟨0x5C, rfl, rfl⟩
  · exact Or.inl ⟨0x62, rfl, rfl⟩
  · exact Or.inl ⟨0x74, rfl, rfl⟩
  · exact Or.inl ⟨0x6E, rfl, rfl⟩
  · exact Or.inl ⟨0x66, rfl, rfl⟩
  · exact Or.inl ⟨0x72, rfl, rfl⟩
  · next hquote hbackslash _ _ _ _ _ => exact Or.inr ⟨hquote, hbackslash, rfl⟩

/-- Each character is read back from its own bytes. -/
theorem bare_stringBodyFrom_writeChar
    (c : Char)
    (acc : List Char)
    (t : Bytes) :
    bare (stringBodyFrom acc none (writeChar c ++ t)) =
      bare (stringBodyFrom (c :: acc) none t) := by
  rcases writeChar_cases c with ⟨e, he, hwrite⟩ | ⟨hquote, hbackslash, hwrite⟩
  · rw [hwrite]
    exact bare_stringBodyFrom_shortEscape acc t he
  · by_cases hcontrol : c.toNat < 0x20
    · rw [hwrite, if_pos hcontrol]
      exact bare_stringBodyFrom_control acc t hcontrol
    · rw [hwrite, if_neg hcontrol]
      refine bare_stringBodyFrom_plain acc t ?_ ?_ hcontrol
      · exact fun h => hquote (Char.toNat_inj.1 h)
      · exact fun h => hbackslash (Char.toNat_inj.1 h)

theorem bare_stringBodyFrom_flatMap
    (cs acc : List Char)
    (t : Bytes) :
    bare (stringBodyFrom acc none (cs.flatMap writeChar ++ 0x22 :: t)) =
      .ok (String.ofList (acc.reverse ++ cs), t) := by
  induction cs generalizing acc with
  | nil =>
      show bare (stringBodyFrom acc none (0x22 :: t)) = _
      rw [stringBodyFrom, if_pos rfl, List.append_nil]
      rfl
  | cons c cs ih =>
      rw [List.flatMap_cons, List.append_assoc, bare_stringBodyFrom_writeChar, ih,
        List.reverse_cons, List.append_assoc, List.singleton_append]

/-- **A written string is read back** behind its opening quote. -/
theorem bare_stringBody
    (s : String)
    (t : Bytes) :
    bare (stringBody (s.toList.flatMap writeChar ++ 0x22 :: t)) = .ok (s, t) := by
  rw [stringBody, bare_stringBodyFrom_flatMap, List.reverse_nil, List.nil_append,
    String.ofList_toList]

/-- The digits of a number. -/
def digitBytes (n : Nat) : Bytes :=
  (Nat.toDigits 10 n).map fun c => UInt8.ofNat c.toNat

theorem ofAscii_toString_nat
    (n : Nat) :
    Bytes.ofAscii (toString n) = digitBytes n := by
  rw [Bytes.ofAscii, digitBytes, Nat.toString_eq_repr, Nat.toList_repr]

theorem ofAscii_toString_neg
    {n : Nat}
    (hn : 0 < n) :
    Bytes.ofAscii (toString (-(n : Int))) = 0x2D :: digitBytes n := by
  obtain ⟨m, rfl⟩ := Nat.exists_eq_succ_of_ne_zero (Nat.pos_iff_ne_zero.1 hn)
  show Bytes.ofAscii ("-" ++ toString (m + 1)) = _
  rw [← ofAscii_toString_nat, Bytes.ofAscii, Bytes.ofAscii, String.toList_append]
  rfl

/-- What may follow a number: nothing that would belong to it. -/
def Stops (s : Bytes) : Prop :=
  ∀ b ∈ s.head?, Bytes.isDigit b = false ∧ b ≠ 0x2E ∧ isExponentMark b = false

theorem stops_nil : Stops [] := by
  intro b hb
  exact absurd hb (by simp)

theorem stops_cons
    {b : UInt8}
    (t : Bytes)
    (h : Bytes.isDigit b = false ∧ b ≠ 0x2E ∧ isExponentMark b = false) :
    Stops (b :: t) := by
  intro c hc
  obtain rfl : b = c := by simpa using hc
  exact h

theorem toNat_digitByte
    {c : Char}
    (hc : Numeral.isDigit c = true) :
    (UInt8.ofNat c.toNat).toNat = c.toNat := by
  rw [Numeral.isDigit_iff] at hc
  exact Utf8.toNat_ofNat_of_lt (by omega)

theorem isDigit_of_mem_digitBytes
    {n : Nat}
    {b : UInt8}
    (h : b ∈ digitBytes n) :
    Bytes.isDigit b = true := by
  obtain ⟨c, hc, rfl⟩ := List.mem_map.1 h
  have hc := Numeral.isDigit_of_mem_toDigits hc
  have hbyte := toNat_digitByte hc
  rw [Numeral.isDigit_iff] at hc
  simp only [Bytes.isDigit, Bool.and_eq_true, decide_eq_true_eq, UInt8.le_iff_toNat_le, hbyte]
  exact hc

theorem digitBytes_of_pos
    {n : Nat}
    (hn : 0 < n) :
    ∃ b ds, digitBytes n = b :: ds ∧ b ≠ 0x30 := by
  have hhead := Numeral.head_toDigits_ne_zero hn
  cases hd : Nat.toDigits 10 n with
  | nil => exact absurd hd Nat.toDigits_ne_nil
  | cons c cs =>
      have hc : Numeral.isDigit c = true :=
        Numeral.isDigit_of_mem_toDigits (hd ▸ List.mem_cons_self ..)
      refine ⟨UInt8.ofNat c.toNat, cs.map fun c => UInt8.ofNat c.toNat,
        by rw [digitBytes, hd]; rfl, ?_⟩
      intro hzero
      have hnat : c.toNat = 0x30 := by rw [← toNat_digitByte hc, hzero]; rfl
      rw [hd] at hhead
      exact hhead (congrArg some (Char.toNat_inj.1 hnat))

/-- Digits whose value is within the limit all fit. -/
theorem fitDigits_map
    {limit acc : Nat}
    (cs : List Char)
    (hcs : ∀ c ∈ cs, Numeral.isDigit c = true)
    (h : Numeral.valueFrom acc cs ≤ limit) :
    fitDigits limit acc (cs.map fun c => UInt8.ofNat c.toNat) =
      (Numeral.valueFrom acc cs, cs.length, []) := by
  induction cs generalizing acc with
  | nil => rfl
  | cons c cs ih =>
      have hc := toNat_digitByte (hcs c (List.mem_cons_self ..))
      rw [Numeral.valueFrom_cons] at h ⊢
      have hle := Numeral.le_valueFrom (acc * 10 + (c.toNat - 48)) cs
      have hvalue : Bytes.digitValue (UInt8.ofNat c.toNat) = c.toNat - 48 := by
        rw [Bytes.digitValue, hc]
      rw [List.map_cons, fitDigits, hvalue]
      simp only
      rw [if_neg (by omega), ih (fun d hd => hcs d (List.mem_cons_of_mem _ hd)) h]
      rfl

theorem fitDigits_digitBytes
    {limit n : Nat}
    (h : n ≤ limit) :
    fitDigits limit 0 (digitBytes n) = (n, (digitBytes n).length, []) := by
  have hvalue := Numeral.valueFrom_toDigits n
  rw [digitBytes, fitDigits_map _ (fun c => Numeral.isDigit_of_mem_toDigits) (by omega), hvalue,
    List.length_map]

theorem digitRun_append
    {ds rest : Bytes}
    (hds : ∀ b ∈ ds, Bytes.isDigit b = true)
    (hrest : Stops rest) :
    digitRun (ds ++ rest) = ds := by
  rw [digitRun, List.takeWhile_append_of_pos hds]
  cases rest with
  | nil => rw [List.takeWhile_nil, List.append_nil]
  | cons b t =>
      rw [List.takeWhile_cons_of_neg (by simp [(hrest b rfl).1]), List.append_nil]

theorem dropWhile_digits_append
    {ds rest : Bytes}
    (hds : ∀ b ∈ ds, Bytes.isDigit b = true)
    (hrest : Stops rest) :
    (ds ++ rest).dropWhile Bytes.isDigit = rest := by
  rw [List.dropWhile_append_of_pos hds]
  cases rest with
  | nil => rfl
  | cons b t => rw [List.dropWhile_cons_of_neg (by simp [(hrest b rfl).1])]

/-- Without a fraction and an exponent a number is whole. -/
theorem afterWhole_of_stops
    {rest : Bytes}
    (positive : Bool)
    (n : Nat)
    (hrest : Stops rest) :
    afterWhole positive n 0 rest = whole positive n rest := by
  cases rest with
  | nil => rw [afterWhole, if_pos rfl]
  | cons b t =>
      obtain ⟨_, hpoint, hmark⟩ := hrest b rfl
      rw [afterWhole, if_neg hpoint, if_neg (by simp [hmark]), if_pos rfl]

/-- The digits of a number of 64 bits are read up to what follows them. -/
theorem bare_number_digitBytes
    {n : Nat}
    {rest : Bytes}
    (positive : Bool)
    (hn : n ≤ Numeral.maxNat64)
    (hrest : Stops rest) :
    bare (number positive (digitBytes n ++ rest)) = bare (whole positive n rest) := by
  rcases Nat.eq_zero_or_pos n with rfl | hpos
  · have hrun : digitRun ([] ++ rest) = [] := digitRun_append (List.forall_mem_nil _) hrest
    rw [List.nil_append] at hrun
    show bare (number positive (0x30 :: rest)) = _
    rw [number, if_pos rfl, if_pos hrun, afterWhole_of_stops positive 0 hrest]
    exact bare_map_same fun _ _ => ⟨rfl, rfl⟩
  · obtain ⟨b, ds, hbytes, hb⟩ := digitBytes_of_pos hpos
    have hdigits : ∀ d ∈ b :: ds, Bytes.isDigit d = true := fun d hd =>
      isDigit_of_mem_digitBytes (hbytes ▸ hd)
    have hrun : digitRun (b :: (ds ++ rest)) = digitBytes n := by
      rw [hbytes]
      exact digitRun_append hdigits hrest
    have hafter : (afterDigits (ds ++ rest)).val = rest :=
      dropWhile_digits_append (fun d hd => hdigits d (List.mem_cons_of_mem _ hd)) hrest
    rw [hbytes, List.cons_append, number, if_neg hb, if_pos (hdigits b (List.mem_cons_self ..)),
      hrun, fitDigits_digitBytes hn]
    refine (bare_map_same fun _ _ => ⟨rfl, rfl⟩).trans ?_
    rw [hafter]
    exact congrArg bare (afterWhole_of_stops positive n hrest)

/-- **A written integer from zero on is read back.** -/
theorem bare_number_natural
    {n : Nat}
    {rest : Bytes}
    (hrest : Stops rest)
    (least : -0x8000000000000000 ≤ (n : Int))
    (most : (n : Int) < 0x10000000000000000) :
    bare (number true (digitBytes n ++ rest)) = .ok (.integer n least most, rest) := by
  have hn : n ≤ Numeral.maxNat64 := by
    rw [Numeral.maxNat64]
    omega
  rw [bare_number_digitBytes true hn hrest, whole, if_pos rfl, Number.ofInt?, dif_pos ⟨least, most⟩]
  rfl

/-- **A written negative integer is read back** behind its sign. -/
theorem bare_number_negative
    {n : Nat}
    {rest : Bytes}
    (hpos : 0 < n)
    (hrest : Stops rest)
    (least : -0x8000000000000000 ≤ -(n : Int))
    (most : -(n : Int) < 0x10000000000000000) :
    bare (number false (digitBytes n ++ rest)) = .ok (.integer (-n) least most, rest) := by
  have hn : n ≤ Numeral.maxNat64 := by
    rw [Numeral.maxNat64]
    omega
  rw [bare_number_digitBytes false hn hrest, whole, if_neg (by decide), if_neg (by omega),
    Number.ofInt?, dif_pos ⟨least, most⟩]
  rfl

end Json
end Courier
