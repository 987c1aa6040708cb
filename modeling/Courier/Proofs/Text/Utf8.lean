import Courier.Text.Utf8

/-!
# Written characters are read back

The bytes of a character, one to four of them, start with a byte that owes the
others; each of these is admitted and gives its six bits back.

**Results.**
* `front_utf8EncodeChar`: the character at the front of its bytes.
* `decode?_encodeChars`, `textLossy_encode`: a text in its bytes.
* `encodeChars_ascii`, `mem_decode?_of_ascii`: ASCII bytes are their own characters.
-/

namespace Courier
namespace Utf8

theorem isTail_iff
    (b : UInt8) :
    isTail b = true ↔ 0x80 ≤ b.toNat ∧ b.toNat ≤ 0xBF := by
  simp only [isTail, Bool.and_eq_true, decide_eq_true_eq, UInt8.le_iff_toNat_le]
  rfl

theorem owed_ascii
    {b : UInt8}
    (h : b.toNat < 0x80) :
    owed b = some 0 := by
  have hb : b < 0x80 := UInt8.lt_iff_toNat_lt.2 h
  rw [owed, if_pos hb]

/-- The lead bytes of two, three and four bytes, each with what it owes. -/
theorem owed_lead
    {b : UInt8}
    (n : Nat)
    (h : (n = 1 ∧ 0xC2 ≤ b.toNat ∧ b.toNat ≤ 0xDF) ∨ (n = 2 ∧ 0xE0 ≤ b.toNat ∧ b.toNat ≤ 0xEF) ∨
      (n = 3 ∧ 0xF0 ≤ b.toNat ∧ b.toNat ≤ 0xF4)) :
    owed b = some n := by
  simp only [owed, UInt8.lt_iff_toNat_lt, UInt8.le_iff_toNat_le, Bool.and_eq_true,
    decide_eq_true_eq, UInt8.reduceToNat]
  rcases h with ⟨rfl, h⟩ | ⟨rfl, h⟩ | ⟨rfl, h⟩
  · rw [if_neg (by omega), if_pos h]
  · rw [if_neg (by omega), if_neg (by omega), if_pos h]
  · rw [if_neg (by omega), if_neg (by omega), if_neg (by omega), if_pos h]

/-- The second bytes that are admitted: continuations, without those of overlong
forms, of surrogates and of what is above the last character. -/
theorem admitsSecond_of
    {lead b : UInt8}
    (htail : 0x80 ≤ b.toNat ∧ b.toNat ≤ 0xBF)
    (hE0 : lead.toNat = 0xE0 → 0xA0 ≤ b.toNat)
    (hED : lead.toNat = 0xED → b.toNat ≤ 0x9F)
    (hF0 : lead.toNat = 0xF0 → 0x90 ≤ b.toNat)
    (hF4 : lead.toNat = 0xF4 → b.toNat ≤ 0x8F) :
    admitsSecond lead b = true := by
  simp only [admitsSecond, isTail, UInt8.le_iff_toNat_le, UInt8.reduceToNat, ← UInt8.toNat_inj]
  split
  · next h => simp only [Bool.and_eq_true, decide_eq_true_eq]; omega
  · split
    · next h => simp only [Bool.and_eq_true, decide_eq_true_eq]; omega
    · split
      · next h => simp only [Bool.and_eq_true, decide_eq_true_eq]; omega
      · split
        · next h => simp only [Bool.and_eq_true, decide_eq_true_eq]; omega
        · simp only [Bool.and_eq_true, decide_eq_true_eq]; omega

theorem tails_succ
    {b : UInt8}
    (n acc : Nat)
    (t : Bytes)
    (h : 0x80 ≤ b.toNat ∧ b.toNat ≤ 0xBF) :
    tails (n + 1) acc (b :: t) = tails n (acc * 64 + b.toNat % 64) t := by
  rw [tails, if_pos ((isTail_iff b).2 h)]

theorem front_of_lead
    {lead b : UInt8}
    {n : Nat}
    (t : Bytes)
    (howed : owed lead = some (n + 1))
    (hadmits : admitsSecond lead b = true) :
    front lead (b :: t) = tails n (leadBits lead (n + 1) * 64 + b.toNat % 64) t := by
  simp only [front, howed, hadmits, if_true]

theorem toNat_ofNat_of_lt
    {n : Nat}
    (h : n < 256) :
    (UInt8.ofNat n).toNat = n := by
  simp [Nat.mod_eq_of_lt h]

/-- **A character stands at the front of its bytes.** -/
theorem front_utf8EncodeChar
    (c : Char)
    (t : Bytes) :
    ∃ b u, String.utf8EncodeChar c ++ t = b :: u ∧ front b u = (some c, t) := by
  have hvalid : c.toNat < 0xD800 ∨ (0xDFFF < c.toNat ∧ c.toNat < 0x110000) := c.valid
  have hval : c.val.toNat = c.toNat := rfl
  have hchar : ∀ n, n = c.toNat → (some (Char.ofNat n), t) = (some c, t) := by
    rintro n rfl
    rw [Char.ofNat_toNat]
  unfold String.utf8EncodeChar
  simp only [hval]
  split
  · next h =>
      have hb := toNat_ofNat_of_lt (n := c.toNat) (by omega)
      refine ⟨_, _, rfl, ?_⟩
      rw [front, owed_ascii (by omega), hb]
      exact hchar _ rfl
  · split
    · next h₁ h₂ =>
        have hlead := toNat_ofNat_of_lt (n := c.toNat / 64 % 0x20 + 0xC0) (by omega)
        have hsecond := toNat_ofNat_of_lt (n := c.toNat % 0x40 + 0x80) (by omega)
        refine ⟨_, _, rfl, ?_⟩
        refine (front_of_lead (n := 0) t (owed_lead 1 (by omega)) (admitsSecond_of (by omega)
          (by omega) (by omega) (by omega) (by omega))).trans ?_
        rw [tails, leadBits, hlead, hsecond]
        refine hchar _ ?_
        simp only [Nat.reduceAdd, Nat.reduceSub, Nat.reducePow, Nat.pow_eq]
        omega
    · split
      · next h₁ h₂ h₃ =>
          have hlead := toNat_ofNat_of_lt (n := c.toNat / 4096 % 0x10 + 0xE0) (by omega)
          have hsecond := toNat_ofNat_of_lt (n := c.toNat / 64 % 0x40 + 0x80) (by omega)
          have hthird := toNat_ofNat_of_lt (n := c.toNat % 0x40 + 0x80) (by omega)
          refine ⟨_, _, rfl, ?_⟩
          refine (front_of_lead (n := 1) _ (owed_lead 2 (by omega)) (admitsSecond_of (by omega)
            (by omega) (by omega) (by omega) (by omega))).trans ?_
          refine (tails_succ 0 _ t (by omega)).trans ?_
          rw [tails, leadBits, hlead, hsecond, hthird]
          refine hchar _ ?_
          simp only [Nat.reduceAdd, Nat.reduceSub, Nat.reducePow, Nat.pow_eq]
          omega
      · next h₁ h₂ h₃ =>
          have hlead := toNat_ofNat_of_lt (n := c.toNat / 262144 % 0x08 + 0xF0) (by omega)
          have hsecond := toNat_ofNat_of_lt (n := c.toNat / 4096 % 0x40 + 0x80) (by omega)
          have hthird := toNat_ofNat_of_lt (n := c.toNat / 64 % 0x40 + 0x80) (by omega)
          have hfourth := toNat_ofNat_of_lt (n := c.toNat % 0x40 + 0x80) (by omega)
          refine ⟨_, _, rfl, ?_⟩
          refine (front_of_lead (n := 2) _ (owed_lead 3 (by omega)) (admitsSecond_of (by omega)
            (by omega) (by omega) (by omega) (by omega))).trans ?_
          refine (tails_succ 1 _ _ (by omega)).trans ?_
          refine (tails_succ 0 _ t (by omega)).trans ?_
          rw [tails, leadBits, hlead, hsecond, hthird, hfourth]
          refine hchar _ ?_
          simp only [Nat.reduceAdd, Nat.reduceSub, Nat.reducePow, Nat.pow_eq]
          omega

theorem decode?_encodeChars
    (cs : List Char) :
    decode? (encodeChars cs) = some cs := by
  induction cs with
  | nil => rw [encodeChars_nil, decode?]
  | cons c cs ih =>
      obtain ⟨b, u, hbytes, hfront⟩ := front_utf8EncodeChar c (encodeChars cs)
      rw [encodeChars_cons, hbytes, decode?, hfront]
      simp only [ih, Option.map_some]

/-- The text of a well-formed byte string is its text with nothing replaced. -/
theorem decodeLossy_of_decode?
    {s : Bytes}
    {cs : List Char}
    (h : decode? s = some cs) :
    decodeLossy s = cs := by
  fun_induction decode? s generalizing cs with
  | case1 =>
      obtain rfl := Option.some.inj h
      rw [decodeLossy]
  | case2 b t hfront => exact absurd h (by simp)
  | case3 b t c hfront ih =>
      obtain ⟨ds, hds, rfl⟩ := Option.map_eq_some_iff.1 h
      rw [decodeLossy, hfront, ih hds]
      rfl

theorem textLossy_of_text?
    {s : Bytes}
    {x : String}
    (h : text? s = some x) :
    textLossy s = x := by
  obtain ⟨cs, hcs, rfl⟩ := Option.map_eq_some_iff.1 h
  rw [textLossy, decodeLossy_of_decode? hcs]

theorem textLossy_encode
    (x : String) :
    textLossy (encode x) = x := by
  refine textLossy_of_text? ?_
  rw [text?, encode, decode?_encodeChars, Option.map_some, String.ofList_toList]

theorem encodeChars_ascii
    {cs : List Char}
    (h : ∀ c ∈ cs, c.toNat < 0x80) :
    encodeChars cs = cs.map fun c => UInt8.ofNat c.toNat := by
  induction cs with
  | nil => rfl
  | cons c cs ih =>
      have hc : c.val.toNat ≤ 0x7F := Nat.le_of_lt_succ (h c List.mem_cons_self)
      rw [encodeChars_cons, ih fun d hd => h d (List.mem_cons_of_mem c hd), List.map_cons,
        String.utf8EncodeChar]
      simp only [if_pos hc]
      rfl

/-- The bytes behind the first one of a character are no ASCII. -/
theorem of_tails_some
    {n acc : Nat}
    {t r : Bytes}
    {c : Char}
    (h : tails n acc t = (some c, r)) :
    ∃ p, t = p ++ r ∧ ∀ b ∈ p, 0x80 ≤ b.toNat := by
  induction n generalizing acc t with
  | zero =>
      obtain rfl : t = r := congrArg Prod.snd h
      exact ⟨[], rfl, List.forall_mem_nil _⟩
  | succ n ih =>
      cases t with
      | nil => exact absurd (congrArg Prod.fst h) (by simp [tails])
      | cons b t =>
          rw [tails] at h
          split at h
          · next htail =>
              obtain ⟨p, rfl, hp⟩ := ih h
              exact ⟨b :: p, rfl, List.forall_mem_cons.2 ⟨((isTail_iff b).1 htail).1, hp⟩⟩
          · exact absurd (congrArg Prod.fst h) (by simp)

theorem le_of_admitsSecond
    {lead b : UInt8}
    (h : admitsSecond lead b = true) :
    0x80 ≤ b.toNat := by
  simp only [admitsSecond, isTail, UInt8.le_iff_toNat_le, UInt8.reduceToNat] at h
  split at h
  · simp only [Bool.and_eq_true, decide_eq_true_eq] at h; omega
  · split at h
    · simp only [Bool.and_eq_true, decide_eq_true_eq] at h; omega
    · split at h
      · simp only [Bool.and_eq_true, decide_eq_true_eq] at h; omega
      · split at h
        · simp only [Bool.and_eq_true, decide_eq_true_eq] at h; omega
        · simp only [Bool.and_eq_true, decide_eq_true_eq] at h; omega

/-- The character at the front is the first byte, or has no ASCII byte. -/
theorem of_front_some
    {b : UInt8}
    {t r : Bytes}
    {c : Char}
    (h : front b t = (some c, r)) :
    (c = Char.ofNat b.toNat ∧ r = t) ∨
      (0x80 ≤ b.toNat ∧ ∃ p, t = p ++ r ∧ ∀ x ∈ p, 0x80 ≤ x.toNat) := by
  by_cases hb : b.toNat < 0x80
  · rw [front, owed_ascii hb] at h
    obtain ⟨hc, rfl⟩ := Prod.mk.inj h
    exact Or.inl ⟨(Option.some.inj hc).symm, rfl⟩
  · refine Or.inr ⟨Nat.le_of_not_lt hb, ?_⟩
    unfold front at h
    split at h
    · exact absurd (congrArg Prod.fst h) (by simp)
    · obtain rfl : t = r := congrArg Prod.snd h
      exact ⟨[], rfl, List.forall_mem_nil _⟩
    · split at h
      · exact absurd (congrArg Prod.fst h) (by simp)
      · split at h
        · next hadmits =>
            obtain ⟨p, rfl, hp⟩ := of_tails_some h
            exact ⟨_ :: p, rfl, List.forall_mem_cons.2 ⟨le_of_admitsSecond hadmits, hp⟩⟩
        · exact absurd (congrArg Prod.fst h) (by simp)

/-- **An ASCII byte of a text is a character of it.** -/
theorem mem_decode?_of_ascii
    {s : Bytes}
    {cs : List Char}
    {b : UInt8}
    (h : decode? s = some cs)
    (hmem : b ∈ s)
    (hb : b.toNat < 0x80) :
    Char.ofNat b.toNat ∈ cs := by
  fun_induction decode? s generalizing cs with
  | case1 => exact absurd hmem List.not_mem_nil
  | case2 a t hfront => exact absurd h (by simp)
  | case3 a t c hfront ih =>
      obtain ⟨ds, hds, rfl⟩ := Option.map_eq_some_iff.1 h
      have hsplit : front a t = (some c, (front a t).2) := Prod.ext hfront rfl
      rcases of_front_some hsplit with ⟨hc, hrest⟩ | ⟨ha, p, hp, hlarge⟩
      · rcases List.mem_cons.1 hmem with rfl | hmem
        · exact hc ▸ List.mem_cons_self
        · exact List.mem_cons_of_mem c (ih hds (by rw [hrest]; exact hmem))
      · rcases List.mem_cons.1 hmem with rfl | hmem
        · exact absurd hb (Nat.not_lt.2 ha)
        · rw [hp] at hmem
          rcases List.mem_append.1 hmem with hmem | hmem
          · exact absurd hb (Nat.not_lt.2 (hlarge b hmem))
          · exact List.mem_cons_of_mem c (ih hds hmem)

end Utf8
end Courier
