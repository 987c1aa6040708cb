import Courier.Proofs.Text.Utf8

/-!
# Damaged text

A byte string that is no text is mended: its characters are kept, and each ill-formed part
between them gives way to one U+FFFD.  Where no character starts, the ill-formed part is the
longest one at that place that some character begins with; a byte that no character begins
with is a part of its own.  Reading goes on behind the part, so that a character right behind
a damaged one is not lost.

**Results.**
* `IllFormedPart`, `Mended`: how a byte string is mended, said by the bytes of characters.
* `of_front_char`, `illFormedPart_of_front`: what the reader finds at the front.
* `mended_iff`: the reader mends every byte string, and there is no other way to do so.
-/

namespace Courier
namespace Utf8

/-- The ill-formed part at the front of a byte string. -/
structure IllFormedPart (p s : Bytes) : Prop where
  atFront : p <+: s
  ne_nil : p ≠ []
  /-- No character stands at the front. -/
  no_char : ∀ c : Char, ¬ String.utf8EncodeChar c <+: s
  /-- What is longer than a byte is the beginning of a character. -/
  begins : p.length = 1 ∨ ∃ c : Char, p <+: String.utf8EncodeChar c
  /-- Nothing longer at the front is the beginning of a character. -/
  longest : ∀ (q : Bytes) (c : Char), q <+: s → q <+: String.utf8EncodeChar c → q.length ≤ p.length

/-- A byte string with the characters that it is mended to. -/
inductive Mended : Bytes → List Char → Prop
  | nil : Mended [] []
  | char (c : Char) {s : Bytes} {cs : List Char} (behind : Mended s cs) :
      Mended (String.utf8EncodeChar c ++ s) (c :: cs)
  | illFormed {p s : Bytes} {cs : List Char} (part : IllFormedPart p (p ++ s))
      (behind : Mended s cs) : Mended (p ++ s) ('\uFFFD' :: cs)

/-- The lead bytes by what they owe. -/
theorem of_owed
    {b : UInt8}
    {n : Nat}
    (h : owed b = some n) :
    (n = 0 ∧ b.toNat < 0x80) ∨ (n = 1 ∧ 0xC2 ≤ b.toNat ∧ b.toNat ≤ 0xDF) ∨
      (n = 2 ∧ 0xE0 ≤ b.toNat ∧ b.toNat ≤ 0xEF) ∨ (n = 3 ∧ 0xF0 ≤ b.toNat ∧ b.toNat ≤ 0xF4) := by
  simp only [owed, UInt8.lt_iff_toNat_lt, UInt8.le_iff_toNat_le, Bool.and_eq_true,
    decide_eq_true_eq, UInt8.reduceToNat] at h
  split at h
  · exact Or.inl ⟨(Option.some.inj h).symm, ‹_›⟩
  · split at h
    · exact Or.inr (Or.inl ⟨(Option.some.inj h).symm, ‹_›⟩)
    · split at h
      · exact Or.inr (Or.inr (Or.inl ⟨(Option.some.inj h).symm, ‹_›⟩))
      · split at h
        · exact Or.inr (Or.inr (Or.inr ⟨(Option.some.inj h).symm, ‹_›⟩))
        · exact absurd h (by simp)

/-- The second bytes by their lead byte. -/
theorem of_admitsSecond
    {lead b : UInt8}
    (h : admitsSecond lead b = true) :
    (0x80 ≤ b.toNat ∧ b.toNat ≤ 0xBF) ∧ (lead.toNat = 0xE0 → 0xA0 ≤ b.toNat) ∧
      (lead.toNat = 0xED → b.toNat ≤ 0x9F) ∧ (lead.toNat = 0xF0 → 0x90 ≤ b.toNat) ∧
      (lead.toNat = 0xF4 → b.toNat ≤ 0x8F) := by
  simp only [admitsSecond, isTail, UInt8.le_iff_toNat_le, UInt8.reduceToNat,
    ← UInt8.toNat_inj] at h
  split at h
  · simp only [Bool.and_eq_true, decide_eq_true_eq] at h; omega
  · split at h
    · simp only [Bool.and_eq_true, decide_eq_true_eq] at h; omega
    · split at h
      · simp only [Bool.and_eq_true, decide_eq_true_eq] at h; omega
      · split at h
        · simp only [Bool.and_eq_true, decide_eq_true_eq] at h; omega
        · simp only [Bool.and_eq_true, decide_eq_true_eq] at h; omega

theorem toNat_ofNat_of_valid
    {n : Nat}
    (h : n.isValidChar) :
    (Char.ofNat n).val.toNat = n := by
  rw [Char.ofNat, dif_pos h]
  rfl

theorem utf8EncodeChar_one
    {b : UInt8}
    (hb : b.toNat < 0x80) :
    String.utf8EncodeChar (Char.ofNat b.toNat) = [b] := by
  have hval := toNat_ofNat_of_valid (n := b.toNat) (Or.inl (by omega))
  rw [String.utf8EncodeChar]
  simp only [hval]
  rw [if_pos (by omega)]
  simp

theorem utf8EncodeChar_two
    {b x : UInt8}
    (hb : 0xC2 ≤ b.toNat ∧ b.toNat ≤ 0xDF)
    (hx : 0x80 ≤ x.toNat ∧ x.toNat ≤ 0xBF) :
    String.utf8EncodeChar (Char.ofNat (b.toNat % 32 * 64 + x.toNat % 64)) = [b, x] := by
  have hval := toNat_ofNat_of_valid (n := b.toNat % 32 * 64 + x.toNat % 64) (Or.inl (by omega))
  rw [String.utf8EncodeChar]
  simp only [hval]
  rw [if_neg (by omega), if_pos (by omega)]
  refine List.cons_eq_cons.2 ⟨UInt8.toNat_inj.1 ?_, List.cons_eq_cons.2 ⟨UInt8.toNat_inj.1 ?_, rfl⟩⟩
  · rw [toNat_ofNat_of_lt (by omega)]
    omega
  · rw [toNat_ofNat_of_lt (by omega)]
    omega

theorem utf8EncodeChar_three
    {b x y : UInt8}
    (hb : 0xE0 ≤ b.toNat ∧ b.toNat ≤ 0xEF)
    (hx : admitsSecond b x = true)
    (hy : 0x80 ≤ y.toNat ∧ y.toNat ≤ 0xBF) :
    String.utf8EncodeChar
      (Char.ofNat ((b.toNat % 16 * 64 + x.toNat % 64) * 64 + y.toNat % 64)) = [b, x, y] := by
  obtain ⟨hx, hE0, hED, -, -⟩ := of_admitsSecond hx
  have hval := toNat_ofNat_of_valid
    (n := (b.toNat % 16 * 64 + x.toNat % 64) * 64 + y.toNat % 64) (by
      rw [Nat.isValidChar]
      omega)
  rw [String.utf8EncodeChar]
  simp only [hval]
  rw [if_neg (by omega), if_neg (by omega), if_pos (by omega)]
  refine List.cons_eq_cons.2 ⟨UInt8.toNat_inj.1 ?_, List.cons_eq_cons.2 ⟨UInt8.toNat_inj.1 ?_,
    List.cons_eq_cons.2 ⟨UInt8.toNat_inj.1 ?_, rfl⟩⟩⟩
  · rw [toNat_ofNat_of_lt (by omega)]
    omega
  · rw [toNat_ofNat_of_lt (by omega)]
    omega
  · rw [toNat_ofNat_of_lt (by omega)]
    omega

theorem utf8EncodeChar_four
    {b x y z : UInt8}
    (hb : 0xF0 ≤ b.toNat ∧ b.toNat ≤ 0xF4)
    (hx : admitsSecond b x = true)
    (hy : 0x80 ≤ y.toNat ∧ y.toNat ≤ 0xBF)
    (hz : 0x80 ≤ z.toNat ∧ z.toNat ≤ 0xBF) :
    String.utf8EncodeChar
      (Char.ofNat (((b.toNat % 8 * 64 + x.toNat % 64) * 64 + y.toNat % 64) * 64 + z.toNat % 64)) =
      [b, x, y, z] := by
  obtain ⟨hx, -, -, hF0, hF4⟩ := of_admitsSecond hx
  have hval := toNat_ofNat_of_valid
    (n := ((b.toNat % 8 * 64 + x.toNat % 64) * 64 + y.toNat % 64) * 64 + z.toNat % 64) (by
      rw [Nat.isValidChar]
      omega)
  rw [String.utf8EncodeChar]
  simp only [hval]
  rw [if_neg (by omega), if_neg (by omega), if_neg (by omega)]
  refine List.cons_eq_cons.2 ⟨UInt8.toNat_inj.1 ?_, List.cons_eq_cons.2 ⟨UInt8.toNat_inj.1 ?_,
    List.cons_eq_cons.2 ⟨UInt8.toNat_inj.1 ?_, List.cons_eq_cons.2 ⟨UInt8.toNat_inj.1 ?_, rfl⟩⟩⟩⟩
  · rw [toNat_ofNat_of_lt (by omega)]
    omega
  · rw [toNat_ofNat_of_lt (by omega)]
    omega
  · rw [toNat_ofNat_of_lt (by omega)]
    omega
  · rw [toNat_ofNat_of_lt (by omega)]
    omega

/-- Continuation bytes are taken as long as bytes are owed. -/
theorem tails_append
    {n : Nat}
    (acc : Nat)
    {p : Bytes}
    (hp : ∀ b ∈ p, isTail b = true)
    (hlength : p.length ≤ n)
    (t : Bytes) :
    tails n acc (p ++ t) =
      tails (n - p.length) (p.foldl (fun a b => a * 64 + b.toNat % 64) acc) t := by
  induction p generalizing n acc with
  | nil => rfl
  | cons b p ih =>
      obtain ⟨hb, hp⟩ := List.forall_mem_cons.1 hp
      obtain ⟨m, rfl⟩ : ∃ m, n = m + 1 := ⟨n - 1, by simp at hlength; omega⟩
      rw [List.cons_append, tails, if_pos hb, ih _ hp (by simpa using hlength)]
      simp

/-- The continuation bytes of a character. -/
theorem of_tails_char
    {n acc : Nat}
    {t r : Bytes}
    {c : Char}
    (h : tails n acc t = (some c, r)) :
    ∃ p, t = p ++ r ∧ p.length = n ∧ (∀ b ∈ p, isTail b = true) ∧
      c = Char.ofNat (p.foldl (fun a b => a * 64 + b.toNat % 64) acc) := by
  induction n generalizing acc t with
  | zero =>
      obtain ⟨hc, hr⟩ := Prod.mk.inj h
      exact ⟨[], hr, rfl, List.forall_mem_nil _, (Option.some.inj hc).symm⟩
  | succ n ih =>
      cases t with
      | nil => exact absurd (congrArg Prod.fst h) (by simp [tails])
      | cons b t =>
          rw [tails] at h
          split at h
          · next hb =>
              obtain ⟨p, rfl, hlength, hp, hc⟩ := ih h
              exact ⟨b :: p, rfl, congrArg (· + 1) hlength, List.forall_mem_cons.2 ⟨hb, hp⟩, hc⟩
          · exact absurd (congrArg Prod.fst h) (by simp)

/-- Where bytes are still owed, the text ends or goes on with a byte of another kind. -/
theorem of_tails_none
    {n acc : Nat}
    {t r : Bytes}
    (h : tails n acc t = (none, r)) :
    ∃ p, t = p ++ r ∧ p.length < n ∧ (∀ b ∈ p, isTail b = true) ∧
      ∀ y ∈ r.head?, isTail y = false := by
  induction n generalizing acc t with
  | zero => exact absurd (congrArg Prod.fst h) (by simp [tails])
  | succ n ih =>
      cases t with
      | nil =>
          obtain rfl : [] = r := congrArg Prod.snd h
          exact ⟨[], rfl, Nat.succ_pos n, List.forall_mem_nil _, by simp⟩
      | cons b t =>
          rw [tails] at h
          split at h
          · next hb =>
              obtain ⟨p, rfl, hlength, hp, hr⟩ := ih h
              exact ⟨b :: p, rfl, Nat.succ_lt_succ hlength, List.forall_mem_cons.2 ⟨hb, hp⟩, hr⟩
          · next hb =>
              obtain rfl : b :: t = r := congrArg Prod.snd h
              refine ⟨[], rfl, Nat.succ_pos n, List.forall_mem_nil _, fun y hy => ?_⟩
              obtain rfl : b = y := by simpa using hy
              simpa using hb

/-- **What is read as a character is the bytes of that character.** -/
theorem of_front_char
    {b : UInt8}
    {t r : Bytes}
    {c : Char}
    (h : front b t = (some c, r)) :
    b :: t = String.utf8EncodeChar c ++ r := by
  unfold front at h
  split at h
  · exact absurd (congrArg Prod.fst h) (by simp)
  · next howed =>
      obtain ⟨hc, rfl⟩ := Prod.mk.inj h
      have hb : b.toNat < 0x80 := by
        have := of_owed howed
        omega
      rw [← Option.some.inj hc, utf8EncodeChar_one hb]
      rfl
  · next n howed =>
      split at h
      · exact absurd (congrArg Prod.fst h) (by simp)
      · next x t =>
          split at h
          · next hx =>
              obtain ⟨p, rfl, hlength, hp, rfl⟩ := of_tails_char h
              have htail := fun y hy => (isTail_iff y).1 (hp y hy)
              have hn := of_owed howed
              rcases p with _ | ⟨y, _ | ⟨z, _ | ⟨_, _⟩⟩⟩
              · obtain rfl : 0 = n := hlength
                exact (congrArg (· ++ r)
                  (utf8EncodeChar_two (by omega) (of_admitsSecond hx).1)).symm
              · obtain rfl : 1 = n := hlength
                exact (congrArg (· ++ r) (utf8EncodeChar_three (by omega) hx
                  (htail y (by simp)))).symm
              · obtain rfl : 2 = n := hlength
                exact (congrArg (· ++ r) (utf8EncodeChar_four (by omega) hx
                  (htail y (by simp)) (htail z (by simp)))).symm
              · simp only [List.length_cons] at hlength
                omega
          · exact absurd (congrArg Prod.fst h) (by simp)

/-- What begins a character with a given first byte is read to its end. -/
theorem front_of_begins
    {b : UInt8}
    {q : Bytes}
    {c : Char}
    (h : b :: q <+: String.utf8EncodeChar c) :
    ∃ u, front b (q ++ u) = (some c, []) := by
  obtain ⟨u, hu⟩ := h
  obtain ⟨b', u', hbytes, hfront⟩ := front_utf8EncodeChar c []
  rw [List.append_nil, ← hu, List.cons_append] at hbytes
  obtain ⟨rfl, rfl⟩ := List.cons.inj hbytes
  exact ⟨u, hfront⟩

/-- **Where no character is read, the part that is passed over is ill-formed.** -/
theorem illFormedPart_of_front
    {b : UInt8}
    {t r : Bytes}
    (h : front b t = (none, r)) :
    ∃ p, b :: t = p ++ r ∧ IllFormedPart p (p ++ r) := by
  have hno : ∀ c : Char, ¬ String.utf8EncodeChar c <+: b :: t := by
    rintro c ⟨u, hu⟩
    obtain ⟨b', u', hbytes, hfront⟩ := front_utf8EncodeChar c u
    rw [hu] at hbytes
    obtain ⟨rfl, rfl⟩ := List.cons.inj hbytes
    rw [h] at hfront
    exact absurd (congrArg Prod.fst hfront) (by simp)
  -- It is enough to find the part, and that reading the byte behind it cannot go on.
  have hpart : ∀ p, t = p ++ r → (p = [] ∨ ∃ c : Char, b :: p <+: String.utf8EncodeChar c) →
      (∀ y ∈ r.head?, ∀ u, (front b (p ++ y :: u)).1 = none) →
      ∃ p, b :: t = p ++ r ∧ IllFormedPart p (p ++ r) := by
    intro p hp hbegins hstuck
    have hsplit : b :: t = (b :: p) ++ r := by rw [hp, List.cons_append]
    refine ⟨b :: p, hsplit, List.prefix_append _ _, List.cons_ne_nil _ _, hsplit ▸ hno,
      hbegins.imp (fun hnil => by rw [hnil]; rfl) id,
      fun q c hq hc => Nat.le_of_not_lt fun hlt => ?_⟩
    -- A longer part goes on with the byte behind it.
    obtain ⟨q', rfl⟩ : b :: p <+: q :=
      List.prefix_of_prefix_length_le (List.prefix_append _ _) hq (Nat.le_of_lt hlt)
    have hq' : q' <+: r := (List.prefix_append_right_inj _).1 hq
    cases q' with
    | nil => exact absurd hlt (by simp)
    | cons y q' =>
        obtain ⟨u, hu⟩ := front_of_begins hc
        obtain ⟨v, rfl⟩ := hq'
        have hnone := hstuck y (by simp) (q' ++ u)
        have hu : front b (p ++ (y :: q') ++ u) = (some c, []) := hu
        rw [List.append_assoc, List.cons_append] at hu
        rw [hu] at hnone
        exact absurd hnone (by simp)
  unfold front at h
  split at h
  · next howed =>
      obtain rfl : t = r := congrArg Prod.snd h
      refine hpart [] rfl (Or.inl rfl) fun y _ u => ?_
      rw [front, howed]
  · exact absurd (congrArg Prod.fst h) (by simp)
  · next n howed =>
      split at h
      · obtain rfl : [] = r := congrArg Prod.snd h
        exact hpart [] rfl (Or.inl rfl) (by simp)
      · next x t =>
          split at h
          · next hx =>
              obtain ⟨p, rfl, hlength, hp, hr⟩ := of_tails_none h
              refine hpart (x :: p) rfl (Or.inr ?_) fun y hy u => ?_
              · -- The bytes that are owed may all be the least continuation byte.
                let filled := p ++ List.replicate (n - p.length) 0x80
                have hfilled : ∀ y ∈ filled, isTail y = true := by
                  intro y hy
                  rcases List.mem_append.1 hy with hy | hy
                  · exact hp y hy
                  · rw [(List.mem_replicate.1 hy).2]
                    decide
                have hlengthFilled : filled.length = n := by
                  simp only [filled, List.length_append, List.length_replicate]
                  omega
                have hread := tails_append (leadBits b (n + 1) * 64 + x.toNat % 64) hfilled
                  (Nat.le_of_eq hlengthFilled) []
                rw [hlengthFilled, Nat.sub_self, List.append_nil, tails] at hread
                have hchar := of_front_char ((front_of_lead filled howed hx).trans hread)
                rw [List.append_nil] at hchar
                exact ⟨_, List.replicate (n - p.length) 0x80, hchar⟩
              · obtain ⟨m, hm⟩ : ∃ m, n - p.length = m + 1 := ⟨n - p.length - 1, by omega⟩
                rw [List.cons_append, front_of_lead _ howed hx,
                  tails_append _ hp (Nat.le_of_lt hlength), hm, tails, if_neg (by simp [hr y hy])]
          · next hx =>
              obtain rfl : x :: t = r := congrArg Prod.snd h
              refine hpart [] rfl (Or.inl rfl) fun y hy u => ?_
              obtain rfl : x = y := by simpa using hy
              simp only [List.nil_append, front, howed, if_neg hx]

theorem IllFormedPart.length_le
    {p q s : Bytes}
    (hp : IllFormedPart p s)
    (hq : IllFormedPart q s) :
    p.length ≤ q.length := by
  rcases hp.begins with hone | ⟨c, hc⟩
  · rw [hone]
    exact List.length_pos_iff.2 hq.ne_nil
  · exact hq.longest p c hp.atFront hc

theorem IllFormedPart.unique
    {p q s : Bytes}
    (hp : IllFormedPart p s)
    (hq : IllFormedPart q s) :
    p = q :=
  (List.prefix_of_prefix_length_le hp.atFront hq.atFront (hp.length_le hq)).eq_of_length_le
    (hq.length_le hp)

theorem mended_decodeLossy
    (s : Bytes) :
    Mended s (decodeLossy s) := by
  fun_induction decodeLossy s with
  | case1 => exact .nil
  | case2 b t ih =>
      rcases hfront : front b t with ⟨_ | c, r⟩
      · rw [hfront] at ih
        obtain ⟨p, hp, hpart⟩ := illFormedPart_of_front hfront
        rw [hp]
        exact .illFormed hpart ih
      · rw [hfront] at ih
        rw [of_front_char hfront]
        exact .char c ih

/-- **The reader mends every byte string, and there is no other way to do so.** -/
theorem mended_iff
    {s : Bytes}
    {cs : List Char} :
    Mended s cs ↔ cs = decodeLossy s := by
  constructor
  · intro h
    induction h with
    | nil => rw [decodeLossy]
    | char c behind ih =>
        obtain ⟨b, u, hbytes, hfront⟩ := front_utf8EncodeChar c _
        rw [hbytes, decodeLossy, hfront, ih]
        rfl
    | @illFormed p s cs part behind ih =>
        cases hs : p ++ s with
        | nil => exact absurd (List.append_eq_nil_iff.1 hs).1 part.ne_nil
        | cons b t =>
            rw [hs] at part
            rcases hfront : front b t with ⟨_ | c, r⟩
            · obtain ⟨q, hq, hpart⟩ := illFormedPart_of_front hfront
              rw [← hq] at hpart
              obtain rfl : p = q := part.unique hpart
              obtain rfl : s = r := List.append_cancel_left (hs.trans hq)
              rw [decodeLossy, hfront, ih]
              rfl
            · exact absurd ⟨r, (of_front_char hfront).symm⟩ (part.no_char c)
  · rintro rfl
    exact mended_decodeLossy s

/-- A character that is cut off by another one is one ill-formed part, and two bytes that no
character begins with are two. -/
example : decodeLossy [0xE2, 0x82, 0x41, 0xFF, 0xFF] = ['\uFFFD', 'A', '\uFFFD', '\uFFFD'] := by
  decide +kernel

end Utf8
end Courier
