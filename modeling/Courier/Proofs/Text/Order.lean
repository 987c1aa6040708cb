import Courier.Proofs.Text.Utf8
import Mathlib.Data.List.Sort
import Mathlib.Data.String.Basic

/-!
# The order of texts

Texts are compared character by character.  Their bytes compare alike: a character
with fewer bytes has a smaller lead byte, and among characters with equally many bytes
the first that differs decides.  A sorted list in which neighbours of one name are
taken together has each name once.

**Results.**
* `utf8EncodeChar_lt`: the bytes of a smaller character come first, whatever follows.
* `encode_lt_encode`: the bytes of a smaller text come first.
* `mem_eraseReps`, `pairwise_eraseReps`: taking neighbours together.
* `mem_sorted`, `pairwise_sorted`: what is listed in order and once.
-/

namespace Courier
namespace Utf8

theorem cons_lt_cons_of_lt
    {b c : UInt8}
    (h : b.toNat < c.toNat)
    (s t : Bytes) :
    b :: s < c :: t :=
  List.cons_lt_cons_iff.2 (Or.inl (UInt8.lt_iff_toNat_lt.2 h))

/-- The first byte decides unless it is the same. -/
theorem cons_lt_cons_of_le
    {b c : UInt8}
    {s t : Bytes}
    (hle : b.toNat ≤ c.toNat)
    (htail : b.toNat = c.toNat → s < t) :
    b :: s < c :: t := by
  rcases Nat.lt_or_eq_of_le hle with hlt | heq
  · exact cons_lt_cons_of_lt hlt s t
  · exact List.cons_lt_cons_iff.2 (Or.inr ⟨UInt8.toNat_inj.1 heq, htail heq⟩)

/-- The bytes of the character with a number: one to four, the lead byte telling how many. -/
inductive Encoded (n : Nat) : Bytes → Prop
  | one
      (b : UInt8)
      (hn : n < 0x80)
      (hb : b.toNat = n) :
      Encoded n [b]
  | two
      (b c : UInt8)
      (hn : 0x80 ≤ n ∧ n < 0x800)
      (hb : b.toNat = 0xC0 + n / 64)
      (hc : c.toNat = 0x80 + n % 64) :
      Encoded n [b, c]
  | three
      (b c d : UInt8)
      (hn : 0x800 ≤ n ∧ n < 0x10000)
      (hb : b.toNat = 0xE0 + n / 4096)
      (hc : c.toNat = 0x80 + n / 64 % 64)
      (hd : d.toNat = 0x80 + n % 64) :
      Encoded n [b, c, d]
  | four
      (b c d e : UInt8)
      (hn : 0x10000 ≤ n ∧ n < 0x110000)
      (hb : b.toNat = 0xF0 + n / 262144)
      (hc : c.toNat = 0x80 + n / 4096 % 64)
      (hd : d.toNat = 0x80 + n / 64 % 64)
      (he : e.toNat = 0x80 + n % 64) :
      Encoded n [b, c, d, e]

theorem encoded_utf8EncodeChar
    (c : Char) :
    Encoded c.toNat (String.utf8EncodeChar c) := by
  have hvalid : c.toNat < 0xD800 ∨ (0xDFFF < c.toNat ∧ c.toNat < 0x110000) := c.valid
  have hval : c.val.toNat = c.toNat := rfl
  have hbyte : ∀ n, n < 256 → (UInt8.ofNat n).toNat = n := fun _ => toNat_ofNat_of_lt
  unfold String.utf8EncodeChar
  simp only [hval]
  split
  · next h => exact .one _ (by omega) (hbyte _ (by omega))
  · split
    · next h₁ h₂ =>
        refine .two _ _ (by omega) ?_ ?_
        · rw [hbyte _ (by omega)]
          omega
        · rw [hbyte _ (by omega)]
          omega
    · split
      · next h₁ h₂ h₃ =>
          refine .three _ _ _ (by omega) ?_ ?_ ?_
          · rw [hbyte _ (by omega)]
            omega
          · rw [hbyte _ (by omega)]
            omega
          · rw [hbyte _ (by omega)]
            omega
      · next h₁ h₂ h₃ =>
          refine .four _ _ _ _ (by omega) ?_ ?_ ?_ ?_
          · rw [hbyte _ (by omega)]
            omega
          · rw [hbyte _ (by omega)]
            omega
          · rw [hbyte _ (by omega)]
            omega
          · rw [hbyte _ (by omega)]
            omega

theorem Encoded.lt
    {m n : Nat}
    {s t : Bytes}
    (hs : Encoded m s)
    (ht : Encoded n t)
    (hlt : m < n)
    (u v : Bytes) :
    s ++ u < t ++ v := by
  cases hs with
  | one b hm hb =>
      cases ht with
      | one b' hn hb' => exact cons_lt_cons_of_lt (by omega) _ _
      | two b' c' hn hb' hc' => exact cons_lt_cons_of_lt (by omega) _ _
      | three b' c' d' hn hb' hc' hd' => exact cons_lt_cons_of_lt (by omega) _ _
      | four b' c' d' e' hn hb' hc' hd' he' => exact cons_lt_cons_of_lt (by omega) _ _
  | two b c hm hb hc =>
      cases ht with
      | one b' hn hb' => omega
      | two b' c' hn hb' hc' =>
          refine cons_lt_cons_of_le (by omega) fun hlead => ?_
          exact cons_lt_cons_of_lt (by omega) _ _
      | three b' c' d' hn hb' hc' hd' => exact cons_lt_cons_of_lt (by omega) _ _
      | four b' c' d' e' hn hb' hc' hd' he' => exact cons_lt_cons_of_lt (by omega) _ _
  | three b c d hm hb hc hd =>
      cases ht with
      | one b' hn hb' => omega
      | two b' c' hn hb' hc' => omega
      | three b' c' d' hn hb' hc' hd' =>
          refine cons_lt_cons_of_le (by omega) fun hlead => ?_
          refine cons_lt_cons_of_le (by omega) fun hsecond => ?_
          exact cons_lt_cons_of_lt (by omega) _ _
      | four b' c' d' e' hn hb' hc' hd' he' => exact cons_lt_cons_of_lt (by omega) _ _
  | four b c d e hm hb hc hd he =>
      cases ht with
      | one b' hn hb' => omega
      | two b' c' hn hb' hc' => omega
      | three b' c' d' hn hb' hc' hd' => omega
      | four b' c' d' e' hn hb' hc' hd' he' =>
          refine cons_lt_cons_of_le (by omega) fun hlead => ?_
          refine cons_lt_cons_of_le (by omega) fun hsecond => ?_
          refine cons_lt_cons_of_le (by omega) fun hthird => ?_
          exact cons_lt_cons_of_lt (by omega) _ _

theorem utf8EncodeChar_lt
    {c d : Char}
    (h : c < d)
    (u v : Bytes) :
    String.utf8EncodeChar c ++ u < String.utf8EncodeChar d ++ v :=
  (encoded_utf8EncodeChar c).lt (encoded_utf8EncodeChar d) h u v

theorem encodeChars_lt_encodeChars
    {cs ds : List Char}
    (h : cs < ds) :
    encodeChars cs < encodeChars ds := by
  induction cs generalizing ds with
  | nil =>
      cases ds with
      | nil => exact absurd h (by simp)
      | cons d ds =>
          obtain ⟨b, t, hbytes, -⟩ := front_utf8EncodeChar d (encodeChars ds)
          rw [encodeChars_nil, encodeChars_cons, hbytes]
          exact List.nil_lt_cons b t
  | cons c cs ih =>
      cases ds with
      | nil => exact absurd h (by simp)
      | cons d ds =>
          rw [encodeChars_cons, encodeChars_cons]
          rcases List.cons_lt_cons_iff.1 h with hlt | ⟨rfl, htail⟩
          · exact utf8EncodeChar_lt hlt _ _
          · exact List.append_left_lt (ih htail)

/-- **Texts and their bytes are in the same order.** -/
theorem encode_lt_encode
    {s t : String}
    (h : s < t) :
    encode s < encode t :=
  encodeChars_lt_encodeChars (String.lt_iff_toList_lt.1 h)

end Utf8

namespace Text

variable {α : Type} [LinearOrder α]

theorem mem_eraseRepsLoop
    {x a : α}
    {bs acc : List α} :
    x ∈ List.eraseRepsBy.loop (· == ·) a bs acc ↔ x ∈ acc ∨ x = a ∨ x ∈ bs := by
  induction bs generalizing a acc with
  | nil => simp [List.eraseRepsBy.loop, or_comm]
  | cons b bs ih =>
      rw [List.eraseRepsBy.loop]
      split
      · next h =>
          obtain rfl : a = b := by simpa using h
          rw [ih]
          simp
      · rw [ih]
        simp only [List.mem_cons]
        tauto

theorem mem_eraseReps
    {x : α}
    {as : List α} :
    x ∈ as.eraseReps ↔ x ∈ as := by
  cases as with
  | nil => rfl
  | cons a as =>
      rw [List.eraseReps, List.eraseRepsBy, mem_eraseRepsLoop]
      simp

theorem pairwise_eraseRepsLoop
    {a : α}
    {bs acc : List α}
    (hacc : (a :: acc).Pairwise (· > ·))
    (hbs : (a :: bs).Pairwise (· ≤ ·)) :
    (List.eraseRepsBy.loop (· == ·) a bs acc).Pairwise (· < ·) := by
  induction bs generalizing a acc with
  | nil =>
      rw [List.eraseRepsBy.loop]
      exact List.pairwise_reverse.2 hacc
  | cons b bs ih =>
      obtain ⟨hab, hrest⟩ := List.pairwise_cons.1 hbs
      rw [List.eraseRepsBy.loop]
      split
      · next h =>
          obtain rfl : a = b := by simpa using h
          exact ih hacc hrest
      · next h =>
          have hne : a ≠ b := by simpa using h
          have hlt : a < b := lt_of_le_of_ne (hab b List.mem_cons_self) hne
          refine ih (List.pairwise_cons.2 ⟨?_, hacc⟩) hrest
          intro x hx
          rcases List.mem_cons.1 hx with rfl | hx
          · exact hlt
          · exact lt_trans ((List.pairwise_cons.1 hacc).1 x hx) hlt

/-- In order, neighbours that are equal are all that are equal. -/
theorem pairwise_eraseReps
    {as : List α}
    (h : as.Pairwise (· ≤ ·)) :
    as.eraseReps.Pairwise (· < ·) := by
  cases as with
  | nil => exact List.Pairwise.nil
  | cons a as => exact pairwise_eraseRepsLoop (List.pairwise_singleton _ _) h

/-- Sorting and taking neighbours together lists everything in order and once. -/
theorem pairwise_sorted
    (as : List α) :
    (as.mergeSort fun a b => decide (a ≤ b)).eraseReps.Pairwise (· < ·) := by
  refine pairwise_eraseReps ?_
  refine (List.pairwise_mergeSort ?_ ?_ as).imp fun h => of_decide_eq_true h
  · intro a b c hab hbc
    exact decide_eq_true (le_trans (of_decide_eq_true hab) (of_decide_eq_true hbc))
  · intro a b
    simpa using le_total a b

theorem mem_sorted
    {x : α}
    {as : List α} :
    x ∈ (as.mergeSort fun a b => decide (a ≤ b)).eraseReps ↔ x ∈ as := by
  rw [mem_eraseReps, List.mem_mergeSort]

end Text
end Courier
