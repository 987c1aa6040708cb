import Courier.Proofs.Json.Types
import Courier.Proofs.Text.Utf8
import Courier.Store.Data
import Mathlib.Data.List.TakeWhile

/-!
# Which texts are integers

A stored value is looked at by two readers.  One decodes a JSON text and accepts an
integer of 64 bits, the other takes the whole text for a numeral.  They differ in much:
white space, signs, zeros in front.  On the bytes of a written value they agree, because
what is no integer has a byte that neither lets pass.

**Results.**
* `Json.NoInteger`: numbers with a fraction or an exponent.
* `Json.number_integer`, `Json.decode_int64`: what a text consists of that is decoded
  to an integer.
* `Data.counter?_bytes`: what a text consists of that is a numeral.
* `Json.Value.foreign_write`: what is no integer has another byte.
* `Json.Value.readers_agree`: both readers on a written value.
-/

namespace Courier
namespace Json

def Number.isInteger : Number → Bool
  | .integer .. => true
  | .float .. => false

section Readers

variable {α β : Type} {p q : Bytes → Prop}

/-- A reader of numbers does not answer with an integer. -/
def NoInteger (x : Except Fault (Number × Subtype p)) : Prop :=
  ∀ n r, x = .ok (n, r) → n.isInteger = false

theorem NoInteger.error
    (f : Fault) :
    NoInteger (.error f : Except Fault (Number × Subtype p)) :=
  fun _ _ h => absurd h (by simp)

theorem NoInteger.map
    {x : Except Fault (Number × Subtype p)}
    (h : NoInteger x)
    {g : Number × Subtype p → Number × Subtype q}
    (hg : ∀ n r, (g (n, r)).1 = n) :
    NoInteger (x.map g) := by
  intro m t hmap
  rcases x with f | ⟨n, r⟩
  · exact absurd hmap (by simp [Except.map])
  · have hm : (g (n, r)).1 = m := congrArg Prod.fst (Except.ok.inj hmap)
    rw [← hm, hg]
    exact h n r rfl

end Readers

theorem isInteger_ofBinary64?
    {x : Binary64}
    {n : Number}
    (h : Number.ofBinary64? x = some n) :
    n.isInteger = false := by
  rw [Number.ofBinary64?] at h
  split at h
  · obtain rfl := Option.some.inj h
    rfl
  · exact absurd h (by simp)

theorem noInteger_scaled
    (positive : Bool)
    (significand : Nat)
    (e : Int)
    (s : Bytes) :
    NoInteger (scaled positive significand e s) := by
  intro n r h
  simp only [scaled] at h
  split at h
  · next m hm =>
      obtain ⟨x, -, hx⟩ := Option.bind_eq_some_iff.1 hm
      obtain rfl : m = n := congrArg Prod.fst (Except.ok.inj h)
      exact isInteger_ofBinary64? hx
  · exact absurd h (by simp)

theorem isInteger_signedZero
    (positive : Bool) :
    (signedZero positive).isInteger = false := by
  cases positive with
  | true => rfl
  | false => rfl

theorem noInteger_exponentPart
    (positive : Bool)
    (significand : Nat)
    (e : Int)
    (s : Bytes) :
    NoInteger (exponentPart positive significand e s) := by
  unfold exponentPart
  -- The sign of the exponent does not matter.
  split
  next up t _ =>
    split
    · exact NoInteger.error _
    · split
      · simp only
        split
        · exact (noInteger_scaled _ _ _ _).map fun _ _ => rfl
        · split
          · exact NoInteger.error _
          · intro n r h
            obtain rfl : signedZero positive = n := congrArg Prod.fst (Except.ok.inj h)
            exact isInteger_signedZero positive
      · exact NoInteger.error _

theorem noInteger_maybeExponent
    (positive : Bool)
    (significand : Nat)
    (e : Int)
    (s : Bytes) :
    NoInteger (maybeExponent positive significand e s) := by
  cases s with
  | nil => exact noInteger_scaled _ _ _ _
  | cons b t =>
      rw [maybeExponent]
      split
      · exact (noInteger_exponentPart _ _ _ _).map fun _ _ => rfl
      · exact noInteger_scaled _ _ _ _

theorem noInteger_fractionPart
    (positive : Bool)
    (significand : Nat)
    (e : Int)
    (s : Bytes) :
    NoInteger (fractionPart positive significand e s) := by
  rw [fractionPart]
  split
  · exact NoInteger.error _
  · exact (noInteger_maybeExponent _ _ _ _).map fun _ _ => rfl

/-- Behind the digits of an integer nothing more is taken. -/
theorem whole_integer
    {positive : Bool}
    {n : Nat}
    {s : Bytes}
    {m : Number}
    {r : Tail s}
    (hm : m.isInteger = true)
    (h : whole positive n s = .ok (m, r)) :
    r.val = s := by
  have hscaled : ∀ {p k e}, scaled p k e s = .ok (m, r) → r.val = s := fun hs =>
    absurd hm (by simp [noInteger_scaled _ _ _ _ m r hs])
  rw [whole] at h
  split at h
  · split at h
    · exact (congrArg (fun y => y.2.val) (Except.ok.inj h)).symm
    · exact hscaled h
  · split at h
    · exact hscaled h
    · split at h
      · exact (congrArg (fun y => y.2.val) (Except.ok.inj h)).symm
      · exact hscaled h

theorem afterWhole_integer
    {positive : Bool}
    {significand extra : Nat}
    {s : Bytes}
    {m : Number}
    {r : Tail s}
    (hm : m.isInteger = true)
    (h : afterWhole positive significand extra s = .ok (m, r)) :
    r.val = s := by
  have hno : ∀ {x : Except Fault (Number × Tail s)}, NoInteger x → x = .ok (m, r) → r.val = s :=
    fun hx hs => absurd hm (by simp [hx m r hs])
  cases s with
  | nil =>
      rw [afterWhole] at h
      split at h
      · exact whole_integer hm h
      · exact hno (noInteger_scaled _ _ _ _) h
  | cons b t =>
      rw [afterWhole] at h
      split at h
      · exact hno ((noInteger_fractionPart _ _ _ _).map fun _ _ => rfl) h
      · split at h
        · exact hno ((noInteger_exponentPart _ _ _ _).map fun _ _ => rfl) h
        · split at h
          · exact whole_integer hm h
          · exact hno (noInteger_scaled _ _ _ _) h

/-- An integer is read from digits alone. -/
theorem number_integer
    {positive : Bool}
    {s : Bytes}
    {m : Number}
    {r : Rest s}
    (hm : m.isInteger = true)
    (h : number positive s = .ok (m, r)) :
    ∃ ds, s = ds ++ r.val ∧ ∀ b ∈ ds, Bytes.isDigit b = true := by
  cases s with
  | nil => exact absurd h (by simp [number])
  | cons b t =>
      rw [number] at h
      split at h
      · next hb =>
          split at h
          · obtain ⟨n, q, hq, rfl, hr⟩ := of_map_eq_ok (fun _ _ => ⟨rfl, rfl⟩) h
            refine ⟨[b], ?_, ?_⟩
            · rw [← hr, afterWhole_integer hm hq, List.singleton_append]
            · intro c hc
              rw [List.mem_singleton.1 hc, hb]
              rfl
          · exact absurd h (by simp)
      · split at h
        · next hdigit =>
            obtain ⟨n, q, hq, rfl, hr⟩ := of_map_eq_ok (fun _ _ => ⟨rfl, rfl⟩) h
            refine ⟨b :: digitRun t, ?_, ?_⟩
            · rw [← hr]
              show b :: t = b :: (t.takeWhile Bytes.isDigit ++ q.val)
              rw [afterWhole_integer hm hq]
              exact congrArg (b :: ·) List.takeWhile_append_dropWhile.symm
            · intro c hc
              rcases List.mem_cons.1 hc with rfl | hc
              · exact hdigit
              · exact List.mem_takeWhile_imp hc
        · exact absurd h (by simp)

/-- A byte that may stand in an integer or around it. -/
def InInteger (b : UInt8) : Prop :=
  isBlank b = true ∨ Bytes.isDigit b = true ∨ b = 0x2D ∨ b = 0x2B

instance : DecidablePred InInteger :=
  fun _ => inferInstanceAs (Decidable (_ ∨ _ ∨ _ ∨ _))

/-- What stands in front of the first byte that is no white space. -/
theorem of_front_byte
    {s t : Bytes}
    {b : UInt8}
    {hle : (b :: t).length ≤ s.length}
    (hfront : front s = .byte b t hle) :
    ∃ blanks, s = blanks ++ b :: t ∧ ∀ c ∈ blanks, isBlank c = true := by
  unfold front at hfront
  split at hfront
  · exact absurd hfront (by simp)
  · next c u hdrop =>
      injection hfront with hb ht
      subst hb ht
      refine ⟨s.takeWhile isBlank, ?_, fun c hc => List.mem_takeWhile_imp hc⟩
      rw [← hdrop, List.takeWhile_append_dropWhile]

theorem of_front_ended
    {s : Bytes}
    (hfront : front s = .ended) :
    ∀ c ∈ s, isBlank c = true := by
  unfold front at hfront
  split at hfront
  · next hdrop =>
      intro c hc
      exact List.dropWhile_eq_nil_iff.1 hdrop c hc
  · exact absurd hfront (by simp)

theorem bind_ne_ok
    {ε α β : Type}
    {x : Except ε β}
    {f : β → Except ε α}
    {v : α}
    (hf : ∀ y, f y ≠ .ok v) :
    x.bind f ≠ .ok v := by
  rcases x with e | y
  · exact fun h => absurd h (by simp [Except.bind])
  · exact hf y

/-- A value of another type is refused, or has a fault of its own. -/
theorem wrongType_ne_ok
    {α : Type}
    (expected : String)
    (s : Bytes)
    (v : α) :
    wrongType α expected s ≠ .ok v := by
  have herror : ∀ f : Fault, (.error f : Except Fault α) ≠ .ok v := fun _ h => absurd h (by simp)
  unfold wrongType
  simp only
  split
  · exact herror _
  · split
    · exact bind_ne_ok fun _ => herror _
    · split
      · exact bind_ne_ok fun _ => herror _
      · split
        · exact bind_ne_ok fun _ => herror _
        · split
          · refine bind_ne_ok fun y => ?_
            obtain ⟨n, r⟩ := y
            cases n with
            | integer n _ _ => exact herror _
            | float x _ => exact herror _
          · split
            · exact bind_ne_ok fun _ => herror _
            · split
              · exact herror _
              · split
                · exact herror _
                · exact herror _

/-- An integer is read from white space, a sign and digits. -/
theorem numberOf_integer
    {expected : String}
    {s : Bytes}
    {m : Number}
    {r : Rest s}
    (hm : m.isInteger = true)
    (h : numberOf expected s = .ok (m, r)) :
    ∃ ds, s = ds ++ r.val ∧ ∀ b ∈ ds, InInteger b := by
  rw [numberOf, atToken] at h
  split at h
  · exact absurd h (by simp)
  · next b t hle hfront =>
      obtain ⟨blanks, hs, hblanks⟩ := of_front_byte hfront
      obtain ⟨n, q, hq, rfl, hr⟩ := of_map_eq_ok (fun _ _ => ⟨rfl, rfl⟩) h
      have htaken : ∃ ds, b :: t = ds ++ q.val ∧ ∀ c ∈ ds, InInteger c := by
        split at hq
        · next hminus =>
            obtain ⟨n, p, hp, rfl, hp'⟩ := of_map_eq_ok (fun _ _ => ⟨rfl, rfl⟩) hq
            obtain ⟨ds, ht, hds⟩ := number_integer hm hp
            refine ⟨b :: ds, ?_, ?_⟩
            · rw [← hp', List.cons_append, ← ht]
            · intro c hc
              rcases List.mem_cons.1 hc with rfl | hc
              · exact Or.inr (Or.inr (Or.inl hminus))
              · exact Or.inr (Or.inl (hds c hc))
        · split at hq
          · obtain ⟨ds, ht, hds⟩ := number_integer hm hq
            exact ⟨ds, ht, fun c hc => Or.inr (Or.inl (hds c hc))⟩
          · exact absurd hq (wrongType_ne_ok _ _ _)
      obtain ⟨ds, ht, hds⟩ := htaken
      refine ⟨blanks ++ ds, ?_, ?_⟩
      · rw [← hr, List.append_assoc, ← ht, hs]
      · intro c hc
        rcases List.mem_append.1 hc with hc | hc
        · exact Or.inl (hblanks c hc)
        · exact hds c hc

/-- **What is decoded to an integer consists of white space, signs and digits.** -/
theorem decode_int64
    {text : Bytes}
    {k : Int64}
    (h : decode (α := Int64) text = .ok k) :
    ∀ b ∈ text, InInteger b := by
  rw [decode, decodeWith] at h
  split at h
  · exact absurd h (by simp)
  · next n r hread =>
      split at h
      · next hended =>
          obtain ⟨i, q, hq, -, hr⟩ := of_map_eq_ok (fun _ _ => ⟨rfl, rfl⟩) hread
          rw [int64, integerOf] at hq
          split at hq
          · exact absurd hq (by simp)
          · next m least most p hnumber =>
              split at hq
              · obtain ⟨ds, hs, hds⟩ := numberOf_integer rfl hnumber
                have hpq : p.val = r.val := by
                  rw [← hr]
                  exact congrArg (fun y => y.2.val) (Except.ok.inj hq)
                intro b hb
                rw [hs] at hb
                rcases List.mem_append.1 hb with hb | hb
                · exact hds b hb
                · exact Or.inl (of_front_ended hended b (hpq ▸ hb))
              · exact absurd hq (by simp)
          · exact absurd hq (by simp)
      · exact absurd h (by simp)

end Json

namespace Numeral

/-- An integer that fits into 64 bits is kept in them. -/
theorem toInt_ofInt
    {n : Int}
    (h : minInt64 ≤ n ∧ n ≤ maxInt64) :
    (Int64.ofInt n).toInt = n :=
  Int64.toInt_ofInt_of_le h.1 (Int.lt_add_one_of_le h.2)

theorem isDigit_of_mem
    {cs : List Char}
    {n : Nat}
    (h : digits? cs = some n) :
    ∀ c ∈ cs, isDigit c = true := by
  rw [digits?] at h
  split at h
  · next hcs => exact List.all_eq_true.1 hcs.2
  · exact absurd h (by simp)

/-- A numeral consists of a sign and digits. -/
theorem of_integer?
    {least most n : Int}
    {cs : List Char}
    (h : integer? least most cs = some n) :
    ∀ c ∈ cs, isDigit c = true ∨ c = '-' ∨ c = '+' := by
  have hvalue := (Option.filter_eq_some_iff.1 h).1
  intro c hc
  split at hvalue
  · obtain ⟨k, hk, -⟩ := Option.map_eq_some_iff.1 hvalue
    obtain ⟨j, hj, -⟩ := Option.bind_eq_some_iff.1 hk
    rcases List.mem_cons.1 hc with rfl | hc
    · exact Or.inr (Or.inl rfl)
    · exact Or.inl (isDigit_of_mem hj c hc)
  · obtain ⟨k, hk, -⟩ := Option.map_eq_some_iff.1 hvalue
    rcases List.mem_cons.1 hc with rfl | hc
    · exact Or.inr (Or.inr rfl)
    · exact Or.inl (isDigit_of_mem hk c hc)
  · obtain ⟨k, hk, -⟩ := Option.map_eq_some_iff.1 hvalue
    exact Or.inl (isDigit_of_mem hk c hc)

theorem digits?_toDigits
    (n : Nat) :
    digits? (Nat.toDigits 10 n) = some n := by
  have hdigits : (Nat.toDigits 10 n).all isDigit = true :=
    List.all_eq_true.2 fun c hc => isDigit_of_mem_toDigits hc
  rw [digits?, if_pos ⟨Nat.toDigits_ne_nil, hdigits⟩, valueFrom_toDigits]

theorem integer?_toDigits
    (least most : Int)
    (n : Nat) :
    integer? least most (Nat.toDigits 10 n) =
      (some (n : Int)).filter fun k => least ≤ k ∧ k ≤ most := by
  have hsign : ∀ c cs, Nat.toDigits 10 n = c :: cs → isDigit c = true := by
    intro c cs hcons
    exact isDigit_of_mem_toDigits (hcons ▸ List.mem_cons_self)
  rw [integer?, digits?_toDigits]
  · rfl
  · exact fun cs hcons => absurd (hsign '-' cs hcons) (by decide)
  · exact fun cs hcons => absurd (hsign '+' cs hcons) (by decide)

theorem integer?_neg_toDigits
    (least most : Int)
    (n : Nat) :
    integer? least most ('-' :: Nat.toDigits 10 n) =
      (some (-(n : Int))).filter fun k => least ≤ k ∧ k ≤ most := by
  rw [integer?, digits?_toDigits]
  rfl

end Numeral

namespace Data

open Json (InInteger digitBytes)

/-- **What is a numeral has no ASCII bytes but signs and digits.** -/
theorem counter?_bytes
    {value : Bytes}
    {n : Int}
    (h : counter? value = some n) :
    ∀ b ∈ value, b.toNat < 0x80 → InInteger b := by
  obtain ⟨cs, hcs, hn⟩ := Option.bind_eq_some_iff.1 h
  intro b hb hascii
  have htoNat : (Char.ofNat b.toNat).toNat = b.toNat := by
    rw [Char.ofNat, dif_pos (Or.inl (by omega))]
    rfl
  rcases Numeral.of_integer? hn _ (Utf8.mem_decode?_of_ascii hcs hb hascii) with
    hdigit | hminus | hplus
  · rw [Numeral.isDigit_iff, htoNat] at hdigit
    refine Or.inr (Or.inl ?_)
    simpa [Bytes.isDigit, UInt8.le_iff_toNat_le] using hdigit
  · refine Or.inr (Or.inr (Or.inl (UInt8.toNat_inj.1 ?_)))
    rw [← htoNat, hminus]
    rfl
  · refine Or.inr (Or.inr (Or.inr (UInt8.toNat_inj.1 ?_)))
    rw [← htoNat, hplus]
    rfl

theorem counter?_ascii
    {cs : List Char}
    (h : ∀ c ∈ cs, c.toNat < 0x80) :
    counter? (cs.map fun c => UInt8.ofNat c.toNat) =
      Numeral.integer? Numeral.minInt64 Numeral.maxInt64 cs := by
  rw [counter?, ← Utf8.encodeChars_ascii h, Utf8.decode?_encodeChars]
  rfl

end Data

namespace Json
namespace Value

/-- The integer of 64 bits that a value is, if it is one. -/
def int64? : Value → Option Int
  | .number (.integer n _ _) =>
      (some n).filter fun k => Numeral.minInt64 ≤ k ∧ k ≤ Numeral.maxInt64
  | _ => none

theorem int64?_bounds
    {v : Value}
    {n : Int}
    (h : v.int64? = some n) :
    Numeral.minInt64 ≤ n ∧ n ≤ Numeral.maxInt64 := by
  rw [int64?.eq_def] at h
  split at h
  · obtain ⟨hn, hbounds⟩ := Option.filter_eq_some_iff.1 h
    simpa using hbounds
  · exact absurd h (by simp)

theorem counter?_write_integer
    (n : Int)
    (least : -0x8000000000000000 ≤ n)
    (most : n < 0x10000000000000000) :
    Data.counter? (Value.number (.integer n least most)).write =
      int64? (.number (.integer n least most)) := by
  have hascii : ∀ m, ∀ c ∈ Nat.toDigits 10 m, c.toNat < 0x80 := by
    intro m c hc
    have hdigit := (Numeral.isDigit_iff c).1 (Numeral.isDigit_of_mem_toDigits hc)
    omega
  rcases integer_write n least most with ⟨m, rfl, h⟩ | ⟨m, -, rfl, h⟩
  · rw [h, digitBytes, Data.counter?_ascii (hascii m), Numeral.integer?_toDigits]
    rfl
  · have hbytes : 0x2D :: digitBytes m =
        ('-' :: Nat.toDigits 10 m).map fun c => UInt8.ofNat c.toNat := rfl
    rw [h, hbytes, Data.counter?_ascii (List.forall_mem_cons.2 ⟨by decide, hascii m⟩),
      Numeral.integer?_neg_toDigits]
    rfl

theorem bare_numberOf_write
    (expected : String)
    (n : Int)
    (least : -0x8000000000000000 ≤ n)
    (most : n < 0x10000000000000000) :
    bare (numberOf expected (Value.number (.integer n least most)).write) =
      .ok (.integer n least most, []) := by
  rcases integer_write n least most with ⟨m, rfl, h⟩ | ⟨m, hm, rfl, h⟩
  · have hread := bare_numberOf expected stops_nil least most
    rw [List.append_nil] at hread
    rw [h, hread]
  · have hread := bare_number_negative hm stops_nil least most
    rw [List.append_nil] at hread
    rw [h, numberOf, bare_atToken _ _ (by decide), if_pos rfl]
    exact (bare_map_same fun _ _ => ⟨rfl, rfl⟩).trans hread

theorem decode_write_integer
    (n : Int)
    (least : -0x8000000000000000 ≤ n)
    (most : n < 0x10000000000000000) :
    (decode (α := Int64) (Value.number (.integer n least most)).write).toOption =
      (int64? (.number (.integer n least most))).map Int64.ofInt := by
  obtain ⟨h, hnumber⟩ := bare_eq_ok.1 (bare_numberOf_write "i64" n least most)
  have hended : front [] = .ended := rfl
  simp only [decode, decodeWith, Decode.read, int64, integerOf, hnumber, int64?, Option.filter_some]
  by_cases hrange : Numeral.minInt64 ≤ n ∧ n ≤ Numeral.maxInt64
  · rw [if_pos hrange, if_pos (decide_eq_true hrange)]
    rfl
  · rw [if_neg hrange, if_neg (by simpa using hrange)]
    rfl

theorem point_mem_positional
    (ds : List Char)
    (e : Int) :
    '.' ∈ (Binary64.Layout.json.positional ds e).toList := by
  have hsuffix : Binary64.Layout.json.wholeSuffix.toList = ['.', '0'] := rfl
  cases e with
  | negSucc k => simp [Binary64.Layout.positional]
  | ofNat k =>
      rw [Binary64.Layout.positional]
      split
      · simp [hsuffix]
      · simp

/-- A floating-point number is written with a point or an exponent. -/
theorem mark_mem_render
    (x : Binary64) :
    '.' ∈ (Binary64.Layout.json.render x).toList ∨
      'e' ∈ (Binary64.Layout.json.render x).toList := by
  have hsuffix : Binary64.Layout.json.wholeSuffix.toList = ['.', '0'] := rfl
  rw [Binary64.Layout.render, String.toList_append, List.mem_append, List.mem_append]
  refine Or.imp Or.inr Or.inr ?_
  rw [Binary64.Layout.renderMagnitude]
  split
  · simp [hsuffix]
  · simp only
    split
    · exact Or.inl (point_mem_positional _ _)
    · right
      simp [Binary64.Layout.scientific]

/-- What is no integer is written with a byte that is in no integer. -/
theorem foreign_write
    {v : Value}
    (h : ∀ n least most, v ≠ .number (.integer n least most)) :
    ∃ b ∈ v.write, b.toNat < 0x80 ∧ ¬ InInteger b := by
  cases v with
  | null => exact ⟨0x6E, by rw [write]; simp, by decide, by decide⟩
  | bool b =>
      cases b with
      | true => exact ⟨0x74, by rw [write]; simp, by decide, by decide⟩
      | false => exact ⟨0x66, by rw [write]; simp, by decide, by decide⟩
  | string s => exact ⟨0x22, by rw [write, writeString]; simp, by decide, by decide⟩
  | array vs => exact ⟨0x5B, by rw [write]; simp, by decide, by decide⟩
  | object ms => exact ⟨0x7B, by rw [write]; simp, by decide, by decide⟩
  | number n =>
      cases n with
      | integer n least most => exact absurd rfl (h n least most)
      | float x finite =>
          rcases mark_mem_render x with hpoint | hmark
          · exact ⟨0x2E, List.mem_map.2 ⟨'.', hpoint, rfl⟩, by decide, by decide⟩
          · exact ⟨0x65, List.mem_map.2 ⟨'e', hmark, rfl⟩, by decide, by decide⟩

/-- **Both readers find the same integers among the bytes of written values**: those of
64 bits, with a sign. -/
theorem readers_agree
    (v : Value) :
    Data.counter? v.write = v.int64? ∧
      (decode (α := Int64) v.write).toOption = v.int64?.map Int64.ofInt := by
  by_cases hinteger : ∃ n least most, v = .number (.integer n least most)
  · obtain ⟨n, least, most, rfl⟩ := hinteger
    exact ⟨counter?_write_integer n least most, decode_write_integer n least most⟩
  · have hother : ∀ n least most, v ≠ .number (.integer n least most) :=
      fun n least most heq => hinteger ⟨n, least, most, heq⟩
    obtain ⟨b, hb, hascii, hforeign⟩ := foreign_write hother
    have hnone : v.int64? = none := by
      rw [int64?]
      exact hother
    refine ⟨?_, ?_⟩
    · rw [hnone]
      refine Option.eq_none_iff_forall_ne_some.2 fun n hn => ?_
      exact hforeign (Data.counter?_bytes hn b hb hascii)
    · rw [hnone]
      cases hdecode : decode (α := Int64) v.write with
      | error e => rfl
      | ok k => exact absurd (decode_int64 hdecode b hb) hforeign

end Value
end Json
end Courier
