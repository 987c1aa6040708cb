import Courier.Proofs.Calendar.Written
import Courier.Proofs.Json.Values

/-!
# Written values of each type are read back

Strings, unsigned integers, timestamps, objects and values, each written in its
own way and read by the reader of its type.  Only objects and values have a
depth that may be refused.

**Results.**
* `bare_read_string`, `bare_read_uint32`, `bare_read_timestamp`: the plain types.
* `within_read_object`, `within_read_value`: the types with a depth.
* `decode_of_within`: a whole text.
-/

namespace Courier
namespace Json

theorem bare_stringOf
    (expected : String)
    (x : String)
    (rest : Bytes) :
    bare (stringOf expected (writeString x ++ rest)) = .ok (x, rest) := by
  rw [stringOf, writeString_append, bare_atToken _ _ (by decide), if_pos rfl]
  exact (bare_map_same fun _ _ => ⟨rfl, rfl⟩).trans (bare_stringBody x rest)

theorem bare_read_string
    (depth : Nat)
    (x : String)
    (rest : Bytes) :
    bare (Decode.read (α := String) depth (writeString x ++ rest)) = .ok (x, rest) :=
  bare_stringOf _ x rest

theorem bare_read_timestamp
    (depth : Nat)
    (t : Calendar.Timestamp)
    (rest : Bytes) :
    bare (Decode.read (α := Calendar.Timestamp) depth (writeString t.text ++ rest)) =
      .ok (t, rest) := by
  obtain ⟨h, hstring⟩ :=
    bare_eq_ok.1 (bare_stringOf "an RFC 3339 formatted date and time string" t.text rest)
  simp only [Decode.read, hstring, Calendar.Timestamp.readTimestamp_text]
  rfl

/-- A value that does not start like `null` is there. -/
theorem bare_optional
    {α : Type}
    {read : Reader α}
    {b : UInt8}
    {t : Bytes}
    (hb : isBlank b = false)
    (hn : b ≠ 0x6E) :
    bare (optional read (b :: t)) = (bare (read (b :: t))).map fun y => (some y.1, y.2) := by
  rw [optional, front_cons t hb]
  simp only
  rw [if_neg hn]
  exact bare_map (fun v => some v) fun _ _ => ⟨rfl, rfl⟩

theorem bare_read_some_timestamp
    (depth : Nat)
    (t : Calendar.Timestamp)
    (rest : Bytes) :
    bare (Decode.read (α := Option Calendar.Timestamp) depth (writeString t.text ++ rest)) =
      .ok (some t, rest) := by
  have hread := bare_read_timestamp depth t rest
  rw [writeString_append] at hread ⊢
  refine (bare_optional (by decide) (by decide)).trans ?_
  rw [hread]
  rfl

/-- An integer from zero on is a number of any name. -/
theorem bare_numberOf
    (expected : String)
    {n : Nat}
    {rest : Bytes}
    (hrest : Stops rest)
    (least : -0x8000000000000000 ≤ (n : Int))
    (most : (n : Int) < 0x10000000000000000) :
    bare (numberOf expected (digitBytes n ++ rest)) = .ok (.integer n least most, rest) := by
  obtain ⟨b, ds, hbytes, hb⟩ := digitBytes_cons n
  obtain ⟨hblank, _, _, _, _, hminus⟩ := isDigit_cases hb
  have hread := bare_number_natural hrest least most
  rw [hbytes, List.cons_append] at hread ⊢
  rw [numberOf, bare_atToken _ _ hblank, if_neg hminus, if_pos hb]
  exact hread

theorem bare_read_uint32
    (depth : Nat)
    (n : UInt32)
    {rest : Bytes}
    (hrest : Stops rest) :
    bare (Decode.read (α := UInt32) depth (Bytes.ofAscii (toString n.toNat) ++ rest)) =
      .ok (n, rest) := by
  have hlt := n.toNat_lt
  have hbounds : 0 ≤ (n.toNat : Int) ∧ (n.toNat : Int) ≤ Numeral.maxNat32 := by
    rw [Numeral.maxNat32]
    omega
  obtain ⟨h, hnumber⟩ := bare_eq_ok.1
    (bare_numberOf "u32" hrest (n := n.toNat) (by omega) (by omega))
  rw [ofAscii_toString_nat]
  simp only [Decode.read, integerOf, hnumber]
  rw [if_pos hbounds]
  show Except.ok (UInt32.ofNat n.toNat, rest) = _
  rw [UInt32.ofNat_toNat]

/-- **A written object is read back within the limit.** -/
theorem within_read_object
    (depth : Nat)
    (o : Object)
    (ho : o.isExact = true)
    (rest : Bytes) :
    Within (o.nesting ≤ depth) (bare (Decode.read (α := Object) depth (o.write ++ rest)))
      o rest := by
  rw [Object.isExact, Value.isExactMembers_iff] at ho
  rw [Object.write, Object.nesting, List.cons_append, List.append_assoc, List.singleton_append]
  cases depth with
  | zero =>
      have hzero :
          bare (Decode.read (α := Object) 0 (0x7B :: (writeMembers o.members ++ 0x7D :: rest))) =
          .error ⟨.recursionLimit, (writeMembers o.members ++ 0x7D :: rest).length⟩ := by
        simp only [Decode.read]
        rw [bare_atToken _ _ (by decide)]
        rfl
      exact Within.of_eq_error (Nat.not_succ_le_zero _) hzero
  | succ d =>
      have hmembers := (readsEntries_members fun m h => readsBack m.2 (ho m h) d).within_all rest
      rw [← writeMembers_eq] at hmembers
      have hread : bare (Decode.read (α := Object) (d + 1)
          (0x7B :: (writeMembers o.members ++ 0x7D :: rest))) =
          (bare (membersFrom (value d) true [] (writeMembers o.members ++ 0x7D :: rest))).map
            fun y => (Object.ofMembers y.1, y.2) := by
        simp only [Decode.read]
        rw [bare_atToken _ _ (by decide), if_pos rfl]
        exact bare_map (fun ms => Object.ofMembers ms) fun _ _ => ⟨rfl, rfl⟩
      have hdeep : (∀ m ∈ o.members, m.2.nesting ≤ d) ↔
          Value.nestingMembers o.members + 1 ≤ d + 1 :=
        (Value.nestingMembers_le o.members).symm.trans Nat.add_le_add_iff_right.symm
      have h := (hmembers.map Object.ofMembers).iff hdeep
      rw [Object.ofMembers_members] at h
      rw [hread]
      exact h

/-- **A written canonical value is read back within the limit.** -/
theorem within_read_value
    (depth : Nat)
    (v : Value)
    (hexact : v.isExact = true)
    (hcanonical : v.isCanonical = true)
    {rest : Bytes}
    (hrest : Stops rest) :
    Within (v.nesting ≤ depth) (bare (Decode.read (α := Value) depth (v.write ++ rest)))
      v rest := by
  have h := (readsBack v hexact depth rest hrest).map Value.normalize
  rw [Value.normalize_of_isCanonical v hcanonical] at h
  have hread : bare (Decode.read (α := Value) depth (v.write ++ rest)) =
      (bare (value depth (v.write ++ rest))).map fun y => (y.1.normalize, y.2) :=
    bare_map Value.normalize fun _ _ => ⟨rfl, rfl⟩
  rw [hread]
  exact h

/-- A whole text is decoded if it is read to its end, and refused where its
reading is. -/
theorem decode_of_within
    {α : Type}
    [Decode α]
    {fits : Prop}
    {text : Bytes}
    {v : α}
    (h : Within fits (bare (Decode.read maxDepth text)) v []) :
    (fits → decode text = .ok v) ∧
      (¬ fits → ∃ left, decode (α := α) text = .error ⟨.recursionLimit, left⟩) := by
  constructor
  · intro hfits
    obtain ⟨_, hread⟩ := bare_eq_ok.1 (h.1 hfits)
    rw [decode, decodeWith, hread]
    rfl
  · intro hfits
    obtain ⟨left, hleft⟩ := h.2 hfits
    refine ⟨left, ?_⟩
    rw [decode, decodeWith, bare_eq_error.1 hleft]

end Json
end Courier
