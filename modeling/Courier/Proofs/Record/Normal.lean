import Courier.Proofs.Json.Depth
import Courier.Proofs.Record.Drafts

/-!
# Decoding and encoding again is a normal form

A record may be written in many ways: as an object or a list, with its members in any order
and unknown ones among them, with fields left out, with keys of its payload given twice, and
with its time in another zone.  The decoder limits what is kept of all this, so the payload of
what it reads is never too deep for its own encoding to be read back.  Encoding a decoded
record therefore gives the one text for it that is left as it is.

**Results.**
* `Field.Ensures`, `Record.Ensures`, `Record.Ensures.read`: what every field ensures of a
  record that is read in either form.
* `Job.nesting_of_decode`, `Message.nesting_of_decode`: the levels of a decoded payload.
* `Codec.rewritten`, `Codec.HasNormalForm`: decoding a text and encoding what it holds.
* `Codec.rewritten_is_normal`: every text that holds a job or a message.
* `Codec.rewritten_spelledOut`: a job that is written in no usual way.
-/

namespace Courier
namespace Json

variable {ρ α : Type} {depth : Nat} {Known : ρ → Prop}

/-- What is known of a draft stays known when the field is read into it. -/
def Field.Ensures (f : Field ρ) (depth : Nat) (Known : ρ → Prop) : Prop :=
  ∀ (s : Bytes) (set : ρ → ρ) (rest : Rest s) (draft : ρ),
    f.read depth s = .ok (set, rest) → Known draft → Known (set draft)

theorem Field.ensures_of
    {β : Type}
    [Decode β]
    {name : String}
    {required : Bool}
    {get : ρ → Option β}
    {set : β → ρ → ρ}
    (hset : ∀ (s : Bytes) (v : β) (rest : Rest s) (draft : ρ),
      Decode.read depth s = .ok (v, rest) → Known draft → Known (set v draft)) :
    (Field.of name required get set).Ensures depth Known := by
  intro s _ rest draft hread hknown
  obtain ⟨v, q, hvalue, rfl, -⟩ := of_map_eq_ok (f := set) (fun _ _ => ⟨rfl, rfl⟩) hread
  exact hset s v q draft hvalue hknown

namespace Record

variable {rec : Record ρ α}

/-- What is known of a draft stays known whatever field is read into it. -/
def Ensures (rec : Record ρ α) (depth : Nat) (Known : ρ → Prop) : Prop :=
  ∀ f ∈ rec.fields, f.Ensures depth Known

namespace Ensures

theorem keeps
    (h : rec.Ensures depth Known) :
    rec.Keeps depth Known :=
  fun f hf s set rest draft hread _ hknown => h f hf s set rest draft hread hknown

/-- What every field ensures holds when the elements of a list have been read. -/
theorem elements
    (h : rec.Ensures depth Known)
    {fields : List (Field ρ)}
    (hfields : ∀ f ∈ fields, f ∈ rec.fields)
    {i : Nat}
    {first : Bool}
    {draft filled : ρ}
    {s : Bytes}
    {r : Tail s}
    (hread : rec.elements depth fields i first draft s = .ok (filled, r))
    (hknown : Known draft) :
    Known filled := by
  induction fields generalizing i first draft s with
  | nil =>
      rw [Record.elements] at hread
      obtain ⟨rfl, -⟩ := Prod.mk.inj (Except.ok.inj hread)
      exact hknown
  | cons f fs ih =>
      rw [List.forall_mem_cons] at hfields
      rw [Record.elements] at hread
      split at hread
      · exact absurd hread (by simp)
      · next q hnext =>
          -- The list has ended: the field is left as it is, if it may be missing.
          split at hread
          · split at hread
            · exact absurd hread (by simp)
            · exact absurd hread (by simp)
          · obtain ⟨d, p, hrest, rfl, -⟩ := of_map_eq_ok (f := id) (fun _ _ => ⟨rfl, rfl⟩) hread
            exact ih hfields.2 hrest hknown
      · next q hnext =>
          split at hread
          · exact absurd hread (by simp)
          · next set p hfield =>
              obtain ⟨d, z, hrest, rfl, -⟩ := of_map_eq_ok (f := id) (fun _ _ => ⟨rfl, rfl⟩) hread
              exact ih hfields.2 hrest (h f hfields.1 _ set p draft hfield hknown)

/-- **What every field ensures holds of a record that is read, as an object or as a list.** -/
theorem read
    (h : rec.Ensures depth Known)
    {s : Bytes}
    {v : α}
    {r : Rest s}
    (hread : rec.read (depth + 1) s = .ok (v, r))
    (hstart : Known rec.start) :
    ∃ filled, Known filled ∧ v = rec.finish filled := by
  rw [Record.read, atToken] at hread
  split at hread
  · exact absurd hread (by simp)
  · next b t hle hfront =>
      obtain ⟨w, q, hbody, rfl, -⟩ := of_map_eq_ok (f := id) (fun _ _ => ⟨rfl, rfl⟩) hread
      split at hbody
      · obtain ⟨⟨u, z⟩, hmembers, hu⟩ := exists_of_map_ok hbody
        obtain rfl := (Prod.mk.inj hu).1
        exact h.keeps.members hmembers hstart
      · split at hbody
        · simp only at hbody
          split at hbody
          · exact absurd hbody (by simp)
          · next filled z helements =>
              obtain ⟨_, -, hfinish⟩ := exists_of_map_ok hbody
              exact ⟨filled, h.elements (fun _ hf => hf) helements hstart,
                (Prod.mk.inj hfinish).1.symm⟩
        · exact absurd hbody (wrongType_ne_ok _ _ _)

end Ensures
end Record
end Json

open Json

namespace Job

theorem ensures_nesting
    (depth : Nat) :
    record.Ensures depth fun draft => ∀ o, draft.payload = some o → o.nesting ≤ depth := by
  simp only [Record.Ensures, record, List.forall_mem_cons]
  refine ⟨Field.ensures_of fun _ _ _ _ _ hknown => hknown,
    Field.ensures_of fun _ _ _ _ _ hknown => hknown,
    Field.ensures_of fun s v r draft hread _ o ho => ?_,
    Field.ensures_of fun _ _ _ _ _ hknown => hknown,
    Field.ensures_of fun _ _ _ _ _ hknown => hknown, List.forall_mem_nil _⟩
  obtain rfl := Option.some.inj ho
  exact nesting_of_read_object hread

/-- **The payload of a decoded job has no more levels than the job leaves room for.** -/
theorem nesting_of_decode
    {text : Bytes}
    {j : Job}
    (h : Codec.decode kind text = .ok j) :
    j.payload.nesting ≤ Codec.maxLevels := by
  obtain ⟨r, hread⟩ := Codec.read_of_decode h
  obtain ⟨filled, hknown, rfl⟩ := (ensures_nesting Codec.maxLevels).read hread (by simp [record])
  show (filled.payload.getD .empty).nesting ≤ Codec.maxLevels
  cases hpayload : filled.payload with
  | none => exact Nat.le_of_ble_eq_true rfl
  | some o => exact hknown o hpayload

end Job

namespace Message

theorem ensures_nesting
    (depth : Nat) :
    record.Ensures depth fun draft => ∀ o, draft.data = some o → o.nesting ≤ depth := by
  simp only [Record.Ensures, record, List.forall_mem_cons]
  refine ⟨Field.ensures_of fun _ _ _ _ _ hknown => hknown,
    Field.ensures_of fun s v r draft hread _ o ho => ?_,
    Field.ensures_of fun _ _ _ _ _ hknown => hknown, List.forall_mem_nil _⟩
  obtain rfl := Option.some.inj ho
  exact nesting_of_read_object hread

/-- **The data of a decoded message have no more levels than the message leaves room for.** -/
theorem nesting_of_decode
    {text : Bytes}
    {m : Message}
    (h : Codec.decode kind text = .ok m) :
    m.data.nesting ≤ Codec.maxLevels := by
  obtain ⟨r, hread⟩ := Codec.read_of_decode h
  obtain ⟨filled, hknown, rfl⟩ := (ensures_nesting Codec.maxLevels).read hread (by simp [record])
  show (filled.data.getD .empty).nesting ≤ Codec.maxLevels
  cases hdata : filled.data with
  | none => exact Nat.le_of_ble_eq_true rfl
  | some o => exact hknown o hdata

end Message

namespace Codec

/-- The bytes of the record that a text holds. -/
def rewritten (α : Type) [Decode α] [Encode α] (kind : String) (text : Bytes) :
    Except CodecError Bytes :=
  (decode (α := α) kind text).bind (encode kind)

/-- The bytes of the record that a text holds are written without a failure, hold the same
record, and are left as they are when they are rewritten. -/
def HasNormalForm {α : Type} [Decode α] [Encode α] (kind : String) (text : Bytes) (v : α) : Prop :=
  ∃ normal, encode kind v = .ok normal ∧ rewritten α kind text = .ok normal ∧
    decode kind normal = .ok v ∧ rewritten α kind normal = .ok normal

theorem hasNormalForm_of_comesBack
    {α : Type}
    [Decode α]
    [Encode α]
    {kind : String}
    {text normal : Bytes}
    {v : α}
    {levels limit : Nat}
    (hdecode : decode kind text = .ok v)
    (hencode : encode kind v = .ok normal)
    (hback : ComesBack kind normal v levels limit)
    (hlevels : levels ≤ limit) :
    HasNormalForm kind text v := by
  have hnormal : decode kind normal = .ok v := hback.1.2 hlevels
  refine ⟨normal, hencode, ?_, hnormal, ?_⟩
  · rw [rewritten, hdecode]
    exact hencode
  · rw [rewritten, hnormal]
    exact hencode

/-- **Decoding and encoding again is a normal form.**  For every text that holds a job
without floating-point numbers, in whatever way it is written, the job is encoded without a
failure, comes back from the bytes as the same job, and is encoded as the same bytes again.
The same holds for messages. -/
theorem rewritten_is_normal :
    (∀ (text : Bytes) (j : Job), decode Job.kind text = .ok j → j.payload.isExact = true →
      HasNormalForm Job.kind text j) ∧
      ∀ (text : Bytes) (m : Message), decode Message.kind text = .ok m → m.data.isExact = true →
        HasNormalForm Message.kind text m := by
  constructor
  · intro text j hdecode hexact
    exact hasNormalForm_of_comesBack hdecode rfl (job_comesBack j hexact)
      (Job.nesting_of_decode hdecode)
  · intro text m hdecode hexact
    exact hasNormalForm_of_comesBack hdecode rfl (message_comesBack m hexact)
      (Message.nesting_of_decode hdecode)

/-- A job as a list, with an escape, a key given twice, a leap second in another zone and no
retries. -/
def spelledOut : Bytes :=
  Utf8.encode ("[\"i\", \"\\u0074\", \x7b\"b\":1,\"a\":2,\"b\":3\x7d, " ++
    "\"2016-12-31T18:59:60.1234567891-05:00\"]")

/-- Its normal form. -/
def spelledOutNormal : Bytes :=
  Utf8.encode ("\x7b\"id\":\"i\",\"type\":\"t\",\"payload\":\x7b\"a\":2,\"b\":3\x7d," ++
    "\"created_at\":\"2016-12-31T23:59:60.123456789Z\",\"retries\":0\x7d")

theorem rewritten_spelledOut :
    ∃ j : Job, decode Job.kind spelledOut = .ok j ∧ j.payload.isExact = true ∧
      j.write = spelledOutNormal ∧ HasNormalForm Job.kind spelledOut j := by
  have hholds : ((decode (α := Job) Job.kind spelledOut).toOption.map fun j =>
      (j.payload.isExact, j.write)) = some (true, spelledOutNormal) := by
    decide +kernel
  cases hdecode : decode (α := Job) Job.kind spelledOut with
  | error e =>
      rw [hdecode] at hholds
      exact absurd hholds (by simp [Except.toOption])
  | ok j =>
      rw [hdecode] at hholds
      obtain ⟨hexact, hwrite⟩ := Prod.mk.inj (Option.some.inj hholds)
      exact ⟨j, rfl, hexact, hwrite, rewritten_is_normal.1 spelledOut j hdecode hexact⟩

end Codec
end Courier
