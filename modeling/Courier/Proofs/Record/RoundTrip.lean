import Courier.Proofs.Json.Types
import Courier.Record.Job
import Courier.Record.Message

/-!
# Stored records are read back

A record is written as an object of its fields and read field by field into a
draft.  The reading keeps the depth limit if each field does, so a record comes
back exactly when what it carries nests no deeper than the limit leaves room for.

**Results.**
* `Record.Fills`: fields that fill a draft, and under which limit.
* `Record.Fills.within_read`: reading the written fields.
* `Job.within_read`, `Message.within_read`: reading a written record.
* `Job.write_inj`: different jobs have different bytes.
* `Codec.ComesBack`: what the bytes of a value are decoded to.
* `Codec.job_comesBack`, `Codec.message_comesBack`, `Codec.value_comesBack`: the
  kinds of stored values, each with its limit.
* `Codec.records_round_trip`: every job and every message.
-/

namespace Courier
namespace Json

/-- The bytes of a field in its record. -/
def writeField (f : String × Bytes) : Bytes :=
  writeString f.1 ++ 0x3A :: f.2

theorem intercalate_comma
    (x : Bytes)
    (xs : List Bytes) :
    List.intercalate [0x2C] (x :: xs) = x ++ xs.flatMap (0x2C :: ·) := by
  induction xs generalizing x with
  | nil => simp
  | cons y ys ih => rw [List.intercalate_cons_cons, ih]; simp

theorem writeRecord_cons
    (f : String × Bytes)
    (fs : List (String × Bytes))
    (rest : Bytes) :
    writeRecord (f :: fs) ++ rest =
      0x7B :: (writeField f ++ (fs.flatMap (fun g => 0x2C :: writeField g) ++ 0x7D :: rest)) := by
  simp [writeRecord, intercalate_comma, writeField, List.flatMap_map]

namespace Record

variable {ρ α : Type}

theorem bare_members_field
    {rec : Record ρ α}
    {draft : ρ}
    {name : String}
    {f : Field ρ}
    (depth : Nat)
    (first : Bool)
    (t : Bytes)
    (hfind : rec.fields.find? (fun f => f.name == name) = some f)
    (hset : f.isSet draft = false) :
    bare (rec.members depth first draft (entry first 0x2C (writeString name ++ 0x3A :: t))) =
      (bare (f.read depth t)).bind fun y => bare (rec.members depth false (y.1 draft) y.2) := by
  obtain ⟨hn, hnext⟩ := nextMember_writeString first name (0x3A :: t)
  obtain ⟨hk, hkey⟩ := memberKey_writeString name (0x3A :: t)
  obtain ⟨hc, hcolon⟩ := colon_colon t
  rw [members, hnext]
  simp only
  rw [hkey]
  simp only [memberValue, hfind, hset, hcolon]
  rcases hread : f.read depth t with e | ⟨set, q⟩
  · rfl
  · exact bare_map_same fun _ _ => ⟨rfl, rfl⟩

theorem bare_members_end
    {rec : Record ρ α}
    {draft : ρ}
    (depth : Nat)
    (first : Bool)
    (rest : Bytes)
    (hmissing : rec.missing? draft = none) :
    bare (rec.members depth first draft (0x7D :: rest)) = .ok (rec.finish draft, rest) := by
  obtain ⟨_, hnext⟩ := nextMember_end first rest
  obtain ⟨_, hend⟩ := endObject_end rest
  rw [members, hnext]
  simp only
  rw [hend]
  simp only [hmissing]
  rfl

/-- Written fields that fill a draft: each is known, still open and read back under
its own limit, and all limits are kept together. -/
inductive Fills (rec : Record ρ α) (depth : Nat) : ρ → List (String × Bytes) → Prop → ρ → Prop where
  | nil (draft : ρ) : Fills rec depth draft [] True draft
  | cons
      (name : String)
      {draft filled : ρ}
      {bytes : Bytes}
      {f : Field ρ}
      {set : ρ → ρ}
      {fields : List (String × Bytes)}
      {fits more : Prop}
      (hfind : rec.fields.find? (fun f => f.name == name) = some f)
      (hset : f.isSet draft = false)
      (hread : ∀ rest, Stops rest → Within fits (bare (f.read depth (bytes ++ rest))) set rest)
      (hbehind : Fills rec depth (set draft) fields more filled) :
      Fills rec depth draft ((name, bytes) :: fields) (fits ∧ more) filled

theorem writeField_append
    (f : String × Bytes)
    (t : Bytes) :
    writeField f ++ t = writeString f.1 ++ 0x3A :: (f.2 ++ t) := by
  rw [writeField, List.append_assoc, List.cons_append]

/-- The fields behind the first are read to the end of the object. -/
theorem Fills.within_behind
    {rec : Record ρ α}
    {depth : Nat}
    {draft filled : ρ}
    {fields : List (String × Bytes)}
    {fits : Prop}
    (h : Fills rec depth draft fields fits filled)
    (hmissing : rec.missing? filled = none)
    (rest : Bytes) :
    Within fits
      (bare (rec.members depth false draft
        (fields.flatMap (fun g => 0x2C :: writeField g) ++ 0x7D :: rest)))
      (rec.finish filled) rest := by
  induction h with
  | nil draft => exact Within.of_eq_ok trivial (bare_members_end depth false rest hmissing)
  | cons _ hfind hset hread _ ih =>
      rw [List.flatMap_cons, List.append_assoc, List.cons_append, writeField_append]
      show Within _ (bare (rec.members depth false _ (entry false 0x2C _))) _ _
      rw [bare_members_field depth false _ hfind hset]
      exact (hread _ (stops_flatMap_comma _ _ rest (by decide))).bind (ih hmissing)

/-- **A written record is read back under the limits of its fields.** -/
theorem Fills.within_read
    {rec : Record ρ α}
    {depth : Nat}
    {filled : ρ}
    {f : String × Bytes}
    {fields : List (String × Bytes)}
    {fits : Prop}
    (h : Fills rec depth rec.start (f :: fields) fits filled)
    (hmissing : rec.missing? filled = none)
    (rest : Bytes) :
    Within fits (bare (rec.read (depth + 1) (writeRecord (f :: fields) ++ rest)))
      (rec.finish filled) rest := by
  rw [writeRecord_cons, read, bare_atToken _ _ (by decide), if_pos rfl]
  show Within fits (bare ((rec.members depth true rec.start _).map _)) _ _
  rw [bare_map_same fun _ _ => ⟨rfl, rfl⟩]
  cases h with
  | cons _ hfind hset hread hbehind =>
      rw [writeField_append]
      show Within _ (bare (rec.members depth true _ (entry true 0x2C _))) _ _
      rw [bare_members_field depth true _ hfind hset]
      exact (hread _ (stops_flatMap_comma _ _ rest (by decide))).bind
        (hbehind.within_behind hmissing rest)

/-- A field of a type is read as a value of that type. -/
theorem within_fieldOf
    {β : Type}
    [Decode β]
    {name : String}
    {required : Bool}
    {get : ρ → Option β}
    {set : β → ρ → ρ}
    {depth : Nat}
    {s rest : Bytes}
    {v : β}
    {fits : Prop}
    (h : Within fits (bare (Decode.read depth s)) v rest) :
    Within fits (bare ((Field.of name required get set).read depth s)) (set v) rest := by
  have hread : bare ((Field.of name required get set).read depth s) =
      (bare (Decode.read depth s)).map fun y => (set y.1, y.2) :=
    bare_map set fun _ _ => ⟨rfl, rfl⟩
  rw [hread]
  exact h.map set

end Record

end Json

open Json
open Json.Record (Fills within_fieldOf)

/-- What is left to fill in behind the creation time of a job. -/
theorem Job.fills_retries
    (depth : Nat)
    (n : UInt32)
    (draft : Job.Draft)
    (hopen : draft.retries = none) :
    Fills Job.record depth draft [("retries", Bytes.ofAscii (toString n.toNat))] (True ∧ True)
      { draft with retries := some n } :=
  Fills.cons "retries" rfl (congrArg Option.isSome hopen)
    (fun _ hrest => within_fieldOf (Within.of_eq_ok trivial (bare_read_uint32 depth n hrest)))
    (Fills.nil _)

theorem Job.within_read
    (depth : Nat)
    (j : Job)
    (hexact : j.payload.isExact = true)
    (rest : Bytes) :
    Within (j.payload.nesting ≤ depth) (bare (Decode.read (α := Job) (depth + 1) (j.write ++ rest)))
      j rest := by
  have hid := fun r (_ : Stops r) => Within.of_eq_ok trivial (bare_read_string depth j.id r)
  have htype := fun r (_ : Stops r) => Within.of_eq_ok trivial (bare_read_string depth j.type r)
  have hpayload := fun r (_ : Stops r) => within_read_object depth j.payload hexact r
  obtain ⟨id, type, payload, createdAt, retries⟩ := j
  cases createdAt with
  | none =>
      have hfills : Fills Job.record depth Job.record.start _ _ _ :=
        Fills.cons "id" rfl rfl (fun r hr => within_fieldOf (hid r hr)) <|
        Fills.cons "type" rfl rfl (fun r hr => within_fieldOf (htype r hr)) <|
        Fills.cons "payload" rfl rfl (fun r hr => within_fieldOf (hpayload r hr)) <|
        Job.fills_retries depth retries _ rfl
      exact (hfills.within_read rfl rest).iff (by simp)
  | some t =>
      have htime := fun r (_ : Stops r) =>
        Within.of_eq_ok trivial (bare_read_some_timestamp depth t r)
      have hfills : Fills Job.record depth Job.record.start _ _ _ :=
        Fills.cons "id" rfl rfl (fun r hr => within_fieldOf (hid r hr)) <|
        Fills.cons "type" rfl rfl (fun r hr => within_fieldOf (htype r hr)) <|
        Fills.cons "payload" rfl rfl (fun r hr => within_fieldOf (hpayload r hr)) <|
        Fills.cons "created_at" rfl rfl (fun r hr => within_fieldOf (htime r hr)) <|
        Job.fills_retries depth retries _ rfl
      exact (hfills.within_read rfl rest).iff (by simp)

/-- **Different jobs have different bytes.**  However deep the payloads are, a reader that may
open enough containers tells the jobs apart. -/
theorem Job.write_inj
    {j k : Job}
    (hj : j.payload.isExact = true)
    (hk : k.payload.isExact = true) :
    j.write = k.write ↔ j = k := by
  constructor
  · intro hwrite
    let depth := max j.payload.nesting k.payload.nesting
    have hreadj := (Job.within_read depth j hj []).1 (Nat.le_max_left _ _)
    have hreadk := (Job.within_read depth k hk []).1 (Nat.le_max_right _ _)
    rw [hwrite, hreadk] at hreadj
    exact (Prod.mk.inj (Except.ok.inj hreadj)).1.symm
  · rintro rfl
    rfl

theorem Message.within_read
    (depth : Nat)
    (m : Message)
    (hexact : m.data.isExact = true)
    (rest : Bytes) :
    Within (m.data.nesting ≤ depth)
      (bare (Decode.read (α := Message) (depth + 1) (m.write ++ rest))) m rest := by
  have hchannel := fun r (_ : Stops r) =>
    Within.of_eq_ok trivial (bare_read_string depth m.channel r)
  have hdata := fun r (_ : Stops r) => within_read_object depth m.data hexact r
  have htime := fun r (_ : Stops r) =>
    Within.of_eq_ok trivial (bare_read_timestamp depth m.timestamp r)
  have hfills : Fills Message.record depth Message.record.start _ _ _ :=
    Fills.cons "channel" rfl rfl (fun r hr => within_fieldOf (hchannel r hr)) <|
    Fills.cons "data" rfl rfl (fun r hr => within_fieldOf (hdata r hr)) <|
    Fills.cons "timestamp" rfl rfl (fun r hr => within_fieldOf (htime r hr)) <|
    Fills.nil _
  exact (hfills.within_read rfl rest).iff (by simp)

namespace Codec

/-- How many levels of containers the payload of a record may have: the record
itself is one more. -/
def maxLevels : Nat := 126

/-- A failure of the decoder that names the depth of the containers. -/
def TooDeep (kind : String) (e : CodecError) : Prop :=
  ∃ line column : Nat,
    e = .decode kind
      ("recursion limit exceeded at line " ++ toString line ++ " column " ++ toString column)

/-- What the bytes of a value are decoded to: the value if it has no more levels of
containers than the limit, and otherwise a failure that names the depth. -/
def ComesBack {α : Type} [Decode α] (kind : String) (bytes : Bytes) (v : α)
    (levels limit : Nat) : Prop :=
  (decode kind bytes = .ok v ↔ levels ≤ limit) ∧
    (limit < levels → ∃ e, decode (α := α) kind bytes = .error e ∧ TooDeep kind e)

/-- What is decoded is read at the beginning of its text. -/
theorem read_of_decode
    {α : Type}
    [Decode α]
    {kind : String}
    {text : Bytes}
    {v : α}
    (h : decode kind text = .ok v) :
    ∃ r : Rest text, Decode.read maxDepth text = .ok (v, r) := by
  rw [decode, Json.decode, decodeWith] at h
  cases hread : Decode.read (α := α) maxDepth text with
  | error f =>
      rw [hread] at h
      exact absurd h (by simp [Except.mapError])
  | ok read =>
      obtain ⟨w, r⟩ := read
      rw [hread] at h
      simp only at h
      split at h
      · obtain rfl : w = v := Except.ok.inj h
        exact ⟨r, rfl⟩
      · exact absurd h (by simp [Except.mapError])

theorem comesBack_of_within
    {α : Type}
    [Decode α]
    {bytes : Bytes}
    {v : α}
    {levels limit : Nat}
    (kind : String)
    (h : Within (levels ≤ limit) (bare (Decode.read maxDepth bytes)) v []) :
    ComesBack kind bytes v levels limit := by
  obtain ⟨hback, hrefused⟩ := decode_of_within h
  have hdeep : limit < levels → ∃ e, decode (α := α) kind bytes = .error e ∧ TooDeep kind e := by
    intro hlimit
    obtain ⟨left, hleft⟩ := hrefused (Nat.not_le_of_lt hlimit)
    refine ⟨_, ?_, (position (bytes.take (bytes.length - left))).1,
      (position (bytes.take (bytes.length - left))).2, rfl⟩
    rw [decode, hleft]
    rfl
  refine ⟨⟨?_, ?_⟩, hdeep⟩
  · intro hok
    rcases Nat.lt_or_ge limit levels with hlimit | hlimit
    · obtain ⟨e, herror, _⟩ := hdeep hlimit
      rw [herror] at hok
      exact absurd hok (by simp)
    · exact hlimit
  · intro hlimit
    rw [decode, hback hlimit]
    rfl

theorem job_comesBack
    (j : Job)
    (hexact : j.payload.isExact = true) :
    ComesBack Job.kind j.write j j.payload.nesting maxLevels := by
  have hread := Job.within_read maxLevels j hexact []
  rw [List.append_nil] at hread
  exact comesBack_of_within Job.kind hread

theorem message_comesBack
    (m : Message)
    (hexact : m.data.isExact = true) :
    ComesBack Message.kind m.write m m.data.nesting maxLevels := by
  have hread := Message.within_read maxLevels m hexact []
  rw [List.append_nil] at hread
  exact comesBack_of_within Message.kind hread

/-- A value that is no part of a record has all levels for itself. -/
theorem value_comesBack
    (kind : String)
    (v : Value)
    (hexact : v.isExact = true)
    (hcanonical : v.isCanonical = true) :
    ComesBack kind v.write v v.nesting maxDepth := by
  have hread := within_read_value maxDepth v hexact hcanonical stops_nil
  rw [List.append_nil] at hread
  exact comesBack_of_within kind hread

/-- **Every job and every message without floating-point numbers can be encoded,
and comes back from its bytes exactly when its payload has at most 126 levels of
containers**; a deeper one is refused for its depth. -/
theorem records_round_trip :
    (∀ j : Job, j.payload.isExact = true → ∃ bytes, encode Job.kind j = .ok bytes ∧
      ComesBack Job.kind bytes j j.payload.nesting maxLevels) ∧
      (∀ m : Message, m.data.isExact = true → ∃ bytes, encode Message.kind m = .ok bytes ∧
        ComesBack Message.kind bytes m m.data.nesting maxLevels) := by
  constructor
  · intro j hexact
    exact ⟨j.write, rfl, job_comesBack j hexact⟩
  · intro m hexact
    exact ⟨m.write, rfl, message_comesBack m hexact⟩

end Codec

end Courier
