import Courier.Json.Reader

/-!
# Records

A record is read from an object whose members may stand in any order, unknown
ones being passed over, or from a list of the fields in their order.  What is
known of it while reading is a draft.

**Results.**
* `Field`: a named part of a record.
* `Record.read`: the reader of a record.
-/

namespace Courier
namespace Json

/-- A named part of a record that is read into a draft. -/
structure Field (ρ : Type) where
  name : String
  read : (depth : Nat) → Reader (ρ → ρ)
  isSet : ρ → Bool
  required : Bool

/-- A field of type `α` that a draft may hold. -/
def Field.of {ρ α : Type} [Decode α] (name : String) (required : Bool)
    (get : ρ → Option α) (set : α → ρ → ρ) : Field ρ where
  name := name
  read depth := fun s => (Decode.read (α := α) depth s).map fun (v, r) => (set v, r)
  isSet := fun draft => (get draft).isSome
  required := required

/-- How a record is read: its fields in order, and what a draft with all
required fields stands for. -/
structure Record (ρ α : Type) where
  name : String
  fields : List (Field ρ)
  start : ρ
  finish : ρ → α

namespace Record

variable {ρ α : Type}

/-- What a record is called where something else was found. -/
def title (rec : Record ρ α) : String :=
  "struct " ++ rec.name

/-- What a list of fields should have been. -/
def listTitle (rec : Record ρ α) : String :=
  rec.title ++ " with " ++ toString rec.fields.length ++ " elements"

/-- Where an object is left when reading it stops at a repeated key: its end is
taken when it follows. -/
def settled (s : Bytes) : Bytes :=
  match front s with
  | .ended => []
  | .byte b t _ => if b = 0x7D then t else b :: t

/-- The first required field that a draft lacks. -/
def missing? (rec : Record ρ α) (draft : ρ) : Option (Field ρ) :=
  rec.fields.find? fun f => f.required && !f.isSet draft

/-- The value of a member: read into the draft, or passed over if its key is unknown. -/
def memberValue (rec : Record ρ α) (depth : Nat) (key : String) (draft : ρ) (s : Bytes) :
    Except Fault (ρ × Rest s) :=
  match rec.fields.find? fun f => f.name == key with
  | some f =>
      if f.isSet draft then .error (.at (.duplicateField f.name) (settled s))
      else
        match colon s with
        | .error fault => .error fault
        | .ok c =>
            (f.read depth c.val).map fun (set, r) => (set draft, c.trans r)
  | none =>
      match colon s with
      | .error fault => .error fault
      | .ok c =>
          (skipValue c.val).map fun (_, r) => (draft, c.trans r)

/-- The members behind an opening brace, and the text behind the closing one. -/
def members (rec : Record ρ α) (depth : Nat) (first : Bool) (draft : ρ) (s : Bytes) :
    Except Fault (α × Rest s) :=
  match nextMember first s with
  | .error f => .error f
  | .ok (false, r) =>
      match endObject r.val with
      | .error f => .error f
      | .ok q =>
          match rec.missing? draft with
          | some f => .error (.at (.missingField f.name) q.val)
          | none => .ok (rec.finish draft, r.rest q)
  | .ok (true, r) =>
      match memberKey r.val with
      | .error f => .error f
      | .ok (key, q) =>
          match memberValue rec depth key draft q.val with
          | .error f => .error f
          | .ok (draft, p) =>
              (members rec depth false draft p.val).map fun (v, z) =>
                (v, r.rest (q.trans (p.trans z)))
termination_by s.length
decreasing_by
  have := p.property
  have := q.property
  have := r.property
  omega

/-- The elements for the given fields, `i` fields having been read; the text is
left behind the last of them. -/
def elements (rec : Record ρ α) (depth : Nat) :
    (fields : List (Field ρ)) → (i : Nat) → (first : Bool) → ρ → (s : Bytes) →
      Except Fault (ρ × Tail s)
  | [], _, _, draft, s => .ok (draft, .all s)
  | f :: fs, i, first, draft, s =>
      match nextElement first s with
      | .error fault => .error fault
      | .ok (false, r) =>
          if f.required then
            match endList r.val with
            | .error fault => .error fault
            | .ok q => .error (.at (.invalidLength i rec.listTitle) q.val)
          else
            (elements rec depth fs (i + 1) first draft r.val).map fun (d, q) => (d, r.trans q)
      | .ok (true, r) =>
          match f.read depth r.val with
          | .error fault => .error fault
          | .ok (set, q) =>
              (elements rec depth fs (i + 1) false (set draft) q.val).map fun (d, p) =>
                (d, r.trans (q.tail p).toTail)

/-- A record from an object or a list. -/
def read (rec : Record ρ α) (depth : Nat) : Reader α :=
  atToken fun b t =>
    if b = 0x7B then
      match depth with
      | 0 => .error (.peek .recursionLimit (b :: t))
      | d + 1 =>
          (rec.members d true rec.start t).map fun (v, r) =>
            (v, r.behind)
    else if b = 0x5B then
      match depth with
      | 0 => .error (.peek .recursionLimit (b :: t))
      | d + 1 =>
          match rec.elements d rec.fields 0 true rec.start t with
          | .error f => .error f
          | .ok (draft, r) =>
              (endList r.val).map fun q =>
                (rec.finish draft, (r.rest q).behind)
    else wrongType _ rec.title (b :: t)

end Record
end Json
end Courier
