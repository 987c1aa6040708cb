import Courier.Proofs.Json.Compact
import Courier.Proofs.Json.Passed
import Courier.Proofs.Record.RoundTrip

/-!
# The members of a record in any order

The members of a record may stand in any order and be laid out in any way, and members of
other names may stand between them.  What is read depends on the known members alone: each
sets its own field, one that comes again is refused, and at the end the required ones must be
there.

**Results.**
* `Record.absorb`: what the members of an object make of a draft.
* `Record.outcome_members`, `Record.outcome_read`: reading the members of any text.
* `Record.absorb_ok_iff`, `Record.isSet_of_absorb`: when members are absorbed, and what is set
  then.
-/

namespace Courier
namespace Json

namespace Record

variable {ρ α : Type}

/-- The field of a name. -/
def field? (rec : Record ρ α) (name : String) : Option (Field ρ) :=
  rec.fields.find? fun f => f.name == name

theorem name_of_field?
    {rec : Record ρ α}
    {name : String}
    {f : Field ρ}
    (h : rec.field? name = some f) :
    f.name = name := by
  simpa using List.find?_some h

/-- What members make of a draft, each given by its name and what it sets: the draft that is
filled, or the name that comes again. -/
def absorb (rec : Record ρ α) (draft : ρ) : List (String × (ρ → ρ)) → Except String ρ
  | [] => .ok draft
  | (name, set) :: events =>
      match rec.field? name with
      | none => absorb rec draft events
      | some f => if f.isSet draft then .error name else absorb rec (set draft) events

section Absorb

variable {rec : Record ρ α} {draft : ρ} {name : String} {set : ρ → ρ}
variable {events : List (String × (ρ → ρ))} {f : Field ρ}

theorem absorb_unknown
    (h : rec.field? name = none) :
    rec.absorb draft ((name, set) :: events) = rec.absorb draft events := by
  rw [absorb, h]

theorem absorb_known
    (h : rec.field? name = some f)
    (hopen : f.isSet draft = false) :
    rec.absorb draft ((name, set) :: events) = rec.absorb (set draft) events := by
  rw [absorb, h]
  simp only [hopen, Bool.false_eq_true, if_false]

theorem absorb_repeated
    (h : rec.field? name = some f)
    (hset : f.isSet draft = true) :
    rec.absorb draft ((name, set) :: events) = .error name := by
  rw [absorb, h]
  simp only [hset, if_true]

end Absorb

/-- A member that is read as an event: its value is one of its field, or anything if there is
no field of its name. -/
structure Sets (rec : Record ρ α) (depth : Nat) (m : Member Tree) (e : String × (ρ → ρ)) :
    Prop where
  named : m.name? = some e.1
  read : ∀ f, rec.field? e.1 = some f → ∀ (w : Blanks) (rest : Bytes), Stops rest →
    bare (f.read depth (w.val ++ (m.item.value.text ++ rest))) = .ok (e.2, rest)

/-- The outcome of an object with the events, in front of what follows it. -/
def Outcome (rec : Record ρ α) (draft : ρ) (events : List (String × (ρ → ρ))) (rest : Bytes)
    (x : Except Fault (α × Bytes)) : Prop :=
  match rec.absorb draft events with
  | .error name => ∃ left, x = .error ⟨.duplicateField name, left⟩
  | .ok filled =>
      match rec.missing? filled with
      | some f => ∃ left, x = .error ⟨.missingField f.name, left⟩
      | none => x = .ok (rec.finish filled, rest)

section Step

variable {rec : Record ρ α} {depth : Nat} {first : Bool} {draft : ρ} {key : String}
variable {s r u c : Bytes} {h₁ : r.length ≤ s.length} {h₂ : u.length < r.length}
variable {h₃ : c.length < u.length}

theorem bare_members_known
    {f : Field ρ}
    (hnext : nextMember first s = .ok (true, ⟨r, h₁⟩))
    (hkey : memberKey r = .ok (key, ⟨u, h₂⟩))
    (hcolon : colon u = .ok ⟨c, h₃⟩)
    (hfind : rec.field? key = some f)
    (hopen : f.isSet draft = false) :
    bare (rec.members depth first draft s) =
      (bare (f.read depth c)).bind fun y => bare (rec.members depth false (y.1 draft) y.2) := by
  rw [field?] at hfind
  rw [members, hnext]
  simp only
  rw [hkey]
  simp only [memberValue, hfind, hopen, hcolon]
  rcases hread : f.read depth c with e | ⟨set, q⟩
  · rfl
  · exact bare_map_same fun _ _ => ⟨rfl, rfl⟩

theorem bare_members_unknown
    (hnext : nextMember first s = .ok (true, ⟨r, h₁⟩))
    (hkey : memberKey r = .ok (key, ⟨u, h₂⟩))
    (hcolon : colon u = .ok ⟨c, h₃⟩)
    (hfind : rec.field? key = none) :
    bare (rec.members depth first draft s) =
      (bare (skipValue c)).bind fun y => bare (rec.members depth false draft y.2) := by
  rw [field?] at hfind
  rw [members, hnext]
  simp only
  rw [hkey]
  simp only [memberValue, hfind, hcolon]
  rcases hskip : skipValue c with e | ⟨_, q⟩
  · rfl
  · exact bare_map_same fun _ _ => ⟨rfl, rfl⟩

theorem bare_members_repeated
    {f : Field ρ}
    (hnext : nextMember first s = .ok (true, ⟨r, h₁⟩))
    (hkey : memberKey r = .ok (key, ⟨u, h₂⟩))
    (hfind : rec.field? key = some f)
    (hset : f.isSet draft = true) :
    ∃ left, bare (rec.members depth first draft s) = .error ⟨.duplicateField key, left⟩ := by
  have hname := name_of_field? hfind
  rw [field?] at hfind
  refine ⟨(settled u).length, ?_⟩
  rw [members, hnext]
  simp only
  rw [hkey]
  simp only [memberValue, hfind, hset, if_true, bare_error, hname]
  rfl

end Step

theorem outcome_close
    (rec : Record ρ α)
    (depth : Nat)
    (first : Bool)
    (draft : ρ)
    (w : Blanks)
    (rest : Bytes) :
    rec.Outcome draft [] rest (bare (rec.members depth first draft (w.val ++ 0x7D :: rest))) := by
  obtain ⟨_, hnext⟩ := nextMember_close first w rest
  obtain ⟨_, hend⟩ := endObject_end rest
  rw [members, hnext]
  simp only
  rw [hend]
  simp only [Outcome, absorb]
  cases rec.missing? draft with
  | none => rfl
  | some f => exact ⟨_, rfl⟩

/-- **What is read of the members of an object is what they make of the draft**, however they
are laid out and whatever stands between them under other names. -/
theorem outcome_members
    {rec : Record ρ α}
    {depth : Nat}
    {members : List (Member Tree)}
    {events : List (String × (ρ → ρ))}
    (h : List.Forall₂ (rec.Sets depth) members events)
    (first : Bool)
    (draft : ρ)
    (w inner : Blanks)
    (rest : Bytes) :
    rec.Outcome draft events rest (bare (rec.members depth first draft
      (w.val ++ (joined first (members.map Member.text) ++ (inner.val ++ 0x7D :: rest))))) := by
  -- Each member changes the draft, and leaves the white space behind it to the next one.
  induction h generalizing first draft w with
  | nil =>
      rw [List.map_nil, joined, List.nil_append, ← List.append_assoc]
      exact outcome_close rec depth first draft (w.append inner) rest
  | @cons m e members events hm _ ih =>
      obtain ⟨name, set⟩ := e
      obtain ⟨hname, hread⟩ := hm
      have hstops := stops_blanks m.item.after
        (stops_joined (members.map Member.text) inner rest (b := 0x7D) (by decide))
      obtain ⟨_, _, _, _, _, hnext, hkey, hcolon⟩ := member_front first w hname
        (joined false (members.map Member.text) ++ (inner.val ++ 0x7D :: rest))
      rw [List.map_cons, joined, entry_append, List.append_assoc, Outcome]
      cases hfind : rec.field? name with
      | none =>
          have hskip := m.item.value.bare_skipValue m.item.before hstops
          rw [absorb_unknown hfind, bare_members_unknown hnext hkey hcolon hfind, Item.text,
            List.append_assoc, List.append_assoc, hskip]
          exact ih false draft m.item.after
      | some f =>
          cases hset : f.isSet draft with
          | true =>
              rw [absorb_repeated hfind hset]
              exact bare_members_repeated hnext hkey hfind hset
          | false =>
              rw [absorb_known hfind hset, bare_members_known hnext hkey hcolon hfind hset,
                Item.text, List.append_assoc, List.append_assoc,
                hread f hfind m.item.before _ hstops]
              exact ih false (set draft) m.item.after

/-- A member sets the field of its name and no other. -/
def Marks (rec : Record ρ α) (e : String × (ρ → ρ)) : Prop :=
  (rec.field? e.1).isSome = true → ∀ n f draft, rec.field? n = some f →
    f.isSet (e.2 draft) = (n == e.1 || f.isSet draft)

/-- No field comes twice, or is set already where it comes. -/
def Once (rec : Record ρ α) (draft : ρ) (names : List String) : Prop :=
  ∀ n f, rec.field? n = some f → names.count n ≤ 1 ∧ (f.isSet draft = true → n ∉ names)

section Once

variable {rec : Record ρ α} {draft filled : ρ} {events : List (String × (ρ → ρ))}

theorem once_cons_unknown
    {name : String}
    {names : List String}
    (h : rec.field? name = none) :
    rec.Once draft (name :: names) ↔ rec.Once draft names := by
  have hne : ∀ n f, rec.field? n = some f → name ≠ n := by
    rintro n f hf rfl
    exact absurd (h.symm.trans hf) (by simp)
  refine forall_congr' fun n => forall_congr' fun f => imp_congr_right fun hf => ?_
  rw [List.count_cons_of_ne (hne n f hf), List.mem_cons, or_iff_right (hne n f hf).symm]

theorem once_cons_known
    {e : String × (ρ → ρ)}
    {f : Field ρ}
    {names : List String}
    (h : rec.field? e.1 = some f)
    (hopen : f.isSet draft = false)
    (hmarks : rec.Marks e) :
    rec.Once draft (e.1 :: names) ↔ rec.Once (e.2 draft) names := by
  have hset := hmarks (h ▸ rfl)
  refine forall_congr' fun n => forall_congr' fun g => imp_congr_right fun hg => ?_
  rw [hset n g draft hg]
  by_cases hn : n = e.1
  · subst hn
    obtain rfl : f = g := Option.some.inj (h.symm.trans hg)
    constructor
    · rintro ⟨hcount, -⟩
      have hnone : e.1 ∉ names := by
        rw [List.count_cons_self] at hcount
        exact List.count_eq_zero.1 (by omega)
      exact ⟨by rw [List.count_eq_zero.2 hnone]; exact Nat.zero_le 1, fun _ => hnone⟩
    · rintro ⟨-, hnone⟩
      refine ⟨?_, fun hf => absurd hf (by simp [hopen])⟩
      rw [List.count_cons_self, List.count_eq_zero.2 (hnone (by simp))]
  · rw [List.count_cons_of_ne (Ne.symm hn), List.mem_cons, or_iff_right hn, beq_false_of_ne hn,
      Bool.false_or]

/-- **Members are absorbed exactly if no field comes twice.** -/
theorem absorb_ok_iff
    (hmarks : ∀ e ∈ events, rec.Marks e) :
    (∃ filled, rec.absorb draft events = .ok filled) ↔ rec.Once draft (events.map (·.1)) := by
  induction events generalizing draft with
  | nil => exact ⟨fun _ n f _ => by simp, fun _ => ⟨draft, rfl⟩⟩
  | cons e events ih =>
      rw [List.forall_mem_cons] at hmarks
      rw [List.map_cons]
      cases hfind : rec.field? e.1 with
      | none => rw [absorb_unknown hfind, once_cons_unknown hfind, ih hmarks.2]
      | some f =>
          cases hset : f.isSet draft with
          | true =>
              rw [absorb_repeated hfind hset]
              refine iff_of_false (fun ⟨_, h⟩ => absurd h (by simp)) fun h => ?_
              exact (h e.1 f hfind).2 hset List.mem_cons_self
          | false =>
              rw [absorb_known hfind hset, once_cons_known hfind hset hmarks.1, ih hmarks.2]

/-- The name at which absorbing stops comes twice, or was set before. -/
theorem of_absorb_error
    {name : String}
    (hmarks : ∀ e ∈ events, rec.Marks e)
    (h : rec.absorb draft events = .error name) :
    ∃ f, rec.field? name = some f ∧
      (f.isSet draft = true ∨ 1 < (events.map (·.1)).count name) ∧ name ∈ events.map (·.1) := by
  induction events generalizing draft with
  | nil => exact absurd h (by simp [absorb])
  | cons e events ih =>
      rw [List.forall_mem_cons] at hmarks
      rw [List.map_cons]
      cases hfind : rec.field? e.1 with
      | none =>
          rw [absorb_unknown hfind] at h
          obtain ⟨f, hf, hcount, hmem⟩ := ih hmarks.2 h
          exact ⟨f, hf, hcount.imp_right fun hlt => Nat.lt_of_lt_of_le hlt List.count_le_count_cons,
            List.mem_cons_of_mem _ hmem⟩
      | some g =>
          cases hset : g.isSet draft with
          | true =>
              rw [absorb_repeated hfind hset] at h
              obtain rfl : e.1 = name := Except.error.inj h
              exact ⟨g, hfind, Or.inl hset, List.mem_cons_self⟩
          | false =>
              rw [absorb_known hfind hset] at h
              obtain ⟨f, hf, hcount, hmem⟩ := ih hmarks.2 h
              refine ⟨f, hf, ?_, List.mem_cons_of_mem _ hmem⟩
              rw [hmarks.1 (hfind ▸ rfl) name f draft hf] at hcount
              -- The field that is set by the first event is reported only if its name comes again.
              by_cases hname : name = e.1
              · right
                rw [hname] at hmem ⊢
                rw [List.count_cons_self]
                exact Nat.succ_lt_succ (List.count_pos_iff.2 hmem)
              · rw [beq_false_of_ne hname, Bool.false_or] at hcount
                exact hcount.imp_right fun hlt =>
                  Nat.lt_of_lt_of_le hlt List.count_le_count_cons

/-- **A field is set in the end exactly if it was before, or a member has its name.** -/
theorem isSet_of_absorb
    (hmarks : ∀ e ∈ events, rec.Marks e)
    (h : rec.absorb draft events = .ok filled)
    {n : String}
    {f : Field ρ}
    (hf : rec.field? n = some f) :
    f.isSet filled = true ↔ f.isSet draft = true ∨ n ∈ events.map (·.1) := by
  induction events generalizing draft with
  | nil =>
      obtain rfl : draft = filled := Except.ok.inj h
      simp
  | cons e events ih =>
      rw [List.forall_mem_cons] at hmarks
      rw [List.map_cons, List.mem_cons]
      cases hfind : rec.field? e.1 with
      | none =>
          have hne : n ≠ e.1 := by
            rintro rfl
            exact absurd (hfind.symm.trans hf) (by simp)
          rw [absorb_unknown hfind] at h
          rw [ih hmarks.2 h, or_iff_right hne]
      | some g =>
          cases hset : g.isSet draft with
          | true =>
              rw [absorb_repeated hfind hset] at h
              exact absurd h (by simp)
          | false =>
              rw [absorb_known hfind hset] at h
              rw [ih hmarks.2 h, hmarks.1 (hfind ▸ rfl) n f draft hf, Bool.or_eq_true, beq_iff_eq,
                or_assoc, or_left_comm]

/-- What every event keeps is kept to the end. -/
theorem keeps_of_absorb
    {Known : ρ → Prop}
    (hkeeps : ∀ e ∈ events, ∀ draft, Known draft → Known (e.2 draft))
    (h : rec.absorb draft events = .ok filled)
    (hknown : Known draft) :
    Known filled := by
  induction events generalizing draft with
  | nil =>
      obtain rfl : draft = filled := Except.ok.inj h
      exact hknown
  | cons e events ih =>
      rw [List.forall_mem_cons] at hkeeps
      cases hfind : rec.field? e.1 with
      | none =>
          rw [absorb_unknown hfind] at h
          exact ih hkeeps.2 h hknown
      | some g =>
          cases hset : g.isSet draft with
          | true =>
              rw [absorb_repeated hfind hset] at h
              exact absurd h (by simp)
          | false =>
              rw [absorb_known hfind hset] at h
              exact ih hkeeps.2 h (hkeeps.1 draft hknown)

end Once

theorem outcome_read
    {rec : Record ρ α}
    {depth : Nat}
    {members : List (Member Tree)}
    {events : List (String × (ρ → ρ))}
    (h : List.Forall₂ (rec.Sets depth) members events)
    (w inner : Blanks)
    (rest : Bytes) :
    rec.Outcome rec.start events rest
      (bare (rec.read (depth + 1) (w.val ++ ((Tree.object members inner).text ++ rest)))) := by
  rw [Tree.text, Tree.memberTexts_eq, List.cons_append, List.append_assoc, List.append_assoc,
    List.singleton_append, read, bare_atToken_blanks _ w _ (by decide), if_pos rfl]
  show rec.Outcome rec.start events rest (bare ((rec.members depth true rec.start _).map _))
  rw [bare_map_same fun _ _ => ⟨rfl, rfl⟩]
  exact outcome_members h true rec.start .none inner rest

end Record

/-- White space may follow a whole text. -/
theorem decodeWith_of_ok
    {α : Type}
    {read : Reader α}
    {text : Bytes}
    {v : α}
    {after : Blanks}
    (h : bare (read text) = .ok (v, after.val)) :
    decodeWith read text = .ok v := by
  obtain ⟨_, hread⟩ := bare_eq_ok.1 h
  rw [decodeWith, hread]
  simp only
  rw [front_blanks_end]

theorem decodeWith_of_error
    {α : Type}
    {read : Reader α}
    {text : Bytes}
    {f : Fault}
    (h : bare (read text) = .error f) :
    decodeWith read text = .error f := by
  rw [decodeWith, bare_eq_error.1 h]

/-- The names of members. -/
def Member.names (members : List (Member Tree)) : List String :=
  members.filterMap Member.name?

theorem Member.names_eq
    {β : Type}
    {members : List (Member Tree)}
    {events : List (String × β)}
    (h : List.Forall₂ (fun m e => m.name? = some e.1) members events) :
    Member.names members = events.map (·.1) := by
  induction h with
  | nil => rfl
  | cons hname _ ih =>
      rw [names] at ih ⊢
      rw [List.filterMap_cons_some hname, ih, List.map_cons]

/-- The members of a written record are joined. -/
theorem joined_eq_intercalate
    (xs : List Bytes) :
    joined true xs = List.intercalate [0x2C] xs := by
  cases xs with
  | nil => rfl
  | cons x xs =>
      rw [joined, joined_false, intercalate_comma]
      rfl

theorem Member.exists_field
    {P : Tree → Prop}
    {bytes : Bytes}
    (name : String)
    (h : ∃ t : Tree, t.text = bytes ∧ P t) :
    ∃ m : Member Tree, m.text = writeField (name, bytes) ∧ m.name? = some name ∧
      P m.item.value := by
  obtain ⟨ps, hquote, hname⟩ := exists_pieces name
  obtain ⟨t, rfl, hsaid⟩ := h
  refine ⟨.compact ps t, ?_, hname, hsaid⟩
  rw [Member.text_compact, hquote, writeField]

end Json

end Courier
