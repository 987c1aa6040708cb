import Courier.Proofs.Record.Members

/-!
# Jobs are read from all their texts

A job is read from every object that says it.  Its fields may stand in any order and any
layout, with escapes in names and values; those that have their default may be left out; and
members of other names may hold anything that is JSON.

**Results.**
* `Job.Described`, `Job.Fitting`: the texts of a job, and of fields of jobs.
* `Job.exists_described`: the stored bytes of a job are one of its texts.
* `Job.decode_text`: what is decoded from such texts.
-/

namespace Courier

open Json
open Json.Record (within_fieldOf)

namespace Job

/-- A text for the field of a name; under any other name every text will do. -/
def FieldText (j : Job) : (name : String) → Tree → Prop
  | "id", t => t.value? = some (.string j.id)
  | "type", t => t.value? = some (.string j.type)
  | "payload", t => ∃ ms, t.value? = some (.object ms) ∧
      (Value.object ms).nesting ≤ Codec.maxLevels ∧ Object.ofMembers ms = j.payload
  | "created_at", t => (t.value? = some .null ∧ j.createdAt = none) ∨
      ∃ x time, t.value? = some (.string x) ∧ Calendar.readTimestamp x = .ok time ∧
        j.createdAt = some time
  | "retries", t => ∃ least most, t.value? = some (.number (.integer j.retries.toNat least most))
  | _, _ => True

/-- What a field is if no member has its name; the type is always there. -/
def LeftOut (j : Job) : (name : String) → Prop
  | "id" => j.id = ""
  | "payload" => j.payload = .empty
  | "created_at" => j.createdAt = none
  | "retries" => j.retries = 0
  | _ => False

/-- Members that say a job: in any order, each known name at most once, and members of other
names. -/
structure Described (j : Job) (members : List (Member Tree)) : Prop where
  said : ∀ m ∈ members, ∃ name, m.name? = some name ∧ j.FieldText name m.item.value
  once : ∀ f ∈ record.fields, (Member.names members).count f.name ≤ 1
  leftOut : ∀ f ∈ record.fields, f.name ∉ Member.names members → j.LeftOut f.name

/-- Members of which each says a field of some job, or has another name. -/
def Fitting (members : List (Member Tree)) : Prop :=
  ∀ m ∈ members, ∃ (name : String) (j : Job),
    m.name? = some name ∧ j.FieldText name m.item.value

/-- The bytes of an object with white space around it. -/
def objectText (before : Blanks) (members : List (Member Tree)) (inner after : Blanks) : Bytes :=
  before.val ++ ((Tree.object members inner).text ++ after.val)

/-- The written fields of a job. -/
def written (j : Job) : List (String × Bytes) :=
  [("id", Json.writeString j.id),
   ("type", Json.writeString j.type),
   ("payload", j.payload.write)] ++
  (j.createdAt.map fun t => ("created_at", Json.writeString t.text)).toList ++
  [("retries", Bytes.ofAscii (toString j.retries.toNat))]

theorem exists_written
    (j : Job)
    (hexact : j.payload.isExact = true)
    (hdeep : j.payload.nesting ≤ Codec.maxLevels) :
    ∀ f ∈ j.written, ∃ m : Member Tree,
      m.text = writeField f ∧ m.name? = some f.1 ∧ j.FieldText f.1 m.item.value := by
  have hstring := fun s => Value.exists_tree (.string s) rfl
  have hid := Member.exists_field "id" (hstring j.id)
  have htype := Member.exists_field "type" (hstring j.type)
  have hpayload := Member.exists_field "payload" (P := j.FieldText "payload") (by
    obtain ⟨t, htext, hvalue⟩ := Value.exists_tree (.object j.payload.members) hexact
    exact ⟨t, htext, _, hvalue, hdeep, j.payload.ofMembers_members⟩)
  have hretries := Member.exists_field "retries" (P := j.FieldText "retries") (by
    have hlt := j.retries.toNat_lt
    obtain ⟨t, htext, hvalue⟩ :=
      Value.exists_tree (.number (.integer j.retries.toNat (by omega) (by omega))) rfl
    exact ⟨t, htext, _, _, hvalue⟩)
  simp only [written, List.forall_mem_append, List.forall_mem_cons]
  refine ⟨⟨⟨hid, htype, hpayload, List.forall_mem_nil _⟩, ?_⟩, hretries, List.forall_mem_nil _⟩
  cases hcreated : j.createdAt with
  | none => exact List.forall_mem_nil _
  | some time =>
      have htime := Member.exists_field "created_at" (P := j.FieldText "created_at") (by
        obtain ⟨t, htext, hvalue⟩ := hstring time.text
        exact ⟨t, htext, Or.inr
          ⟨_, _, hvalue, Calendar.Timestamp.readTimestamp_text time, hcreated⟩⟩)
      exact List.forall_mem_cons.2 ⟨htime, List.forall_mem_nil _⟩

theorem names_written
    (j : Job) :
    j.written.map (·.1) = ["id", "type", "payload"] ++
      (if j.createdAt.isSome then ["created_at"] else []) ++ ["retries"] := by
  rw [written]
  cases j.createdAt with
  | none => rfl
  | some time => rfl

/-- **The stored bytes of a job are one of its texts.** -/
theorem exists_described
    (j : Job)
    (hexact : j.payload.isExact = true)
    (hdeep : j.payload.nesting ≤ Codec.maxLevels) :
    ∃ members, j.Described members ∧ objectText .none members .none .none = j.write := by
  obtain ⟨members, hmembers⟩ := exists_forall₂ (exists_written j hexact hdeep)
  have hnames : Member.names members = _ :=
    (Member.names_eq (hmembers.flip.imp fun _ _ h => h.2.1)).trans (names_written j)
  refine ⟨members, ⟨?_, ?_, ?_⟩, ?_⟩
  · exact ((List.forall₂_and_left _ _).1 (hmembers.flip.imp fun m f h => ⟨⟨f.1, h.2⟩, h.1⟩)).1
  · rw [hnames]
    simp only [record, List.forall_mem_cons]
    cases j.createdAt.isSome with
    | false => exact ⟨by decide, by decide, by decide, by decide, by decide, List.forall_mem_nil _⟩
    | true => exact ⟨by decide, by decide, by decide, by decide, by decide, List.forall_mem_nil _⟩
  · have hthere : ∀ n ∈ ["id", "type", "payload", "retries"], n ∈ Member.names members := by
      rw [hnames]
      simp
    simp only [record, List.forall_mem_cons]
    refine ⟨absurd (hthere "id" (by decide)), absurd (hthere "type" (by decide)),
      absurd (hthere "payload" (by decide)), fun h => ?_, absurd (hthere "retries" (by decide)),
      List.forall_mem_nil _⟩
    show j.createdAt = none
    rw [← Option.not_isSome_iff_eq_none]
    intro hsome
    rw [hnames, if_pos hsome] at h
    exact h (by decide)
  · show [] ++ ((Tree.object members .none).text ++ []) = _
    rw [List.nil_append, List.append_nil, Tree.text, Tree.memberTexts_eq,
      map_eq_map_of_forall₂ (hmembers.imp fun _ _ h => h.1), joined_eq_intercalate]
    rfl

/-- What a member of a job sets. -/
def setting (j : Job) : (name : String) → Draft → Draft
  | "id", d => { d with id := some j.id }
  | "type", d => { d with type := some j.type }
  | "payload", d => { d with payload := some j.payload }
  | "created_at", d => { d with createdAt := some j.createdAt }
  | "retries", d => { d with retries := some j.retries }
  | _, d => d

theorem field?_cases
    {name : String}
    {f : Json.Field Draft}
    (h : record.field? name = some f) :
    (name = "id" ∧ f = .of "id" false (·.id) fun v d => { d with id := some v }) ∨
      (name = "type" ∧ f = .of "type" true (·.type) fun v d => { d with type := some v }) ∨
      (name = "payload" ∧
        f = .of "payload" false (·.payload) fun v d => { d with payload := some v }) ∨
      (name = "created_at" ∧
        f = .of "created_at" false (·.createdAt) fun v d => { d with createdAt := some v }) ∨
      (name = "retries" ∧
        f = .of "retries" false (·.retries) fun v d => { d with retries := some v }) := by
  have hmem : f ∈ record.fields := List.mem_of_find?_eq_some h
  obtain rfl := Record.name_of_field? h
  simp only [record, List.mem_cons, List.not_mem_nil, or_false] at hmem
  rcases hmem with rfl | rfl | rfl | rfl | rfl
  · exact Or.inl ⟨rfl, rfl⟩
  · exact Or.inr (Or.inl ⟨rfl, rfl⟩)
  · exact Or.inr (Or.inr (Or.inl ⟨rfl, rfl⟩))
  · exact Or.inr (Or.inr (Or.inr (Or.inl ⟨rfl, rfl⟩)))
  · exact Or.inr (Or.inr (Or.inr (Or.inr ⟨rfl, rfl⟩)))

theorem field?_of_mem
    {f : Json.Field Draft}
    (h : f ∈ record.fields) :
    record.field? f.name = some f := by
  simp only [record, List.mem_cons, List.not_mem_nil, or_false] at h
  rcases h with rfl | rfl | rfl | rfl | rfl
  · rfl
  · rfl
  · rfl
  · rfl
  · rfl

theorem isSet_start
    {name : String}
    {f : Json.Field Draft}
    (h : record.field? name = some f) :
    f.isSet record.start = false := by
  rcases field?_cases h with ⟨-, rfl⟩ | ⟨-, rfl⟩ | ⟨-, rfl⟩ | ⟨-, rfl⟩ | ⟨-, rfl⟩
  · rfl
  · rfl
  · rfl
  · rfl
  · rfl

/-- A member of a job sets its own field and no other. -/
theorem marks_setting
    (j : Job)
    (name : String) :
    record.Marks (name, j.setting name) := by
  intro hknown n f draft hf
  obtain ⟨g, hg⟩ := Option.isSome_iff_exists.1 hknown
  rcases field?_cases hg with ⟨rfl, -⟩ | ⟨rfl, -⟩ | ⟨rfl, -⟩ | ⟨rfl, -⟩ | ⟨rfl, -⟩ <;>
    rcases field?_cases hf with ⟨rfl, rfl⟩ | ⟨rfl, rfl⟩ | ⟨rfl, rfl⟩ | ⟨rfl, rfl⟩ | ⟨rfl, rfl⟩ <;>
    rfl

/-- A member is read as what it sets. -/
theorem sets_setting
    {j : Job}
    {m : Member Tree}
    {name : String}
    (hname : m.name? = some name)
    (htext : j.FieldText name m.item.value) :
    record.Sets Codec.maxLevels m (name, j.setting name) := by
  refine ⟨hname, fun f hf w rest hrest => ?_⟩
  rcases field?_cases hf with ⟨rfl, rfl⟩ | ⟨rfl, rfl⟩ | ⟨rfl, rfl⟩ | ⟨rfl, rfl⟩ | ⟨rfl, rfl⟩
  · exact (within_fieldOf (Within.of_eq_ok trivial (Tree.bare_stringOf _ htext w rest))).1 trivial
  · exact (within_fieldOf (Within.of_eq_ok trivial (Tree.bare_stringOf _ htext w rest))).1 trivial
  · obtain ⟨ms, hvalue, hnesting, hpayload⟩ := htext
    have hread := Tree.bare_read_object hvalue hnesting w rest
    rw [hpayload] at hread
    exact (within_fieldOf (Within.of_eq_ok trivial hread)).1 trivial
  · rcases htext with ⟨hnull, hnone⟩ | ⟨x, time, hvalue, htime, hsome⟩
    · have hread := Tree.bare_read_no_timestamp Codec.maxLevels hnull w rest
      rw [← hnone] at hread
      exact (within_fieldOf (Within.of_eq_ok trivial hread)).1 trivial
    · have hread := Tree.bare_read_timestamp Codec.maxLevels hvalue htime w rest
      rw [← hsome] at hread
      exact (within_fieldOf (Within.of_eq_ok trivial hread)).1 trivial
  · obtain ⟨least, most, hvalue⟩ := htext
    exact (within_fieldOf
      (Within.of_eq_ok trivial (Tree.bare_read_uint32 Codec.maxLevels hvalue w hrest))).1 trivial

/-- What a draft holds is the job's. -/
structure Draft.Of (j : Job) (d : Draft) : Prop where
  id : ∀ v, d.id = some v → v = j.id
  type : ∀ v, d.type = some v → v = j.type
  payload : ∀ v, d.payload = some v → v = j.payload
  createdAt : ∀ v, d.createdAt = some v → v = j.createdAt
  retries : ∀ v, d.retries = some v → v = j.retries

theorem Draft.of_start
    (j : Job) :
    Draft.Of j {} where
  id v h := (Option.some_ne_none v h.symm).elim
  type v h := (Option.some_ne_none v h.symm).elim
  payload v h := (Option.some_ne_none v h.symm).elim
  createdAt v h := (Option.some_ne_none v h.symm).elim
  retries v h := (Option.some_ne_none v h.symm).elim

theorem Draft.of_setting
    {j : Job}
    {d : Draft}
    (name : String)
    (h : Draft.Of j d) :
    Draft.Of j (j.setting name d) := by
  unfold setting
  split
  · exact { h with id := fun v hv => (Option.some.inj hv).symm }
  · exact { h with type := fun v hv => (Option.some.inj hv).symm }
  · exact { h with payload := fun v hv => (Option.some.inj hv).symm }
  · exact { h with createdAt := fun v hv => (Option.some.inj hv).symm }
  · exact { h with retries := fun v hv => (Option.some.inj hv).symm }
  · exact h

theorem getD_eq
    {β : Type}
    {o : Option β}
    {v w : β}
    (hsome : ∀ x, o = some x → x = v)
    (hnone : o = none → v = w) :
    o.getD w = v := by
  cases o with
  | some x => exact hsome x rfl
  | none => exact (hnone rfl).symm

/-- A draft that holds what is said of a job is finished as the job. -/
theorem finish_eq
    {j : Job}
    {d : Draft}
    (hof : Draft.Of j d)
    (hopen : ∀ f ∈ record.fields, f.isSet d = false → j.LeftOut f.name) :
    record.finish d = j := by
  have hfield : ∀ f ∈ record.fields, ∀ {β : Type} (o : Option β), f.isSet d = o.isSome →
      o = none → j.LeftOut f.name := fun f hf β o hset hnone =>
    hopen f hf (hset.trans (congrArg Option.isSome hnone))
  have hid : d.id.getD "" = j.id :=
    getD_eq hof.id (hfield _ (.head _) d.id rfl)
  have htype : d.type.getD "" = j.type :=
    getD_eq hof.type fun hnone => (hfield _ (.tail _ (.head _)) d.type rfl hnone).elim
  have hpayload : d.payload.getD .empty = j.payload :=
    getD_eq hof.payload (hfield _ (.tail _ (.tail _ (.head _))) d.payload rfl)
  have hcreatedAt : d.createdAt.getD none = j.createdAt :=
    getD_eq hof.createdAt (hfield _ (.tail _ (.tail _ (.tail _ (.head _)))) d.createdAt rfl)
  have hretries : d.retries.getD 0 = j.retries :=
    getD_eq hof.retries
      (hfield _ (.tail _ (.tail _ (.tail _ (.tail _ (.head _))))) d.retries rfl)
  simp only [record, hid, htype, hpayload, hcreatedAt, hretries]

/-- Only the type is required. -/
theorem missing?_cases
    (d : Draft) :
    (d.type = none ∧ ∃ f, record.missing? d = some f ∧ f.name = "type") ∨
      (d.type.isSome = true ∧ record.missing? d = none) := by
  cases hd : d.type with
  | none =>
      refine Or.inl ⟨rfl, .of "type" true (·.type) fun v d => { d with type := some v }, ?_, rfl⟩
      simp [record, Record.missing?, Field.of, hd]
  | some x =>
      refine Or.inr ⟨rfl, ?_⟩
      simp [record, Record.missing?, Field.of, hd]

/-- A text is refused for a cause, in the words of the codec. -/
def Refused (text : Bytes) (cause : Cause) : Prop :=
  ∃ left, Codec.decode (α := Job) kind text =
    .error (.decode kind (Fault.message ⟨cause, left⟩ text))

/-- What is decoded is what the members make of a draft. -/
theorem decode_objectText
    {members : List (Member Tree)}
    {events : List (String × (Draft → Draft))}
    (h : List.Forall₂ (record.Sets Codec.maxLevels) members events)
    (before inner after : Blanks) :
    match record.absorb record.start events with
    | .error name => Refused (objectText before members inner after) (.duplicateField name)
    | .ok filled =>
        match record.missing? filled with
        | some f => Refused (objectText before members inner after) (.missingField f.name)
        | none => Codec.decode kind (objectText before members inner after) =
            .ok (record.finish filled) := by
  have houtcome := Record.outcome_read h before inner after.val
  have hrefused : ∀ cause, (∃ left, bare (record.read (Codec.maxLevels + 1)
      (objectText before members inner after)) = .error ⟨cause, left⟩) →
      Refused (objectText before members inner after) cause := by
    rintro cause ⟨left, hleft⟩
    refine ⟨left, ?_⟩
    rw [Codec.decode]
    exact congrArg (Except.mapError _) (decodeWith_of_error hleft)
  rw [Record.Outcome] at houtcome
  cases habsorb : record.absorb record.start events with
  | error name =>
      rw [habsorb] at houtcome
      exact hrefused _ houtcome
  | ok filled =>
      rw [habsorb] at houtcome
      cases hmissing : record.missing? filled with
      | some f =>
          simp only [hmissing] at houtcome ⊢
          exact hrefused _ houtcome
      | none =>
          simp only [hmissing] at houtcome ⊢
          rw [Codec.decode]
          exact congrArg (Except.mapError _) (decodeWith_of_ok houtcome)

/-- Members of which each says a field are events that set these fields. -/
theorem exists_events
    {members : List (Member Tree)}
    {P : Job → Prop}
    (h : ∀ m ∈ members, ∃ name j, P j ∧ m.name? = some name ∧ j.FieldText name m.item.value) :
    ∃ events : List (String × (Draft → Draft)),
      List.Forall₂ (record.Sets Codec.maxLevels) members events ∧
        Member.names members = events.map (·.1) ∧
        ∀ e ∈ events, ∃ j, P j ∧ e.2 = j.setting e.1 := by
  obtain ⟨events, hevents⟩ := exists_forall₂
    (R := fun (m : Member Tree) (e : String × (Draft → Draft)) => ∃ j : Job,
      P j ∧ m.name? = some e.1 ∧ j.FieldText e.1 m.item.value ∧ e.2 = j.setting e.1)
    fun m hm => by
      obtain ⟨name, j, hj, hname, htext⟩ := h m hm
      exact ⟨(name, j.setting name), j, hj, hname, htext, rfl⟩
  refine ⟨events, hevents.imp ?_, Member.names_eq (hevents.imp ?_), ?_⟩
  · rintro m ⟨name, set⟩ ⟨j, -, hname, htext, hset⟩
    obtain rfl : set = j.setting name := hset
    exact sets_setting hname htext
  · rintro m e ⟨j, -, hname, -, -⟩
    exact hname
  · refine ((List.forall₂_and_left (R := fun _ _ => True) _ _).1 (hevents.flip.imp ?_)).1
    rintro e m ⟨j, hj, -, -, hset⟩
    exact ⟨⟨j, hj, hset⟩, trivial⟩

theorem marks_of_said
    {e : String × (Draft → Draft)}
    {P : Job → Prop}
    (h : ∃ j, P j ∧ e.2 = j.setting e.1) :
    record.Marks e := by
  obtain ⟨name, set⟩ := e
  obtain ⟨j, -, hset⟩ := h
  obtain rfl : set = j.setting name := hset
  exact marks_setting j name

theorem decode_of_described
    {j : Job}
    {members : List (Member Tree)}
    (h : j.Described members)
    (before inner after : Blanks) :
    Codec.decode kind (objectText before members inner after) = .ok j := by
  obtain ⟨events, hsets, hnames, hsaid⟩ := exists_events (P := (· = j)) fun m hm => by
    obtain ⟨name, hname, htext⟩ := h.said m hm
    exact ⟨name, j, rfl, hname, htext⟩
  have hmarks : ∀ e ∈ events, record.Marks e := fun e he =>
    marks_of_said (hsaid e he)
  have honce : record.Once record.start (events.map (·.1)) := by
    intro n f hf
    rw [← hnames]
    obtain rfl := Record.name_of_field? hf
    exact ⟨h.once f (List.mem_of_find?_eq_some hf), fun hset =>
      absurd hset (by simp [isSet_start hf])⟩
  obtain ⟨filled, hfilled⟩ := (Record.absorb_ok_iff hmarks).2 honce
  -- What is set is said of the job, and what is left open has its default.
  have hof : Draft.Of j filled := by
    refine Record.keeps_of_absorb (fun e he draft hdraft => ?_) hfilled (Draft.of_start j)
    obtain ⟨_, rfl, hset⟩ := hsaid e he
    rw [hset]
    exact Draft.of_setting e.1 hdraft
  have hopen : ∀ f ∈ record.fields, f.isSet filled = false → j.LeftOut f.name := by
    intro f hf hset
    refine h.leftOut f hf fun hmem => ?_
    rw [hnames] at hmem
    have hset' := (Record.isSet_of_absorb hmarks hfilled (field?_of_mem hf)).2 (Or.inr hmem)
    exact absurd (hset.symm.trans hset') (by simp)
  have hdecode := decode_objectText hsets before inner after
  rw [hfilled] at hdecode
  rcases missing?_cases filled with ⟨htype, -⟩ | ⟨-, hmissing⟩
  · exact (hopen _ (.tail _ (.head _)) (congrArg Option.isSome htype)).elim
  · simp only [hmissing] at hdecode
    rw [hdecode, finish_eq hof hopen]

/-- A text without a type, or with two members for one field, is refused, and the message
names the field. -/
theorem refused_of_fitting
    {members : List (Member Tree)}
    (hfitting : Fitting members)
    (hwrong : "type" ∉ Member.names members ∨
      ∃ f ∈ record.fields, 1 < (Member.names members).count f.name)
    (before inner after : Blanks) :
    ∃ cause, Refused (objectText before members inner after) cause ∧
      ((cause = .missingField "type" ∧ "type" ∉ Member.names members) ∨
        ∃ f ∈ record.fields, 1 < (Member.names members).count f.name ∧
          cause = .duplicateField f.name) := by
  obtain ⟨events, hsets, hnames, hsaid⟩ := exists_events (P := fun _ => True) fun m hm => by
    obtain ⟨name, j, hname, htext⟩ := hfitting m hm
    exact ⟨name, j, trivial, hname, htext⟩
  have hmarks : ∀ e ∈ events, record.Marks e := fun e he =>
    marks_of_said (hsaid e he)
  have hdecode := decode_objectText hsets before inner after
  cases habsorb : record.absorb record.start events with
  | error name =>
      rw [habsorb] at hdecode
      obtain ⟨f, hf, hcount, -⟩ := Record.of_absorb_error hmarks habsorb
      obtain rfl := Record.name_of_field? hf
      rw [isSet_start hf, ← hnames] at hcount
      exact ⟨_, hdecode, Or.inr ⟨f, List.mem_of_find?_eq_some hf,
        hcount.resolve_left Bool.false_ne_true, rfl⟩⟩
  | ok filled =>
      rw [habsorb] at hdecode
      have honce := (Record.absorb_ok_iff hmarks).1 ⟨filled, habsorb⟩
      rw [← hnames] at honce
      have htype : "type" ∉ Member.names members := by
        refine hwrong.resolve_right ?_
        rintro ⟨f, hf, hcount⟩
        have := (honce f.name f (field?_of_mem hf)).1
        omega
      rcases missing?_cases filled with ⟨-, f, hmissing, hname⟩ | ⟨hset, -⟩
      · simp only [hmissing, hname] at hdecode
        exact ⟨_, hdecode, Or.inl ⟨rfl, htype⟩⟩
      -- If the type is set, a member has its name.
      · have hfield : record.field? "type" =
            some (.of "type" true (·.type) fun v d => { d with type := some v }) := rfl
        have hmem := (Record.isSet_of_absorb hmarks habsorb hfield).1 hset
        rw [isSet_start hfield, ← hnames] at hmem
        exact absurd (hmem.resolve_left Bool.false_ne_true) htype

/-- **A job is decoded from every text that says it**: an object with its fields in any order
and any layout, each at most once, those left out that have their default, and with members of
other names that hold anything.  A text of such members without a type, or with two members
for one field, is refused, and the message names the field. -/
theorem decode_text
    (before inner after : Blanks)
    (members : List (Member Tree)) :
    (∀ j : Job, j.Described members →
        Codec.decode kind (objectText before members inner after) = .ok j) ∧
      (Fitting members →
        ("type" ∉ Member.names members ∨
          ∃ f ∈ record.fields, 1 < (Member.names members).count f.name) →
        ∃ cause, Refused (objectText before members inner after) cause ∧
          ((cause = .missingField "type" ∧ "type" ∉ Member.names members) ∨
            ∃ f ∈ record.fields, 1 < (Member.names members).count f.name ∧
              cause = .duplicateField f.name)) :=
  ⟨fun _ hj => decode_of_described hj before inner after,
    fun hfitting hwrong => refused_of_fitting hfitting hwrong before inner after⟩

/-- The members of an object in which an unknown one holds numbers and half characters that
are no value, a known name is escaped, and three fields are left out. -/
def strayMembers : List (Member Tree) :=
  let plain (s : String) : List Piece := s.toList.filterMap fun c =>
    if h : 0x20 ≤ c.toNat ∧ c ≠ '"' ∧ c ≠ '\\' then some (.plain c h) else none
  let space : Blanks := ⟨[0x20], List.all_eq_true.1 rfl⟩
  let nines : Digits := ⟨[0x39, 0x39, 0x39], List.cons_ne_nil _ _, List.all_eq_true.1 rfl⟩
  let huge : Literal := ⟨false, 1, none, some ⟨0x65, rfl, none, nofun, nines⟩⟩
  let half : HexUnit := ⟨0x64, 0x38, 0x30, 0x30, List.all_eq_true.1 rfl⟩
  let stray : Tree := .array
    [⟨.none, .number huge, .none⟩, ⟨.none, .string [.unit half], .none⟩] .none
  let type := plain "t" ++ .unit ⟨0x30, 0x30, 0x37, 0x39, List.all_eq_true.1 rfl⟩ :: plain "pe"
  [⟨space, plain "x", .none, .none, stray, .none⟩,
   ⟨space, type, .none, .none, .string (plain "m"), space⟩,
   ⟨.none, plain "created_at", .none, .none, .null, .none⟩]

theorem described_stray :
    (Job.new "m" .empty).Described strayMembers where
  said := by
    simp only [strayMembers, List.forall_mem_cons]
    exact ⟨⟨"x", rfl, trivial⟩, ⟨"type", rfl, rfl⟩, ⟨"created_at", rfl, Or.inl ⟨rfl, rfl⟩⟩,
      List.forall_mem_nil _⟩
  once := by
    simp only [record, List.forall_mem_cons]
    exact ⟨by decide, by decide, by decide, by decide, by decide, List.forall_mem_nil _⟩
  leftOut := by
    simp only [record, List.forall_mem_cons]
    exact ⟨fun _ => rfl, fun h => h (by decide), fun _ => rfl, fun _ => rfl, fun _ => rfl,
      List.forall_mem_nil _⟩

theorem decode_text_stray :
    objectText .none strayMembers .none .none = Bytes.ofAscii
        "\x7b \"x\":[1e999,\"\\ud800\"], \"t\\u0079pe\":\"m\" ,\"created_at\":null\x7d" ∧
      Codec.decode kind (objectText .none strayMembers .none .none) =
        .ok (Job.new "m" .empty) ∧
      ∃ cause, Refused (objectText .none (strayMembers ++ strayMembers) .none .none) cause := by
  refine ⟨rfl, (decode_text .none .none .none strayMembers).1 _ described_stray, ?_⟩
  have hfitting : Fitting (strayMembers ++ strayMembers) := by
    rw [Fitting, List.forall_mem_append, and_self]
    intro m hm
    obtain ⟨name, hsaid⟩ := described_stray.said m hm
    exact ⟨name, _, hsaid⟩
  obtain ⟨cause, hrefused, -⟩ := (decode_text .none .none .none _).2 hfitting
    (Or.inr ⟨_, List.mem_cons_of_mem _ List.mem_cons_self, by decide⟩)
  exact ⟨cause, hrefused⟩

end Job

end Courier
