import Courier.Proofs.Text.Utf8
import Courier.Remote.Listener

/-!
# Waiting for confirmations

On the connection of a subscriber confirmations and messages come in any order.
Who waits for confirmations takes the replies one after the other up to the last
confirmation that is due, and puts aside the messages among them.  It ends early at
a reply that signals an error, at one that is too deep, and where nothing comes.

**Results.**
* `Reply.Carries`, `Reply.message?`: the replies that are messages.
* `Control.Confirmed`: the replies up to the last confirmation that is due.
* `Line.Reads`: what reading a connection can do.
* `awaitConfirmations_taken`: the messages put aside are those among the replies taken.
* `awaitConfirmations_ok_iff`: when waiting succeeds.
-/

namespace Courier
namespace Remote

namespace Reply

/-- A reply can be read: it is not too deep, and it signals no error. -/
def Readable (v : Reply) : Prop :=
  v.overflow? = none ∧ v.signalled? = none

/-- A reply is a message: one on a channel, or one on a channel by a pattern. -/
inductive Carries : Reply → RawMessage → Prop
  | message
      {kind : Reply}
      (hkind : kind.text = .ok "message")
      (channel payload : Reply)
      (more : List Reply) :
      Carries (.array (kind :: channel :: payload :: more))
        ⟨channelText channel, none, payloadBytes payload⟩
  | pmessage
      {kind : Reply}
      (hkind : kind.text = .ok "pmessage")
      (pattern channel payload : Reply)
      (more : List Reply) :
      Carries (.array (kind :: pattern :: channel :: payload :: more))
        ⟨channelText channel, pattern.text.toOption, payloadBytes payload⟩

theorem toRaw?_eq_some_iff
    {v : Reply}
    {m : RawMessage} :
    toRaw? v = some m ↔ v.Carries m := by
  constructor
  · intro h
    unfold toRaw? at h
    split at h
    · next kind items =>
        split at h
        · next channel payload more hkind =>
            obtain rfl := Option.some.inj h
            refine Carries.message ?_ channel payload more
            cases hk : kind.text with
            | error f => rw [hk] at hkind; exact absurd hkind (by simp [Except.toOption])
            | ok x => rw [hk] at hkind; rw [Option.some.inj hkind]
        · next pattern channel payload more hkind =>
            obtain rfl := Option.some.inj h
            refine Carries.pmessage ?_ pattern channel payload more
            cases hk : kind.text with
            | error f => rw [hk] at hkind; exact absurd hkind (by simp [Except.toOption])
            | ok x => rw [hk] at hkind; rw [Option.some.inj hkind]
        · exact absurd h (by simp)
    · exact absurd h (by simp)
  · intro h
    cases h with
    | message hkind channel payload more => simp [toRaw?, hkind, Except.toOption]
    | pmessage hkind pattern channel payload more => simp [toRaw?, hkind, Except.toOption]

/-- The message that a reply is; one that signals an error is none. -/
def message? (v : Reply) : Option RawMessage :=
  v.outcome.toOption.bind toRaw?

theorem message?_of_signalled
    {v : Reply}
    {s : String}
    (h : v.signalled? = some s) :
    v.message? = none := by
  simp [message?, outcome, h, Except.toOption]

theorem message?_of_not_signalled
    {v : Reply}
    (h : v.signalled? = none) :
    v.message? = toRaw? v := by
  simp [message?, outcome, h, Except.toOption]

theorem message?_eq_some_iff
    {v : Reply}
    {m : RawMessage} :
    v.message? = some m ↔ v.signalled? = none ∧ v.Carries m := by
  cases h : v.signalled? with
  | some s => simp [message?_of_signalled h]
  | none => simp [message?_of_not_signalled h, toRaw?_eq_some_iff]

end Reply

/-- The commands that change what a subscriber listens to. -/
inductive Control where
  | subscribe
  | psubscribe
  | unsubscribe
  | punsubscribe
  deriving DecidableEq

namespace Control

def name : Control → String
  | .subscribe => "SUBSCRIBE"
  | .psubscribe => "PSUBSCRIBE"
  | .unsubscribe => "UNSUBSCRIBE"
  | .punsubscribe => "PUNSUBSCRIBE"

/-- The word with which the confirmations of a command begin. -/
def kind (w : Control) : String :=
  Text.lowerAscii w.name

/-- Whether a reply is a confirmation of a command. -/
def confirms (w : Control) (v : Reply) : Bool :=
  kindOf? v = some w.kind

/-- The replies up to a number of confirmations: all can be read, and the last of them
is the last confirmation. -/
structure Confirmed (w : Control) (n : Nat) (read : List Reply) : Prop where
  readable : ∀ v ∈ read, v.Readable
  count : read.countP w.confirms = n
  last : ∀ v, read.getLast? = some v → w.confirms v = true

theorem kind_ne
    (w : Control) :
    w.kind ≠ "message" ∧ w.kind ≠ "pmessage" := by
  cases w with
  | subscribe => decide
  | psubscribe => decide
  | unsubscribe => decide
  | punsubscribe => decide

/-- A confirmation is no message. -/
theorem toRaw?_of_confirms
    {w : Control}
    {v : Reply}
    (h : w.confirms v = true) :
    toRaw? v = none := by
  rw [Option.eq_none_iff_forall_ne_some]
  intro m hm
  have hword : ∀ {b : Bytes} {x : String}, (Reply.bulk b).text = .ok x →
      Utf8.textLossy b = x := by
    intro b x hx
    rw [Reply.text] at hx
    cases htext : Utf8.text? b with
    | none => rw [htext] at hx; exact absurd hx (by simp)
    | some y =>
        rw [htext] at hx
        rw [Utf8.textLossy_of_text? htext]
        exact Except.ok.inj hx
  obtain ⟨hmessage, hpmessage⟩ := w.kind_ne
  have hkind : kindOf? v = some w.kind := by simpa [confirms] using h
  unfold kindOf? at hkind
  split at hkind
  · next b items =>
      obtain hb := Option.some.inj hkind
      cases Reply.toRaw?_eq_some_iff.1 hm with
      | message hk => exact hmessage (hb.symm.trans (hword hk))
      | pmessage hk => exact hpmessage (hb.symm.trans (hword hk))
  · exact absurd hkind (by simp)

theorem message?_of_confirms
    {w : Control}
    {v : Reply}
    (h : w.confirms v = true) :
    v.message? = none := by
  cases hs : v.signalled? with
  | some s => exact Reply.message?_of_signalled hs
  | none => rw [Reply.message?_of_not_signalled hs, toRaw?_of_confirms h]

namespace Confirmed

variable {w : Control} {n : Nat} {v : Reply} {read : List Reply}

theorem nil : w.Confirmed 0 [] :=
  ⟨fun v hv => absurd hv List.not_mem_nil, rfl, fun v hv => absurd hv (by simp)⟩

theorem eq_nil
    (h : w.Confirmed 0 read) :
    read = [] := by
  rcases List.eq_nil_or_concat read with hnil | ⟨before, v, rfl⟩
  · exact hnil
  · have hcount := h.count
    have hlast := h.last v (by simp)
    simp [List.concat_eq_append, List.countP_append, hlast] at hcount

theorem cons_of_confirms
    (h : w.Confirmed n read)
    (hv : v.Readable)
    (hconfirms : w.confirms v = true) :
    w.Confirmed (n + 1) (v :: read) := by
  refine ⟨?_, ?_, ?_⟩
  · intro u hu
    rcases List.mem_cons.1 hu with rfl | hu
    · exact hv
    · exact h.readable u hu
  · rw [List.countP_cons_of_pos hconfirms, h.count]
  · intro u hu
    cases read with
    | nil => rwa [← Option.some.inj hu]
    | cons x xs => exact h.last u (by rwa [List.getLast?_cons_cons] at hu)

theorem cons_of_not_confirms
    (h : w.Confirmed (n + 1) read)
    (hv : v.Readable)
    (hother : w.confirms v = false) :
    w.Confirmed (n + 1) (v :: read) := by
  refine ⟨?_, ?_, ?_⟩
  · intro u hu
    rcases List.mem_cons.1 hu with rfl | hu
    · exact hv
    · exact h.readable u hu
  · rw [List.countP_cons_of_neg (by simp [hother]), h.count]
  · intro u hu
    cases read with
    | nil => exact absurd h.count (by simp)
    | cons x xs => exact h.last u (by rwa [List.getLast?_cons_cons] at hu)

/-- The first reply is a confirmation, or there are as many behind it. -/
theorem tail
    (h : w.Confirmed n (v :: read)) :
    (w.confirms v = true ∧ ∃ k, n = k + 1 ∧ w.Confirmed k read) ∨
      (w.confirms v = false ∧ ∃ k, n = k + 1 ∧ w.Confirmed n read) := by
  have hreadable : ∀ u ∈ read, u.Readable := fun u hu => h.readable u (List.mem_cons_of_mem v hu)
  have hlast : ∀ u, read.getLast? = some u → w.confirms u = true := by
    intro u hu
    cases read with
    | nil => exact absurd hu (by simp)
    | cons x xs => exact h.last u (by rwa [List.getLast?_cons_cons])
  cases hv : w.confirms v with
  | true =>
      have hcount := h.count
      rw [List.countP_cons_of_pos hv] at hcount
      exact Or.inl ⟨rfl, _, hcount.symm, hreadable, rfl, hlast⟩
  | false =>
      have hcount := h.count
      rw [List.countP_cons_of_neg (by simp [hv])] at hcount
      refine Or.inr ⟨rfl, ?_⟩
      cases n with
      | succ k => exact ⟨k, rfl, hreadable, hcount, hlast⟩
      | zero =>
          -- Without a confirmation to come, nothing would have been read at all.
          have hnil := h.eq_nil
          exact absurd hnil (List.cons_ne_nil _ _)

end Confirmed
end Control

namespace Line

/-- What reading a connection can do, by the replies that it takes. -/
inductive Reads (l : Line) : List Reply → Except Fault Reply × Line → Prop
  | nothing
      (hunread : l.unread = []) :
      Reads l [] (.error l.ending, l)
  | tooDeep
      {v : Reply}
      {rest : List Reply}
      {o : Overflow}
      (hunread : l.unread = v :: rest)
      (hdeep : v.overflow? = some o)
      (f : Fault) :
      Reads l [] (.error f, { l with stuck := true })
  | refused
      {v : Reply}
      {rest : List Reply}
      (hunread : l.unread = v :: rest)
      {s : String}
      (hsignal : v.signalled? = some s)
      (f : Fault) :
      Reads l [v] (.error f, { l with unread := rest })
  | reply
      {v : Reply}
      {rest : List Reply}
      (hunread : l.unread = v :: rest)
      (hv : v.Readable) :
      Reads l [v] (.ok v, { l with unread := rest })

theorem reads
    (l : Line) :
    ∃ taken, l.Reads taken l.read := by
  unfold read
  split
  · next hunread => exact ⟨[], Reads.nothing hunread⟩
  · next v rest hunread =>
      split
      · next o hdeep => exact ⟨[], Reads.tooDeep hunread hdeep _⟩
      · next hfits =>
          rw [Reply.outcome]
          split
          · next s hsignal => exact ⟨[v], Reads.refused hunread hsignal _⟩
          · next hsignal => exact ⟨[v], Reads.reply hunread ⟨hfits, hsignal⟩⟩

theorem Reads.unread_eq
    {l : Line}
    {taken : List Reply}
    {out : Except Fault Reply × Line}
    (h : l.Reads taken out) :
    l.unread = taken ++ out.2.unread := by
  cases h with
  | nothing hunread => rfl
  | tooDeep hunread hdeep f => rfl
  | refused hunread hsignal f => exact hunread
  | reply hunread hv => exact hunread

/-- The message that was read is the one among the replies that were taken. -/
theorem Reads.filterMap_message?
    {l : Line}
    {taken : List Reply}
    {out : Except Fault Reply × Line}
    (h : l.Reads taken out) :
    taken.filterMap Reply.message? = (out.1.toOption.bind toRaw?).toList := by
  cases h with
  | nothing hunread => rfl
  | tooDeep hunread hdeep f => rfl
  | refused hunread hsignal f =>
      rw [List.filterMap_cons, Reply.message?_of_signalled hsignal]
      rfl
  | @reply v rest hunread hv =>
      rw [List.filterMap_cons, Reply.message?_of_not_signalled hv.2]
      show _ = (toRaw? v).toList
      cases toRaw? v with
      | none => rfl
      | some m => rfl

theorem read_of_readable
    {l : Line}
    {v : Reply}
    {rest : List Reply}
    (hunread : l.unread = v :: rest)
    (hv : v.Readable) :
    l.read = (.ok v, { l with unread := rest }) := by
  simp [read, hunread, hv.1, Reply.outcome, hv.2]

theorem of_read_ok
    {l m : Line}
    {v : Reply}
    (h : l.read = (.ok v, m)) :
    v.Readable ∧ l.unread = v :: m.unread := by
  obtain ⟨taken, hreads⟩ := l.reads
  rw [h] at hreads
  cases hreads with
  | reply hunread hv => exact ⟨hv, hunread⟩

end Line

variable {w : Control} {n : Nat} {l : Line}

/-- The messages that are met while confirmations are waited for are those among the
replies that are taken. -/
theorem awaitConfirmations_taken
    (w : Control)
    (n : Nat)
    (l : Line) :
    let a := awaitConfirmations w.kind n l
    ∃ taken, l.unread = taken ++ a.line.unread ∧ a.met = taken.filterMap Reply.message? := by
  fun_induction awaitConfirmations w.kind n l with
  | case1 l => exact ⟨[], rfl, rfl⟩
  | case2 l n f m hread =>
      obtain ⟨taken, hreads⟩ := l.reads
      rw [hread] at hreads
      exact ⟨taken, hreads.unread_eq, hreads.filterMap_message?.symm⟩
  | case3 l n v m hread hconfirms ih =>
      obtain ⟨hv, hunread⟩ := Line.of_read_ok hread
      obtain ⟨taken, hrest, hmet⟩ := ih
      have hnone : v.message? = none := Control.message?_of_confirms (by simpa [Control.confirms])
      refine ⟨v :: taken, ?_, ?_⟩
      · rw [hunread, hrest, List.cons_append]
      · rw [List.filterMap_cons, hnone, hmet]
  | case4 l n v m hread hother a ih =>
      obtain ⟨hv, hunread⟩ := Line.of_read_ok hread
      obtain ⟨taken, hrest, hmet⟩ := ih
      refine ⟨v :: taken, ?_, ?_⟩
      · rw [hunread, hrest, List.cons_append]
      · rw [List.filterMap_cons, Reply.message?_of_not_signalled hv.2, hmet]
        cases toRaw? v with
        | none => rfl
        | some m => rfl

theorem awaitConfirmations_succ
    {kind : String}
    {v : Reply}
    {m : Line}
    (hread : l.read = (.ok v, m)) :
    awaitConfirmations kind (n + 1) l =
      if kindOf? v = some kind then awaitConfirmations kind n m
      else
        let a := awaitConfirmations kind (n + 1) m
        { a with met := (toRaw? v).toList ++ a.met } := by
  rw [awaitConfirmations]
  split
  · next f k hr => exact absurd (hread.symm.trans hr) (by simp)
  · next u k hr =>
      obtain ⟨hv, rfl⟩ := Prod.mk.inj (hread.symm.trans hr)
      obtain rfl := Except.ok.inj hv
      rfl

/-- Waiting succeeds at the last confirmation that is due. -/
theorem awaitConfirmations_of_confirmed
    {read rest : List Reply}
    (h : w.Confirmed n read)
    (hunread : l.unread = read ++ rest) :
    (awaitConfirmations w.kind n l).result = .ok () ∧
      (awaitConfirmations w.kind n l).line.unread = rest := by
  induction read generalizing n l with
  | nil =>
      obtain rfl : 0 = n := h.count
      rw [awaitConfirmations]
      exact ⟨rfl, hunread⟩
  | cons v read ih =>
      have hread := Line.read_of_readable hunread (h.readable v List.mem_cons_self)
      rcases h.tail with ⟨hv, k, rfl, htail⟩ | ⟨hv, k, rfl, htail⟩
      · have hkind : kindOf? v = some w.kind := by simpa [Control.confirms] using hv
        rw [awaitConfirmations_succ hread, if_pos hkind]
        exact ih htail rfl
      · have hkind : kindOf? v ≠ some w.kind := by simpa [Control.confirms] using hv
        rw [awaitConfirmations_succ hread, if_neg hkind]
        exact ih htail rfl

/-- What was read when waiting has succeeded. -/
theorem confirmed_of_awaitConfirmations
    (w : Control)
    (n : Nat)
    (l : Line)
    (h : (awaitConfirmations w.kind n l).result = .ok ()) :
    ∃ read, w.Confirmed n read ∧
      l.unread = read ++ (awaitConfirmations w.kind n l).line.unread := by
  fun_induction awaitConfirmations w.kind n l with
  | case1 l => exact ⟨[], Control.Confirmed.nil, rfl⟩
  | case2 l n f m hread => exact absurd h (by simp)
  | case3 l n v m hread hconfirms ih =>
      obtain ⟨hv, hunread⟩ := Line.of_read_ok hread
      obtain ⟨read, hread, hrest⟩ := ih h
      refine ⟨v :: read, hread.cons_of_confirms hv (by simpa [Control.confirms]), ?_⟩
      rw [hunread, hrest, List.cons_append]
  | case4 l n v m hread hother a ih =>
      obtain ⟨hv, hunread⟩ := Line.of_read_ok hread
      obtain ⟨read, hread, hrest⟩ := ih h
      refine ⟨v :: read, hread.cons_of_not_confirms hv (by simpa [Control.confirms]), ?_⟩
      rw [hunread, hrest, List.cons_append]

theorem awaitConfirmations_ok_iff :
    (awaitConfirmations w.kind n l).result = .ok () ↔
      ∃ read rest, w.Confirmed n read ∧ l.unread = read ++ rest := by
  constructor
  · intro h
    obtain ⟨read, hread, hunread⟩ := confirmed_of_awaitConfirmations w n l h
    exact ⟨read, _, hread, hunread⟩
  · rintro ⟨read, rest, hread, hunread⟩
    exact (awaitConfirmations_of_confirmed hread hunread).1

end Remote
end Courier
