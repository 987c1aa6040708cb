import Courier.Proofs.Record.RoundTrip

/-!
# What is known of a record while it is read

A key that comes twice is refused, so what a draft holds once is never replaced, whatever
members follow.  The first field of a written message is its channel; hence whatever the
data behind it are, floating-point numbers and deep towers included, the bytes are either
refused or read as a message on that channel.

**Results.**
* `Json.Record.Keeps`, `Json.Record.Keeps.members`: what every field keeps of a draft is
  kept to the end.
* `Message.channel_of_decode_write`: the channel of a message is read back.
-/

namespace Courier
namespace Json.Record

variable {ρ α : Type} {rec : Record ρ α} {depth : Nat} {Known : ρ → Prop}

/-- What is known of a draft stays known when a field that it lacks is read into it. -/
def Keeps (rec : Record ρ α) (depth : Nat) (Known : ρ → Prop) : Prop :=
  ∀ f ∈ rec.fields, ∀ (s : Bytes) (set : ρ → ρ) (rest : Rest s) (draft : ρ),
    f.read depth s = .ok (set, rest) → f.isSet draft = false → Known draft → Known (set draft)

theorem Keeps.memberValue
    (h : rec.Keeps depth Known)
    {key : String}
    {draft next : ρ}
    {s : Bytes}
    {rest : Rest s}
    (hread : rec.memberValue depth key draft s = .ok (next, rest))
    (hknown : Known draft) :
    Known next := by
  rw [Record.memberValue] at hread
  split at hread
  · next f hfind =>
      split at hread
      · exact absurd hread (by simp)
      · next hopen =>
          split at hread
          · exact absurd hread (by simp)
          · next c hcolon =>
              obtain ⟨set, q, hfield, rfl, -⟩ := of_map_eq_ok (fun _ _ => ⟨rfl, rfl⟩) hread
              exact h f (List.mem_of_find?_eq_some hfind) c.val set q draft hfield
                (Bool.eq_false_iff.2 hopen) hknown
  · split at hread
    · exact absurd hread (by simp)
    · next c hcolon =>
        obtain ⟨-, -, -, rfl, -⟩ := of_map_eq_ok (fun _ _ => ⟨rfl, rfl⟩) hread
        exact hknown

/-- **What every field keeps is kept to the end of the object.** -/
theorem Keeps.members
    (h : rec.Keeps depth Known)
    {first : Bool}
    {draft : ρ}
    {s : Bytes}
    {v : α}
    {rest : Rest s}
    (hread : rec.members depth first draft s = .ok (v, rest))
    (hknown : Known draft) :
    ∃ filled, Known filled ∧ v = rec.finish filled := by
  induction first, draft, s using Record.members.induct rec depth generalizing v with
  | case1 first draft s f hnext => simp [Record.members, hnext] at hread
  | case2 first draft s r hnext f hend => simp [Record.members, hnext, hend] at hread
  | case3 first draft s r hnext q hend f hmissing =>
      simp [Record.members, hnext, hend, hmissing] at hread
  | case4 first draft s r hnext q hend hmissing =>
      simp only [Record.members, hnext, hend, hmissing, Except.ok.injEq, Prod.mk.injEq] at hread
      exact ⟨draft, hknown, hread.1.symm⟩
  | case5 first draft s r hnext f hkey => simp [Record.members, hnext, hkey] at hread
  | case6 first draft s r hnext key q hkey f hvalue =>
      simp [Record.members, hnext, hkey, hvalue] at hread
  | case7 first draft s r hnext key q hkey next p hvalue ih =>
      rw [Record.members, hnext] at hread
      simp only [hkey, hvalue] at hread
      obtain ⟨w, t, hrest, rfl, -⟩ := of_map_eq_ok (fun _ _ => ⟨rfl, rfl⟩) hread
      exact ih hrest (h.memberValue hvalue hknown)

end Json.Record

open Json
open Json.Record (bare_members_field within_fieldOf)

/-- A draft that has a channel keeps it. -/
theorem Message.keeps_channel
    (depth : Nat)
    (channel : String) :
    Message.record.Keeps depth fun draft => draft.channel = some channel := by
  intro f hf s set rest draft hread hopen hknown
  simp only [Message.record, List.mem_cons, List.not_mem_nil, or_false] at hf
  rcases hf with rfl | rfl | rfl
  · have hnone : draft.channel.isSome = false := hopen
    rw [hknown] at hnone
    exact absurd hnone (by simp)
  · obtain ⟨v, -, -, rfl, -⟩ := of_map_eq_ok (fun _ _ => ⟨rfl, rfl⟩) hread
    exact hknown
  · obtain ⟨v, -, -, rfl, -⟩ := of_map_eq_ok (fun _ _ => ⟨rfl, rfl⟩) hread
    exact hknown

/-- What is read of a written message is on its channel. -/
theorem Message.channel_of_read_write
    {depth : Nat}
    {m own : Message}
    {rest : Bytes}
    (h : bare (Decode.read (α := Message) (depth + 1) m.write) = .ok (own, rest)) :
    own.channel = m.channel := by
  let behind : Bytes :=
    [("data", m.data.write), ("timestamp", writeString m.timestamp.text)].flatMap
      (fun g => 0x2C :: writeField g) ++ [0x7D]
  have hwrite : m.write = 0x7B :: (writeString "channel" ++ 0x3A ::
      (writeString m.channel ++ behind)) := by
    have hrecord := writeRecord_cons ("channel", writeString m.channel)
      [("data", m.data.write), ("timestamp", writeString m.timestamp.text)] []
    rw [List.append_nil, Record.writeField_append] at hrecord
    exact hrecord
  have hmembers : bare (Message.record.members depth true Message.record.start
      (writeString "channel" ++ 0x3A :: (writeString m.channel ++ behind))) = .ok (own, rest) := by
    rw [← h, hwrite]
    show _ = bare (Message.record.read (depth + 1) _)
    rw [Record.read, bare_atToken _ _ (by decide), if_pos rfl]
    exact (bare_map_same fun _ _ => ⟨rfl, rfl⟩).symm
  -- The first member sets the channel, and no later one can set it again.
  let field : Json.Field Message.Draft :=
    .of "channel" true (·.channel) fun v d => { d with channel := some v }
  have hfield : bare (field.read depth (writeString m.channel ++ behind)) =
      .ok (fun d => { d with channel := some m.channel }, behind) :=
    (within_fieldOf (Within.of_eq_ok trivial (bare_read_string depth m.channel behind))).1 trivial
  have hbehind : bare (Message.record.members depth false
      { Message.record.start with channel := some m.channel } behind) = .ok (own, rest) := by
    rw [← hmembers]
    show _ = bare (Message.record.members depth true Message.record.start
      (entry true 0x2C (writeString "channel" ++ 0x3A :: _)))
    rw [bare_members_field (f := field) depth true _ rfl rfl, hfield]
    rfl
  obtain ⟨hrest, hread⟩ := bare_eq_ok.1 hbehind
  obtain ⟨filled, hknown, rfl⟩ := (Message.keeps_channel depth m.channel).members hread rfl
  show filled.channel.getD "" = m.channel
  rw [hknown]
  rfl

/-- **The channel of a message is read back**, whatever its data are. -/
theorem Message.channel_of_decode_write
    {m own : Message}
    (h : Codec.decode Message.kind m.write = .ok own) :
    own.channel = m.channel := by
  obtain ⟨r, hread⟩ := Codec.read_of_decode h
  exact channel_of_read_write (bare_eq_ok.2 ⟨r.property, hread⟩)

end Courier
