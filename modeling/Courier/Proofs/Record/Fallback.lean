import Courier.Proofs.Json.Suffix
import Courier.Proofs.Record.RoundTrip

/-!
# Payloads that are no message

A payload that is no message is delivered as a message that carries its text.  Data are read
from an object, in either form of a record, so no payload without an opening brace is a
message.  What carries the text is a message like any other: it comes back from its bytes, and
nothing in it says where it came from.

**Results.**
* `Message.not_decoded_without_brace`: payloads without an opening brace.
* `Message.undecodable_is_carried`: what is delivered for a payload that is no message.
* `Message.raw_some_iff`: what has a text under the key of raw payloads.
* `Message.raw_of_decoded`: a message with such a text that is no payload in disguise.
-/

namespace Courier

open Json

namespace Message

/-- The data of a message are read from an object, also where the message is a list. -/
theorem mem_of_read
    {depth : Nat}
    {s : Bytes}
    {m : Message}
    {r : Rest s}
    (h : Decode.read (α := Message) depth s = .ok (m, r)) :
    0x7B ∈ s := by
  change record.read depth s = _ at h
  rw [Record.read, atToken] at h
  split at h
  · exact absurd h (by simp)
  · next b t hle hfront =>
      have hs := of_front_suffix hfront
      obtain ⟨v, q, hread, -, -⟩ := of_map_eq_ok (fun _ _ => ⟨rfl, rfl⟩) h
      split at hread
      · next hb => exact hs.mem (hb ▸ List.mem_cons_self)
      · split at hread
        · cases depth with
          | zero => exact absurd hread (by simp)
          | succ d =>
              simp only at hread
              split at hread
              · exact absurd hread (by simp)
              · next draft p helements =>
                  -- The channel comes first, the data are read behind it.
                  obtain ⟨t₁, set₁, q₁, p₁, ht₁, hchannel, hbehind⟩ :=
                    Record.elements_cons rfl helements
                  obtain ⟨t₂, set₂, q₂, p₂, ht₂, hdata, -⟩ := Record.elements_cons rfl hbehind
                  obtain ⟨x, q₃, hstring, -, hrest⟩ :=
                    of_map_eq_ok (fun _ _ => ⟨rfl, rfl⟩) hchannel
                  obtain ⟨o, q₄, hobject, -, -⟩ := of_map_eq_ok (fun _ _ => ⟨rfl, rfl⟩) hdata
                  have hbehind : q₁.val <:+ t₁ := hrest ▸ stringOf_suffix hstring
                  exact ((ht₂.trans hbehind).trans (ht₁.trans
                    ((List.suffix_cons b t).trans hs))).mem (mem_of_read_object hobject)
        · exact absurd hread (wrongType_ne_ok _ _ _)

/-- **A payload without an opening brace is no message.** -/
theorem not_decoded_without_brace
    {payload : Bytes}
    (h : 0x7B ∉ payload) :
    ∃ e, Codec.decode (α := Message) kind payload = .error e := by
  cases hdecode : Codec.decode (α := Message) kind payload with
  | error e => exact ⟨e, rfl⟩
  | ok m =>
      obtain ⟨r, hread⟩ := Codec.read_of_decode hdecode
      exact absurd (mem_of_read hread) h

theorem receive_of_error
    {payload : Bytes}
    {e : CodecError}
    (channel : String)
    (now : Calendar.Timestamp)
    (h : Codec.decode (α := Message) kind payload = .error e) :
    receive channel payload now = (fallback channel payload now, some e) := by
  rw [receive, h]

theorem receive_of_ok
    {payload : Bytes}
    {m : Message}
    (channel : String)
    (now : Calendar.Timestamp)
    (h : Codec.decode kind payload = .ok m) :
    receive channel payload now = (m, none) := by
  rw [receive, h]

theorem nesting_fallback
    (channel : String)
    (payload : Bytes)
    (now : Calendar.Timestamp) :
    (fallback channel payload now).data.nesting = 1 := rfl

/-- A message that carries a text is not deep, so it comes back from its bytes, on whatever
channel and whenever these arrive. -/
theorem receive_write_fallback
    (channel : String)
    (payload : Bytes)
    (now : Calendar.Timestamp)
    (channel' : String)
    (now' : Calendar.Timestamp) :
    receive channel' (fallback channel payload now).write now' =
      (fallback channel payload now, none) :=
  receive_of_ok channel' now' <| (Codec.message_comesBack _ rfl).1.2 <| by
    rw [nesting_fallback]
    decide

/-- **A payload that is no message is delivered on the channel on which it arrived, with its
text as its only data**: the payload as it is if it is a text, and else mended.  That message
comes back from its own bytes as the message it is.  No payload without an opening brace is a
message. -/
theorem undecodable_is_carried
    (channel : String)
    (payload : Bytes)
    (now : Calendar.Timestamp) :
    (0x7B ∉ payload → ∃ e, Codec.decode (α := Message) kind payload = .error e) ∧
      ∀ e, Codec.decode (α := Message) kind payload = .error e →
        ∃ (m : Message) (text : String), receive channel payload now = (m, some e) ∧
          m.channel = channel ∧ m.data.members = [(rawKey, .string text)] ∧
          (∀ x, Utf8.encode x = payload → text = x) ∧
          (∀ cs, Utf8.Mended payload cs ↔ cs = text.toList) ∧
          ∃ bytes, Codec.encode kind m = .ok bytes ∧ ∀ channel' now',
            receive channel' bytes now' = (m, none) := by
  refine ⟨not_decoded_without_brace, fun e he => ?_⟩
  refine ⟨fallback channel payload now, Utf8.textLossy payload, receive_of_error channel now he,
    rfl, rfl, ?_, fun cs => ?_, (fallback channel payload now).write, rfl,
    receive_write_fallback channel payload now⟩
  · rintro x rfl
    exact Utf8.textLossy_encode x
  · rw [Utf8.mended_iff, Utf8.textLossy, String.toList_ofList]

theorem raw_fallback
    (channel : String)
    (payload : Bytes)
    (now : Calendar.Timestamp) :
    (fallback channel payload now).raw = some (Utf8.textLossy payload) := rfl

theorem raw_eq_some
    {m : Message}
    {text : String} :
    m.raw = some text ↔ m.data.get? rawKey = some (.string text) := by
  rw [raw]
  split
  · next s hs => rw [hs]; simp
  · next hs => simpa using hs text

/-- **The hook sees a failure exactly if decoding fails, and the message delivered then has
the text of the payload; but a message that is decoded has a raw text too, if its data hold a
text under that key.**  Whatever is delivered for a payload that is no message is also what
some other payload is decoded to, on every channel and at any time, so that no one who only
sees the message can tell the two. -/
theorem raw_some_iff
    (channel : String)
    (payload : Bytes)
    (now : Calendar.Timestamp) :
    (∀ e, (receive channel payload now).2 = some e ↔
        Codec.decode (α := Message) kind payload = .error e) ∧
      (∀ text, (receive channel payload now).1.raw = some text ↔
        ((∃ e, Codec.decode (α := Message) kind payload = .error e) ∧
            text = Utf8.textLossy payload) ∨
          ∃ m : Message, Codec.decode kind payload = .ok m ∧
            m.data.get? rawKey = some (.string text)) ∧
      ∀ e, Codec.decode (α := Message) kind payload = .error e →
        ∃ bytes, ∀ channel' now',
          receive channel' bytes now' = ((receive channel payload now).1, none) := by
  cases hdecode : Codec.decode (α := Message) kind payload with
  | error e =>
      rw [receive_of_error channel now hdecode]
      refine ⟨fun f => by simp, fun text => ?_, fun _ _ => ?_⟩
      · rw [raw_fallback]
        simp [eq_comm]
      · exact ⟨_, receive_write_fallback channel payload now⟩
  | ok m =>
      rw [receive_of_ok channel now hdecode]
      refine ⟨fun f => by simp, fun text => ?_, fun f hf => absurd hf (by simp)⟩
      rw [raw_eq_some]
      simp

/-- A message with a text under that key, as anyone may publish it. -/
def withRaw : Bytes :=
  Utf8.encode ("\x7b\"channel\":\"c\",\"data\":\x7b\"raw\":\"x\"\x7d," ++
    "\"timestamp\":\"2024-01-01T00:00:00Z\"\x7d")

theorem receive_withRaw :
    (receive "c" withRaw .min).1.raw = some "x" ∧ (receive "c" withRaw .min).2 = none :=
  ⟨by decide +kernel, by decide +kernel⟩

/-- Such a message is decoded, and has a raw text all the same: the raw text does not tell
what could not be decoded. -/
theorem raw_of_decoded :
    ¬ ∀ (channel : String) (payload : Bytes) (now : Calendar.Timestamp),
      (receive channel payload now).1.raw.isSome = true ↔
        (receive channel payload now).2.isSome = true := by
  intro h
  obtain ⟨hraw, hdecoded⟩ := receive_withRaw
  have hfailed := (h "c" withRaw .min).1 (by rw [hraw]; rfl)
  rw [hdecoded] at hfailed
  exact absurd hfailed (by decide)

end Message
end Courier
