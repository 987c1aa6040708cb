import Courier.Proofs.Broker.Flow
import Courier.Proofs.Record.Drafts

/-!
# Where a message comes from

A message that the consumer reads was made of a payload that somebody published, on a
channel for which a target stood at that moment.  What the broker publishes arrives on the
channel on which it was published, and so does a payload that is no message.  A payload
that is a message itself arrives as it is: nobody compares the channel that it names with
the one on which it was published.

**Results.**
* `Message.MadeOf`, `Message.madeOf_receive`: a message and the payload it was made of.
* `Stream.madeOf_of_consumed`, `Audience.posted_of_raws`: what is read was returned, and what
  was returned was published.
* `channel_of_consumed`: the channel of every message that is read.
* `consumed_on_other_channel`: a message on a channel of which nobody heard.
-/

namespace Courier

open Json

/-- A message is what a payload is received as, on the channel of the payload unless the
payload is a message itself. -/
structure Message.MadeOf (m : Message) (raw : RawMessage) : Prop where
  received : ∃ now, m = (receive raw.channel raw.payload now).1
  channel : m.channel = raw.channel ∨ Codec.decode kind raw.payload = .ok m
  /-- What the broker publishes names the channel on which it is published. -/
  published : ∀ data stamp, raw.payload = write ⟨raw.channel, data, stamp⟩ →
    m.channel = raw.channel

theorem Message.madeOf_receive
    (raw : RawMessage)
    (now : Calendar.Timestamp) :
    MadeOf (receive raw.channel raw.payload now).1 raw := by
  cases hdecode : Codec.decode (α := Message) kind raw.payload with
  | error e =>
      have hfallback : (receive raw.channel raw.payload now).1 =
          fallback raw.channel raw.payload now := by rw [receive, hdecode]
      refine ⟨⟨now, rfl⟩, Or.inl ?_, fun data stamp hpayload => ?_⟩
      · rw [hfallback, fallback]
      · rw [hfallback, fallback]
  | ok own =>
      have hown : (receive raw.channel raw.payload now).1 = own := by rw [receive, hdecode]
      refine ⟨⟨now, rfl⟩, Or.inr ?_, fun data stamp hpayload => ?_⟩
      · rw [hown, hdecode]
      · rw [hown]
        rw [hpayload] at hdecode
        exact channel_of_decode_write hdecode

/-- What is read was made of a payload that the connection returned, whatever the store. -/
theorem Stream.madeOf_of_consumed
    {σ : Type}
    {r : Stream σ}
    (h : r.Ordered)
    {m : Message}
    (hm : m ∈ r.consumed) :
    ∃ raw ∈ r.returned.map (·.1), m.MadeOf raw := by
  have hdecoded : m ∈ r.decoded := h.consumed_in_order.subset hm
  obtain ⟨⟨raw, now⟩, hraw, rfl⟩ := List.mem_map.1 hdecoded
  exact ⟨raw, List.mem_map_of_mem hraw, Message.madeOf_receive raw now⟩

/-- What the connection returned was published while a target stood for its channel. -/
theorem Audience.posted_of_raws
    {m : Memory}
    (h : m.exchange.Numbered)
    (kind : SubscriptionKind)
    (targets : List String)
    {events : List Event}
    {raw : RawMessage}
    (hraw : raw ∈ ((start kind targets m).run events).raws) :
    ∃ before after,
      events = before ++ .others (.call (.publish raw.channel raw.payload)) :: after ∧
        ((start kind targets m).run before).subscription.Covers raw.channel ∧
        ∃ target ∈ targets, kind.Covers target raw.channel := by
  have hstart := Tended.start h kind targets
  obtain ⟨new, hposted, hflow⟩ := hstart.flow_run events
  rw [flow_start h kind targets, List.nil_append] at hflow
  have hnew : raw ∈ new := hflow.subset (List.mem_append_left _ hraw)
  obtain ⟨before, e, after, rfl, rfl, hcovers⟩ := hposted raw hnew
  exact ⟨before, after, rfl, hcovers, hstart.covers_run hcovers⟩

/-- **The channel of a message.**  Over any store the consumer reads only what was made of
payloads that its connection returned.  Over a store in memory each of them was published
meanwhile, on a channel for which a target stood, and the broker publishes messages that
name their channel; so a message is on the channel on which it was published, unless the
payload was a message that somebody wrote differently. -/
theorem channel_of_consumed
    (kind : SubscriptionKind)
    (targets : List String) :
    (∀ (σ : Type) [Store σ] (connection : SubscriberId) (store : σ)
        (events : List (Stream.Event σ)),
      let r := (Stream.start kind targets connection store).run events
      ∀ m ∈ r.consumed, ∃ raw ∈ r.returned.map (·.1), m.MadeOf raw) ∧
      ∀ (clock : Nat) (moves : List Store.Move) (events : List Audience.Event),
        let store := Memory.after clock moves
        let start := Audience.start kind targets store
        (Broker.subscribe kind targets : BrokerM Memory Subscription).run store =
            (if targets = [] then (.error (.noTargets kind), store)
              else (.ok start.subscription, start.store)) ∧
          (∀ (channel : String) (data : Object) (now : Calendar.Timestamp) (k : Memory),
            (Broker.publish channel data now : BrokerM Memory Nat).run k =
              (Broker.publishRaw channel (Message.write ⟨channel, data, now⟩)).run k) ∧
          ∀ m ∈ (start.run events).stream.consumed, ∃ raw before after,
            m.MadeOf raw ∧
              events = before ++ .others (.call (.publish raw.channel raw.payload)) :: after ∧
              (start.run before).subscription.Covers raw.channel ∧
              ∃ target ∈ targets, kind.Covers target raw.channel := by
  constructor
  · intro σ _ connection store events r m hm
    have hordered : r.Ordered := (Stream.ordered_start kind targets connection store).run events
    exact Stream.madeOf_of_consumed hordered hm
  · intro clock moves events store start
    refine ⟨Broker.subscribe_run kind targets store, fun _ _ _ _ => rfl, fun m hm => ?_⟩
    have hordered := Audience.ordered_run kind targets store events
    obtain ⟨raw, hraw, hmade⟩ := Stream.madeOf_of_consumed hordered hm
    obtain ⟨before, after, hevents, hcovers, htarget⟩ :=
      Audience.posted_of_raws (Memory.numbered_after clock moves) kind targets hraw
    exact ⟨raw, before, after, hmade, hevents, hcovers, htarget⟩

/-- Whoever listens to one channel can read a message on another one, for which no target
stands. -/
theorem consumed_on_other_channel :
    let m : Message := ⟨"b", .empty, .min⟩
    let r := (Audience.start .channels ["a"] (.empty 0)).run
      [.others (.call (.publish "a" m.write)), .forward .step .min, .forward .step .min, .read]
    r.stream.consumed = [m] ∧ ¬ r.subscription.Covers m.channel := by
  intro m r
  have hreceived : Subscription.decode ⟨"a", none, m.write⟩ .min = m := by
    have hback : Codec.decode Message.kind m.write = .ok m :=
      (Codec.message_comesBack m rfl).1.2 (by decide)
    rw [Subscription.decode, Message.receive, hback]
  refine ⟨?_, ?_⟩
  · rw [← hreceived]
    rfl
  · rintro ⟨target, htarget, hcovers⟩
    have htargets : r.subscription.targets = ["a"] := rfl
    rw [htargets, List.mem_singleton] at htarget
    subst htarget
    have hsame : "a" = "b" := hcovers
    exact absurd hsame (by decide)

end Courier
