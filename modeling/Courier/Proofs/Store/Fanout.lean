import Courier.Proofs.Store.Exchange
import Courier.Proofs.Store.View
import Mathlib.Algebra.BigOperators.Group.Finset.Basic
import Mathlib.Data.Finset.Dedup
import Mathlib.Logic.Function.Basic

/-!
# Who gets which copies

Subscribers come, choose channels and patterns, take what arrives and go away,
while payloads are published.  What each of them is to get is said without the
exchange: the calls alone tell who is there, what everybody listens to, and which
publications were made meanwhile.  The inboxes of the exchange, with what was taken
from them, hold the copies of exactly these.

**Results.**
* `Traffic.step`, `Roster.step`: a call on the store, and what it says by itself.
* `IsCopies`: the copies that a publication makes for a subscriber.
* `Follows.step`, `Follows.run`: the exchange has what the calls say.
* `Follows.publish_answer`: what a publication answers.
* `Follows.gone_run`: those that have gone away get nothing.
* `copies_of_heard`: the three together, for every run.
-/

namespace Courier
namespace Fanout

inductive Call where
  | subscriber
  | subscribe (id : SubscriberId) (channels : List String)
  | psubscribe (id : SubscriberId) (patterns : List String)
  | unsubscribe (id : SubscriberId) (channels : List String)
  | punsubscribe (id : SubscriberId) (patterns : List String)
  | publish (channel : String) (payload : Bytes)
  | nextMessage (id : SubscriberId) (wait : Duration)
  | drop (id : SubscriberId)

/-- A store, and what each subscriber has received from it. -/
structure Traffic where
  store : Memory
  received : SubscriberId → List RawMessage

namespace Traffic

/-- A new store, when the clock shows `now`. -/
def start (now : Nat) : Traffic := ⟨.empty now, fun _ => []⟩

def step (t : Traffic) : Call → Traffic
  | .subscriber =>
      { t with store := ((Store.subscriber : StoreM Memory SubscriberId).answer t.store).2 }
  | .subscribe id channels =>
      { t with store := ((Store.subscribe id channels : StoreM Memory Unit).answer t.store).2 }
  | .psubscribe id patterns =>
      { t with store := ((Store.psubscribe id patterns : StoreM Memory Unit).answer t.store).2 }
  | .unsubscribe id channels =>
      { t with store := ((Store.unsubscribe id channels : StoreM Memory Unit).answer t.store).2 }
  | .punsubscribe id patterns =>
      { t with store := ((Store.punsubscribe id patterns : StoreM Memory Unit).answer t.store).2 }
  | .publish channel payload =>
      { t with store := ((Store.publish channel payload : StoreM Memory Nat).answer t.store).2 }
  | .nextMessage id wait =>
      let (answer, store) :=
        (Store.nextMessage id wait : StoreM Memory (Option RawMessage)).answer t.store
      { store, received := Function.update t.received id (t.received id ++ taken answer) }
  | .drop id => { t with store := Store.release id t.store }

def run (t : Traffic) (calls : List Call) : Traffic :=
  calls.foldl step t

/-- What a subscriber has received, and then what waits in its inbox. -/
def stream (t : Traffic) (id : SubscriberId) : List RawMessage :=
  t.received id ++ t.store.exchange.inbox id

end Traffic

/-- A publication, and what a subscriber listened to when it was made. -/
structure Publication where
  channels : Finset String
  patterns : Finset String
  channel : String
  payload : Bytes

/-- What calls say by themselves: who is there, what everybody listens to, and the
publications that were made while somebody was there. -/
structure Roster where
  next : SubscriberId
  live : Finset SubscriberId
  channels : SubscriberId → Finset String
  patterns : SubscriberId → Finset String
  heard : SubscriberId → List Publication

namespace Roster

def start : Roster := ⟨0, ∅, fun _ => ∅, fun _ => ∅, fun _ => []⟩

def step (r : Roster) : Call → Roster
  | .subscriber =>
      { next := r.next + 1
        live := insert r.next r.live
        channels := Function.update r.channels r.next ∅
        patterns := Function.update r.patterns r.next ∅
        heard := Function.update r.heard r.next [] }
  | .subscribe id channels =>
      { r with channels := Function.update r.channels id (r.channels id ∪ channels.toFinset) }
  | .psubscribe id patterns =>
      { r with patterns := Function.update r.patterns id (r.patterns id ∪ patterns.toFinset) }
  | .unsubscribe id channels =>
      { r with channels := Function.update r.channels id (r.channels id \ channels.toFinset) }
  | .punsubscribe id patterns =>
      { r with patterns := Function.update r.patterns id (r.patterns id \ patterns.toFinset) }
  | .publish channel payload =>
      { r with heard := fun id =>
          if id ∈ r.live then r.heard id ++ [⟨r.channels id, r.patterns id, channel, payload⟩]
          else r.heard id }
  | .nextMessage _ _ => r
  | .drop id => { r with live := r.live.erase id }

def run (r : Roster) (calls : List Call) : Roster :=
  calls.foldl step r

/-- How many copies a publication on a channel makes for a subscriber. -/
def matching (r : Roster) (id : SubscriberId) (channel : String) : Nat :=
  (if channel ∈ r.channels id then 1 else 0) +
    ((r.patterns id).filter fun p => Glob.accepts p channel).card

end Roster

/-- The copies that a publication makes: one for the channel and then one for each
pattern that matches it, these in any order. -/
def IsCopies (p : Publication) (copies : List RawMessage) : Prop :=
  ∃ patterns : List String,
    patterns.Nodup ∧
      (∀ pattern, pattern ∈ patterns ↔ pattern ∈ p.patterns ∧ Glob.accepts pattern p.channel) ∧
      copies =
        (if p.channel ∈ p.channels then [⟨p.channel, none, p.payload⟩] else []) ++
          patterns.map fun pattern => ⟨p.channel, some pattern, p.payload⟩

/-- A slot has what the calls say of its subscriber. -/
structure Fits (r : Roster) (s : Slot) : Prop where
  known : s.id < r.next
  live : s.released = false ↔ s.id ∈ r.live
  channels : s.channels.toFinset = r.channels s.id
  patterns : s.patterns.toFinset = r.patterns s.id
  distinct : s.patterns.Nodup

/-- Every slot has what the calls say, and every live subscriber has one slot. -/
structure Agrees (r : Roster) (x : Exchange) : Prop where
  next : x.next = r.next
  nodup : (x.slots.map (·.id)).Nodup
  fits : ∀ s ∈ x.slots, Fits r s
  present : ∀ id ∈ r.live, ∃ s ∈ x.slots, s.id = id

theorem toFinset_addNames
    (names more : List String) :
    (more.foldl addName names).toFinset = names.toFinset ∪ more.toFinset := by
  induction more generalizing names with
  | nil => simp
  | cons name more ih =>
      have hadd : (addName names name).toFinset = insert name names.toFinset := by
        rw [addName]
        split
        · next h => rw [Finset.insert_eq_of_mem (List.mem_toFinset.2 h)]
        · ext n
          simp
      rw [List.foldl_cons, ih, hadd, List.toFinset_cons, Finset.insert_union, Finset.union_insert]

theorem nodup_addNames
    {names : List String}
    (h : names.Nodup)
    (more : List String) :
    (more.foldl addName names).Nodup := by
  induction more generalizing names with
  | nil => exact h
  | cons name more ih =>
      refine ih ?_
      rw [addName]
      split
      · exact h
      · next hnew =>
          rw [← List.concat_eq_append]
          exact h.concat hnew

theorem toFinset_removeNames
    (names gone : List String) :
    (names.filter (· ∉ gone)).toFinset = names.toFinset \ gone.toFinset := by
  ext n
  simp

namespace Agrees

variable {r : Roster} {x : Exchange} (h : Agrees r x)
include h

/-- A call that changes one slot, and what is said of its subscriber alone. -/
theorem update
    {q : Roster}
    {id : SubscriberId}
    {f : Slot → Slot}
    (hnext : q.next = r.next)
    (hlive : q.live ⊆ r.live)
    (hid : ∀ s, (f s).id = s.id)
    (hself : ∀ s ∈ x.slots, s.id = id → Fits q (f s))
    (hother : ∀ s ∈ x.slots, s.id ≠ id → Fits q s) :
    Agrees q (x.update id f) := by
  have hids : (x.update id f).slots.map (·.id) = x.slots.map (·.id) := by
    rw [Exchange.update, List.map_map]
    refine List.map_congr_left fun s _ => ?_
    by_cases hs : s.id = id
    · simp [hs, hid]
    · simp [hs]
  refine ⟨h.next.trans hnext.symm, ?_, ?_, ?_⟩
  · rw [hids]
    exact h.nodup
  · intro s hs
    obtain ⟨old, hold, rfl⟩ := List.mem_map.1 hs
    by_cases hsame : old.id = id
    · rw [if_pos hsame]
      exact hself old hold hsame
    · rw [if_neg hsame]
      exact hother old hold hsame
  · intro other hother
    obtain ⟨s, hs, rfl⟩ := h.present other (hlive hother)
    have hmem : s.id ∈ (x.update id f).slots.map (·.id) := by
      rw [hids]
      exact List.mem_map_of_mem hs
    exact List.mem_map.1 hmem

theorem updateChannels
    (id : SubscriberId)
    {f : List String → List String}
    {g : Finset String → Finset String}
    (hfg : ∀ names, (f names).toFinset = g names.toFinset) :
    Agrees { r with channels := Function.update r.channels id (g (r.channels id)) }
      (x.update id fun s => { s with channels := f s.channels }) := by
  refine h.update rfl (Finset.Subset.refl _) (fun _ => rfl) ?_ ?_
  · rintro s hs rfl
    have hs := h.fits s hs
    refine ⟨hs.known, hs.live, ?_, hs.patterns, hs.distinct⟩
    simp only [Function.update_self]
    rw [hfg, hs.channels]
  · intro s hs hne
    have hs := h.fits s hs
    refine ⟨hs.known, hs.live, ?_, hs.patterns, hs.distinct⟩
    simp only [Function.update_of_ne hne]
    exact hs.channels

theorem updatePatterns
    (id : SubscriberId)
    {f : List String → List String}
    {g : Finset String → Finset String}
    (hfg : ∀ names, (f names).toFinset = g names.toFinset)
    (hnodup : ∀ names, names.Nodup → (f names).Nodup) :
    Agrees { r with patterns := Function.update r.patterns id (g (r.patterns id)) }
      (x.update id fun s => { s with patterns := f s.patterns }) := by
  refine h.update rfl (Finset.Subset.refl _) (fun _ => rfl) ?_ ?_
  · rintro s hs rfl
    have hs := h.fits s hs
    refine ⟨hs.known, hs.live, hs.channels, ?_, hnodup _ hs.distinct⟩
    simp only [Function.update_self]
    rw [hfg, hs.patterns]
  · intro s hs hne
    have hs := h.fits s hs
    refine ⟨hs.known, hs.live, hs.channels, ?_, hs.distinct⟩
    simp only [Function.update_of_ne hne]
    exact hs.patterns

theorem release
    (id : SubscriberId) :
    Agrees { r with live := r.live.erase id } (x.release id) := by
  refine h.update rfl (Finset.erase_subset _ _) (fun _ => rfl) ?_ ?_
  · rintro s hs rfl
    have hs := h.fits s hs
    exact ⟨hs.known, by simp, hs.channels, hs.patterns, hs.distinct⟩
  · intro s hs hne
    have hs := h.fits s hs
    refine ⟨hs.known, ?_, hs.channels, hs.patterns, hs.distinct⟩
    rw [hs.live, Finset.mem_erase, and_iff_right hne]

theorem setInbox
    (id : SubscriberId)
    (inbox : List RawMessage) :
    Agrees r (x.update id fun s => { s with inbox }) := by
  refine h.update rfl (Finset.Subset.refl _) (fun _ => rfl) ?_ ?_
  · intro s hs _
    have hs := h.fits s hs
    exact ⟨hs.known, hs.live, hs.channels, hs.patterns, hs.distinct⟩
  · intro s hs _
    exact h.fits s hs

/-- The subscribers with a slot that is not swept are those that live. -/
theorem live_eq :
    (x.live.map (·.id)).toFinset = r.live := by
  ext id
  rw [List.mem_toFinset, List.mem_map]
  constructor
  · rintro ⟨s, hs, rfl⟩
    obtain ⟨hmem, hlive⟩ := Exchange.mem_live.1 hs
    exact (h.fits s hmem).live.1 hlive
  · intro hid
    obtain ⟨s, hs, rfl⟩ := h.present id hid
    exact ⟨s, Exchange.mem_live.2 ⟨hs, (h.fits s hs).live.2 hid⟩, rfl⟩

theorem nodup_live :
    (x.live.map (·.id)).Nodup :=
  h.nodup.sublist (List.filter_sublist.map _)

theorem slot_of_live
    {id : SubscriberId}
    (hid : id ∈ r.live) :
    ∃ s, x.slot? id = some s ∧ s.released = false ∧ Fits r s ∧ s.id = id := by
  obtain ⟨s, hs, rfl⟩ := h.present id hid
  exact ⟨s, Exchange.slot?_of_mem h.nodup hs, (h.fits s hs).live.2 hid, h.fits s hs, rfl⟩

theorem publish
    (channel : String)
    (payload : Bytes) :
    Agrees (r.step (.publish channel payload)) (x.publish channel payload).2 := by
  have hids : (x.publish channel payload).2.slots.map (·.id) = x.live.map (·.id) := by
    rw [Exchange.publish, List.map_map]
    rfl
  refine ⟨h.next, ?_, ?_, ?_⟩
  · rw [hids]
    exact h.nodup_live
  · intro s hs
    obtain ⟨old, hold, rfl⟩ := List.mem_map.1 hs
    have hfits := h.fits old (Exchange.mem_live.1 hold).1
    exact ⟨hfits.known, hfits.live, hfits.channels, hfits.patterns, hfits.distinct⟩
  · intro id hid
    have hmem : id ∈ (x.publish channel payload).2.slots.map (·.id) := by
      rw [hids, ← List.mem_toFinset, h.live_eq]
      exact hid
    exact List.mem_map.1 hmem

theorem subscriber :
    Agrees (r.step .subscriber) x.subscriber.2 := by
  have hfresh : ∀ s ∈ x.live, s.id ≠ x.next := by
    intro s hs
    have hknown := (h.fits s (Exchange.mem_live.1 hs).1).known
    rw [h.next]
    exact Nat.ne_of_lt hknown
  have hids : x.subscriber.2.slots.map (·.id) = x.live.map (·.id) ++ [x.next] := by
    rw [Exchange.subscriber, List.map_append]
    rfl
  refine ⟨congrArg (· + 1) h.next, ?_, ?_, ?_⟩
  · rw [hids, ← List.concat_eq_append]
    refine h.nodup_live.concat ?_
    rintro hmem
    obtain ⟨s, hs, hid⟩ := List.mem_map.1 hmem
    exact hfresh s hs hid
  · intro s hs
    rcases List.mem_append.1 hs with hold | hnew
    · have hne : s.id ≠ r.next := h.next ▸ hfresh s hold
      obtain ⟨known, live, channels, patterns, distinct⟩ := h.fits s (Exchange.mem_live.1 hold).1
      refine ⟨Nat.lt_succ_of_lt known, ?_, ?_, ?_, distinct⟩
      · rw [live]
        exact (Finset.mem_insert.trans (or_iff_right hne)).symm
      · simp only [Roster.step, Function.update_of_ne hne, channels]
      · simp only [Roster.step, Function.update_of_ne hne, patterns]
    · obtain rfl := List.mem_singleton.1 hnew
      have hnext := h.next
      refine ⟨?_, ?_, ?_, ?_, List.nodup_nil⟩
      · simp [Roster.step, hnext]
      · simp [Roster.step, hnext]
      · simp [Roster.step, hnext]
      · simp [Roster.step, hnext]
  · intro id hid
    have hmem : id ∈ x.subscriber.2.slots.map (·.id) := by
      rw [hids, List.mem_append, ← List.mem_toFinset, h.live_eq, List.mem_singleton, h.next,
        or_comm]
      exact Finset.mem_insert.1 hid
    exact List.mem_map.1 hmem

theorem inbox_publish_of_gone
    {id : SubscriberId}
    (hid : id ∉ r.live)
    (channel : String)
    (payload : Bytes) :
    (x.publish channel payload).2.inbox id = [] := by
  refine Exchange.inbox_eq_nil ?_
  rintro s hs rfl
  obtain ⟨old, hold, rfl⟩ := List.mem_map.1 hs
  obtain ⟨hmem, hlive⟩ := Exchange.mem_live.1 hold
  exact absurd ((h.fits old hmem).live.1 hlive) hid

/-- The newcomer has nothing to take, and neither has one who is not there. -/
theorem inbox_subscriber_of_gone
    {id : SubscriberId}
    (hid : id ∉ r.live) :
    x.subscriber.2.inbox id = [] := by
  refine Exchange.inbox_eq_nil ?_
  rintro s hs rfl
  rcases List.mem_append.1 hs with hold | hnew
  · obtain ⟨hmem, hlive⟩ := Exchange.mem_live.1 hold
    exact absurd ((h.fits s hmem).live.1 hlive) hid
  · obtain rfl := List.mem_singleton.1 hnew
    rfl

theorem inbox_of_unknown
    {id : SubscriberId}
    (hid : r.next ≤ id) :
    x.inbox id = [] := by
  refine Exchange.inbox_eq_nil ?_
  rintro s hs rfl
  exact absurd (h.fits s hs).known (Nat.not_lt.2 hid)

end Agrees

namespace Traffic

/-- A subscriber takes the first payload of its inbox, or nothing changes. -/
theorem step_nextMessage
    (t : Traffic)
    (id : SubscriberId)
    (wait : Duration) :
    (∃ raw rest,
      t.store.exchange.inbox id = raw :: rest ∧
        (t.step (.nextMessage id wait)).store.exchange =
          t.store.exchange.update id (fun s => { s with inbox := rest }) ∧
        (t.step (.nextMessage id wait)).received =
          Function.update t.received id (t.received id ++ [raw])) ∨
      ((t.step (.nextMessage id wait)).store.exchange = t.store.exchange ∧
        (t.step (.nextMessage id wait)).received = t.received) := by
  have hcall : (Store.nextMessage id wait : StoreM Memory (Option RawMessage)).answer t.store =
      t.store.nextMessage id wait := rfl
  have hsame : Function.update t.received id (t.received id ++ []) = t.received := by
    rw [List.append_nil, Function.update_eq_self]
  simp only [step, hcall, Memory.nextMessage]
  cases hinbox : t.store.exchange.inbox id with
  | cons raw rest =>
      rw [(Exchange.nextMessage_of_cons hinbox).1]
      exact Or.inl ⟨raw, rest, rfl, rfl, rfl⟩
  | nil =>
      rcases Exchange.nextMessage_of_nil hinbox with hnext | hnext
      · rw [hnext]
        exact Or.inr ⟨rfl, hsame⟩
      · rw [hnext]
        exact Or.inr ⟨rfl, hsame⟩

theorem stream_update
    (t : Traffic)
    (id other : SubscriberId)
    (f : Slot → Slot)
    (hid : ∀ s, (f s).id = s.id)
    (hinbox : ∀ s, (f s).inbox = s.inbox) :
    stream { t with store := { t.store with exchange := t.store.exchange.update id f } } other =
      t.stream other := by
  rw [stream, stream, Exchange.inbox_update _ id other f hid hinbox]

/-- What only moves from an inbox to a subscriber stays in its stream. -/
theorem stream_nextMessage
    (t : Traffic)
    (id : SubscriberId)
    (wait : Duration)
    (other : SubscriberId) :
    (t.step (.nextMessage id wait)).stream other = t.stream other := by
  rcases t.step_nextMessage id wait with
    ⟨raw, rest, hinbox, hexchange, hreceived⟩ | ⟨hexchange, hreceived⟩
  · rw [stream, stream, hexchange, hreceived]
    by_cases hother : other = id
    · subst hother
      rw [(Exchange.nextMessage_of_cons hinbox).2, Function.update_self, hinbox, List.append_assoc]
      rfl
    · rw [Exchange.inbox_update_of_ne _ hother (fun s => { s with inbox := rest }) fun _ => rfl,
        Function.update_of_ne hother]
  · rw [stream, stream, hexchange, hreceived]

end Traffic

/-- A call that sweeps nothing changes no stream, and nobody hears anything by it. -/
structure Call.Keeps (call : Call) : Prop where
  stream : ∀ (t : Traffic) id, (t.step call).stream id = t.stream id
  next : ∀ r : Roster, (r.step call).next = r.next
  live : ∀ r : Roster, (r.step call).live ⊆ r.live
  heard : ∀ r : Roster, (r.step call).heard = r.heard

theorem Call.keeps
    (call : Call) :
    call = .subscriber ∨ (∃ channel payload, call = .publish channel payload) ∨ call.Keeps := by
  cases call with
  | subscriber => exact Or.inl rfl
  | publish channel payload => exact Or.inr (Or.inl ⟨channel, payload, rfl⟩)
  | nextMessage id wait =>
      exact Or.inr (Or.inr ⟨fun t => t.stream_nextMessage id wait, fun _ => rfl,
        fun _ => Finset.Subset.refl _, fun _ => rfl⟩)
  | subscribe id channels =>
      exact Or.inr (Or.inr
        ⟨fun t other => t.stream_update id other _ (fun _ => rfl) fun _ => rfl, fun _ => rfl,
          fun _ => Finset.Subset.refl _, fun _ => rfl⟩)
  | psubscribe id patterns =>
      exact Or.inr (Or.inr
        ⟨fun t other => t.stream_update id other _ (fun _ => rfl) fun _ => rfl, fun _ => rfl,
          fun _ => Finset.Subset.refl _, fun _ => rfl⟩)
  | unsubscribe id channels =>
      exact Or.inr (Or.inr
        ⟨fun t other => t.stream_update id other _ (fun _ => rfl) fun _ => rfl, fun _ => rfl,
          fun _ => Finset.Subset.refl _, fun _ => rfl⟩)
  | punsubscribe id patterns =>
      exact Or.inr (Or.inr
        ⟨fun t other => t.stream_update id other _ (fun _ => rfl) fun _ => rfl, fun _ => rfl,
          fun _ => Finset.Subset.refl _, fun _ => rfl⟩)
  | drop id =>
      exact Or.inr (Or.inr
        ⟨fun t other => t.stream_update id other _ (fun _ => rfl) fun _ => rfl, fun _ => rfl,
          fun r => Finset.erase_subset id r.live, fun _ => rfl⟩)

theorem Agrees.step
    {r : Roster}
    {t : Traffic}
    (h : Agrees r t.store.exchange)
    (call : Call) :
    Agrees (r.step call) (t.step call).store.exchange := by
  cases call with
  | subscriber => exact h.subscriber
  | publish channel payload => exact h.publish channel payload
  | nextMessage id wait =>
      rcases t.step_nextMessage id wait with ⟨raw, rest, -, hexchange, -⟩ | ⟨hexchange, -⟩
      · rw [hexchange]
        exact h.setInbox id rest
      · rw [hexchange]
        exact h
  | subscribe id channels =>
      exact h.updateChannels id (g := (· ∪ channels.toFinset))
        fun names => toFinset_addNames names channels
  | psubscribe id patterns =>
      exact h.updatePatterns id (g := (· ∪ patterns.toFinset))
        (fun names => toFinset_addNames names patterns)
        fun names hnames => nodup_addNames hnames patterns
  | unsubscribe id channels =>
      exact h.updateChannels id (g := (· \ channels.toFinset))
        fun names => toFinset_removeNames names channels
  | punsubscribe id patterns =>
      exact h.updatePatterns id (g := (· \ patterns.toFinset))
        (fun names => toFinset_removeNames names patterns)
        fun names hnames => hnames.filter _
  | drop id => exact h.release id

structure Follows (r : Roster) (t : Traffic) : Prop where
  agrees : Agrees r t.store.exchange
  unknown : ∀ id, r.next ≤ id → t.received id = []
  heard : ∀ id ∈ r.live, ∃ blocks,
    List.Forall₂ IsCopies (r.heard id) blocks ∧ t.stream id = blocks.flatten

theorem follows_start
    (now : Nat) :
    Follows .start (.start now) := by
  refine ⟨⟨rfl, List.nodup_nil, ?_, ?_⟩, fun _ _ => rfl, ?_⟩
  · intro s hs
    exact absurd hs (by simp [Traffic.start, Memory.empty, Exchange.empty])
  · intro id hid
    exact absurd hid (by simp [Roster.start])
  · intro id hid
    exact absurd hid (by simp [Roster.start])

theorem Fits.isCopies
    {r : Roster}
    {s : Slot}
    (hs : Fits r s)
    (channel : String)
    (payload : Bytes) :
    IsCopies ⟨r.channels s.id, r.patterns s.id, channel, payload⟩ (s.copies channel payload) := by
  refine ⟨s.patterns.filter fun p => Glob.accepts p channel, hs.distinct.filter _, ?_, ?_⟩
  · intro pattern
    rw [← hs.patterns]
    simp
  · rw [Slot.copies, ← hs.channels]
    simp

theorem Fits.length_copies
    {r : Roster}
    {s : Slot}
    (hs : Fits r s)
    (channel : String)
    (payload : Bytes) :
    (s.copies channel payload).length = r.matching s.id channel := by
  have hcard : ((r.patterns s.id).filter fun p => Glob.accepts p channel).card =
      (s.patterns.filter fun p => Glob.accepts p channel).length := by
    rw [← hs.patterns, ← List.toFinset_filter,
      List.toFinset_card_of_nodup (hs.distinct.filter _)]
  rw [Slot.copies, Roster.matching, hcard, ← hs.channels, List.length_append, List.length_map]
  congr 1
  simp only [List.mem_toFinset]
  split
  · rfl
  · rfl

namespace Follows

variable {r : Roster} {t : Traffic} (h : Follows r t)
include h

theorem received_of_unknown
    {call : Call}
    {id : SubscriberId}
    (hid : (r.step call).next ≤ id) :
    (t.step call).received id = [] := by
  cases call with
  | subscriber => exact h.unknown id (Nat.le_of_succ_le hid)
  | nextMessage other wait =>
      rcases t.step_nextMessage other wait with ⟨raw, rest, hinbox, -, hreceived⟩ | ⟨-, hreceived⟩
      · have hne : id ≠ other := by
          rintro rfl
          rw [h.agrees.inbox_of_unknown hid] at hinbox
          exact absurd hinbox (by simp)
        rw [hreceived, Function.update_of_ne hne]
        exact h.unknown id hid
      · rw [hreceived]
        exact h.unknown id hid
  | subscribe _ _ => exact h.unknown id hid
  | psubscribe _ _ => exact h.unknown id hid
  | unsubscribe _ _ => exact h.unknown id hid
  | punsubscribe _ _ => exact h.unknown id hid
  | publish _ _ => exact h.unknown id hid
  | drop _ => exact h.unknown id hid

theorem lt_next
    {id : SubscriberId}
    (hid : id ∈ r.live) :
    id < r.next := by
  obtain ⟨s, -, -, hfits, rfl⟩ := h.agrees.slot_of_live hid
  exact hfits.known

theorem heard_subscriber
    {id : SubscriberId}
    (hid : id ∈ (r.step .subscriber).live) :
    ∃ blocks,
      List.Forall₂ IsCopies ((r.step .subscriber).heard id) blocks ∧
        (t.step .subscriber).stream id = blocks.flatten := by
  -- The newcomer has heard nothing, and nothing was received under its number before.
  by_cases hnew : id = r.next
  · subst hnew
    have hgone : r.next ∉ r.live := fun hlive => Nat.lt_irrefl _ (h.lt_next hlive)
    refine ⟨[], ?_, ?_⟩
    · simp only [Roster.step, Function.update_self]
      exact List.Forall₂.nil
    · show t.received r.next ++ t.store.exchange.subscriber.2.inbox r.next = []
      rw [h.unknown _ (Nat.le_refl _), h.agrees.inbox_subscriber_of_gone hgone]
      rfl
  · have hold : id ∈ r.live := (Finset.mem_insert.1 hid).resolve_left hnew
    obtain ⟨s, hs, hlive, -, -⟩ := h.agrees.slot_of_live hold
    obtain ⟨blocks, hblocks, hstream⟩ := h.heard id hold
    refine ⟨blocks, ?_, ?_⟩
    · simp only [Roster.step, Function.update_of_ne hnew]
      exact hblocks
    · show t.received id ++ t.store.exchange.subscriber.2.inbox id = blocks.flatten
      rw [Exchange.inbox_subscriber hs hlive]
      exact hstream

theorem heard_publish
    (channel : String)
    (payload : Bytes)
    {id : SubscriberId}
    (hid : id ∈ r.live) :
    ∃ blocks,
      List.Forall₂ IsCopies ((r.step (.publish channel payload)).heard id) blocks ∧
        (t.step (.publish channel payload)).stream id = blocks.flatten := by
  obtain ⟨s, hs, hlive, hfits, rfl⟩ := h.agrees.slot_of_live hid
  obtain ⟨blocks, hblocks, hstream⟩ := h.heard s.id hid
  refine ⟨blocks ++ [s.copies channel payload], ?_, ?_⟩
  · simp only [Roster.step, if_pos hid]
    exact List.rel_append hblocks (List.Forall₂.cons (hfits.isCopies channel payload) .nil)
  · show t.received s.id ++ (t.store.exchange.publish channel payload).2.inbox s.id = _
    rw [Exchange.inbox_publish hs hlive, ← List.append_assoc, List.flatten_append,
      List.flatten_singleton]
    exact congrArg (· ++ _) hstream

theorem step
    (call : Call) :
    Follows (r.step call) (t.step call) := by
  refine ⟨h.agrees.step call, fun id hid => h.received_of_unknown hid, fun id hid => ?_⟩
  rcases call.keeps with rfl | ⟨channel, payload, rfl⟩ | hkeeps
  · exact h.heard_subscriber hid
  · exact h.heard_publish channel payload hid
  · rw [hkeeps.heard, hkeeps.stream]
    exact h.heard id (hkeeps.live r hid)

theorem run
    (calls : List Call) :
    Follows (r.run calls) (t.run calls) := by
  induction calls generalizing r t with
  | nil => exact h
  | cons call calls ih => exact ih (h.step call)

theorem publish_answer
    (channel : String)
    (payload : Bytes) :
    ((Store.publish channel payload : StoreM Memory Nat).answer t.store).1 =
      .ok (∑ id ∈ r.live, r.matching id channel) := by
  have hcount : (t.store.exchange.publish channel payload).1 =
      ∑ id ∈ r.live, r.matching id channel := by
    calc (t.store.exchange.publish channel payload).1
        = (t.store.exchange.live.map fun s => (s.copies channel payload).length).sum := by
          rw [List.sum_eq_foldr, List.foldr_map]
          rfl
      _ = (t.store.exchange.live.map fun s => r.matching s.id channel).sum := by
          congr 1
          refine List.map_congr_left fun s hs => ?_
          exact (h.agrees.fits s (Exchange.mem_live.1 hs).1).length_copies channel payload
      _ = ((t.store.exchange.live.map (·.id)).map fun id => r.matching id channel).sum := by
          rw [List.map_map]
          rfl
      -- No number is listed twice, so that the sum over slots is one over subscribers.
      _ = ∑ id ∈ r.live, r.matching id channel := by
          rw [← h.agrees.live_eq, List.sum_toFinset _ h.agrees.nodup_live]
  exact congrArg Except.ok hcount

theorem gone_step
    {id : SubscriberId}
    (hknown : id < r.next)
    (hgone : id ∉ r.live)
    (call : Call) :
    id < (r.step call).next ∧ id ∉ (r.step call).live ∧
      (t.step call).stream id <+: t.stream id := by
  rcases call.keeps with rfl | ⟨channel, payload, rfl⟩ | hkeeps
  · refine ⟨Nat.lt_succ_of_lt hknown, ?_, ?_⟩
    · intro hid
      rcases Finset.mem_insert.1 hid with rfl | hlive
      · exact Nat.lt_irrefl _ hknown
      · exact hgone hlive
    · show t.received id ++ t.store.exchange.subscriber.2.inbox id <+: t.stream id
      rw [h.agrees.inbox_subscriber_of_gone hgone, List.append_nil]
      exact List.prefix_append _ _
  · refine ⟨hknown, hgone, ?_⟩
    show t.received id ++ (t.store.exchange.publish channel payload).2.inbox id <+: t.stream id
    rw [h.agrees.inbox_publish_of_gone hgone, List.append_nil]
    exact List.prefix_append _ _
  · rw [hkeeps.next, hkeeps.stream]
    exact ⟨hknown, fun hid => hgone (hkeeps.live r hid), List.prefix_refl _⟩

theorem gone_run
    {id : SubscriberId}
    (hknown : id < r.next)
    (hgone : id ∉ r.live)
    (calls : List Call) :
    (t.run calls).stream id <+: t.stream id := by
  induction calls generalizing r t with
  | nil => exact List.prefix_refl _
  | cons call calls ih =>
      obtain ⟨hstill, hever, hless⟩ := h.gone_step hknown hgone call
      exact (ih (h.step call) hstill hever).trans hless

end Follows

/-- **A live subscriber gets the copies of what was published while it was there, and
nothing else.**  After every run, what a live subscriber has received and what waits
in its inbox are together the copies of the publications made since it came, in their
order, each by the channels and patterns to which it then listened.  A publication
answers the number of copies it makes for all who live.  The stream of one who has
gone away never grows. -/
theorem copies_of_heard
    (now : Nat)
    (calls : List Call) :
    let t := (Traffic.start now).run calls
    let r := Roster.start.run calls
    (∀ id ∈ r.live, ∃ blocks,
      List.Forall₂ IsCopies (r.heard id) blocks ∧
        t.received id ++ t.store.exchange.inbox id = blocks.flatten) ∧
      (∀ channel payload,
        ((Store.publish channel payload : StoreM Memory Nat).answer t.store).1 =
          .ok (∑ id ∈ r.live, r.matching id channel)) ∧
      ∀ id, id < r.next → id ∉ r.live → ∀ later, (t.run later).stream id <+: t.stream id := by
  intro t r
  have h : Follows r t := (follows_start now).run calls
  exact ⟨h.heard, h.publish_answer, fun _ hknown hgone => h.gone_run hknown hgone⟩

end Fanout
end Courier
