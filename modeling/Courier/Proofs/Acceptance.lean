import Courier.Cache
import Courier.Proofs.Broker.Delivery
import Courier.Proofs.Queue.Effect
import Courier.Proofs.Record.RoundTrip

/-!
# What is accepted and what comes back

Jobs, messages and cached values are written without a limit on their depth and
read under one.  What a queue, the broker and the cache accept comes back
unchanged up to that limit; beyond it a job is lost when it is taken, a message
arrives as the text of its payload, and a cached value cannot be read.

**Results.**
* `Queue.push_ok`, `Queue.taken_comes_back`: the job of an accepted push.
* `Broker.publish_ok`, `Broker.published_comes_back`: the data of an accepted message.
* `Cache.put_ok`, `Cache.cached_comes_back`: an accepted value.
* `accepted_comes_back_within_limit`: all three with their limits.
* `accepted_job_lost`: a job beyond the limit.
-/

namespace Courier

namespace Json.Object

/-- Objects one within the other: a number of them in another one. -/
def tower : Nat → Object
  | 0 => .empty
  | levels + 1 =>
      { members := [("a", .object (tower levels).members)]
        canonical := by
          rw [Value.isCanonicalMembers_cons, Value.isCanonical, (tower levels).canonical]
          rfl }

theorem nesting_tower
    (levels : Nat) :
    (tower levels).nesting = levels + 1 := by
  induction levels with
  | zero => rfl
  | succ levels ih =>
      have hinner : (tower levels).nesting = Value.nestingMembers (tower levels).members + 1 := rfl
      rw [tower, nesting, Value.nestingMembers, Value.nesting, ← hinner, ih, Value.nestingMembers,
        Nat.max_zero]

theorem isExact_tower
    (levels : Nat) :
    (tower levels).isExact = true := by
  induction levels with
  | zero => rfl
  | succ levels ih =>
      have hinner : (tower levels).isExact = Value.isExactMembers (tower levels).members := rfl
      rw [tower, isExact, Value.isExactMembers, Value.isExact, ← hinner, ih, Value.isExactMembers]
      rfl

end Json.Object

open Json (Object Value)

/-- What a call that decodes a value answers, where the value comes back under a limit. -/
theorem Codec.ComesBack.answer
    {α ε : Type}
    [Json.Decode α]
    {kind : String}
    {bytes : Bytes}
    {v : α}
    {levels limit : Nat}
    {wrap : CodecError → ε}
    {r : Except ε (Option α)}
    (h : Codec.ComesBack kind bytes v levels limit)
    (hok : ∀ w, Codec.decode kind bytes = .ok w → r = .ok (some w))
    (herror : ∀ e, Codec.decode (α := α) kind bytes = .error e → r = .error (wrap e)) :
    (r = .ok (some v) ↔ levels ≤ limit) ∧
      (limit < levels → ∃ e, r = .error (wrap e) ∧ Codec.TooDeep kind e) := by
  obtain ⟨hback, hdeep⟩ := h
  constructor
  · rw [← hback]
    cases hd : Codec.decode (α := α) kind bytes with
    | ok w =>
        rw [hok w hd]
        simp
    | error e =>
        rw [herror e hd]
        simp
  · intro hlimit
    obtain ⟨e, he, htext⟩ := hdeep hlimit
    exact ⟨e, herror e he, htext⟩

namespace Queue

/-- A push that was accepted has put the bytes of the job at the front. -/
theorem push_ok
    {m n : Memory}
    {queue fresh : String}
    {job j : Job}
    {now : Calendar.Timestamp}
    (h : (push queue job fresh now).run m = ((.ok (), j), n)) :
    j = job.ensureDefaults fresh now ∧ n.data.list queue = j.write :: m.data.list queue := by
  cases hp : m.poisoned with
  | true =>
      have hrefused : (push queue job fresh now).run m =
          ((.error (.store Memory.lockPoisoned), job.ensureDefaults fresh now), m) := by
        cases m
        simp only at hp
        subst hp
        rfl
      rw [hrefused] at h
      exact absurd (congrArg (fun x => x.1.1) h) (by simp)
  | false =>
      rw [push_run hp] at h
      obtain rfl : job.ensureDefaults fresh now = j := congrArg (fun x => x.1.2) h
      obtain rfl :
          { m with data := m.data.pushFront queue (job.ensureDefaults fresh now).write } = n :=
        congrArg (fun x => x.2) h
      refine ⟨rfl, ?_⟩
      rw [Data.list_pushFront, if_pos rfl]

/-- The pops of a queue: without waiting and with any wait. -/
def IsPop (queue : String) (call : QueueM Memory (Option Job)) : Prop :=
  call = popNonBlocking queue ∨ ∃ wait, call = pop queue wait

/-- A call takes an entry off the back of a queue. -/
def Takes (queue : String) (call : QueueM Memory (Option Job)) (s : Memory) (entry : Bytes) :
    Prop :=
  (s.data.list queue).getLast? = some entry ∧
    (answer call s).2.data.list queue = (s.data.list queue).dropLast

/-- A pop that takes an entry answers what the entry is decoded to. -/
theorem answer_of_takes
    {queue : String}
    {call : QueueM Memory (Option Job)}
    {s : Memory}
    {entry : Bytes}
    (hcall : IsPop queue call)
    (h : Takes queue call s entry) :
    (answer call s).1 = popped (some entry) := by
  obtain ⟨hlast, hdrop⟩ := h
  -- Both refusals, of a lock and of a deadline, change nothing; an entry that is taken is gone.
  have hkept : (answer call s).2 ≠ s := by
    intro hsame
    rw [hsame] at hdrop
    have hlength := congrArg List.length hdrop
    rw [List.length_dropLast] at hlength
    have hne : s.data.list queue ≠ [] := by
      intro hnil
      rw [hnil] at hlast
      exact absurd hlast (by simp)
    have hpos := List.length_pos_of_ne_nil hne
    omega
  cases hp : s.poisoned with
  | true =>
      rcases hcall with rfl | ⟨wait, rfl⟩
      · exact absurd (popNonBlocking_of_poisoned hp queue) hkept
      · exact absurd (pop_of_poisoned hp queue wait) hkept
  | false =>
      rcases hcall with rfl | ⟨wait, rfl⟩
      · rw [popNonBlocking_answer hp, hlast]
      · obtain ⟨clock, hanswer⟩ := pop_answer hp queue wait
        rw [hanswer] at hkept ⊢
        split at hkept
        · exact absurd rfl hkept
        · next hwait => rw [if_neg hwait, hlast]

/-- What became of a job that was pushed, when a pop takes its entry: it is the
answer if its payload has no more levels than the limit, and is lost otherwise. -/
theorem taken_comes_back
    {queue : String}
    {call : QueueM Memory (Option Job)}
    {s : Memory}
    {j : Job}
    (hexact : j.payload.isExact = true)
    (hcall : IsPop queue call)
    (h : Takes queue call s j.write) :
    ((answer call s).1 = .ok (some j) ↔ j.payload.nesting ≤ Codec.maxLevels) ∧
      (Codec.maxLevels < j.payload.nesting → ∃ e,
        (answer call s).1 = .error (.serialization e) ∧ Codec.TooDeep Job.kind e) := by
  have hanswer := answer_of_takes hcall h
  refine (Codec.job_comesBack j hexact).answer ?_ ?_
  · intro job hjob
    rw [hanswer, popped, hjob]
  · intro e herror
    rw [hanswer, popped, herror]

end Queue

/-- A slot listens to a channel, by its name or by a pattern. -/
def Slot.Matches (s : Slot) (channel : String) : Prop :=
  channel ∈ s.channels ∨ ∃ p ∈ s.patterns, Glob.accepts p channel = true

theorem Slot.copies_ne_nil_iff
    (s : Slot)
    (channel : String)
    (payload : Bytes) :
    s.copies channel payload ≠ [] ↔ s.Matches channel := by
  rw [Slot.copies, Slot.Matches, ne_eq, List.append_eq_nil_iff, List.map_eq_nil_iff,
    List.filter_eq_nil_iff, not_and_or]
  refine or_congr ?_ ?_
  · split
    · next h => simp [h]
    · next h => simp [h]
  · simp

theorem Slot.of_mem_copies
    {s : Slot}
    {channel : String}
    {payload : Bytes}
    {raw : RawMessage}
    (h : raw ∈ s.copies channel payload) :
    raw.channel = channel ∧ raw.payload = payload := by
  rw [Slot.copies, List.mem_append] at h
  rcases h with h | h
  · split at h
    · rw [List.mem_singleton.1 h]
      exact ⟨rfl, rfl⟩
    · exact absurd h List.not_mem_nil
  · obtain ⟨p, _, rfl⟩ := List.mem_map.1 h
    exact ⟨rfl, rfl⟩

namespace Broker

/-- A message that was accepted is published as its bytes. -/
theorem publish_ok
    {m n : Memory}
    {channel : String}
    {data : Object}
    {now : Calendar.Timestamp}
    {count : Nat}
    (h : (publish channel data now : BrokerM Memory Nat).run m = (.ok count, n)) :
    n.exchange = (m.exchange.publish channel (Message.write ⟨channel, data, now⟩)).2 := by
  have hrun : (publish channel data now : BrokerM Memory Nat).run m =
      (.ok (m.exchange.publish channel (Message.write ⟨channel, data, now⟩)).1,
        { m with
          exchange := (m.exchange.publish channel (Message.write ⟨channel, data, now⟩)).2 }) :=
    rfl
  rw [hrun] at h
  exact (congrArg (fun x => x.2.exchange) h).symm

/-- The copies of a payload all become the same message. -/
theorem decode_copies
    (s : Slot)
    (channel : String)
    (payload : Bytes)
    (later : Calendar.Timestamp) :
    (s.copies channel payload).map (fun raw => Subscription.decode raw later) =
      List.replicate (s.copies channel payload).length
        (Message.receive channel payload later).1 := by
  rw [List.eq_replicate_iff]
  refine ⟨List.length_map _, ?_⟩
  intro message hmessage
  obtain ⟨raw, hraw, rfl⟩ := List.mem_map.1 hmessage
  obtain ⟨hchannel, hpayload⟩ := Slot.of_mem_copies hraw
  rw [Subscription.decode, hchannel, hpayload]

/-- What the bytes of a message are received as: the message if its data have no
more levels than the limit, and otherwise the text of the bytes. -/
theorem receive_write
    (message : Message)
    (hexact : message.data.isExact = true)
    (later : Calendar.Timestamp) :
    (message.data.nesting ≤ Codec.maxLevels →
        Message.receive message.channel message.write later = (message, none)) ∧
      (Codec.maxLevels < message.data.nesting →
        (Message.receive message.channel message.write later).1 =
          Message.fallback message.channel message.write later) := by
  obtain ⟨hback, hdeep⟩ := Codec.message_comesBack message hexact
  refine ⟨?_, ?_⟩
  · intro hlimit
    rw [Message.receive, hback.2 hlimit]
  · intro hlimit
    obtain ⟨e, herror, _⟩ := hdeep hlimit
    rw [Message.receive, herror]

/-- What a subscription that listens to the channel receives of a message that was
accepted, behind what it had still to read. -/
theorem published_comes_back
    {m n : Memory}
    {channel : String}
    {data : Object}
    {now : Calendar.Timestamp}
    {count : Nat}
    {s : Subscription}
    {slot : Slot}
    (hexact : data.isExact = true)
    (hpublish : (publish channel data now : BrokerM Memory Nat).run m = (.ok count, n))
    (hslot : m.exchange.slot? s.connection = some slot)
    (hlive : slot.released = false)
    (hunclosed : Request.close ∉ s.requests)
    (hrunning : s.stopped = false)
    (later : Calendar.Timestamp) :
    ∃ copies, (0 < copies ↔ slot.Matches channel) ∧
      (data.nesting ≤ Codec.maxLevels → s.received n later =
        s.outstanding m later ++ List.replicate copies ⟨channel, data, now⟩) ∧
      (Codec.maxLevels < data.nesting → s.received n later =
        s.outstanding m later ++ List.replicate copies
          (Message.fallback channel (Message.write ⟨channel, data, now⟩) later)) := by
  have hsteady : s.Steady n := ⟨hunclosed, fun hstopped => absurd hstopped (by simp [hrunning])⟩
  obtain ⟨hback, hdeep⟩ := receive_write ⟨channel, data, now⟩ hexact later
  simp only at hback hdeep
  have hreceived : s.received n later = s.outstanding m later ++
      List.replicate (slot.copies channel (Message.write ⟨channel, data, now⟩)).length
        (Message.receive channel (Message.write ⟨channel, data, now⟩) later).1 := by
    rw [hsteady.received_eq, Subscription.outstanding, Subscription.outstanding,
      publish_ok hpublish, Exchange.inbox_publish hslot hlive, List.map_append, decode_copies,
      List.append_assoc, List.append_assoc, List.append_assoc]
  refine ⟨(slot.copies channel (Message.write ⟨channel, data, now⟩)).length, ?_, ?_, ?_⟩
  · rw [List.length_pos_iff, Slot.copies_ne_nil_iff]
  · intro hlimit
    rw [hreceived, hback hlimit]
  · intro hlimit
    rw [hreceived, hdeep hlimit]

end Broker

namespace Cache

/-- A value that was accepted without a time to live is there as its bytes, and
never expires. -/
theorem put_ok
    {m n : Memory}
    {key : String}
    {v : Value}
    {ttl : Option Duration}
    (httl : ∀ d ∈ ttl, d.isZero = true)
    (h : (put key v ttl : CacheM Memory Unit).run m = (.ok (), n)) :
    n.poisoned = false ∧ n.data.values.get? key = some ⟨v.write, none⟩ := by
  have hrun : (put key v ttl : CacheM Memory Unit).run m =
      ((m.set key v.write ttl).1.mapError .store, (m.set key v.write ttl).2) := rfl
  have hnever : ttl.filter (!·.isZero) = none := by
    cases ttl with
    | none => rfl
    | some d => rw [Option.filter_some, httl d rfl]; rfl
  rw [hrun, Memory.set] at h
  split at h
  · exact absurd (congrArg Prod.fst h) (by simp [Except.mapError])
  · next hp =>
      rw [Memory.store, Entry.new?, hnever] at h
      obtain rfl : _ = n := congrArg Prod.snd h
      refine ⟨by simpa using hp, ?_⟩
      show (KeyMap.insert _ key _).get? key = _
      rw [KeyMap.get?_insert, if_pos rfl]

theorem get_of_entry
    {n : Memory}
    {key : String}
    {bytes : Bytes}
    (hp : n.poisoned = false)
    (hentry : n.data.values.get? key = some ⟨bytes, none⟩) :
    ((get key : CacheM Memory (Option Value)).run n).1 =
      match Codec.decode (α := Value) kind bytes with
      | .ok v => .ok (some v)
      | .error e => .error (.serialization e) := by
  have hget : n.get key = (.ok (some bytes), n) := by
    cases n
    simp only at hp hentry
    subst hp
    simp [Memory.get, Memory.useData, Memory.onData, Data.get, Data.purge, hentry, Entry.isExpired]
  have hcall : (onStore (Store.get key) : CacheM Memory (Option Bytes)).run n =
      ((n.get key).1.mapError .store, (n.get key).2) := rfl
  rw [hget] at hcall
  simp only [get, ExceptT.run, bind, ExceptT.bind, ExceptT.mk, StateT.bind] at hcall ⊢
  rw [hcall]
  simp only [Except.mapError, ExceptT.bindCont]
  cases Codec.decode (α := Value) kind bytes with
  | ok v => rfl
  | error e => rfl

/-- What is read of a value that was accepted, while its key holds what was put:
the value if it has no more levels than the limit. -/
theorem cached_comes_back
    {m n s : Memory}
    {key : String}
    {v : Value}
    {ttl : Option Duration}
    (hexact : v.isExact = true)
    (hcanonical : v.isCanonical = true)
    (httl : ∀ d ∈ ttl, d.isZero = true)
    (hput : (put key v ttl : CacheM Memory Unit).run m = (.ok (), n))
    (hpoisoned : s.poisoned = n.poisoned)
    (hkept : s.data.values.get? key = n.data.values.get? key) :
    (((get key : CacheM Memory (Option Value)).run s).1 = .ok (some v) ↔
        v.nesting ≤ Json.maxDepth) ∧
      (Json.maxDepth < v.nesting → ∃ e,
        ((get key : CacheM Memory (Option Value)).run s).1 = .error (.serialization e) ∧
          Codec.TooDeep kind e) := by
  obtain ⟨hfree, hentry⟩ := put_ok httl hput
  have hget := get_of_entry (hpoisoned.trans hfree) (hkept.trans hentry)
  refine (Codec.value_comesBack kind v hexact hcanonical).answer ?_ ?_
  · intro w hw
    rw [hget, hw]
  · intro e herror
    rw [hget, herror]

end Cache

/-- **What a queue, the broker and the cache accept comes back unchanged up to a
depth, and only up to it.**  A job whose payload has at most 126 levels of containers
is the answer of the pop that takes its entry, and a deeper one is lost with it; a
message with data of at most 126 levels arrives as it was published wherever its
channel is listened to, and a deeper one as the text of its bytes; a value of at most
127 levels is read as it was put, and a deeper one cannot be read. -/
theorem accepted_comes_back_within_limit
    (m n : Memory) :
    (∀ (queue fresh : String) (job j : Job) (now : Calendar.Timestamp),
      job.payload.isExact = true →
      (Queue.push queue job fresh now).run m = ((.ok (), j), n) →
      j = job.ensureDefaults fresh now ∧
        n.data.list queue = j.write :: m.data.list queue ∧
        ∀ (s : Memory) (call : QueueM Memory (Option Job)),
          Queue.IsPop queue call → Queue.Takes queue call s j.write →
          ((Queue.answer call s).1 = .ok (some j) ↔ j.payload.nesting ≤ Codec.maxLevels) ∧
            (Codec.maxLevels < j.payload.nesting → ∃ e,
              (Queue.answer call s).1 = .error (.serialization e) ∧ Codec.TooDeep Job.kind e)) ∧
    (∀ (channel : String) (data : Object) (now later : Calendar.Timestamp) (count : Nat)
        (s : Subscription) (slot : Slot),
      data.isExact = true →
      (Broker.publish channel data now : BrokerM Memory Nat).run m = (.ok count, n) →
      m.exchange.slot? s.connection = some slot → slot.released = false →
      Request.close ∉ s.requests → s.stopped = false →
      ∃ copies, (0 < copies ↔ slot.Matches channel) ∧
        (data.nesting ≤ Codec.maxLevels → s.received n later =
          s.outstanding m later ++ List.replicate copies ⟨channel, data, now⟩) ∧
        (Codec.maxLevels < data.nesting → s.received n later =
          s.outstanding m later ++ List.replicate copies
            (Message.fallback channel (Message.write ⟨channel, data, now⟩) later))) ∧
    (∀ (s : Memory) (key : String) (v : Value) (ttl : Option Duration),
      v.isExact = true → v.isCanonical = true → (∀ d ∈ ttl, d.isZero = true) →
      (Cache.put key v ttl : CacheM Memory Unit).run m = (.ok (), n) →
      s.poisoned = n.poisoned → s.data.values.get? key = n.data.values.get? key →
      (((Cache.get key : CacheM Memory (Option Value)).run s).1 = .ok (some v) ↔
          v.nesting ≤ Json.maxDepth) ∧
        (Json.maxDepth < v.nesting → ∃ e,
          ((Cache.get key : CacheM Memory (Option Value)).run s).1 = .error (.serialization e) ∧
            Codec.TooDeep Cache.kind e)) := by
  refine ⟨?_, ?_, ?_⟩
  · intro queue fresh job j now hexact hpush
    obtain ⟨hj, hlist⟩ := Queue.push_ok hpush
    have hpayload : j.payload.isExact = true := by
      rw [hj]
      exact hexact
    exact ⟨hj, hlist, fun s call hcall htakes => Queue.taken_comes_back hpayload hcall htakes⟩
  · intro channel data now later count s slot hexact hpublish hslot hlive hunclosed hrunning
    exact Broker.published_comes_back hexact hpublish hslot hlive hunclosed hrunning later
  · intro s key v ttl hexact hcanonical httl hput hpoisoned hkept
    exact Cache.cached_comes_back hexact hcanonical httl hput hpoisoned hkept

/-- A job whose payload is a number of objects one within the other. -/
def towerJob (levels : Nat) : Job :=
  { id := "j", type := "t", payload := .tower levels, createdAt := some .min, retries := 0 }

theorem nesting_towerJob
    (levels : Nat) :
    (towerJob levels).payload.nesting = levels + 1 :=
  Object.nesting_tower levels

theorem isExact_towerJob
    (levels : Nat) :
    (towerJob levels).payload.isExact = true :=
  Object.isExact_tower levels

/-- A job whose payload has one level more than the limit is accepted, and the pop
that takes its entry fails and leaves nothing behind. -/
theorem accepted_job_lost :
    ∃ m, (Queue.push "q" (towerJob 126) "" .min).run (.empty 0) =
        ((.ok (), towerJob 126), m) ∧
      Queue.Takes "q" (Queue.popNonBlocking "q") m (towerJob 126).write ∧
      (∃ e, (Queue.answer (Queue.popNonBlocking "q") m).1 = .error (.serialization e) ∧
        Codec.TooDeep Job.kind e) ∧
      (Queue.answer (Queue.popNonBlocking "q") m).2.data.list "q" = [] := by
  let m : Memory := { Memory.empty 0 with data := Data.empty.pushFront "q" (towerJob 126).write }
  have hpush : (Queue.push "q" (towerJob 126) "" .min).run (.empty 0) =
      ((.ok (), towerJob 126), m) := Queue.push_run rfl _ _ _ _
  have hlist : m.data.list "q" = [(towerJob 126).write] := (Queue.push_ok hpush).2
  have hempty : (Queue.answer (Queue.popNonBlocking "q") m).2.data.list "q" = [] := by
    rw [Queue.popNonBlocking_answer rfl, Data.list_popBack, if_pos rfl, hlist]
    rfl
  have htakes : Queue.Takes "q" (Queue.popNonBlocking "q") m (towerJob 126).write := by
    constructor
    · rw [hlist]
      rfl
    · rw [hempty, hlist]
      rfl
  have hlost := (Queue.taken_comes_back (isExact_towerJob 126) (Or.inl rfl) htakes).2
    (by rw [nesting_towerJob, Codec.maxLevels]; omega)
  exact ⟨m, hpush, htakes, hlost, hempty⟩

end Courier
