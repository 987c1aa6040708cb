import Courier.Proofs.Cache.Map
import Courier.Proofs.Json.Integers

/-!
# Counters in the cache

A counter is a stored value like others, so adding to one has to find out what integer
the stored bytes are.  It does so with a reader of its own, on bytes that were written by
the encoder or by another addition.  It puts an entry where there is none before it knows
that it will succeed.  All the same an addition succeeds exactly where the key is absent
or is read as an integer and the sum fits, is then read as the sum, and leaves everything
as it was where it fails.

**Results.**
* `Json.WritesValues`: the types whose values are written as JSON values.
* `Data.Cached`, `Cache.cached_after`: the store holds nothing else.
* `Memory.get_live`, `Memory.contains_live`, `Memory.increment_live`: reading and adding.
* `Cache.incrementBy_ok_iff`, `Cache.get_incrementBy`: where an addition succeeds.
* `Cache.incrementBy_failed`: an addition that fails changes nothing.
* `Cache.total_add`, `Cache.total_log`: what additions amount to.
* `Cache.counter_adds`: all of it, in every state that is reached.
-/

namespace Courier

namespace Json

/-- A type whose values are written as JSON values. -/
class WritesValues (α : Type) [Encode α] : Prop where
  of_write : ∀ {v : α} {bytes : Bytes}, Encode.write v = .ok bytes → ∃ w : Value, w.write = bytes

theorem WritesValues.of_eq
    {α : Type}
    [Encode α]
    (value : α → Value)
    (h : ∀ v : α, Encode.write v = .ok (value v).write) :
    WritesValues α :=
  ⟨fun {v} _ hwrite => ⟨value v, Except.ok.inj ((h v).symm.trans hwrite)⟩⟩

instance : WritesValues Value :=
  .of_eq id fun _ => rfl

instance : WritesValues String :=
  .of_eq .string fun x => by rw [Value.write]; rfl

instance : WritesValues Bool :=
  .of_eq .bool fun _ => rfl

/-- An integer of 64 bits as a value. -/
def Value.ofInt64 (n : Int64) : Value :=
  .number (.integer n.toInt n.le_toInt (Int.lt_trans n.toInt_lt (by decide)))

instance : WritesValues Int64 :=
  .of_eq .ofInt64 fun n => by rw [Value.ofInt64, Value.write]; rfl

/-- A natural number of 32 bits as a value. -/
def Value.ofUInt32 (n : UInt32) : Value :=
  .number (.integer n.toNat (by omega) (by have := n.toNat_lt; omega))

theorem write_ofUInt32
    (n : UInt32) :
    (Value.ofUInt32 n).write = Bytes.ofAscii (toString n.toNat) := by
  rw [Value.ofUInt32, Value.write]
  rfl

instance : WritesValues UInt32 :=
  .of_eq .ofUInt32 fun n => by rw [write_ofUInt32]; rfl

instance : WritesValues UInt8 :=
  .of_eq (fun n => .ofUInt32 n.toUInt32) fun n => by rw [write_ofUInt32]; rfl

/-- A word that is not finite is written as a null. -/
instance : WritesValues Binary64 where
  of_write {x} bytes h := by
    obtain rfl := Except.ok.inj h
    by_cases hfinite : x.isFinite = true
    · exact ⟨.number (.float x hfinite), by rw [Value.write, if_pos hfinite]; rfl⟩
    · exact ⟨.null, by rw [if_neg hfinite]⟩

instance {α : Type} [Encode α] [WritesValues α] : WritesValues (Option α) where
  of_write {v} bytes h := by
    cases v with
    | none => exact ⟨.null, Except.ok.inj h⟩
    | some v =>
        have hv : Encode.write v = .ok bytes := h
        exact WritesValues.of_write hv

theorem writeItems_eq_intercalate
    (ws : List Value) :
    writeItems ws = List.intercalate [0x2C] (ws.map Value.write) := by
  rw [writeItems_eq]
  cases ws with
  | nil => rfl
  | cons w ws =>
      rw [List.map_cons, intercalate_comma, List.flatMap_map]
      rfl

theorem writeMembers_eq_intercalate
    (ms : List (String × Value)) :
    writeMembers ms = List.intercalate [0x2C] (ms.map writeMember) := by
  rw [writeMembers_eq]
  cases ms with
  | nil => rfl
  | cons m ms =>
      rw [List.map_cons, intercalate_comma, List.flatMap_map]
      rfl

theorem of_mapM_write
    {α : Type}
    [Encode α]
    [WritesValues α]
    {vs : List α}
    {items : List Bytes}
    (h : vs.mapM Encode.write = .ok items) :
    ∃ ws : List Value, ws.map Value.write = items := by
  induction vs generalizing items with
  | nil =>
      obtain rfl := Except.ok.inj h
      exact ⟨[], rfl⟩
  | cons v vs ih =>
      rw [List.mapM_cons] at h
      rcases hv : Encode.write v with e | bytes
      · rw [hv] at h
        exact absurd h (by simp [bind, Except.bind])
      · rcases hvs : vs.mapM Encode.write with e | rest
        · rw [hv, hvs] at h
          exact absurd h (by simp [bind, Except.bind])
        · rw [hv, hvs] at h
          obtain rfl := Except.ok.inj h
          obtain ⟨w, rfl⟩ := WritesValues.of_write hv
          obtain ⟨ws, rfl⟩ := ih hvs
          exact ⟨w :: ws, rfl⟩

instance {α : Type} [Encode α] [WritesValues α] : WritesValues (List α) where
  of_write {vs} bytes h := by
    have hvs : (vs.mapM Encode.write >>= fun items =>
        .ok (0x5B :: (List.intercalate [0x2C] items ++ [0x5D]))) = .ok bytes := h
    rcases hitems : vs.mapM Encode.write with e | items
    · rw [hitems] at hvs
      exact absurd hvs (by simp [bind, Except.bind])
    · rw [hitems] at hvs
      obtain rfl := Except.ok.inj hvs
      obtain ⟨ws, rfl⟩ := of_mapM_write hitems
      exact ⟨.array ws, by rw [Value.write, writeItems_eq_intercalate]⟩

/-- A record is written as the object of its fields. -/
theorem writeRecord_eq
    (ms : List (String × Value)) :
    writeRecord (ms.map fun m => (m.1, m.2.write)) = (Value.object ms).write := by
  rw [writeRecord, Value.write, writeMembers_eq_intercalate, List.map_map]
  rfl

instance : WritesValues Job :=
  .of_eq
    (fun job => .object <|
      [("id", .string job.id), ("type", .string job.type),
        ("payload", .object job.payload.members)] ++
      (job.createdAt.map fun t => ("created_at", .string t.text)).toList ++
      [("retries", .ofUInt32 job.retries)])
    fun job => by
      rw [← writeRecord_eq]
      have hobject := Object.write.eq_def job.payload
      cases hcreated : job.createdAt with
      | none => simp [Encode.write, Job.write, hcreated, Value.write, hobject, write_ofUInt32]
      | some t => simp [Encode.write, Job.write, hcreated, Value.write, hobject, write_ofUInt32]

instance : WritesValues Message :=
  .of_eq
    (fun m => .object
      [("channel", .string m.channel), ("data", .object m.data.members),
       ("timestamp", .string m.timestamp.text)])
    fun m => by
      rw [← writeRecord_eq]
      simp [Encode.write, Message.write, Value.write, Object.write]

end Json

namespace Data

open Json (Value)

/-- The data hold written values and nothing else. -/
structure Cached (d : Data) : Prop extends d.PlainOnly where
  values : d.values.All fun e => ∃ w : Value, w.write = e.value

theorem cached_empty : Data.empty.Cached :=
  ⟨⟨rfl, rfl⟩, KeyMap.all_empty _⟩

/-- The value of an integer that fits. -/
theorem exists_write_toString
    {n : Int}
    (h : Numeral.minInt64 ≤ n ∧ n ≤ Numeral.maxInt64) :
    ∃ w : Value, w.write = Bytes.ofAscii (toString n) := by
  rw [Numeral.minInt64, Numeral.maxInt64] at h
  exact ⟨.number (.integer n (by omega) (by omega)), by rw [Value.write]; rfl⟩

namespace Cached

variable {d : Data} (h : d.Cached)
include h

theorem put
    (key : String)
    {e : Entry}
    (he : ∃ w : Value, w.write = e.value) :
    (d.put key e).Cached :=
  ⟨⟨h.lists, h.sorted⟩, h.values.insert key he⟩

theorem purge
    (now : Nat)
    (key : String) :
    (d.purge now key).Cached := by
  rw [Data.purge]
  split
  · split
    · exact ⟨⟨h.lists, h.sorted⟩, h.values.erase key⟩
    · exact h
  · exact h

theorem clear
    (key : String) :
    (d.clear key).Cached :=
  ⟨h.toPlainOnly.clear key, h.values.erase key⟩

theorem remove
    (now : Nat)
    (key : String) :
    (d.remove now key).2.Cached := by
  rw [remove_snd]
  exact (h.purge now key).clear key

theorem removeAll
    (now : Nat)
    (keys : List String) :
    (d.removeAll now keys).2.Cached := by
  induction keys generalizing d with
  | nil => exact h
  | cons k ks ih => exact ih (h.remove now k)

theorem counterEntry
    (key : String) :
    ∃ w : Value, w.write = (d.counterEntry key).value := by
  rw [Data.counterEntry]
  cases hget : d.values.get? key with
  | none => exact exists_write_toString (n := 0) (by decide)
  | some e => exact h.values key e hget

theorem increment
    (now : Nat)
    (key : String)
    (amount : Int64) :
    (d.increment now key amount).2.Cached := by
  have hpurged := h.purge now key
  have hentry := hpurged.put key (hpurged.counterEntry key)
  rw [increment_eq]
  simp only [count]
  split
  · exact hpurged
  · split
    · exact hentry
    · split
      · next hrange => exact hentry.put key (exists_write_toString hrange)
      · exact hentry

theorem current
    (now : Nat) :
    (d.current now).Cached := by
  refine ⟨⟨h.lists, h.sorted⟩, fun key e he => ?_⟩
  rw [get?_current] at he
  exact h.values key e (Option.filter_eq_some_iff.1 he).1

end Cached
end Data

namespace Cache

/-- A call to the cache. -/
inductive Call : Type 1 where
  | put {α : Type} [Json.Encode α] [Json.WritesValues α]
      (key : String) (v : α) (ttl : Option Duration)
  | get (α : Type) [Json.Decode α] (key : String)
  | delete (key : String)
  | deleteMatching (pattern : String)
  | contains (key : String)
  | setIfAbsent {α : Type} [Json.Encode α] [Json.WritesValues α]
      (key : String) (v : α) (ttl : Option Duration)
  | incrementBy (key : String) (amount : Int64)

/-- What happens to a cache: a call, or time that passes. -/
inductive Move : Type 1 where
  | call (call : Call)
  | pass (time : Duration)

/-- The store after a call. -/
def Call.onMemory (m : Memory) : Call → Memory
  | @put _ _ _ key v ttl => ((Cache.put key v ttl : CacheM Memory Unit).run m).2
  | @get α _ key => ((Cache.get key : CacheM Memory (Option α)).run m).2
  | .delete key => ((Cache.delete key : CacheM Memory Bool).run m).2
  | .deleteMatching pattern =>
      ((Cache.deleteMatching pattern : CacheM Memory (List String)).run m).2
  | .contains key => ((Cache.contains key : CacheM Memory Bool).run m).2
  | @setIfAbsent _ _ _ key v ttl =>
      ((Cache.setIfAbsent key v ttl : CacheM Memory Bool).run m).2
  | .incrementBy key amount => ((Cache.incrementBy key amount : CacheM Memory Int64).run m).2

def Move.onMemory (m : Memory) : Move → Memory
  | .call made => made.onMemory m
  | .pass time => m.advance time

/-- A store after a run that begins when its clock shows `clock`. -/
def after (clock : Nat) (moves : List Move) : Memory :=
  moves.foldl Move.onMemory (.empty clock)

/-- What is accepted by the encoder is a written value, and what is not changes nothing. -/
theorem encoded
    {α : Type}
    [Json.Encode α]
    [Json.WritesValues α]
    (v : α) :
    (∃ bytes, Codec.encode kind v = .ok bytes ∧ ∃ w : Json.Value, w.write = bytes) ∨
      ∃ e, Codec.encode kind v = .error e := by
  cases hwrite : Json.Encode.write v with
  | error e => exact Or.inr ⟨_, by rw [Codec.encode, hwrite]; rfl⟩
  | ok bytes =>
      exact Or.inl ⟨bytes, by rw [Codec.encode, hwrite]; rfl, Json.WritesValues.of_write hwrite⟩

theorem Call.cached
    {m : Memory}
    (h : m.data.Cached)
    (call : Call) :
    (call.onMemory m).data.Cached := by
  cases call with
  | @put α _ _ key v ttl =>
      rw [onMemory]
      rcases encoded v with ⟨bytes, hbytes, hvalue⟩ | ⟨e, he⟩
      · rw [put_run m key hbytes]
        have hremoved := h.remove m.clock key
        exact Memory.kept_set h hremoved (fun _ => hremoved.put key hvalue) ttl
      · rw [put_refused m key he]
        exact h
  | @get α _ key =>
      rw [onMemory, get_run]
      exact Memory.kept_useData h (h.purge m.clock key)
  | delete key =>
      rw [onMemory, delete_run]
      exact Memory.kept_useData h (h.removeAll m.clock [key])
  | deleteMatching pattern =>
      have hlisted : (m.keysMatching pattern).2.data.Cached := Memory.kept_useData h h
      rw [onMemory, deleteMatching_run]
      rcases hlist : m.keysMatching pattern with ⟨e | keys, n⟩
      all_goals rw [hlist] at hlisted
      · exact hlisted
      · simp only
        split
        · exact hlisted
        · exact Memory.kept_useData hlisted (hlisted.removeAll n.clock keys)
  | contains key =>
      have hnext : (m.contains key).2.data.Cached := Memory.kept_useData h (h.purge m.clock key)
      exact hnext
  | @setIfAbsent α _ _ key v ttl =>
      rw [onMemory]
      rcases encoded v with ⟨bytes, hbytes, hvalue⟩ | ⟨e, he⟩
      · rw [setIfAbsent_run m key hbytes]
        have hpurged := h.purge m.clock key
        exact Memory.kept_setIfAbsent h hpurged (fun _ => hpurged.put key hvalue) ttl
      · rw [setIfAbsent_refused m key he]
        exact h
  | incrementBy key amount =>
      have hnext : (m.increment key amount).2.data.Cached :=
        Memory.kept_onData h (h.increment m.clock key amount)
      exact hnext

theorem cached_after
    (clock : Nat)
    (moves : List Move) :
    (after clock moves).data.Cached := by
  have hrun : ∀ {m : Memory}, m.data.Cached → (moves.foldl Move.onMemory m).data.Cached := by
    intro m h
    induction moves generalizing m with
    | nil => exact h
    | cons move moves ih =>
        cases move with
        | call made => exact ih (made.cached h)
        | pass time => exact ih (m := m.advance time) h
  exact hrun Data.cached_empty

end Cache

namespace Data

open Json (Value)

/-- What adding to an integer answers, or to what is none. -/
def added (key : String) (amount : Int64) : Option Int → Except StoreError Int64
  | none => .error (notInteger key)
  | some n =>
      if Numeral.minInt64 ≤ n + amount.toInt ∧ n + amount.toInt ≤ Numeral.maxInt64 then
        .ok (Int64.ofInt (n + amount.toInt))
      else .error (.command "increment would overflow")

theorem Cached.count_fst
    {d : Data}
    (h : d.Cached)
    (key : String)
    (amount : Int64) :
    (d.count key amount).1 = added key amount (counter? (d.counterEntry key).value) := by
  have hplain : (d.lists.contains key || d.sorted.contains key) = false := by
    rw [h.lists, h.sorted]
    rfl
  simp only [count, hplain, Bool.false_eq_true, if_false]
  cases counter? (d.counterEntry key).value with
  | none => rfl
  | some n =>
      simp only [added]
      split
      · rfl
      · rfl

/-- Zero and an amount that fits always fit. -/
theorem added_zero
    (key : String)
    (amount : Int64) :
    added key amount (some 0) = .ok amount := by
  have hrange : Numeral.minInt64 ≤ 0 + amount.toInt ∧ 0 + amount.toInt ≤ Numeral.maxInt64 := by
    have hleast := amount.le_toInt
    have hmost := amount.toInt_lt
    rw [Numeral.minInt64, Numeral.maxInt64]
    omega
  rw [added, if_pos hrange, Int.zero_add, Int64.ofInt_toInt]

theorem added_eq_ok_iff
    {key : String}
    {amount n : Int64}
    {k : Int} :
    added key amount (some k) = .ok n ↔
      (Numeral.minInt64 ≤ k + amount.toInt ∧ k + amount.toInt ≤ Numeral.maxInt64) ∧
        n.toInt = k + amount.toInt := by
  rw [added]
  split
  · next hrange =>
      have hsum := Numeral.toInt_ofInt hrange
      rw [Except.ok.injEq, and_iff_right hrange]
      constructor
      · rintro rfl
        exact hsum
      · intro hn
        exact Int64.toInt_inj.1 (hsum.trans hn.symm)
  · next hrange =>
      constructor
      · exact fun h => absurd h (by simp)
      · exact fun h => absurd h.1 hrange

/-- An addition to a written value answers the sum with the integer that it is. -/
theorem added_int64?_eq_ok_iff
    {key : String}
    {amount n : Int64}
    {w : Value} :
    added key amount w.int64? = .ok n ↔
      ∃ v : Int64, w.int64? = some v.toInt ∧
        (Numeral.minInt64 ≤ v.toInt + amount.toInt ∧
          v.toInt + amount.toInt ≤ Numeral.maxInt64) ∧
        n.toInt = v.toInt + amount.toInt := by
  cases hint : w.int64? with
  | none => simp [added]
  | some k =>
      have hk := Numeral.toInt_ofInt (Value.int64?_bounds hint)
      rw [added_eq_ok_iff]
      constructor
      · rintro ⟨hrange, hn⟩
        exact ⟨Int64.ofInt k, by rw [hk], by rw [hk]; exact hrange, by rw [hk]; exact hn⟩
      · rintro ⟨v, hv, hrange, hn⟩
        rw [Option.some.inj hv]
        exact ⟨hrange, hn⟩

/-- The entry of a new counter is a written zero. -/
theorem counter?_zero :
    counter? (Bytes.ofAscii "0") = some 0 :=
  Value.counter?_write_integer 0 (by decide) (by decide)

/-- A counter that is not changed leaves the data as they are. -/
theorem put_counterEntry
    {d : Data}
    {key : String}
    {e : Entry}
    (h : d.values.get? key = some e) :
    d.put key (d.counterEntry key) = d := by
  have hentry : d.counterEntry key = e := by
    rw [counterEntry, h]
    rfl
  refine ext_values rfl rfl fun l => ?_
  show (d.values.insert key (d.counterEntry key)).get? l = _
  rw [KeyMap.get?_insert, hentry]
  split
  · next hl => rw [← hl, h]
  · rfl

theorem count_snd_of_error
    {d : Data}
    {key : String}
    {amount : Int64}
    {e : Entry}
    {fault : StoreError}
    (hentry : d.values.get? key = some e)
    (h : (d.count key amount).1 = .error fault) :
    (d.count key amount).2 = d := by
  have hput := put_counterEntry hentry
  simp only [count] at h ⊢
  split
  · rfl
  · next hplain =>
      rw [if_neg hplain] at h
      cases hvalue : counter? (d.counterEntry key).value with
      | none => exact hput
      | some n =>
          simp only [hvalue] at h ⊢
          split
          · next hrange =>
              rw [if_pos hrange] at h
              exact absurd h (by simp)
          · exact hput

theorem get?_count_of_ne
    (d : Data)
    {key l : String}
    (hl : key ≠ l)
    (amount : Int64) :
    (d.count key amount).2.values.get? l = d.values.get? l := by
  have hput : ∀ (d : Data) (e : Entry), (d.put key e).values.get? l = d.values.get? l := by
    intro d e
    show (d.values.insert key e).get? l = _
    rw [KeyMap.get?_insert, if_neg hl]
  simp only [count]
  split
  · rfl
  · split
    · exact hput d _
    · split
      · rw [hput, hput]
      · exact hput d _

end Data

namespace Memory

variable {m : Memory}

theorem unlocked_of_onData
    {α : Type}
    {f : Data → Except StoreError α × Data}
    {a : α}
    (hok : (m.onData f).1 = .ok a) :
    m.poisoned = false := by
  refine Bool.eq_false_iff.2 fun hlock => ?_
  rw [onData_of_poisoned hlock] at hok
  exact absurd hok (by simp)

section Unlocked

variable (h : m.poisoned = false)
include h

theorem get_live
    (key : String) :
    (m.get key).1 = .ok ((m.live key).map (·.value)) := by
  rw [get, useData_of_not_poisoned h, live_eq, ← Data.get?_purge]
  rfl

theorem contains_live
    (hcached : m.data.Cached)
    (key : String) :
    (m.contains key).1 = .ok (m.live key).isSome := by
  rw [contains, useData_of_not_poisoned h, Data.contains_fst, (hcached.current m.clock).holds,
    live_eq]

theorem increment_live
    (hcached : m.data.Cached)
    (key : String)
    (amount : Int64) :
    (m.increment key amount).1 =
      Data.added key amount
        (Data.counter? ((m.live key).getD ⟨Bytes.ofAscii "0", none⟩).value) := by
  have hcount := congrArg Prod.fst (m.data.count_current m.clock key amount)
  rw [increment, onData_of_not_poisoned h, live_eq]
  exact hcount.symm.trans ((hcached.current m.clock).count_fst key amount)

theorem live_increment_of_ne
    {key l : String}
    (hl : key ≠ l)
    (amount : Int64) :
    (m.increment key amount).2.live l = m.live l := by
  have hcount := congrArg Prod.snd (m.data.count_current m.clock key amount)
  rw [increment, onData_of_not_poisoned h, live_eq, live_eq,
    ← (m.data.current m.clock).get?_count_of_ne hl amount, hcount]

/-- An addition to a value that is there changes nothing when it fails. -/
theorem increment_failed
    {key : String}
    {amount : Int64}
    {e : Entry}
    {fault : StoreError}
    (hlive : m.live key = some e)
    (hfails : (m.increment key amount).1 = .error fault) :
    (m.increment key amount).2 = m := by
  obtain ⟨hentry, hfresh⟩ := Option.filter_eq_some_iff.1 hlive
  have hpurge : m.data.purge m.clock key = m.data := by
    rw [Data.purge, hentry]
    exact if_neg (mt Entry.isExpired_iff_due.1 (of_decide_eq_true hfresh))
  rw [increment, onData_of_not_poisoned h] at hfails ⊢
  rw [Data.increment_eq, hpurge] at hfails ⊢
  rw [Data.count_snd_of_error hentry hfails]

end Unlocked

end Memory

namespace Cache

variable {m : Memory}

theorem incrementBy_run
    (m : Memory)
    (key : String)
    (amount : Int64) :
    (incrementBy key amount : CacheM Memory Int64).run m =
      ((m.increment key amount).1.mapError .store, (m.increment key amount).2) := rfl

theorem contains_run
    (m : Memory)
    (key : String) :
    (contains key : CacheM Memory Bool).run m =
      ((m.contains key).1.mapError .store, (m.contains key).2) := rfl

theorem mapError_eq_ok_iff
    {ε δ α : Type}
    {f : ε → δ}
    {x : Except ε α}
    {a : α} :
    x.mapError f = .ok a ↔ x = .ok a := by
  cases x with
  | error e => simp [Except.mapError]
  | ok b => simp [Except.mapError]

/-- Reading an integer of 64 bits finds it where it was written. -/
theorem read_write
    (w : Json.Value)
    (v : Int64) :
    read (some w.write) = .ok (some v) ↔ w.int64? = some v.toInt := by
  have hdecode := w.readers_agree.2
  show ((Codec.decode (α := Int64) kind w.write).map some).mapError CacheError.serialization = _ ↔ _
  rw [Codec.decode]
  rcases hread : Json.decode (α := Int64) w.write with e | k
  · rw [hread] at hdecode
    have hnone : w.int64? = none := Option.map_eq_none_iff.1 hdecode.symm
    simp [hnone, Except.mapError, Except.map]
  · rw [hread] at hdecode
    obtain ⟨i, hi, hk⟩ := Option.map_eq_some_iff.1 hdecode.symm
    have hki : k.toInt = i := by
      rw [← hk, Numeral.toInt_ofInt (Json.Value.int64?_bounds hi)]
    rw [hi, ← hki, Option.some.injEq, Int64.toInt_inj]
    simp [Except.mapError, Except.map]

/-- **An addition succeeds where the key is absent or is read as an integer, and the sum
fits.** -/
theorem incrementBy_ok_iff
    (h : m.data.Cached)
    (key : String)
    (amount n : Int64) :
    ((incrementBy key amount : CacheM Memory Int64).run m).1 = .ok n ↔
      (((contains key : CacheM Memory Bool).run m).1 = .ok false ∧ n = amount) ∨
        ∃ v : Int64, ((get key : CacheM Memory (Option Int64)).run m).1 = .ok (some v) ∧
          (Numeral.minInt64 ≤ v.toInt + amount.toInt ∧
            v.toInt + amount.toInt ≤ Numeral.maxInt64) ∧
          n.toInt = v.toInt + amount.toInt := by
  rw [incrementBy_run, contains_run, get_run]
  cases hlock : m.poisoned with
  | true =>
      have hget : m.get key = (.error Memory.lockPoisoned, m) := Memory.useData_of_poisoned hlock _
      have hcontains : m.contains key = (.error Memory.lockPoisoned, m) :=
        Memory.useData_of_poisoned hlock _
      have hincrement : m.increment key amount = (.error Memory.lockPoisoned, m) :=
        Memory.onData_of_poisoned hlock _
      rw [hget, hcontains, hincrement]
      simp [Except.mapError, bind, Except.bind]
  | false =>
      have hget := Memory.get_live hlock key
      have hcontains := Memory.contains_live hlock h key
      have hincrement := Memory.increment_live hlock h key amount
      rw [hget, hcontains, hincrement]
      cases hlive : m.live key with
      | none =>
          simp only [Option.getD_none, Data.counter?_zero, Data.added_zero]
          simp [Except.mapError, bind, Except.bind, read, eq_comm]
      | some e =>
          obtain ⟨hentry, -⟩ := Option.filter_eq_some_iff.1 hlive
          obtain ⟨w, hw⟩ := h.values key e hentry
          have hread : ∀ v : Int64,
              ((Except.ok ((some e).map (·.value))).mapError CacheError.store >>= read) =
                .ok (some v) ↔ w.int64? = some v.toInt := by
            intro v
            rw [← read_write w v, hw]
            rfl
          have hthere : ((Except.ok (some e).isSome).mapError CacheError.store :
              Except CacheError Bool) ≠ .ok false := by
            simp [Except.mapError]
          simp only [hread, Option.getD_some, ← hw, w.readers_agree.1, hthere, false_and, false_or]
          rw [mapError_eq_ok_iff, Data.added_int64?_eq_ok_iff]

/-- What has been added is read. -/
theorem get_incrementBy
    {key : String}
    {amount n : Int64}
    (hok : ((incrementBy key amount : CacheM Memory Int64).run m).1 = .ok n) :
    ((get key : CacheM Memory (Option Int64)).run
      ((incrementBy key amount : CacheM Memory Int64).run m).2).1 = .ok (some n) := by
  rw [incrementBy_run, mapError_eq_ok_iff] at hok
  have hthen : (m.increment key amount).2.poisoned = false :=
    (m.poisoned_onData _).trans (Memory.unlocked_of_onData hok)
  have hwritten : (Json.Value.ofInt64 n).write = Bytes.ofAscii (toString n.toInt) := by
    rw [Json.Value.ofInt64, Json.Value.write]
    rfl
  have hint : (Json.Value.ofInt64 n).int64? = some n.toInt := by
    rw [Json.Value.ofInt64, Json.Value.int64?, Option.filter_some,
      if_pos (decide_eq_true ⟨n.le_toInt, Int.le_of_lt_add_one n.toInt_lt⟩)]
  rw [incrementBy_run, get_run, Memory.get_live hthen, Memory.live_increment hok]
  have hread := (read_write _ n).2 hint
  rwa [hwritten] at hread

/-- **An addition that fails changes nothing.** -/
theorem incrementBy_failed
    (h : m.data.Cached)
    (key : String)
    (amount : Int64)
    (hfails : ∀ n, ((incrementBy key amount : CacheM Memory Int64).run m).1 ≠ .ok n) :
    ∃ e, (incrementBy key amount : CacheM Memory Int64).run m = (.error (.store e), m) := by
  rw [incrementBy_run] at hfails ⊢
  cases hlock : m.poisoned with
  | true =>
      refine ⟨Memory.lockPoisoned, ?_⟩
      rw [Memory.increment, Memory.onData_of_poisoned hlock]
      rfl
  | false =>
      rcases hincrement : m.increment key amount with ⟨e | n, next⟩
      · cases hlive : m.live key with
        | none =>
            have hanswer := Memory.increment_live hlock h key amount
            rw [hincrement, hlive, Option.getD_none, Data.counter?_zero, Data.added_zero] at hanswer
            exact absurd hanswer (by simp)
        | some there =>
            have hsame := Memory.increment_failed hlock hlive (congrArg Prod.fst hincrement)
            rw [hincrement] at hsame
            exact ⟨e, by rw [← hsame]; rfl⟩
      · exact absurd (congrArg (·.1.mapError CacheError.store) hincrement) (hfails n)

/-- What is read under a key, and zero if that is no integer. -/
def total (m : Memory) (key : String) : Int :=
  match ((get key : CacheM Memory (Option Int64)).run m).1 with
  | .ok (some v) => v.toInt
  | _ => 0

/-- What happens while additions are made: one of them, or time that passes. -/
inductive Tick where
  | add (key : String) (amount : Int64)
  | pass (time : Duration)

/-- An addition and what it answered. -/
structure Added where
  key : String
  amount : Int64
  answer : Except CacheError Int64

/-- The additions of a run with what they answer. -/
def log (m : Memory) : List Tick → List Added
  | [] => []
  | .add key amount :: run =>
      let r := (incrementBy key amount : CacheM Memory Int64).run m
      ⟨key, amount, r.1⟩ :: log r.2 run
  | .pass time :: run => log (m.advance time) run

/-- What an addition amounts to for a key. -/
def Added.part (key : String) (a : Added) : Int :=
  if a.key = key ∧ a.answer.isOk then a.amount.toInt else 0

/-- The sum of the amounts that were added to a key with success. -/
def tally (key : String) : List Added → Int
  | [] => 0
  | a :: log => a.part key + tally key log

end Cache

namespace Memory

/-- A key that is not there, or that never expires. -/
def Lasts (m : Memory) (key : String) : Prop :=
  ∀ e, m.live key = some e → e.expiresAt = none

theorem live_advance
    (m : Memory)
    (time : Duration)
    (key : String) :
    (m.advance time).live key =
      (m.live key).filter fun e => !e.isExpired (m.clock + time.nanos) := by
  rw [live_eq, live_eq, ← Data.get?_current, Data.current_current _ (Nat.le_add_right _ _)]
  rfl

theorem Lasts.live_advance
    {m : Memory}
    {key : String}
    (h : m.Lasts key)
    (time : Duration) :
    (m.advance time).live key = m.live key := by
  rw [Memory.live_advance]
  cases hlive : m.live key with
  | none => rfl
  | some e =>
      have hforever : (!e.isExpired (m.clock + time.nanos)) = true := by
        rw [Entry.isExpired, h e hlive]
        rfl
      rw [Option.filter_some, if_pos hforever]

end Memory

namespace Cache

variable {m : Memory} {key : String}

theorem total_congr
    {n : Memory}
    (hlock : n.poisoned = m.poisoned)
    (hlive : n.live key = m.live key) :
    total n key = total m key := by
  have hget : (n.get key).1 = (m.get key).1 := by
    cases hpoisoned : m.poisoned with
    | true =>
        rw [Memory.get, Memory.get, Memory.useData_of_poisoned hpoisoned,
          Memory.useData_of_poisoned (hlock.trans hpoisoned)]
    | false =>
        rw [Memory.get_live hpoisoned, Memory.get_live (hlock.trans hpoisoned), hlive]
  rw [total, total, get_run, get_run, hget]

theorem get_of_absent
    (h : m.data.Cached)
    (habsent : ((contains key : CacheM Memory Bool).run m).1 = .ok false) :
    ((get key : CacheM Memory (Option Int64)).run m).1 = .ok none := by
  rw [contains_run, mapError_eq_ok_iff] at habsent
  have hlock : m.poisoned = false := Memory.unlocked_of_onData habsent
  rw [Memory.contains_live hlock h, Except.ok.injEq, Option.isSome_eq_false_iff,
    Option.isNone_iff_eq_none] at habsent
  rw [get_run, Memory.get_live hlock, habsent]
  rfl

theorem total_of_ok
    (h : m.data.Cached)
    {amount n : Int64}
    (hok : ((incrementBy key amount : CacheM Memory Int64).run m).1 = .ok n) :
    n.toInt = total m key + amount.toInt := by
  rcases (incrementBy_ok_iff h key amount n).1 hok with ⟨habsent, rfl⟩ | ⟨v, hread, -, hn⟩
  · rw [total, get_of_absent h habsent, Int.zero_add]
  · rw [total, hread]
    exact hn

/-- The total of a key grows by what is added to it. -/
theorem total_add
    (h : m.data.Cached)
    (key other : String)
    (amount : Int64) :
    let r := (incrementBy other amount : CacheM Memory Int64).run m
    total r.2 key = total m key + Added.part key ⟨other, amount, r.1⟩ ∧
      (m.Lasts key → r.2.Lasts key) := by
  intro r
  cases hr : r.1 with
  | error e =>
      obtain ⟨_, hsame⟩ := incrementBy_failed h other amount fun n hn => by
        rw [show _ = r.1 from rfl, hr] at hn
        exact absurd hn (by simp)
      have hm : r.2 = m := congrArg Prod.snd hsame
      rw [hm, Added.part]
      simp [Except.isOk, Except.toBool]
  | ok n =>
      have hincrement : (m.increment other amount).1 = .ok n := mapError_eq_ok_iff.1 hr
      by_cases hkey : other = key
      · subst hkey
        rw [Added.part]
        refine ⟨?_, ?_⟩
        · have hthen : total r.2 other = n.toInt := by
            rw [total, get_incrementBy hr]
          rw [hthen, total_of_ok h hr]
          simp [Except.isOk, Except.toBool]
        · intro hlasts e he
          have hlive : r.2.live other = _ := Memory.live_increment hincrement
          rw [hlive] at he
          obtain rfl := Option.some.inj he
          cases hbefore : m.live other with
          | none => rfl
          | some e => exact hlasts e hbefore
      · have hlock : m.poisoned = false := Memory.unlocked_of_onData hincrement
        have hlive : r.2.live key = m.live key :=
          Memory.live_increment_of_ne hlock hkey amount
        have hsame : r.2.poisoned = m.poisoned :=
          m.poisoned_onData (·.increment m.clock other amount)
        rw [total_congr hsame hlive, Added.part, if_neg fun hpart => hkey hpart.1, Int.add_zero]
        exact ⟨rfl, fun hlasts e he => hlasts e (hlive ▸ he)⟩

/-- **What has been added to a key**, at each addition to it that succeeds. -/
theorem total_log
    (h : m.data.Cached)
    {run : List Tick}
    (hlasts : m.Lasts key ∨ ∀ time, .pass time ∉ run)
    {before later : List Added}
    {amount n : Int64}
    (hlog : log m run = before ++ ⟨key, amount, .ok n⟩ :: later) :
    n.toInt = total m key + tally key before + amount.toInt := by
  induction run generalizing m before with
  | nil => exact absurd hlog.symm (List.append_ne_nil_of_right_ne_nil _ (List.cons_ne_nil _ _))
  | cons tick run ih =>
      have hrest : (∀ time, .pass time ∉ tick :: run) → ∀ time, .pass time ∉ run :=
        fun hnone time hmem => hnone time (List.mem_cons_of_mem _ hmem)
      cases tick with
      | add other added =>
          cases before with
          | nil =>
              obtain ⟨hadded, -⟩ := List.cons.inj hlog
              injection hadded with hkey hamount hanswer
              subst hkey hamount
              rw [tally, Int.add_zero]
              exact total_of_ok h hanswer
          | cons first before =>
              obtain ⟨rfl, hlater⟩ := List.cons.inj hlog
              obtain ⟨htotal, hthen⟩ := total_add h key other added
              have hnext : ((incrementBy other added : CacheM Memory Int64).run m).2.data.Cached :=
                Call.cached h (.incrementBy other added)
              rw [ih hnext (hlasts.imp hthen hrest) hlater, htotal, tally,
                Int.add_assoc (total m key)]
      | pass time =>
          rcases hlasts with hlasts | hnone
          · have hlive := hlasts.live_advance time
            have hthen : (m.advance time).Lasts key := fun e he => hlasts e (hlive ▸ he)
            have htotal : total (m.advance time) key = total m key := total_congr rfl hlive
            rw [← htotal]
            exact ih (m := m.advance time) h (Or.inl hthen) hlog
          · exact absurd List.mem_cons_self (hnone time)

/-- **Counters add up.**  In every state that is reached by calls to the cache and by
time that passes, adding to a key succeeds exactly where the cache says that the key is
not there, or reads an integer under it with which the sum fits; then the sum is answered
and is read.  Where it fails the store is what it was.  In a run of additions each that
succeeds therefore answers the sum of those to its key that succeeded, unless its value
expires meanwhile. -/
theorem counter_adds
    (clock : Nat)
    (moves : List Move)
    (key : String)
    (amount : Int64) :
    let m := after clock moves
    let r := (incrementBy key amount : CacheM Memory Int64).run m
    (∀ n, r.1 = .ok n ↔
      (((contains key : CacheM Memory Bool).run m).1 = .ok false ∧ n = amount) ∨
        ∃ v : Int64, ((get key : CacheM Memory (Option Int64)).run m).1 = .ok (some v) ∧
          (Numeral.minInt64 ≤ v.toInt + amount.toInt ∧
            v.toInt + amount.toInt ≤ Numeral.maxInt64) ∧
          n.toInt = v.toInt + amount.toInt) ∧
      (∀ n, r.1 = .ok n →
        ((get key : CacheM Memory (Option Int64)).run r.2).1 = .ok (some n)) ∧
      ((∀ n, r.1 ≠ .ok n) → ∃ e, r = (.error (.store e), m)) ∧
      ∀ run, (m.Lasts key ∨ ∀ time, .pass time ∉ run) → ∀ before amount n later,
        log m run = before ++ ⟨key, amount, .ok n⟩ :: later →
          n.toInt = total m key + tally key before + amount.toInt := by
  intro m r
  have h : m.data.Cached := cached_after clock moves
  refine ⟨incrementBy_ok_iff h key amount, fun n => get_incrementBy,
    incrementBy_failed h key amount, ?_⟩
  exact fun run hlasts before amount n later => total_log h hlasts

end Cache
end Courier
