import Courier.Proofs.Acceptance
import Courier.Proofs.Store.Existence
import Courier.Proofs.Store.Expiry

/-!
# The cache as a map of values

A value goes through the encoder into a store that keeps three maps of bytes and
deadlines, and comes back through the decoder.  As long as nothing expires and every
value is one that the decoder gives back, nothing of this can be seen: the calls answer
what they answer on a plain map from keys to values.

**Results.**
* `Cache.put_run`, `Cache.get_run` and so on: calls of the cache as calls of the store.
* `Cache.Item`: the values that are given back.
* `Cache.MapCall.perform`, `Cache.MapCall.onMap`: a call on a store and on a map.
* `Data.Stores`: the data that hold the values of a map, and no more.
* `Cache.Agrees.perform`, `Cache.Agrees.run`: a call and a run keep store and map in
  agreement.
* `Cache.answers_as_map`: all of it, for every run.
-/

namespace Courier
namespace Cache

section Runs

variable {α β : Type} (m : Memory) (key : String)

theorem bind_run
    (call : CacheM Memory α)
    (rest : α → CacheM Memory β) :
    (call >>= rest).run m =
      match call.run m with
      | (.ok a, n) => (rest a).run n
      | (.error e, n) => (.error e, n) := by
  simp only [ExceptT.run, bind, ExceptT.bind, ExceptT.mk, StateT.bind]
  rcases call m with ⟨e | a, n⟩
  · rfl
  · rfl

theorem put_run
    [Json.Encode α]
    {v : α}
    {bytes : Bytes}
    (h : Codec.encode kind v = .ok bytes)
    (ttl : Option Duration) :
    (put key v ttl : CacheM Memory Unit).run m =
      ((m.set key bytes ttl).1.mapError .store, (m.set key bytes ttl).2) := by
  rw [put, h, bind_run]
  rfl

theorem put_refused
    [Json.Encode α]
    {v : α}
    {e : CodecError}
    (h : Codec.encode kind v = .error e)
    (ttl : Option Duration) :
    (put key v ttl : CacheM Memory Unit).run m = (.error (.serialization e), m) := by
  rw [put, h, bind_run]
  rfl

theorem setIfAbsent_run
    [Json.Encode α]
    {v : α}
    {bytes : Bytes}
    (h : Codec.encode kind v = .ok bytes)
    (ttl : Option Duration) :
    (setIfAbsent key v ttl : CacheM Memory Bool).run m =
      ((m.setIfAbsent key bytes ttl).1.mapError .store, (m.setIfAbsent key bytes ttl).2) := by
  rw [setIfAbsent, h, bind_run]
  rfl

theorem setIfAbsent_refused
    [Json.Encode α]
    {v : α}
    {e : CodecError}
    (h : Codec.encode kind v = .error e)
    (ttl : Option Duration) :
    (setIfAbsent key v ttl : CacheM Memory Bool).run m = (.error (.serialization e), m) := by
  rw [setIfAbsent, h, bind_run]
  rfl

/-- What reading answers where the store answers with some bytes or none. -/
def read [Json.Decode α] : Option Bytes → Except CacheError (Option α)
  | none => .ok none
  | some bytes => ((Codec.decode kind bytes).map some).mapError .serialization

theorem get_run
    [Json.Decode α] :
    (get key : CacheM Memory (Option α)).run m =
      ((m.get key).1.mapError .store >>= read, (m.get key).2) := by
  have hcall : (onStore (Store.get key) : CacheM Memory (Option Bytes)).run m =
      ((m.get key).1.mapError .store, (m.get key).2) := rfl
  rw [get, bind_run, hcall]
  rcases m.get key with ⟨e | _ | bytes, n⟩
  · rfl
  · rfl
  · show ((onCodec (Codec.decode kind bytes) : CacheM Memory α) >>= fun v =>
      pure (some v)).run n = _
    rw [bind_run]
    show _ = (((Codec.decode kind bytes).map some).mapError CacheError.serialization, n)
    rcases hdecode : Codec.decode (α := α) kind bytes with e | v
    · rfl
    · rfl

theorem delete_run :
    (delete key : CacheM Memory Bool).run m =
      (((m.delete [key]).1.mapError .store).map (decide <| 0 < ·), (m.delete [key]).2) := by
  have hcall : (onStore (Store.delete [key]) : CacheM Memory Nat).run m =
      ((m.delete [key]).1.mapError .store, (m.delete [key]).2) := rfl
  rw [delete, bind_run, hcall]
  rcases m.delete [key] with ⟨e | n, t⟩
  · rfl
  · rfl

/-- The keys that match are listed, and removed unless there are none. -/
theorem deleteMatching_run
    (pattern : String) :
    (deleteMatching pattern : CacheM Memory (List String)).run m =
      match m.keysMatching pattern with
      | (.error e, n) => (.error (.store e), n)
      | (.ok keys, n) =>
          if keys = [] then (.ok [], n)
          else (((n.delete keys).1.mapError .store).map fun _ => keys, (n.delete keys).2) := by
  have hlist : (onStore (Store.keysMatching pattern) : CacheM Memory (List String)).run m =
      ((m.keysMatching pattern).1.mapError .store, (m.keysMatching pattern).2) := rfl
  rw [deleteMatching, bind_run, hlist]
  rcases m.keysMatching pattern with ⟨e | keys, n⟩
  · rfl
  · by_cases hnil : keys = []
    · subst hnil
      rfl
    · have hdelete : (onStore (Store.delete keys) : CacheM Memory Nat).run n =
          ((n.delete keys).1.mapError .store, (n.delete keys).2) := rfl
      simp only [Except.mapError, if_neg hnil]
      rw [bind_run, hdelete]
      rcases n.delete keys with ⟨e | count, t⟩
      · rfl
      · rfl

end Runs

/-- A value that the decoder gives back: canonical, without floating-point numbers and
within the limit of levels. -/
structure Item where
  value : Json.Value
  isCanonical : value.isCanonical = true
  isExact : value.isExact = true
  nesting_le : value.nesting ≤ Json.maxDepth

namespace Item

/-- What the store keeps of a value. -/
def entry (item : Item) : Entry :=
  ⟨item.value.write, none⟩

theorem decode_write
    (item : Item) :
    Codec.decode (α := Json.Value) kind item.value.write = .ok item.value :=
  (Codec.value_comesBack kind item.value item.isExact item.isCanonical).1.2 item.nesting_le

end Item

/-- A call to the cache without a time to live. -/
inductive MapCall where
  | put (key : String) (item : Item)
  | get (key : String)
  | delete (key : String)
  | deleteMatching (pattern : String)
  | contains (key : String)
  | setIfAbsent (key : String) (item : Item)

/-- What happens to a cache: a call, or time that passes. -/
inductive MapMove where
  | call (call : MapCall)
  | pass (time : Duration)

namespace MapCall

/-- What a call answers when it succeeds. -/
abbrev Result : MapCall → Type
  | .put .. => Unit
  | .get .. => Option Json.Value
  | .delete .. => Bool
  | .deleteMatching .. => List String
  | .contains .. => Bool
  | .setIfAbsent .. => Bool

def perform : (call : MapCall) → CacheM Memory call.Result
  | .put key item => Cache.put key item.value none
  | .get key => Cache.get key
  | .delete key => Cache.delete key
  | .deleteMatching pattern => Cache.deleteMatching pattern
  | .contains key => Cache.contains key
  | .setIfAbsent key item => Cache.setIfAbsent key item.value none

/-- What a call answers on a plain map, and the map after it. -/
def onMap (map : KeyMap Item) : (call : MapCall) → call.Result × KeyMap Item
  | .put key item => ((), map.insert key item)
  | .get key => ((map.get? key).map (·.value), map)
  | .delete key => (map.contains key, map.erase key)
  | .deleteMatching pattern =>
      (map.keys.filter (Glob.accepts pattern), map.filter fun e => !Glob.accepts pattern e.1)
  | .contains key => (map.contains key, map)
  | .setIfAbsent key item =>
      if map.contains key then (false, map) else (true, map.insert key item)

end MapCall

namespace MapMove

def onMemory (m : Memory) : MapMove → Memory
  | .call made => (made.perform.run m).2
  | .pass time => m.advance time

def onMap (map : KeyMap Item) : MapMove → KeyMap Item
  | .call made => (made.onMap map).2
  | .pass _ => map

end MapMove

theorem filter_notMem_nil
    (map : KeyMap Item) :
    (map.filter fun e => decide (e.1 ∉ ([] : List String))) = map := by
  refine KeyMap.ext_get? fun l => ?_
  rw [KeyMap.get?_filter_notMem, if_neg List.not_mem_nil]

/-- The entries of keys that are not among those that match are the entries of keys
that do not match. -/
theorem filter_notMem_keys
    (map : KeyMap Item)
    (pattern : String) :
    (map.filter fun e => decide (e.1 ∉ map.keys.filter (Glob.accepts pattern))) =
      map.filter fun e => !Glob.accepts pattern e.1 := by
  refine KeyMap.ext_get? fun l => ?_
  rw [KeyMap.get?_filter_notMem, KeyMap.get?_filter]
  cases hget : map.get? l with
  | none => rw [ite_self, Option.filter_none]
  | some item =>
      have hkey : l ∈ map.keys := KeyMap.mem_keys_iff.2 (KeyMap.contains_iff.2 ⟨item, hget⟩)
      rw [Option.filter_some]
      cases haccepts : Glob.accepts pattern l with
      | true => simp [hkey, haccepts]
      | false => simp [haccepts]

end Cache

open Cache (Item)

namespace Data

/-- The data hold plain values and nothing else. -/
structure PlainOnly (d : Data) : Prop where
  lists : d.lists = .empty
  sorted : d.sorted = .empty

namespace PlainOnly

variable {d : Data} (h : d.PlainOnly)
include h

theorem clear
    (key : String) :
    (d.clear key).PlainOnly := by
  refine ⟨?_, ?_⟩
  · show d.lists.erase key = _
    rw [h.lists]
    rfl
  · show d.sorted.erase key = _
    rw [h.sorted]
    rfl

theorem holds
    (key : String) :
    d.holds key = (d.values.get? key).isSome := by
  rw [Data.holds, h.lists, h.sorted]
  rfl

end PlainOnly

/-- The data hold the values of a map, for good, and nothing else. -/
structure Stores (d : Data) (map : KeyMap Item) : Prop extends d.PlainOnly where
  values : ∀ key, d.values.get? key = (map.get? key).map Item.entry

theorem stores_empty : Data.empty.Stores .empty :=
  ⟨⟨rfl, rfl⟩, fun _ => rfl⟩

namespace Stores

variable {d : Data} {map : KeyMap Item} (h : d.Stores map)
include h

theorem holds
    (key : String) :
    d.holds key = map.contains key := by
  rw [h.toPlainOnly.holds, h.values, Option.isSome_map]
  rfl

theorem undue
    (now : Nat) :
    (d.undue now).Stores map := by
  refine ⟨⟨h.lists, h.sorted⟩, fun key => ?_⟩
  rw [get?_undue, h.values]
  cases map.get? key with
  | none => rfl
  | some item => simp [Item.entry, Entry.Due]

theorem put
    (key : String)
    (item : Item) :
    (d.put key item.entry).Stores (map.insert key item) := by
  refine ⟨⟨h.lists, h.sorted⟩, fun l => ?_⟩
  show (d.values.insert key item.entry).get? l = _
  rw [KeyMap.get?_insert, KeyMap.get?_insert, h.values]
  split
  · rfl
  · rfl

theorem clear
    (key : String) :
    (d.clear key).Stores (map.erase key) := by
  refine ⟨h.toPlainOnly.clear key, fun l => ?_⟩
  show (d.values.erase key).get? l = _
  rw [KeyMap.get?_erase, KeyMap.get?_erase, h.values]
  split
  · rfl
  · rfl

theorem replace
    (key : String)
    (item : Item) :
    ((d.clear key).put key item.entry).Stores (map.insert key item) := by
  have hinsert : (map.erase key).insert key item = map.insert key item := by
    refine KeyMap.ext_get? fun l => ?_
    rw [KeyMap.get?_insert, KeyMap.get?_insert, KeyMap.get?_erase]
    split
    · rfl
    · rfl
  rw [← hinsert]
  exact (h.clear key).put key item

theorem clearAll
    (keys : List String) :
    (d.clearAll keys).2.Stores (map.filter fun e => decide (e.1 ∉ keys)) := by
  induction keys generalizing d map with
  | nil =>
      rw [Cache.filter_notMem_nil]
      exact h
  | cons k ks ih =>
      have hrest : (map.filter fun e => decide (e.1 ∉ k :: ks)) =
          (map.erase k).filter fun e => decide (e.1 ∉ ks) := by
        refine KeyMap.ext_get? fun l => ?_
        rw [KeyMap.get?_filter_notMem, KeyMap.get?_filter_notMem, KeyMap.get?_erase]
        by_cases hk : k = l
        · simp [hk]
        · simp [hk, Ne.symm hk]
      rw [hrest]
      exact ih (h.clear k)

/-- The keys that match a pattern are listed alike. -/
theorem keysLike
    (pattern : String) :
    d.keysLike pattern = map.keys.filter (Glob.accepts pattern) := by
  refine (d.pairwise_keysLike pattern).eq_of_mem_iff (map.pairwise_keys.filter _) fun key => ?_
  rw [mem_keysLike, List.mem_filter, KeyMap.mem_keys_iff, h.holds]

end Stores
end Data

namespace Cache

/-- A store that can be locked holds the values of a map. -/
structure Agrees (m : Memory) (map : KeyMap Item) : Prop where
  unlocked : m.poisoned = false
  stored : m.settled.data.Stores map

theorem agrees_empty
    (clock : Nat) :
    Agrees (.empty clock) .empty :=
  ⟨rfl, Data.stores_empty.undue clock⟩

namespace Agrees

variable {m : Memory} {map : KeyMap Item} (h : Agrees m map)
include h

/-- A call of the store that is not abandoned answers what it answers on the punctual
store, and the store agrees with what that one then holds. -/
theorem store
    (call : Store.Call)
    (hbreaks : ¬ call.Breaks m)
    (hwaits : ¬ call.WaitsBeyond m)
    {answer : Except StoreError call.Result}
    {p : Punctual}
    (hcall : m.settled.perform call = (answer, p))
    {next : KeyMap Item}
    (hnext : p.data.Stores next) :
    (m.perform call).1 = answer ∧ Agrees (m.perform call).2 next := by
  rw [Memory.perform_settled h.unlocked call hbreaks hwaits] at hcall
  obtain ⟨rfl, rfl⟩ := Prod.mk.inj hcall
  exact ⟨rfl, Memory.perform_not_poisoned h.unlocked hbreaks, hnext⟩

theorem delete
    (keys : List String)
    {next : KeyMap Item}
    (hnext : (m.settled.data.clearAll keys).2.Stores next) :
    (m.delete keys).1 = .ok (m.settled.data.clearAll keys).1 ∧ Agrees (m.delete keys).2 next := by
  have hperform : m.settled.perform (.delete keys) =
      (.ok (m.settled.data.clearAll keys).1,
        { m.settled with data := (m.settled.data.clearAll keys).2 }) := by
    simp only [Punctual.perform, Punctual.useData, Punctual.onData, Data.clearAll_fst,
      Data.clearAll_snd, Data.holds_iff_has]
  exact h.store (.delete keys) id id hperform hnext

theorem setIfAbsent
    (key : String)
    (item : Item) :
    (m.setIfAbsent key item.value.write none).1 = .ok (!map.contains key) ∧
      Agrees (m.setIfAbsent key item.value.write none).2
        (if map.contains key then map else map.insert key item) := by
  have hperform : m.settled.setIfAbsent key item.value.write none =
      (.ok (!map.contains key), { m.settled with
        data :=
          if map.contains key then m.settled.data else m.settled.data.put key item.entry }) := by
    rw [← h.stored.holds]
    simp only [Punctual.setIfAbsent, Punctual.useData, Punctual.onData, ← Data.holds_iff_has]
    cases m.settled.data.holds key with
    | true => rfl
    | false => rfl
  refine h.store (.setIfAbsent key item.value.write none)
    (fun hb => not_livesBeyond_none hb.2.2) id hperform ?_
  split
  · exact h.stored
  · exact h.stored.put key item

theorem perform
    (call : MapCall) :
    (call.perform.run m).1 = .ok (call.onMap map).1 ∧
      Agrees (call.perform.run m).2 (call.onMap map).2 := by
  cases call with
  | put key item =>
      obtain ⟨hanswer, hagrees⟩ : (m.set key item.value.write none).1 = .ok () ∧
          Agrees (m.set key item.value.write none).2 (map.insert key item) :=
        h.store (.set key item.value.write none) (fun hb => not_livesBeyond_none hb.2) id
          rfl (h.stored.replace key item)
      rw [MapCall.perform, put_run m key rfl, hanswer]
      exact ⟨rfl, hagrees⟩
  | get key =>
      obtain ⟨hanswer, hagrees⟩ :
          (m.get key).1 = .ok ((m.settled.data.values.get? key).map (·.value)) ∧
            Agrees (m.get key).2 map :=
        h.store (.get key) id id rfl h.stored
      rw [MapCall.perform, get_run, hanswer, h.stored.values]
      refine ⟨?_, hagrees⟩
      show read _ = Except.ok ((map.get? key).map (·.value))
      cases map.get? key with
      | none => rfl
      | some item =>
          show ((Codec.decode kind item.value.write).map some).mapError _ = _
          rw [item.decode_write]
          rfl
  | delete key =>
      obtain ⟨hanswer, hagrees⟩ := h.delete [key] (h.stored.clear key)
      rw [MapCall.perform, delete_run, hanswer]
      refine ⟨?_, hagrees⟩
      have hcount : (m.settled.data.clearAll [key]).1 = if map.contains key then 1 else 0 := by
        rw [← h.stored.holds]
        exact Nat.zero_add _
      simp only [hcount, MapCall.onMap]
      cases map.contains key with
      | false => rfl
      | true => rfl
  | deleteMatching pattern =>
      obtain ⟨hanswer, hagrees⟩ :
          (m.keysMatching pattern).1 = .ok (m.settled.data.keysLike pattern) ∧
            Agrees (m.keysMatching pattern).2 map :=
        h.store (.keysMatching pattern) id id rfl h.stored
      rw [h.stored.keysLike] at hanswer
      rw [MapCall.perform, deleteMatching_run, MapCall.onMap, ← filter_notMem_keys]
      rcases hlist : m.keysMatching pattern with ⟨r, n⟩
      rw [hlist] at hanswer hagrees
      obtain rfl : r = .ok (map.keys.filter (Glob.accepts pattern)) := hanswer
      simp only
      split
      · next hnil =>
          rw [hnil, filter_notMem_nil]
          exact ⟨rfl, hagrees⟩
      · obtain ⟨hcount, hnext⟩ := hagrees.delete _ (hagrees.stored.clearAll _)
        rw [hcount]
        exact ⟨rfl, hnext⟩
  | contains key =>
      obtain ⟨hanswer, hagrees⟩ : (m.contains key).1 = .ok (m.settled.data.holds key) ∧
          Agrees (m.contains key).2 map :=
        h.store (.contains key) id id
          (congrArg (fun b => (Except.ok b, m.settled)) (Data.decide_has _ key)) h.stored
      refine ⟨?_, hagrees⟩
      show (m.contains key).1.mapError CacheError.store = _
      rw [hanswer, h.stored.holds]
      rfl
  | setIfAbsent key item =>
      obtain ⟨hanswer, hagrees⟩ := h.setIfAbsent key item
      rw [MapCall.perform, setIfAbsent_run m key rfl, MapCall.onMap, hanswer]
      cases hthere : map.contains key with
      | true =>
          rw [hthere] at hagrees
          exact ⟨rfl, hagrees⟩
      | false =>
          rw [hthere] at hagrees
          exact ⟨rfl, hagrees⟩

theorem pass
    (time : Duration) :
    Agrees (m.advance time) map := by
  refine ⟨h.unlocked, ?_⟩
  rw [Memory.settled_advance]
  exact h.stored.undue _

theorem run
    (moves : List MapMove) :
    Agrees (moves.foldl MapMove.onMemory m) (moves.foldl MapMove.onMap map) := by
  induction moves generalizing m map with
  | nil => exact h
  | cons move moves ih =>
      cases move with
      | call made => exact ih (h.perform made).2
      | pass time => exact ih (h.pass time)

end Agrees

/-- **The cache is a map from keys to values.**  After every sequence of calls without
a time to live, and of time that passes between them, every call answers what it answers
on the map that the same calls make: the value that was put last and not deleted since,
whether a key is there, and which keys match a pattern.  These are listed in the order
of their bytes, each once, and they and no others are then gone. -/
theorem answers_as_map
    (clock : Nat)
    (moves : List MapMove)
    (call : MapCall) :
    let m := moves.foldl MapMove.onMemory (.empty clock)
    let map := moves.foldl MapMove.onMap .empty
    (call.perform.run m).1 = .ok (call.onMap map).1 ∧
      ∀ pattern, ∃ keys n,
        (deleteMatching pattern : CacheM Memory (List String)).run m = (.ok keys, n) ∧
        keys.Pairwise (fun a b => Utf8.encode a < Utf8.encode b) ∧
        (∀ key, key ∈ keys ↔ map.contains key = true ∧ Glob.accepts pattern key = true) ∧
        ∀ key, ((get key : CacheM Memory (Option Json.Value)).run n).1 =
          if key ∈ keys then .ok none else ((get key).run m).1 := by
  intro m map
  have h : Agrees m map := (agrees_empty clock).run moves
  refine ⟨(h.perform call).1, fun pattern => ?_⟩
  obtain ⟨hanswer, hagrees⟩ := h.perform (.deleteMatching pattern)
  refine ⟨_, _, Prod.ext hanswer rfl, ?_, ?_, ?_⟩
  · exact (map.pairwise_keys.filter _).imp Utf8.encode_lt_encode
  · intro key
    show key ∈ map.keys.filter _ ↔ _
    rw [List.mem_filter, KeyMap.mem_keys_iff]
  · intro key
    have hthen : ((get key : CacheM Memory (Option Json.Value)).run
          ((deleteMatching pattern).run m).2).1 =
        .ok (((map.filter fun e => !Glob.accepts pattern e.1).get? key).map (·.value)) :=
      (hagrees.perform (.get key)).1
    have hnow : ((get key : CacheM Memory (Option Json.Value)).run m).1 =
        .ok ((map.get? key).map (·.value)) :=
      (h.perform (.get key)).1
    refine hthen.trans ?_
    rw [hnow, ← filter_notMem_keys, KeyMap.get?_filter_notMem]
    show _ = if key ∈ map.keys.filter (Glob.accepts pattern) then _ else _
    split
    · rfl
    · rfl

end Cache
end Courier
