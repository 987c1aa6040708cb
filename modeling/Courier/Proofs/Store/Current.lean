import Courier.Proofs.KeyMap
import Courier.Proofs.Store.Calls
import Mathlib.Data.Finset.Card
import Mathlib.Data.Finset.Dedup

/-!
# The data without what has expired

A value that has expired stays in the data until a call happens to look at its key.
The current data are those without such values.  Every operation answers from the
current data alone, and has on them the effect that it would have if nothing ever
expired.

**Results.**
* `Data.current`: the data without the values that have expired.
* `Data.get?_purge`, `Data.current_purge`: dropping an expired value.
* `Data.contains_fst`, `Data.remove_fst`, `Data.removeAll_eq`: keys of any kind.
* `Data.clearAll_fst`, `Data.clearAll_snd`: counting the keys that are there.
* `Data.current_put`, `Data.count_current`, `Data.get?_count`: plain values and counters.
* `Data.popBack_current`, `Data.sortedRemove_current`, `Data.applyAll_current`: lists and
  sorted sets.
-/

namespace Courier

theorem Entry.isExpired_mono
    {e : Entry}
    {now later : Nat}
    (hle : now ≤ later)
    (h : e.isExpired now = true) :
    e.isExpired later = true := by
  rw [isExpired, Option.any_eq_true] at h ⊢
  obtain ⟨at_, hat, hnow⟩ := h
  refine ⟨at_, hat, ?_⟩
  rw [decide_eq_true_eq] at hnow ⊢
  exact Nat.le_trans hnow hle

/-- What is set now has not expired: a time to live is none or some. -/
theorem isExpired_expiry
    (value : Bytes)
    (now : Nat)
    (ttl : Option Duration) :
    (Entry.mk value (expiry now ttl)).isExpired now = false := by
  rw [Entry.isExpired, expiry]
  cases ttl with
  | none => rfl
  | some d =>
      cases hzero : d.isZero with
      | true => simp [Option.filter_some, hzero]
      | false =>
          have hpos : d.nanos ≠ 0 := by simpa [Duration.isZero] using hzero
          simp [Option.filter_some, hzero]
          omega

namespace Data

/-- The data without the values that have expired. -/
def current (d : Data) (now : Nat) : Data :=
  { d with values := d.values.filter fun e => !e.2.isExpired now }

/-- Removes a key from all maps, whatever is there. -/
def clear (d : Data) (key : String) : Data :=
  ⟨d.lists.erase key, d.sorted.erase key, d.values.erase key⟩

/-- Removes keys one after the other; how many were there. -/
def clearAll (d : Data) : List String → Nat × Data
  | [] => (0, d)
  | k :: ks =>
      let (n, e) := (d.clear k).clearAll ks
      (n + (if d.holds k then 1 else 0), e)

/-- Puts a plain value under a key. -/
def put (d : Data) (key : String) (entry : Entry) : Data :=
  { d with values := d.values.insert key entry }

/-- The entry of a counter, which is zero and never expires where there is none. -/
def counterEntry (d : Data) (key : String) : Entry :=
  (d.values.get? key).getD ⟨Bytes.ofAscii "0", none⟩

/-- Adds to an integer; the new value.  The instant at which it expires stays. -/
def count (d : Data) (key : String) (amount : Int64) : Except StoreError Int64 × Data :=
  if d.lists.contains key || d.sorted.contains key then (.error (notInteger key), d)
  else
    let entry := d.counterEntry key
    let d := d.put key entry
    match counter? entry.value with
    | none => (.error (notInteger key), d)
    | some n =>
        let next := n + amount.toInt
        if Numeral.minInt64 ≤ next ∧ next ≤ Numeral.maxInt64 then
          (.ok (Int64.ofInt next), d.put key { entry with value := Bytes.ofAscii (toString next) })
        else (.error (.command "increment would overflow"), d)

/-- The keys of all maps that match a pattern, in order and each once. -/
def keysLike (d : Data) (pattern : String) : List String :=
  (((d.lists.keys ++ d.sorted.keys ++ d.values.keys).filter (Glob.accepts pattern)).mergeSort
    fun a b => decide (a ≤ b)).eraseReps

variable {d : Data} {now : Nat} {key : String}

theorem get?_current
    (d : Data)
    (now : Nat)
    (key : String) :
    (d.current now).values.get? key = (d.values.get? key).filter fun e => !e.isExpired now :=
  KeyMap.get?_filter _ _ key

theorem ext_values
    {d e : Data}
    (hlists : d.lists = e.lists)
    (hsorted : d.sorted = e.sorted)
    (hvalues : ∀ key, d.values.get? key = e.values.get? key) :
    d = e := by
  cases d
  cases e
  simp only at hlists hsorted hvalues
  rw [hlists, hsorted, KeyMap.ext_get? hvalues]

theorem current_current
    (d : Data)
    {now later : Nat}
    (hle : now ≤ later) :
    (d.current now).current later = d.current later := by
  refine ext_values rfl rfl fun key => ?_
  rw [get?_current, get?_current, get?_current]
  cases d.values.get? key with
  | none => rfl
  | some e =>
      cases hnow : e.isExpired now with
      | true => simp [Option.filter_some, hnow, Entry.isExpired_mono hle hnow]
      | false => simp [Option.filter_some, hnow]

/-- A purge makes the look-up of its key that of the current data. -/
theorem get?_purge
    (d : Data)
    (now : Nat)
    (key : String) :
    (d.purge now key).values.get? key = (d.current now).values.get? key := by
  rw [get?_current, purge]
  cases hget : d.values.get? key with
  | none => simpa using hget
  | some e =>
      cases hexpired : e.isExpired now with
      | true => simp [Option.filter_some, hexpired, KeyMap.get?_erase]
      | false => simp [Option.filter_some, hexpired, hget]

theorem current_purge
    (d : Data)
    (now : Nat)
    (key : String) :
    (d.purge now key).current now = d.current now := by
  rw [purge]
  cases hget : d.values.get? key with
  | none => rfl
  | some e =>
      cases hexpired : e.isExpired now with
      | false => simp [hexpired]
      | true =>
          simp only [hexpired, if_true]
          refine ext_values rfl rfl fun l => ?_
          rw [get?_current, get?_current, KeyMap.get?_erase]
          by_cases hl : key = l
          · subst hl
            simp [hget, Option.filter_some, hexpired]
          · rw [if_neg hl]

theorem lists_purge
    (d : Data)
    (now : Nat)
    (key : String) :
    (d.purge now key).lists = d.lists := by
  obtain ⟨values, hpurge⟩ := d.purge_eq now key
  rw [hpurge]

theorem sorted_purge
    (d : Data)
    (now : Nat)
    (key : String) :
    (d.purge now key).sorted = d.sorted := by
  obtain ⟨values, hpurge⟩ := d.purge_eq now key
  rw [hpurge]

theorem contains_fst
    (d : Data)
    (now : Nat)
    (key : String) :
    (d.contains now key).1 = (d.current now).holds key := by
  show (d.purge now key).holds key = (d.current now).holds key
  simp only [holds, lists_purge, sorted_purge, KeyMap.contains, get?_purge]
  rfl

theorem contains_snd
    (d : Data)
    (now : Nat)
    (key : String) :
    (d.contains now key).2 = d.purge now key := rfl

theorem remove_fst
    (d : Data)
    (now : Nat)
    (key : String) :
    (d.remove now key).1 = (d.current now).holds key :=
  d.contains_fst now key

theorem remove_snd
    (d : Data)
    (now : Nat)
    (key : String) :
    (d.remove now key).2 = (d.purge now key).clear key := rfl

theorem current_clear
    (d : Data)
    (now : Nat)
    (key : String) :
    (d.clear key).current now = (d.current now).clear key := by
  refine ext_values rfl rfl fun l => ?_
  show ((d.clear key).current now).values.get? l = ((d.current now).values.erase key).get? l
  rw [KeyMap.get?_erase, get?_current, get?_current]
  show Option.filter _ ((d.values.erase key).get? l) = _
  rw [KeyMap.get?_erase]
  split
  · rfl
  · rfl

theorem current_remove
    (d : Data)
    (now : Nat)
    (key : String) :
    (d.remove now key).2.current now = (d.current now).clear key := by
  rw [remove_snd, current_clear, current_purge]

/-- Removing keys counts those that are there in the current data. -/
theorem removeAll_eq
    (d : Data)
    (now : Nat)
    (keys : List String) :
    (d.removeAll now keys).1 = ((d.current now).clearAll keys).1 ∧
      (d.removeAll now keys).2.current now = ((d.current now).clearAll keys).2 := by
  induction keys generalizing d with
  | nil => exact ⟨rfl, rfl⟩
  | cons k ks ih =>
      obtain ⟨hcount, hdata⟩ := ih (d.remove now k).2
      rw [current_remove] at hcount hdata
      constructor
      · show ((d.remove now k).2.removeAll now ks).1 + (if (d.remove now k).1 then 1 else 0) = _
        rw [hcount, remove_fst]
        rfl
      · exact hdata

theorem holds_clear
    (d : Data)
    (key l : String) :
    (d.clear key).holds l = true ↔ l ≠ key ∧ d.holds l = true := by
  simp only [holds, clear, KeyMap.contains, KeyMap.get?_erase]
  by_cases hl : key = l
  · simp [hl]
  · simp [hl, Ne.symm hl]

/-- Removing keys counts each of those that are there once. -/
theorem clearAll_fst
    (d : Data)
    (keys : List String) :
    (d.clearAll keys).1 = (keys.toFinset.filter fun key => d.holds key = true).card := by
  induction keys generalizing d with
  | nil => rfl
  | cons k ks ih =>
      -- What is left to count are the keys that are there, without the first one.
      have hrest : (ks.toFinset.filter fun key => (d.clear k).holds key = true) =
          (ks.toFinset.filter fun key => d.holds key = true).erase k := by
        ext key
        simp only [Finset.mem_filter, Finset.mem_erase, holds_clear]
        tauto
      show ((d.clear k).clearAll ks).1 + (if d.holds k then 1 else 0) = _
      rw [ih, hrest, List.toFinset_cons, Finset.filter_insert]
      split
      · rw [← Finset.card_insert_of_notMem (Finset.notMem_erase _ _)]
        congr 1
        ext key
        simp only [Finset.mem_insert, Finset.mem_erase]
        tauto
      · next hk =>
          rw [Finset.erase_eq_of_notMem, Nat.add_zero]
          exact fun hmem => hk (Finset.mem_filter.1 hmem).2

theorem clearAll_snd
    (d : Data)
    (keys : List String) :
    (d.clearAll keys).2 = keys.foldl clear d := by
  induction keys generalizing d with
  | nil => rfl
  | cons k ks ih => exact ih (d.clear k)

theorem current_put
    {e : Entry}
    (h : e.isExpired now = false)
    (d : Data)
    (key : String) :
    (d.put key e).current now = (d.current now).put key e := by
  refine ext_values rfl rfl fun l => ?_
  show ((d.put key e).current now).values.get? l = ((d.current now).values.insert key e).get? l
  rw [KeyMap.get?_insert, get?_current, get?_current]
  show Option.filter _ ((d.values.insert key e).get? l) = _
  rw [KeyMap.get?_insert]
  split
  · simp [Option.filter_some, h]
  · rfl

theorem increment_eq
    (d : Data)
    (now : Nat)
    (key : String)
    (amount : Int64) :
    d.increment now key amount = (d.purge now key).count key amount := rfl

theorem counterEntry_purge
    (d : Data)
    (now : Nat)
    (key : String) :
    (d.purge now key).counterEntry key = (d.current now).counterEntry key := by
  rw [counterEntry, counterEntry, get?_purge]

theorem isExpired_of_current
    {e : Entry}
    (h : (d.current now).values.get? key = some e) :
    e.isExpired now = false := by
  rw [get?_current, Option.filter_eq_some_iff] at h
  simpa using h.2

theorem isExpired_counterEntry
    (d : Data)
    (now : Nat)
    (key : String) :
    ((d.current now).counterEntry key).isExpired now = false := by
  rw [counterEntry]
  cases hget : (d.current now).values.get? key with
  | none => rfl
  | some e => exact isExpired_of_current hget

theorem count_current
    (d : Data)
    (now : Nat)
    (key : String)
    (amount : Int64) :
    (d.current now).count key amount =
      ((d.increment now key amount).1, (d.increment now key amount).2.current now) := by
  have hfresh := d.isExpired_counterEntry now key
  rw [increment_eq]
  simp only [count, lists_purge, sorted_purge, counterEntry_purge]
  generalize (d.current now).counterEntry key = entry at hfresh
  -- The counter keeps the instant at which its entry expires.
  have hcounted : ∀ value, Entry.isExpired { entry with value } now = false := fun _ => hfresh
  show (if d.lists.contains key || d.sorted.contains key then _ else _) = _
  split
  · rw [current_purge]
  · split
    · rw [current_put hfresh, current_purge]
    · split
      · rw [current_put (hcounted _), current_put hfresh, current_purge]
      · rw [current_put hfresh, current_purge]

/-- What a counter holds after it has answered. -/
theorem get?_count
    {d : Data}
    {key : String}
    {amount n : Int64}
    (h : (d.count key amount).1 = .ok n) :
    (d.count key amount).2.values.get? key =
      some ⟨Bytes.ofAscii (toString n.toInt), (d.values.get? key).bind (·.expiresAt)⟩ := by
  have hexpires : (d.counterEntry key).expiresAt = (d.values.get? key).bind (·.expiresAt) := by
    rw [counterEntry]
    cases d.values.get? key with
    | none => rfl
    | some e => rfl
  simp only [count] at h ⊢
  split at h
  · exact absurd h (by simp)
  · next hplain =>
      rw [if_neg hplain]
      split at h
      · exact absurd h (by simp)
      · next next hnumber =>
          split at h
          · next hrange =>
              obtain rfl := Except.ok.inj h
              rw [if_pos hrange, Int64.toInt_ofInt_of_le hrange.1 (Int.lt_add_one_of_le hrange.2)]
              simp [put, KeyMap.get?_insert, hexpires]
          · exact absurd h (by simp)

theorem popBack_current
    (d : Data)
    (now : Nat)
    (key : String) :
    (d.current now).popBack key = ((d.popBack key).1, (d.popBack key).2.current now) := by
  have hlists : (d.current now).lists = d.lists := rfl
  rw [popBack, popBack, hlists]
  cases d.lists.get? key with
  | none => rfl
  | some vs => rfl

theorem sortedRemove_current
    (d : Data)
    (now : Nat)
    (key : String)
    (member : Bytes) :
    (d.current now).sortedRemove key member =
      ((d.sortedRemove key member).1, (d.sortedRemove key member).2.current now) := by
  have hsorted : (d.current now).sorted = d.sorted := rfl
  rw [sortedRemove, sortedRemove, hsorted]
  cases d.sorted.get? key with
  | none => rfl
  | some s => rfl

theorem applyAll_current
    (d : Data)
    (now : Nat)
    (ops : List BatchOp) :
    (d.current now).applyAll ops = (d.applyAll ops).current now := by
  induction ops generalizing d with
  | nil => rfl
  | cons op ops ih =>
      have hop : (d.current now).apply op = (d.apply op).current now := by
        cases op with
        | pushFront key value => rfl
        | sortedAdd key member score => rfl
        | sortedRemove key member => exact congrArg Prod.snd (d.sortedRemove_current now key member)
      show ((d.current now).apply op).applyAll ops = ((d.apply op).applyAll ops).current now
      rw [hop, ih]

end Data

end Courier
