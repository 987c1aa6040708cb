import Courier.Glob
import Courier.KeyMap
import Courier.Store.Basic
import Courier.Text.Numeral

/-!
# The data of the in-memory store

Lists, sorted sets and plain values are three maps that know nothing of each
other.  Expired values stay until a call looks at their key.

**Results.**
* `Data.contains`, `Data.remove`: a key of any kind.
* `Data.pushFront`, `Data.popBack`: lists, which cease to exist when empty.
* `Data.sortedAdd`, `Data.sortedRemove`, `Data.range`: sorted sets.
* `Data.increment`: counters.
* `Data.keysMatching`: the keys of all three maps.
-/

namespace Courier

/-- A plain value and the instant at which it expires. -/
structure Entry where
  value : Bytes
  expiresAt : Option Nat
  deriving DecidableEq

/-- Whether an entry has expired at an instant. -/
def Entry.isExpired (e : Entry) (now : Nat) : Bool :=
  e.expiresAt.any (· ≤ now)

/-- The entry of a value set now; nothing if its deadline cannot be counted.
Without a time to live, or with none of it, it never expires. -/
def Entry.new? (now : Nat) (value : Bytes) (ttl : Option Duration) : Option Entry :=
  match ttl.filter (!·.isZero) with
  | none => some ⟨value, none⟩
  | some d => (deadline? now d).map fun at_ => ⟨value, some at_⟩

/-- A sorted set: its members with their scores. -/
abbrev SortedSet := List (Binary64 × Bytes)

namespace SortedSet

/-- Gives a member a score, in its place if it is there. -/
def add (s : SortedSet) (member : Bytes) (score : Binary64) : SortedSet :=
  match s with
  | [] => [(score, member)]
  | e :: es => if e.2 = member then (score, member) :: es else e :: add es member score

/-- Leaves out a member. -/
def remove (s : SortedSet) (member : Bytes) : SortedSet :=
  s.filter fun e => e.2 ≠ member

/-- Whether one entry comes before another: by score in the total order, then by bytes. -/
def entryLe (a b : Binary64 × Bytes) : Bool :=
  a.1.totalKey < b.1.totalKey || (a.1.totalKey = b.1.totalKey && decide (a.2 ≤ b.2))

/-- The members with scores between two bounds, in order. -/
def range (s : SortedSet) (min max : Binary64) : List Bytes :=
  ((s.filter fun e => min.le e.1 && e.1.le max).mergeSort entryLe).map (·.2)

end SortedSet

/-- What the in-memory store holds. -/
structure Data where
  lists : KeyMap (List Bytes)
  sorted : KeyMap SortedSet
  values : KeyMap Entry

namespace Data

/-- The data of a new store. -/
def empty : Data := ⟨.empty, .empty, .empty⟩

/-- Drops the plain value of a key if it has expired. -/
def purge (d : Data) (now : Nat) (key : String) : Data :=
  match d.values.get? key with
  | some e => if e.isExpired now then { d with values := d.values.erase key } else d
  | none => d

/-- Whether a key is in one of the maps. -/
def holds (d : Data) (key : String) : Bool :=
  d.lists.contains key || d.sorted.contains key || d.values.contains key

/-- Whether a key is there, its value being dropped if it has expired. -/
def contains (d : Data) (now : Nat) (key : String) : Bool × Data :=
  let d := d.purge now key
  (d.holds key, d)

/-- Removes a key from all maps; whether it was there. -/
def remove (d : Data) (now : Nat) (key : String) : Bool × Data :=
  let (existed, d) := d.contains now key
  (existed, ⟨d.lists.erase key, d.sorted.erase key, d.values.erase key⟩)

/-- Removes keys one after the other; how many were there. -/
def removeAll (d : Data) (now : Nat) : List String → Nat × Data
  | [] => (0, d)
  | k :: ks =>
      let (existed, d) := d.remove now k
      let (n, d) := d.removeAll now ks
      (n + (if existed then 1 else 0), d)

/-- The values of a list from front to back. -/
def list (d : Data) (key : String) : List Bytes :=
  (d.lists.get? key).getD []

/-- The members of a sorted set. -/
def sortedSet (d : Data) (key : String) : SortedSet :=
  (d.sorted.get? key).getD []

/-- Puts a value at the front of a list. -/
def pushFront (d : Data) (key : String) (value : Bytes) : Data :=
  { d with lists := d.lists.insert key (value :: d.list key) }

/-- Takes the value at the back of a list; an empty list ceases to exist. -/
def popBack (d : Data) (key : String) : Option Bytes × Data :=
  match d.lists.get? key with
  | none => (none, d)
  | some vs =>
      let rest := vs.dropLast
      (vs.getLast?, { d with lists := d.lists.set key (if rest = [] then none else some rest) })

/-- Gives a member of a sorted set a score. -/
def sortedAdd (d : Data) (key : String) (member : Bytes) (score : Binary64) : Data :=
  { d with sorted := d.sorted.insert key ((d.sortedSet key).add member score) }

/-- Removes a member of a sorted set; an empty set ceases to exist. -/
def sortedRemove (d : Data) (key : String) (member : Bytes) : Bool × Data :=
  match d.sorted.get? key with
  | none => (false, d)
  | some s =>
      let rest := s.remove member
      (rest.length ≠ s.length,
        { d with sorted := d.sorted.set key (if rest = [] then none else some rest) })

/-- Applies one operation of a batch. -/
def apply (d : Data) : BatchOp → Data
  | .pushFront key value => d.pushFront key value
  | .sortedAdd key member score => d.sortedAdd key member score
  | .sortedRemove key member => (d.sortedRemove key member).2

/-- Applies the operations of a batch in order. -/
def applyAll (d : Data) (ops : List BatchOp) : Data :=
  ops.foldl apply d

/-- The integer a value is the numeral of. -/
def counter? (value : Bytes) : Option Int :=
  (Utf8.decode? value).bind (Numeral.integer? Numeral.minInt64 Numeral.maxInt64)

/-- A key that holds something other than an integer. -/
def notInteger (key : String) : StoreError :=
  .command (key ++ " holds a non-integer value")

/-- Adds to an integer, which is zero where the key is absent; the new value.
The instant at which it expires stays. -/
def increment (d : Data) (now : Nat) (key : String) (amount : Int64) :
    Except StoreError Int64 × Data :=
  let d := d.purge now key
  if d.lists.contains key || d.sorted.contains key then (.error (notInteger key), d)
  else
    let entry := (d.values.get? key).getD ⟨Bytes.ofAscii "0", none⟩
    let d := { d with values := d.values.insert key entry }
    match counter? entry.value with
    | none => (.error (notInteger key), d)
    | some n =>
        let next := n + amount.toInt
        if Numeral.minInt64 ≤ next ∧ next ≤ Numeral.maxInt64 then
          (.ok (Int64.ofInt next),
            { d with
              values := d.values.insert key { entry with value := Bytes.ofAscii (toString next) } })
        else (.error (.command "increment would overflow"), d)

/-- The plain value of a key, which is dropped if it has expired. -/
def get (d : Data) (now : Nat) (key : String) : Option Bytes × Data :=
  let d := d.purge now key
  ((d.values.get? key).map (·.value), d)

/-- The keys that are there, each map's in its order. -/
def liveKeys (d : Data) (now : Nat) : List String :=
  d.lists.keys ++ d.sorted.keys ++
    (d.values.entries.filter fun e => !e.2.isExpired now).map (·.1)

/-- The keys that match a pattern, in order and each once. -/
def keysMatching (d : Data) (now : Nat) (pattern : String) : List String :=
  (((d.liveKeys now).filter (Glob.accepts pattern)).mergeSort fun a b => decide (a ≤ b)).eraseReps

end Data
end Courier
