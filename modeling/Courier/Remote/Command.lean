import Courier.Binary64.Shortest
import Courier.Remote.Server

/-!
# Commands

The words of the commands that a remote store sends.

**Results.**
* `Command.popWaiting`, `Command.set`, `Command.scan`: commands with options.
* `Command.batch`: the commands of an atomic batch.
* `Command.ttlMillis`: the time to live that the server is asked for.
-/

namespace Courier
namespace Remote
namespace Command

/-- A word of a command. -/
def word (s : String) : Bytes :=
  Utf8.encode s

/-- The word for an integer. -/
def numeral (n : Int) : Bytes :=
  word (toString n)

/-- The word for a score. -/
def score (x : Binary64) : Bytes :=
  word x.scoreText

/-- The longer of a wait and the shortest wait that the server can express. -/
def wait (d : Duration) : Duration :=
  d.max .oneMilli

/-- A duration as a number of seconds. -/
def seconds (d : Duration) : Binary64 :=
  (Binary64.ofNat d.wholeSeconds).add
    ((Binary64.ofNat d.subNanos).div (Binary64.ofNat (1000000000)))

/-- The milliseconds after which a value expires: whole ones, at least one, in 64
bits.  Without a time to live, or with none of it, the value does not expire. -/
def ttlMillis (ttl : Option Duration) : Option Nat :=
  (ttl.filter (!·.isZero)).map fun d => (d.max .oneMilli).wholeMillis % 0x10000000000000000

/-- The words that ask for an expiry. -/
def expiry (ttl : Option Duration) : Words :=
  match ttlMillis ttl with
  | some ms => [word "PX", numeral ms]
  | none => []

/-- Asks for a sign of life. -/
def ping : Words := [word "PING"]

/-- Gives the credentials. -/
def auth (username : Option String) (password : String) : Words :=
  word "AUTH" :: (username.toList.map word ++ [word password])

/-- Chooses a database. -/
def select (db : Int64) : Words := [word "SELECT", numeral db.toInt]

/-- Puts a value at the front of a list. -/
def pushFront (key : String) (value : Bytes) : Words := [word "LPUSH", word key, value]

/-- Takes the value at the back of a list. -/
def popBack (key : String) : Words := [word "RPOP", word key]

/-- Takes the value at the back of a list, waiting for one. -/
def popWaiting (key : String) (d : Duration) : Words :=
  [word "BRPOP", word key, word (Binary64.Layout.seconds.render (seconds (wait d)))]

/-- Asks for the length of a list. -/
def listLen (key : String) : Words := [word "LLEN", word key]

/-- Removes keys. -/
def delete (keys : List String) : Words := word "DEL" :: keys.map word

/-- Gives a member of a sorted set a score. -/
def sortedAdd (key : String) (member : Bytes) (x : Binary64) : Words :=
  [word "ZADD", word key, score x, member]

/-- Asks for the members with scores between two bounds. -/
def rangeByScore (key : String) (min max : Binary64) : Words :=
  [word "ZRANGEBYSCORE", word key, score min, score max]

/-- Removes a member of a sorted set. -/
def sortedRemove (key : String) (member : Bytes) : Words := [word "ZREM", word key, member]

/-- Asks for the number of members of a sorted set. -/
def sortedLen (key : String) : Words := [word "ZCARD", word key]

/-- The command of an operation in a batch. -/
def ofBatchOp : BatchOp → Words
  | .pushFront key value => pushFront key value
  | .sortedAdd key member x => sortedAdd key member x
  | .sortedRemove key member => sortedRemove key member

/-- The commands of a batch, which the server carries out all at once. -/
def batch (ops : List BatchOp) : List Words :=
  [word "MULTI"] :: (ops.map ofBatchOp ++ [[word "EXEC"]])

/-- Publishes a payload. -/
def publish (channel : String) (payload : Bytes) : Words :=
  [word "PUBLISH", word channel, payload]

/-- Sets a plain value. -/
def set (key : String) (value : Bytes) (ttl : Option Duration) : Words :=
  [word "SET", word key, value] ++ expiry ttl

/-- Sets a plain value if the key is absent. -/
def setIfAbsent (key : String) (value : Bytes) (ttl : Option Duration) : Words :=
  [word "SET", word key, value, word "NX"] ++ expiry ttl

/-- Asks for a plain value. -/
def get (key : String) : Words := [word "GET", word key]

/-- Asks whether a key is there. -/
def contains (key : String) : Words := [word "EXISTS", word key]

/-- Adds to an integer. -/
def increment (key : String) (amount : Int64) : Words :=
  [word "INCRBY", word key, numeral amount.toInt]

/-- Asks for a page of the keys that match a pattern. -/
def scan (cursor : Nat) (pattern : String) : Words :=
  [word "SCAN", numeral cursor, word "MATCH", word pattern, word "COUNT", word "100"]

end Command
end Remote
end Courier
