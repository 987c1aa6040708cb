import Courier.Remote.Command
import Courier.Remote.Listener
import Courier.Store.Config
import Courier.Store.Pool

/-!
# The remote store

Commands go over a pool of connections, one connection to a command; a
connection that was lost is not used again, and no command is sent twice.  Every
subscriber has a connection of its own.

**Results.**
* `Client.connect`: opens a client, trying the server a number of times.
* `Client.withConn`: a command on a connection of the pool.
* `Store Client`: the remote store is a store.
-/

namespace Courier
namespace Remote

/-- A client of a server. -/
structure Client where
  server : Server
  endpoint : Endpoint
  config : StoreConfig
  pool : Pool ConnId
  /-- The messages that each subscriber met while it waited for confirmations. -/
  pending : List (ConnId × List RawMessage)

/-- A conversation with a server. -/
abbrev Talk := ExceptT Fault (StateM Server)

namespace Talk

/-- Sends commands at once. -/
def send (c : ConnId) (commands : List Words) : Talk Unit :=
  ExceptT.mk fun s => s.send c commands

/-- Reads the next answer. -/
def receive (c : ConnId) : Talk Reply :=
  ExceptT.mk fun s => s.receive c

/-- Sends a command and reads its answer. -/
def query {α : Type} (words : Words) (read : Reply → Except Fault α) (c : ConnId) : Talk α := do
  send c [words]
  let r ← receive c
  ExceptT.mk (pure (read r))

/-- Sends a batch and reads all its answers. -/
def batch (ops : List BatchOp) (c : ConnId) : Talk Unit := do
  send c (Command.batch ops)
  let r ← ExceptT.mk fun s => s.receiveAll c (ops.length + 1)
  ExceptT.mk (pure (Reply.batch r))

/-- Whether one text stands within another. -/
def includes (part : List Char) : List Char → Bool
  | [] => part.isEmpty
  | c :: cs => part.isPrefixOf (c :: cs) || includes part cs

/-- The server does not accept the credentials. -/
def badCredentials : Fault := .refused "Password authentication failed- AuthenticationFailed"

/-- Sends a command with which a connection is set up, and reads its answer. -/
def setup (c : ConnId) (words : Words) : Talk (Except Fault Reply) := do
  ExceptT.mk fun s => s.sendSetup c words
  ExceptT.mk fun s =>
    let (r, s) := s.receive c
    (.ok r, s)

/-- Whether a server that does not know user names refused the credentials. -/
def isOldServer : Fault → Bool
  | .refused reason =>
      includes "wrong number of arguments for 'auth' command".toList reason.toList
  | .lost _ => false

/-- Gives the credentials of an endpoint, if it has any.  A server that does not
know user names is given the password alone. -/
def authenticate (e : Endpoint) (c : ConnId) : Talk Unit :=
  match e.password with
  | none => pure ()
  | some password => do
      match ← setup c (Command.auth e.username password) with
      | .ok (.status "OK") => pure ()
      | .ok _ =>
          throw (.refused
            "Redis server refused to authenticate, returns Ok() != Value::Okay- ResponseError")
      | .error f =>
          if isOldServer f then
            match ← setup c (Command.auth none password) with
            | .ok (.status "OK") => pure ()
            | _ => throw badCredentials
          else throw badCredentials

/-- Chooses a database, if it is not the first one. -/
def select (db : Int64) (c : ConnId) : Talk Unit :=
  if db = 0 then pure ()
  else do
    match ← setup c (Command.select db) with
    | .ok (.status "OK") => pure ()
    | _ => throw (.refused "Redis server refused to switch database- ResponseError")

/-- Opens a connection and sets it up. -/
def connection (e : Endpoint) (config : StoreConfig) : Talk ConnId := do
  let c ← ExceptT.mk fun s => s.dial e.address config.connTimeout
  authenticate e c
  select config.db c
  pure c

/-- Reads pages of keys until the last one.  Every page but the last is one of the
answers that can still come, which `fuel` counts. -/
def scanFrom (pattern : String) (c : ConnId) : Nat → Nat → Talk (List String)
  | 0, _ => throw .silence
  | fuel + 1, cursor => do
      let (next, page) ←
        query (Command.scan cursor pattern) (Reply.pair Reply.natural (Reply.list Reply.text)) c
      if next = 0 then pure page
      else
        let later ← scanFrom pattern c fuel next
        pure (page ++ later)

/-- The answers that can still come on a connection. -/
def answersLeft (c : ConnId) : Talk Nat :=
  ExceptT.mk fun s =>
    (.ok ((s.line c).unread.length + s.turns.foldr (fun t n => t.answers.length + n) 0), s)

/-- The keys that match a pattern, in order and each once. -/
def keysMatching (pattern : String) (c : ConnId) : Talk (List String) := do
  let fuel ← answersLeft c
  let keys ← scanFrom pattern c (fuel + 1) 0
  pure (keys.mergeSort fun a b => decide (a ≤ b)).eraseReps

end Talk

namespace Client

/-- A part of a conversation. -/
def talk {α : Type} (k : Client) (t : Talk α) : Except Fault α × Client :=
  let (r, s) := t.run k.server
  (r, { k with server := s })

/-- The instant until which a call that begins now waits for a connection. -/
def deadline? (k : Client) : Option Nat :=
  Courier.deadline? k.server.clock k.config.connTimeout

/-- What the pool has for a caller whose deadline is fixed; where there is room a
connection is opened. -/
def serve (k : Client) : Except StoreError ConnId × Client :=
  match k.pool.request with
  | (.idle c, pool) => (.ok c, { k with pool })
  | (.slot, pool) =>
      match { k with pool }.talk (Talk.connection k.endpoint k.config) with
      | (.ok c, k) => (.ok c, k)
      | (.error f, k) => (.error f.toStore, { k with pool := k.pool.checkin none })
  | (.full, pool) => (.error pool.exhausted, { k with pool })

/-- Takes a connection from the pool.  A deadline beyond the clock abandons the call
before it looks at the pool. -/
def checkout (k : Client) : Except StoreError ConnId × Client :=
  match k.deadline? with
  | none => (.error .deadlineOverflow, k)
  | some _ => k.serve

/-- Gives a connection back, unless it was lost. -/
def giveBack {α : Type} (k : Client) (c : ConnId) (r : Except Fault α) : Client :=
  let lost := match r with
    | .ok _ => false
    | .error f => f.isLost
  { k with pool := k.pool.checkin (if lost then none else some c) }

/-- Has a conversation on a connection of the pool. -/
def withConn {α : Type} (k : Client) (t : ConnId → Talk α) : Except StoreError α × Client :=
  match k.checkout with
  | (.error e, k) => (.error e, k)
  | (.ok c, k) =>
      let (r, k) := k.talk (t c)
      (r.mapError Fault.toStore, k.giveBack c r)

/-- Makes a call of one command. -/
def query {α : Type} (words : Words) (read : Reply → Except Fault α) : StoreM Client α :=
  .of (·.withConn (Talk.query words read))

/-- Asks for a sign of life. -/
def ping (k : Client) : Except StoreError Unit × Client :=
  k.withConn (Talk.query Command.ping fun r => r.text.map fun _ => ())

/-- Pauses for as long as a connection may take. -/
def pause (k : Client) : Client :=
  { k with server := k.server.sleep k.config.connTimeout }

/-- Asks for a sign of life, up to a number of times more after failures, with a pause
before each; the failures that another attempt followed, each with the attempts that
were left.  No attempt follows one that was abandoned. -/
def knock (k : Client) : Nat → List (Nat × StoreError) × Except StoreError Unit × Client
  | 0 =>
      let (r, k) := k.ping
      ([], r, k)
  | n + 1 =>
      match k.ping with
      | (.ok (), k) => ([], .ok (), k)
      | (.error .deadlineOverflow, k) => ([], .error .deadlineOverflow, k)
      | (.error e, k) =>
          let (failures, r, k) := k.pause.knock n
          ((n + 1, e) :: failures, r, k)

/-- A client that has no connection yet. -/
def idle (config : StoreConfig) (endpoint : Endpoint) (server : Server) : Client :=
  { server, endpoint, config, pool := .ofSize config.poolSize, pending := [] }

/-- What came of connecting to a server. -/
structure Connecting where
  /-- The failures that another attempt followed, with the attempts that were left. -/
  failures : List (Nat × StoreError)
  /-- The client, or the failure of the last attempt and the server after it. -/
  outcome : Except (StoreError × Server) Client

/-- Opens a client.  The server is tried until it gives a sign of life, at least
once and at most as often as configured. -/
def connect (config : StoreConfig) (server : Server) : Connecting :=
  match Endpoint.ofUrl config.url with
  | .error f => ⟨[], .error (.connection f.message, server)⟩
  | .ok endpoint =>
      match (idle config endpoint server).knock (config.connAttempts.toNat - 1) with
      | (failures, .ok (), k) => ⟨failures, .ok k⟩
      | (failures, .error e, k) => ⟨failures, .error (e, k.server)⟩

/-- The description of a client. -/
def describe (k : Client) : String :=
  "RedisStore \x7b db: " ++ toString k.config.db.toInt ++ ", pool_size: " ++
    toString k.config.poolSize ++ ", open_connections: " ++ toString k.pool.openCount ++ ", .. \x7d"

/-- Takes the value at the back of a list, waiting for one if any time is given. -/
def blockingPopBack (key : String) (wait : Duration) : StoreM Client (Option Bytes) :=
  if wait.isZero then query (Command.popBack key) (Reply.optional Reply.bytes)
  else
    query (Command.popWaiting key wait) fun r =>
      (Reply.optional (Reply.pair Reply.text Reply.bytes) r).map fun p => p.map (·.2)

/-- Removes keys; none need no command. -/
def delete (keys : List String) : StoreM Client Nat :=
  if keys = [] then pure 0 else query (Command.delete keys) Reply.natural

/-- Applies a batch; an empty one needs no command. -/
def executeBatch (ops : List BatchOp) : StoreM Client Unit :=
  if ops = [] then pure () else .of (·.withConn (Talk.batch ops))

/-- Whether a number is positive. -/
def isPositive (r : Reply) : Except Fault Bool :=
  r.integer.map fun n => 0 < n.toInt

/-- The messages that a subscriber has met. -/
def met (k : Client) (c : ConnId) : List RawMessage :=
  (k.pending.lookup c).getD []

/-- Changes the messages that a subscriber has met. -/
def setMet (k : Client) (c : ConnId) (ms : List RawMessage) : Client :=
  { k with pending := (c, ms) :: k.pending.filter fun p => p.1 ≠ c }

/-- Opens a subscriber's connection. -/
def subscriber (k : Client) : Except StoreError SubscriberId × Client :=
  match k.talk (Talk.connection k.endpoint k.config) with
  | (.ok c, k) => (.ok c, k.setMet c [])
  | (.error f, k) => (.error f.toStore, k)

/-- Waits for confirmations on a subscriber's connection. -/
def await (k : Client) (c : ConnId) (kind : String) (n : Nat) : Except StoreError Unit × Client :=
  let a := awaitConfirmations kind n (k.server.line c)
  let server := k.server.update c fun _ => a.line
  (a.result.mapError Fault.toStore, { k with server }.setMet c (k.met c ++ a.met))

/-- Changes the targets of a subscriber and waits for one confirmation of each; no
targets need no command. -/
def control (k : Client) (c : ConnId) (name : String) (targets : List String) :
    Except StoreError Unit × Client :=
  if targets = [] then (.ok (), k)
  else
    match k.talk (Talk.send c [Command.word name :: targets.map Command.word]) with
    | (.error f, k) => (.error f.toStore, k)
    | (.ok (), k) =>
        if k.config.connTimeout.isZero then (.error Fault.zeroTimeout.toStore, k)
        else k.await c (Text.lowerAscii name) targets.length

/-- The next message of a subscriber; an answer that carries none is passed over. -/
def nextMessage (k : Client) (c : ConnId) : Except StoreError (Option RawMessage) × Client :=
  match k.met c with
  | m :: rest => (.ok (some m), k.setMet c rest)
  | [] =>
      match k.talk (Talk.receive c) with
      | (.ok v, k) => (.ok (toRaw? v), k)
      | (.error f, k) => (if f = .silence then .ok none else .error f.toStore, k)

/-- Drops a subscriber's connection. -/
def release (k : Client) (c : ConnId) : Client :=
  { k with
    server := k.server.update c fun l => { l with closed := true }
    pending := k.pending.filter fun p => p.1 ≠ c }

instance : Store Client where
  pushFront key value := query (Command.pushFront key value) Reply.natural
  popBack key := query (Command.popBack key) (Reply.optional Reply.bytes)
  blockingPopBack := blockingPopBack
  listLen key := query (Command.listLen key) Reply.natural
  delete := delete
  sortedAdd key member x :=
    query (Command.sortedAdd key member x) fun r => r.integer.map fun _ => ()
  rangeByScore key min max :=
    query (Command.rangeByScore key min max) (Reply.list Reply.bytes)
  sortedRemove key member := query (Command.sortedRemove key member) isPositive
  sortedLen key := query (Command.sortedLen key) Reply.natural
  executeBatch := executeBatch
  publish channel payload := query (Command.publish channel payload) Reply.natural
  subscriber := .of (·.subscriber)
  set key value ttl := query (Command.set key value ttl) fun r => r.text.map fun _ => ()
  setIfAbsent key value ttl :=
    query (Command.setIfAbsent key value ttl) fun r =>
      (Reply.optional Reply.text r).map (·.isSome)
  get key := query (Command.get key) (Reply.optional Reply.bytes)
  contains key := query (Command.contains key) isPositive
  increment key amount := query (Command.increment key amount) Reply.integer
  keysMatching pattern := .of (·.withConn (Talk.keysMatching pattern))
  subscribe c channels := .of (·.control c "SUBSCRIBE" channels)
  psubscribe c patterns := .of (·.control c "PSUBSCRIBE" patterns)
  unsubscribe c channels := .of (·.control c "UNSUBSCRIBE" channels)
  punsubscribe c patterns := .of (·.control c "PUNSUBSCRIBE" patterns)
  nextMessage c _ := .of (·.nextMessage c)
  backlog c k := (k.met c).length + (k.server.line c).unread.length
  release c k := k.release c

end Client
end Remote
end Courier
