import Courier.Store.Basic

/-!
# Pools of connections

A bounded number of connections, idle or in use.  A caller takes the connection
that came back last, or a slot in which to open one, or is told that the pool
is full.  How long it waits at most is fixed before it looks at the pool.

**Results.**
* `Pool.request`: what a caller gets when it looks.
* `Pool.checkin`: a connection, or the slot of a broken one, comes back.
* `Pool.serve`, `Pool.serveAmid`: a request, opening a connection in a new slot.
* `Pool.checkout`: all of it, with the deadline of the caller.
-/

namespace Courier

/-- A pool of connections named by `κ`. -/
structure Pool (κ : Type) where
  /-- Connections not in use, the one that came back last in front. -/
  idle : List κ
  /-- Connections that callers hold or are opening. -/
  inUse : Nat
  maxSize : Nat
  maxSize_pos : 0 < maxSize := by omega

/-- What a caller gets from a pool. -/
inductive Offer (κ : Type) where
  /-- A connection that was idle. -/
  | idle (conn : κ)
  /-- A slot in which the caller opens a connection. -/
  | slot
  /-- Nothing: every connection is in use. -/
  | full
  deriving DecidableEq

namespace Pool

variable {κ : Type}

/-- A pool without connections; it has room for at least one. -/
def ofSize (size : Nat) : Pool κ :=
  { idle := [], inUse := 0, maxSize := max size 1 }

/-- What a caller whose deadline is fixed gets when it looks. -/
def request (p : Pool κ) : Offer κ × Pool κ :=
  match p.idle with
  | c :: rest => (.idle c, { p with idle := rest, inUse := p.inUse + 1 })
  | [] => if p.inUse < p.maxSize then (.slot, { p with inUse := p.inUse + 1 }) else (.full, p)

/-- A caller gives back its connection, or only the slot of a broken one. -/
def checkin (p : Pool κ) (conn : Option κ) : Pool κ :=
  { p with idle := conn.toList ++ p.idle, inUse := p.inUse - 1 }

/-- The number of connections, idle or in use. -/
def openCount (p : Pool κ) : Nat :=
  p.idle.length + p.inUse

/-- The answer to a caller when no connection came back in time. -/
def exhausted (p : Pool κ) : StoreError :=
  .connection ("all " ++ toString p.maxSize ++ " pooled connections are in use")

/-- Takes a connection; one that is opened for it is marked, and a slot in
which opening fails is given back. -/
def serve (p : Pool κ) (opening : Except StoreError κ) :
    Except StoreError (κ × Bool) × Pool κ :=
  match p.request with
  | (.idle c, p) => (.ok (c, false), p)
  | (.slot, p) =>
      match opening with
      | .ok c => (.ok (c, true), p)
      | .error e => (.error e, p.checkin none)
  | (.full, p) => (.error p.exhausted, p)

/-- Takes a connection, waiting for a time while others give theirs back, each at
the end of a time of its own, in order.  What comes back after the caller was served,
or too late for it, stays for later. -/
def serveAmid (p : Pool κ) (opening : Except StoreError κ) (wait : Duration) :
    List (Duration × Option κ) →
    Except StoreError (κ × Bool) × Pool κ × List (Duration × Option κ)
  | [] =>
      let (r, p) := p.serve opening
      (r, p, [])
  | c :: rest =>
      match p.request with
      | (.full, p) =>
          if c.1.nanos < wait.nanos then (p.checkin c.2).serveAmid opening wait rest
          else (.error p.exhausted, p, c :: rest)
      | _ =>
          let (r, p) := p.serve opening
          (r, p, c :: rest)

/-- Takes a connection amid those that others give back.  A deadline beyond the clock
abandons the call before it looks at the pool. -/
def checkout (p : Pool κ) (now : Nat) (opening : Except StoreError κ) (wait : Duration)
    (returns : List (Duration × Option κ)) :
    Except StoreError (κ × Bool) × Pool κ × List (Duration × Option κ) :=
  match deadline? now wait with
  | none => (.error .deadlineOverflow, p, returns)
  | some _ => p.serveAmid opening wait returns

end Pool
end Courier
