import Courier.Remote.Address
import Courier.Remote.FileTree
import Courier.Remote.Nesting

/-!
# The far side of a connection

A server as its clients see it: for every command that reaches it, it takes the
next of its turns, which puts answers on the connection or closes it.  What
was put on a connection before it was closed can still be read.  The machine on
which the clients run has files, a network and a clock.

**Results.**
* `Server.dial`: opens a connection.
* `Server.send`: sends commands at once.
* `Server.receive`: reads the next answer.
* `Server.push`: what the server puts on a connection unasked.
-/

namespace Courier
namespace Remote

/-- The number of a connection, in the order of opening. -/
abbrev ConnId := Nat

/-- The words of a command. -/
abbrev Words := List Bytes

/-- What a server does when a command reaches it. -/
structure Turn where
  answers : List Reply
  /-- The server closes the connection. -/
  closes : Bool := false
  /-- The turn is for a command with which a connection is set up. -/
  forSetup : Bool := false

/-- A connection: what can be read from it, and whether the server has closed it. -/
structure Line where
  unread : List Reply
  closed : Bool := false
  /-- The first of the unread answers was too deep to be read. -/
  stuck : Bool := false

namespace Line

/-- Why nothing more can be read from a connection. -/
def ending (l : Line) : Fault :=
  if l.closed then .endOfStream else .silence

/-- Reads the next answer.  One that is too deep stays where it is, and stands in the
way of all that follow it. -/
def read (l : Line) : Except Fault Reply × Line :=
  match l.unread with
  | [] => (.error l.ending, l)
  | r :: rest =>
      match r.overflow? with
      | some o => (.error (if l.stuck then o.faultAgain else o.fault), { l with stuck := true })
      | none => (r.outcome, { l with unread := rest })

/-- Reading an answer takes it from the connection. -/
theorem length_of_read_ok
    {l m : Line}
    {r : Reply}
    (h : l.read = (.ok r, m)) :
    m.unread.length < l.unread.length := by
  unfold read at h
  split at h
  · simp at h
  · rename_i rest hl
    split at h
    · simp at h
    · simp only [Prod.mk.injEq] at h
      rw [← h.2, hl]
      exact Nat.lt_succ_self rest.length

end Line

/-- What there is at a host and a port. -/
inductive Reach where
  /-- The host has no address. -/
  | unknown (reason : String)
  /-- The host has addresses, and none of them lets anybody connect. -/
  | refused (reason : String)
  | served
  deriving DecidableEq

/-- The hosts and ports of a network with what there is. -/
abbrev Network := String → Nat → Reach

/-- No host can be reached. -/
def Network.down : Network := fun _ _ => .refused "Network is unreachable (os error 101)"

/-- A server and the connections to it. -/
structure Server where
  /-- The files of the machine on which the clients run. -/
  files : FileTree
  /-- The network as that machine sees it. -/
  network : Network
  /-- What the clock of that machine shows, in nanoseconds. -/
  clock : Nat
  turns : List Turn
  lines : List Line
  /-- The commands that reached the server, in order. -/
  sent : List (ConnId × Words)

namespace Server

/-- The longest file name of a socket. -/
def maxSocketPath : Nat := 107

/-- Why no connection can be opened to an address. -/
def dialFault? (s : Server) (wait : Duration) : Address → Option Fault
  | .network host port =>
      match s.network host port with
      | .unknown reason => some (.lost reason)
      | .refused reason => some (if wait.isZero then .zeroTimeout else .lost reason)
      | .served => if wait.isZero then some .zeroTimeout else none
  | .socket path =>
      if path.contains 0 then some (.lost "paths must not contain interior null bytes")
      else if maxSocketPath < path.length then
        some (.lost "path must be shorter than SUN_LEN")
      else
        match s.files.resolve path with
        | .ok (.socket true) => none
        | .ok _ => some (.lost "Connection refused (os error 111)")
        | .error .missing => some (.lost "No such file or directory (os error 2)")
        | .error .notDirectory => some (.lost "Not a directory (os error 20)")

/-- Opens a connection to an address. -/
def dial (s : Server) (address : Address) (wait : Duration) : Except Fault ConnId × Server :=
  match s.dialFault? wait address with
  | some f => (.error f, s)
  | none => (.ok s.lines.length, { s with lines := s.lines ++ [{ unread := [] }] })

/-- Lets time pass. -/
def sleep (s : Server) (time : Duration) : Server :=
  { s with clock := s.clock + time.nanos }

/-- A connection; one that was never opened is closed. -/
def line (s : Server) (c : ConnId) : Line :=
  (s.lines[c]?).getD { unread := [], closed := true }

/-- Changes a connection. -/
def update (s : Server) (c : ConnId) (f : Line → Line) : Server :=
  { s with lines := s.lines.modify c f }

/-- The server puts answers on a connection, and closes it if it is told to. -/
def push (s : Server) (c : ConnId) (answers : List Reply) (closes : Bool) : Server :=
  s.update c fun l => { l with unread := l.unread ++ answers, closed := l.closed || closes }

/-- A command reaches the server. -/
def take (s : Server) (c : ConnId) (words : Words) : Server :=
  let s := { s with sent := s.sent ++ [(c, words)] }
  match s.turns with
  | [] => s
  | t :: rest => { s with turns := rest }.push c t.answers t.closes

/-- The commands of one message reach the server, until it closes the connection. -/
def takeAll (s : Server) (c : ConnId) : List Words → Server
  | [] => s
  | w :: ws => if (s.line c).closed then s else (s.take c w).takeAll c ws

/-- Sends commands at once. -/
def send (s : Server) (c : ConnId) (commands : List Words) : Except Fault Unit × Server :=
  if (s.line c).closed then (.error .brokenPipe, s) else (.ok (), s.takeAll c commands)

/-- The turns when a command comes with which a connection is set up: it succeeds
unless the next turn is meant for it. -/
def setupTurns (turns : List Turn) : List Turn :=
  let agreed : Turn := { answers := [.status "OK"], forSetup := true }
  match turns with
  | t :: _ => if t.forSetup then turns else agreed :: turns
  | [] => [agreed]

/-- Sends a command with which a connection is set up. -/
def sendSetup (s : Server) (c : ConnId) (words : Words) : Except Fault Unit × Server :=
  { s with turns := setupTurns s.turns }.send c [words]

/-- Reads the next answer of a connection. -/
def receive (s : Server) (c : ConnId) : Except Fault Reply × Server :=
  let (r, l) := (s.line c).read
  (r, s.update c fun _ => l)

/-- Reads a number of answers; the first fault stands for all of them, and
otherwise the last answer does. -/
def receiveAll (s : Server) (c : ConnId) : Nat → Except Fault Reply × Server
  | 0 => s.receive c
  | n + 1 =>
      let (r, s) := s.receive c
      let (rest, s) := s.receiveAll c n
      (match r with
        | .ok _ => rest
        | .error f => .error f, s)

end Server
end Remote
end Courier
