import Courier.Log.Config
import Courier.Log.Filter
import Courier.Promoter.Rounds
import Courier.Remote.Client

/-!
# The promoter program

Reads its settings, connects to the store and promotes delayed jobs round after
round until it is interrupted.  What it does is told by log lines.

**Results.**
* `Program.run`: everything that a run of the program shows.
-/

namespace Courier
namespace Promoter

/-- What a run of the program shows. -/
structure Transcript where
  /-- The exit code. -/
  code : UInt32
  format : LogFormat
  logs : List LogLine
  /-- The report of the failure that ended the program. -/
  report : String
  /-- The server after the run. -/
  server : Remote.Server

namespace Program

/-- The part of the program that begins and ends it. -/
def mainTarget : String := "skein_promoter"

/-- The part of the program that talks to the store. -/
def storeTarget : String := "skein_store::redis"

/-- The part of the program that runs rounds. -/
def roundsTarget : String := "skein_queue::promoter"

/-- The part of the program that promotes one queue. -/
def delayedTarget : String := "skein_queue::delayed"

/-- A cause with every further line set in. -/
def indented (cause : String) : String :=
  String.ofList (cause.toList.flatMap fun c => if c = '\n' then "\n    ".toList else [c])

/-- The report of a failure and its cause. -/
def failureReport (context cause : String) : String :=
  "Error: " ++ context ++ "\n\nCaused by:\n    " ++ indented cause ++ "\n"

/-- The line at the start. -/
def startLine (s : PromoterSettings) : LogLine :=
  { level := .info, target := mainTarget, thread := .main
    fields := LogLine.saying "starting delayed promoter"
      [("queues", .text (Text.quotedList s.queues)),
       ("interval_ms", .number (s.interval.wholeMillis % 0x10000000000000000 : Nat))] }

/-- The line after an attempt to connect that another one follows. -/
def retryLine (attempt : Nat × StoreError) : LogLine :=
  { level := .warn, target := storeTarget, thread := .worker
    fields := LogLine.saying "store is trying to connect"
      [("attempts_left", .number attempt.1), ("error", .text attempt.2.message)] }

/-- The line once the store is connected. -/
def connectedLine (c : StoreConfig) : LogLine :=
  { level := .info, target := storeTarget, thread := .worker
    fields := LogLine.saying "connected to store"
      [("db", .number c.db.toInt), ("pool_size", .number c.poolSize)] }

/-- A line of the promoter's own thread. -/
def promoterLine (c : PromoterConfig) (level : LogLevel) (message : String)
    (fields : List (String × LogValue)) : LogLine :=
  { level, target := roundsTarget, thread := .named c.name
    fields := LogLine.saying message fields }

/-- The promotion of one queue. -/
def promotion (queue : String) : LogSpan :=
  { name := "promote", target := delayedTarget, level := .info, fields := [("queue", queue)] }

/-- A line from within the promotion of one queue. -/
def promotionLine (c : PromoterConfig) (queue : String) (level : LogLevel)
    (fields : List (String × LogValue)) : LogLine :=
  { level, target := delayedTarget, span := some (promotion queue), thread := .named c.name,
    fields }

/-- The lines about the visit to one queue. -/
def visitLines (c : PromoterConfig) (v : Visit) : List LogLine :=
  match v.outcome with
  | .ok 0 => []
  | .ok n =>
      [promotionLine c v.queue .info (LogLine.saying "promoted delayed jobs"
        [("queue", .text v.queue), ("promoted", .number n)])]
  | .error e =>
      [promotionLine c v.queue .error [("error", .text e.message)],
       promoterLine c .error "promotion failed"
        [("queue", .text v.queue), ("error", .text e.message)]]

/-- The lines about a round. -/
def roundLines (c : PromoterConfig) (visits : List Visit) : List LogLine :=
  let moved := Visit.totalMoved visits
  visits.flatMap (visitLines c) ++
    if 0 < moved then
      [promoterLine c .debug "promotion round"
        [("promoter", .text c.name), ("moved", .number moved)]]
    else []

/-- Goes on for rounds, one after another, until the server has taken its last turn;
there are no more rounds than turns. -/
def roundsFrom (c : PromoterConfig) (now : Calendar.Timestamp) :
    Nat → PromoterStats → Remote.Client → List LogLine × PromoterStats × Remote.Client
  | 0, s, k => ([], s, k)
  | n + 1, s, k =>
      let (visits, k) := (round now c.queues).run k
      let s := s.after visits
      if k.server.turns.isEmpty then (roundLines c visits, s, k)
      else
        let (later, s, k) := roundsFrom c now n s k
        (roundLines c visits ++ later, s, k)

/-- The last line: what the promoter has counted. -/
def summaryLine (s : PromoterStats) (uptime : Nat) : LogLine :=
  { level := .info, target := mainTarget, thread := .main
    fields := LogLine.saying "delayed promoter stopped"
      [("rounds", .number s.rounds), ("jobs_promoted", .number s.jobsPromoted),
       ("failures", .number s.failures), ("uptime_secs", .number uptime)] }

/-- The line after an interrupt. -/
def shutdownLine : LogLine :=
  { level := .info, target := mainTarget, thread := .main
    fields := LogLine.saying "shutdown requested" [] }

/-- The lines and the client from the promoter's start until an interrupt. -/
def promoting (settings : PromoterSettings) (now : Calendar.Timestamp) (uptime : Nat)
    (k : Remote.Client) : List LogLine × Remote.Client :=
  let c := settings.promoter
  let (lines, s, k) := roundsFrom c now (k.server.turns.length + 1) {} k
  ([promoterLine c .info "delayed promoter started"
      [("promoter", .text c.name), ("queues", .text (Text.quotedList c.queues))]] ++
    lines ++
    [shutdownLine,
     promoterLine c .info "delayed promoter stopped" [("promoter", .text c.name)],
     summaryLine s uptime], k)

/-- Everything that a run shows: the settings are those of the variables, and the
interrupt comes when the server has taken its last turn. -/
def run (vars : Variables) (server : Remote.Server) (now : Calendar.Timestamp) (uptime : Nat) :
    Transcript :=
  let log := LogConfig.read vars
  let admitted (lines : List LogLine) : List LogLine :=
    lines.filter (LogFilter.ofText log.filter).admits
  match PromoterSettings.read vars with
  | .error e =>
      { code := 1, format := log.format, logs := []
        report := failureReport "invalid promoter configuration" e.message, server }
  | .ok settings =>
      let attempt := Remote.Client.connect settings.store server
      let before := startLine settings :: attempt.failures.map retryLine
      match attempt.outcome with
      | .error (e, server) =>
          { code := 1, format := log.format, logs := admitted before
            report := failureReport "failed to connect to store" e.message, server }
      | .ok k =>
          let (lines, k) := promoting settings now uptime k
          { code := 0, format := log.format
            logs := admitted (before ++ connectedLine settings.store :: lines)
            report := "", server := k.server }

end Program
end Promoter
end Courier
