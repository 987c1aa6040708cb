import Courier.Calendar.Written
import Courier.Record.Codec

/-!
# Jobs

A unit of work.  Its identifier and creation time may be left open until it is
put on a queue; the number of retries is kept by the caller.

**Results.**
* `Job.ensureDefaults`: fills in what was left open.
* `Job.record`, `Job.write`: how a job is read and written.
-/

namespace Courier

/-- A unit of work. -/
structure Job where
  id : String
  type : String
  payload : Json.Object
  createdAt : Option Calendar.Timestamp
  retries : UInt32
  deriving BEq

namespace Job

/-- A job with neither identifier nor creation time. -/
def new (type : String) (payload : Json.Object) : Job :=
  { id := "", type, payload, createdAt := none, retries := 0 }

/-- Gives a job the fresh identifier and the current time where it has none. -/
def ensureDefaults (job : Job) (fresh : String) (now : Calendar.Timestamp) : Job :=
  { job with
    id := if job.id = "" then fresh else job.id
    createdAt := some (job.createdAt.getD now) }

/-- What is known of a job while it is read. -/
structure Draft where
  id : Option String := none
  type : Option String := none
  payload : Option Json.Object := none
  createdAt : Option (Option Calendar.Timestamp) := none
  retries : Option UInt32 := none

/-- How a job is read: only its type is required. -/
def record : Json.Record Draft Job where
  name := "Job"
  fields :=
    [.of "id" false (·.id) fun v d => { d with id := some v },
     .of "type" true (·.type) fun v d => { d with type := some v },
     .of "payload" false (·.payload) fun v d => { d with payload := some v },
     .of "created_at" false (·.createdAt) fun v d => { d with createdAt := some v },
     .of "retries" false (·.retries) fun v d => { d with retries := some v }]
  start := {}
  finish d :=
    { id := d.id.getD ""
      type := d.type.getD ""
      payload := d.payload.getD .empty
      createdAt := d.createdAt.getD none
      retries := d.retries.getD 0 }

instance : Json.Decode Job where
  read := record.read

/-- The stored bytes of a job; a creation time left open is left out. -/
def write (job : Job) : Bytes :=
  Json.writeRecord <|
    [("id", Json.writeString job.id),
     ("type", Json.writeString job.type),
     ("payload", job.payload.write)] ++
    (job.createdAt.map fun t => ("created_at", Json.writeString t.text)).toList ++
    [("retries", Bytes.ofAscii (toString job.retries.toNat))]

instance : Json.Encode Job where
  write job := .ok job.write

/-- What a job is called in failures of the codec. -/
def kind : String := "job"

end Job
end Courier
