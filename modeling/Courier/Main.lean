import Courier.Log.Written
import Courier.Promoter.Program
import Courier.Remote.Wire
import Std.Time.DateTime.Timestamp

/-!
# The command line

Runs the promoter over a recorded connection: the settings are those of the
environment, the answers of the server stand on the standard input as they came
over the wire, and the socket of the settings is the one they came from.
-/

namespace Courier
namespace CommandLine

/-- The variables that the program reads. -/
def environment : IO Variables := do
  let names :=
    ["REDIS_URL", "REDIS_POOL_SIZE", "REDIS_DB", "REDIS_CONN_ATTEMPTS", "REDIS_CONN_TIMEOUT_MS",
     PromoterSettings.queuesVariable, PromoterSettings.intervalVariable,
     LogConfig.filterVariable, LogConfig.formatVariable]
  let values ← names.mapM fun name => do
    let v ← IO.getEnv name
    pure (name, v)
  pure fun name => (values.lookup name).join

/-- All bytes of a stream. -/
def readToEnd (stream : IO.FS.Stream) : IO ByteArray := do
  let mut bytes := ByteArray.empty
  repeat
    let more ← stream.read 65536
    if more.isEmpty then break
    bytes := bytes ++ more
  pure bytes

/-- The time of the system. -/
def currentTime : IO Calendar.Timestamp := do
  let t ← Std.Time.Timestamp.now
  pure ((Calendar.Timestamp.ofUnix? t.toSecondsSinceUnixEpoch.val
    (t.toNanosecondsSinceUnixEpoch.val % 1000000000).toNat).getD .max)

/-- The socket of a URL. -/
def socketOf (url : String) : Bytes :=
  match Remote.Endpoint.ofUrl url with
  | .ok { address := .socket path, .. } => path
  | _ => []

/-- Runs the program; its exit code. -/
def run : IO UInt32 := do
  let vars ← environment
  let input ← readToEnd (← IO.getStdin)
  let now ← currentTime
  let clock ← IO.monoNanosNow
  let socket := socketOf ((vars "REDIS_URL").getD "")
  let server := Remote.Wire.replay clock socket (Remote.Wire.readAll input.toList)
  let t := Promoter.Program.run vars server now 0
  for l in t.logs do
    IO.println (l.written now t.format)
  IO.eprint t.report
  pure t.code

end CommandLine
end Courier

/-- The program. -/
def main : IO UInt32 :=
  Courier.CommandLine.run
