import Courier.Json.Record
import Courier.Json.Writer

/-!
# Stored records

Jobs, messages and cached values travel as JSON texts.  A failure names the
kind of record and the reason.

**Results.**
* `Codec.encode`, `Codec.decode`: between a record and its stored bytes.
* `CodecError.message`: the wording of a failure.
-/

namespace Courier

/-- Why a record was not written or not read. -/
inductive CodecError where
  | encode (kind reason : String)
  | decode (kind reason : String)
  deriving DecidableEq

/-- The wording of a failure. -/
def CodecError.message : CodecError → String
  | .encode kind reason => "failed to encode " ++ kind ++ ": " ++ reason
  | .decode kind reason => "failed to decode " ++ kind ++ ": " ++ reason

namespace Codec

/-- The stored bytes of a record. -/
def encode {α : Type} [Json.Encode α] (kind : String) (v : α) : Except CodecError Bytes :=
  (Json.Encode.write v).mapError fun f => .encode kind f.message

/-- The record of stored bytes. -/
def decode {α : Type} [Json.Decode α] (kind : String) (text : Bytes) : Except CodecError α :=
  (Json.decode text).mapError fun f => .decode kind (f.message text)

end Codec
end Courier
