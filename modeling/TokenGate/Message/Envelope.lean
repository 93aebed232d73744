import TokenGate.Json.Decode
import TokenGate.Uuid
import TokenGate.Registry.Entities
/-!
# `TokenGate.Message.Envelope`: the frame every bus message travels in

An envelope carries a protocol version, the request identifier that ties an answer to
its request, an optional topic to answer on, a timestamp in milliseconds, and the
payload. The codec writes envelopes as compact JSON and reads them back; reading
checks the version (only version `1` is spoken) before it checks that the identifier
is not nil.
-/

set_option autoImplicit false

namespace TokenGate

open Json

/-- A framed message. -/
structure Envelope (α : Type) where
  version : Nat
  requestId : Uuid
  responseTopic : Option String
  timestamp : Nat
  payload : α

/-- Why a frame could not be read or written. -/
inductive MessageError where
  | unsupportedVersion (received : Nat)
  | missingRequestId
  | decode (message : String)
  | encode (message : String)
  deriving DecidableEq

namespace MessageError

/-- The name of the kind of fault. -/
def kindName : MessageError → String
  | .unsupportedVersion _ => "UnsupportedVersion"
  | .missingRequestId => "MissingRequestId"
  | .decode _ => "Decode"
  | .encode _ => "Encode"

/-- The text of the fault. -/
def message : MessageError → String
  | .unsupportedVersion r => "Unsupported version: received " ++ toString r ++ ", supported 1"
  | .missingRequestId => "Missing request id"
  | .decode m => "Decode failed: " ++ m
  | .encode m => "Encode failed: " ++ m

end MessageError

namespace Envelope

variable {α : Type}

/-- The version this codec speaks. -/
def currentVersion : Nat := 1

/-- A request frame: current version, the given identifier and answer topic. -/
def request (id : Uuid) (payload : α) (responseTopic : String) (timestamp : Nat) : Envelope α :=
  { version := currentVersion, requestId := id, responseTopic := some responseTopic,
    timestamp, payload }

/-- An answer frame: it echoes the request identifier and names no answer topic. -/
def response (id : Uuid) (payload : α) (timestamp : Nat) : Envelope α :=
  { version := currentVersion, requestId := id, responseTopic := none, timestamp, payload }

/-- The fields read so far. -/
structure Draft (α : Type) where
  version : Option Nat := none
  requestId : Option Uuid := none
  responseTopic : Option (Option String) := none
  timestamp : Option Nat := none
  payload : Option α := none

/-- How a frame is read, given how its payload is read. -/
def spec (payload : Reader α) : RecordSpec (Draft α) where
  name := "Envelope"
  fields := ["version", "request_id", "response_topic", "timestamp", "payload"]
  strict := false
  optional i := i == 2
  has d
    | 0 => d.version.isSome
    | 1 => d.requestId.isSome
    | 2 => d.responseTopic.isSome
    | 3 => d.timestamp.isSome
    | _ => d.payload.isSome
  read
    | 0, d => do pure { d with version := some (← Reader.unsigned "u16" 65535) }
    | 1, d => do pure { d with requestId := some (← Uuid.reader) }
    | 2, d => do pure { d with responseTopic := some (← Reader.option Reader.string) }
    | 3, d => do pure { d with timestamp := some (← Reader.unsigned "u64" Reader.u64Max) }
    | _, d => do pure { d with payload := some (← payload) }

/-- Read a frame. -/
def reader [Inhabited α] (payload : Reader α) : Reader (Envelope α) := do
  let d ← Reader.record (spec payload) {}
  pure { version := d.version.getD 0, requestId := d.requestId.getD Uuid.nil,
         responseTopic := d.responseTopic.getD none, timestamp := d.timestamp.getD 0,
         payload := d.payload.getD default }

/-- A frame as a JSON object, fields in declaration order. -/
def toValue (payload : α → Value) (e : Envelope α) : Value :=
  .object [("version", .number (.nat e.version)), ("request_id", e.requestId.toValue),
    ("response_topic", optionalString e.responseTopic),
    ("timestamp", .number (.nat e.timestamp)), ("payload", payload e.payload)]

/-- The version and identifier checks a received frame must pass. -/
def check (e : Envelope α) : Except MessageError (Envelope α) :=
  if e.version != currentVersion then .error (.unsupportedVersion e.version)
  else if e.requestId.isNil then .error .missingRequestId
  else .ok e

/-- Read a frame from octets and check it. -/
def decode [Inhabited α] (payload : Reader α) (bytes : List UInt8) :
    Except MessageError (Envelope α) :=
  match readAll (reader payload) bytes with
  | .error m => .error (.decode m)
  | .ok e => check e

/-- Write a frame as octets. -/
def encode (payload : α → Value) (e : Envelope α) : List UInt8 :=
  Utf8.encode (toValue payload e).write

end Envelope

end TokenGate
