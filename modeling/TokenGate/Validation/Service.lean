import TokenGate.Registry.Store
import TokenGate.Message.Request
import TokenGate.Message.Response
/-!
# `TokenGate.Validation.Service`: from a token to a device description

Validating a token is a chain of lookups, and every way it can stop is a
`Resolution`:

1. the credential store fails (`lookupFailed`), has no credentials under the token
   (`unknownToken`), or has credentials of another kind (`wrongCredentialsType`);
2. the device directory fails (`lookupFailed`) or has no such device
   (`deviceMissing`);
3. writing the device's additional information as text fails
   (`serializationFailed`);
4. otherwise the token is `found`, with the device's description.

Any request other than a token validation is `unsupportedRequest`. Only a failed
lookup or a failed serialisation is worth a warning (`Severity.warn`); every
resolution but `found` is answered with the empty response.

The directory lookup is the one step that may take time, so the chain is cut there:
`Backend.start` runs step 1 and either resolves or asks for a device, and
`Backend.finish` runs steps 2 to 4 on what the directory answered. `Backend.resolve`
joins the two for a directory that answers at once.
-/

set_option autoImplicit false

namespace TokenGate

/-- Why a store lookup failed. -/
inductive LookupError where
  | unavailable (message : String)
  | corrupt (message : String)
  deriving DecidableEq

namespace LookupError

/-- The name of the kind of failure. -/
def kindName : LookupError → String
  | .unavailable _ => "Unavailable"
  | .corrupt _ => "Corrupt"

/-- The text of the failure. -/
def message : LookupError → String
  | .unavailable m => "Store unavailable: " ++ m
  | .corrupt m => "Corrupt record: " ++ m

end LookupError

/-- How a request was resolved. -/
inductive Resolution where
  | found (info : DeviceInfo)
  | unsupportedRequest (kind : String)
  | unknownToken
  | wrongCredentialsType (kind : CredentialsType)
  | deviceMissing (deviceId : Uuid)
  | serializationFailed (deviceId : Uuid) (reason : String)
  | lookupFailed (error : LookupError)

/-- How loudly a resolution is reported. -/
inductive Severity where
  | trace
  | warn
  deriving DecidableEq

namespace Resolution

/-- Failures of the machinery warn; refusals of the request do not. -/
def severity : Resolution → Severity
  | .serializationFailed _ _ => .warn
  | .lookupFailed _ => .warn
  | _ => .trace

/-- The response a resolution is answered with. -/
def toResponse : Resolution → Response
  | .found info => .found info
  | _ => .empty

/-- The name of the outcome. -/
def outcome : Resolution → String
  | .found _ => "Found"
  | .unsupportedRequest _ => "UnsupportedRequest"
  | .unknownToken => "UnknownToken"
  | .wrongCredentialsType _ => "WrongCredentialsType"
  | .deviceMissing _ => "DeviceMissing"
  | .serializationFailed _ _ => "SerializationFailed"
  | .lookupFailed _ => "LookupFailed"

end Resolution

/-- The registry together with the faults it is set to show: a failing credential
store, a failing device directory, a serialiser that refuses. -/
structure Backend where
  registry : Registry
  credentialsFault : Option LookupError
  directoryFault : Option LookupError
  serializerFault : Option String

/-- After the credential lookup: resolved already, or a device to look up. -/
inductive Pending where
  | done (r : Resolution)
  | lookupDevice (deviceId : Uuid)

namespace Backend

/-- A registry with no faults. -/
def ofRegistry (r : Registry) : Backend := ⟨r, none, none, none⟩

/-- Write additional information as text, unless the serialiser is set to refuse. -/
def serialize (b : Backend) (v : Json.Value) : Except String String :=
  match b.serializerFault with
  | some reason => .error ("Failed to serialize payload: " ++ reason)
  | none => .ok v.write

/-- What the device directory answers now. -/
def lookupDevice (b : Backend) (id : Uuid) : Except LookupError (Option Device) :=
  match b.directoryFault with
  | some e => .error e
  | none => .ok (b.registry.devices.find? id)

/-- Step 1: the credential lookup. -/
def start (b : Backend) : Request → Pending
  | .validateDeviceToken token =>
    match b.credentialsFault with
    | some e => .done (.lookupFailed e)
    | none =>
      match b.registry.credentials.find? token with
      | none => .done .unknownToken
      | some c =>
        if c.credentialsType.isAccessToken then .lookupDevice c.deviceId
        else .done (.wrongCredentialsType c.credentialsType)
  | other => .done (.unsupportedRequest other.kind)

/-- Steps 2 to 4, on what the directory answered. -/
def finish (b : Backend) (deviceId : Uuid) (answer : Except LookupError (Option Device)) :
    Resolution :=
  match answer with
  | .error e => .lookupFailed e
  | .ok none => .deviceMissing deviceId
  | .ok (some d) =>
    match b.serialize d.additionalInfo with
    | .ok text => .found (DeviceInfo.ofDevice d text)
    | .error reason => .serializationFailed deviceId reason

/-- Resolve a request with a directory that answers at once. -/
def resolve (b : Backend) (req : Request) : Resolution :=
  match b.start req with
  | .done r => r
  | .lookupDevice id => b.finish id (b.lookupDevice id)

/-- The response to a request. -/
def handle (b : Backend) (req : Request) : Response := (b.resolve req).toResponse

end Backend

end TokenGate
