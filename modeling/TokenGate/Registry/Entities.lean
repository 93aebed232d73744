import TokenGate.Json.Decode
import TokenGate.Uuid
/-!
# `TokenGate.Registry.Entities`: devices and their credentials

The registry knows two kinds of record.

* A `Device`: its identifier, the tenant it belongs to, an optional customer, a name, a
  type, an optional label, and free-form `additionalInfo` (any JSON document, `null`
  when absent).
* `DeviceCredentials`: which device they open, their kind (`CredentialsType`), the
  credential text (`credentialsId`, the token for an access token) and an optional
  secret.

Both are read from JSON text by a `RecordSpec` (fields by name or by position; unknown
fields skipped; optional fields may be absent) and written back as JSON objects with
the fields in declaration order. Identifiers travel as their hyphenated text.

The kinds of credential travel by their wire names `ACCESS_TOKEN`, `X509_CERTIFICATE`
and `MQTT_BASIC`; only the first one opens a device in token validation.
-/

set_option autoImplicit false

namespace TokenGate

open Json

/-- The kind of a credential. -/
inductive CredentialsType where
  | accessToken
  | x509Certificate
  | mqttBasic
  deriving DecidableEq, Inhabited

namespace CredentialsType

/-- The wire names, in declaration order. -/
def wireNames : List String := ["ACCESS_TOKEN", "X509_CERTIFICATE", "MQTT_BASIC"]

/-- The wire name of a kind. -/
def wireName : CredentialsType → String
  | .accessToken => "ACCESS_TOKEN"
  | .x509Certificate => "X509_CERTIFICATE"
  | .mqttBasic => "MQTT_BASIC"

/-- The name of a kind in debug output. -/
def debugName : CredentialsType → String
  | .accessToken => "AccessToken"
  | .x509Certificate => "X509Certificate"
  | .mqttBasic => "MqttBasic"

/-- The kind at a position of `wireNames`. -/
def ofIndex : Nat → CredentialsType
  | 0 => .accessToken
  | 1 => .x509Certificate
  | _ => .mqttBasic

/-- Whether this kind is an access token. -/
def isAccessToken : CredentialsType → Bool
  | .accessToken => true
  | _ => false

/-- Read a kind: its wire name, or an object mapping the wire name to `null`. -/
def reader : Reader CredentialsType :=
  ofIndex <$> Reader.unitVariant wireNames

end CredentialsType

/-- A registered device. -/
structure Device where
  id : Uuid
  tenantId : Uuid
  customerId : Option Uuid
  name : String
  deviceType : String
  label : Option String
  additionalInfo : Value

/-- The credentials of a device. -/
structure DeviceCredentials where
  id : Uuid
  deviceId : Uuid
  credentialsType : CredentialsType
  credentialsId : String
  credentialsValue : Option String

/-- Read an identifier from its text; a malformed text is refused with the reason. -/
def Uuid.reader : Reader Uuid :=
  Reader.str "a formatted UUID string" fun s =>
    match Uuid.parse s with
    | .ok u => .ok u
    | .error e => .error ("UUID parsing failed: " ++ e)

/-- An identifier as a JSON string. -/
def Uuid.toValue (u : Uuid) : Value := .string u.display

/-- An optional text as JSON. -/
def optionalString : Option String → Value
  | some s => .string s
  | none => .null

namespace Device

/-- A device with no customer, no label and no additional information. -/
def new (tenantId id : Uuid) (name deviceType : String) : Device :=
  { id, tenantId, customerId := none, name, deviceType, label := none, additionalInfo := .null }

/-- The fields read so far. -/
structure Draft where
  id : Option Uuid := none
  tenantId : Option Uuid := none
  customerId : Option (Option Uuid) := none
  name : Option String := none
  deviceType : Option String := none
  label : Option (Option String) := none
  additionalInfo : Option Value := none

/-- How a device is read. -/
def spec : RecordSpec Draft where
  name := "Device"
  fields := ["id", "tenant_id", "customer_id", "name", "type", "label", "additional_info"]
  strict := false
  optional i := i == 2 || i == 5 || i == 6
  has d
    | 0 => d.id.isSome
    | 1 => d.tenantId.isSome
    | 2 => d.customerId.isSome
    | 3 => d.name.isSome
    | 4 => d.deviceType.isSome
    | 5 => d.label.isSome
    | _ => d.additionalInfo.isSome
  read
    | 0, d => do pure { d with id := some (← Uuid.reader) }
    | 1, d => do pure { d with tenantId := some (← Uuid.reader) }
    | 2, d => do pure { d with customerId := some (← Reader.option Uuid.reader) }
    | 3, d => do pure { d with name := some (← Reader.string) }
    | 4, d => do pure { d with deviceType := some (← Reader.string) }
    | 5, d => do pure { d with label := some (← Reader.option Reader.string) }
    | _, d => do pure { d with additionalInfo := some (← Reader.document) }

/-- The device a complete draft describes. -/
def ofDraft (d : Draft) : Device :=
  { id := d.id.getD Uuid.nil, tenantId := d.tenantId.getD Uuid.nil,
    customerId := d.customerId.getD none, name := d.name.getD "",
    deviceType := d.deviceType.getD "", label := d.label.getD none,
    additionalInfo := d.additionalInfo.getD .null }

/-- Read a device. -/
def reader : Reader Device := ofDraft <$> Reader.record spec {}

/-- A device as a JSON object, fields in declaration order. -/
def toValue (d : Device) : Value :=
  .object [("id", d.id.toValue), ("tenant_id", d.tenantId.toValue),
    ("customer_id", match d.customerId with | some c => c.toValue | none => .null),
    ("name", .string d.name), ("type", .string d.deviceType),
    ("label", optionalString d.label), ("additional_info", d.additionalInfo)]

/-- Field-by-field equality, the additional information compared as documents. -/
def equal (a b : Device) : Bool :=
  a.id == b.id && a.tenantId == b.tenantId && a.customerId == b.customerId
    && a.name == b.name && a.deviceType == b.deviceType && a.label == b.label
    && a.additionalInfo.equal b.additionalInfo

end Device

namespace DeviceCredentials

/-- Access-token credentials for a device, under a fresh credentials identifier. -/
def accessToken (id deviceId : Uuid) (token : String) : DeviceCredentials :=
  { id, deviceId, credentialsType := .accessToken, credentialsId := token,
    credentialsValue := none }

/-- The fields read so far. -/
structure Draft where
  id : Option Uuid := none
  deviceId : Option Uuid := none
  credentialsType : Option CredentialsType := none
  credentialsId : Option String := none
  credentialsValue : Option (Option String) := none

/-- How credentials are read. -/
def spec : RecordSpec Draft where
  name := "DeviceCredentials"
  fields := ["id", "device_id", "credentials_type", "credentials_id", "credentials_value"]
  strict := false
  optional i := i == 4
  has d
    | 0 => d.id.isSome
    | 1 => d.deviceId.isSome
    | 2 => d.credentialsType.isSome
    | 3 => d.credentialsId.isSome
    | _ => d.credentialsValue.isSome
  read
    | 0, d => do pure { d with id := some (← Uuid.reader) }
    | 1, d => do pure { d with deviceId := some (← Uuid.reader) }
    | 2, d => do pure { d with credentialsType := some (← CredentialsType.reader) }
    | 3, d => do pure { d with credentialsId := some (← Reader.string) }
    | _, d => do pure { d with credentialsValue := some (← Reader.option Reader.string) }

/-- The credentials a complete draft describes. -/
def ofDraft (d : Draft) : DeviceCredentials :=
  { id := d.id.getD Uuid.nil, deviceId := d.deviceId.getD Uuid.nil,
    credentialsType := d.credentialsType.getD .accessToken,
    credentialsId := d.credentialsId.getD "", credentialsValue := d.credentialsValue.getD none }

/-- Read credentials. -/
def reader : Reader DeviceCredentials := ofDraft <$> Reader.record spec {}

/-- Credentials as a JSON object, fields in declaration order. -/
def toValue (c : DeviceCredentials) : Value :=
  .object [("id", c.id.toValue), ("device_id", c.deviceId.toValue),
    ("credentials_type", .string c.credentialsType.wireName),
    ("credentials_id", .string c.credentialsId),
    ("credentials_value", optionalString c.credentialsValue)]

/-- Field-by-field equality. -/
def equal (a b : DeviceCredentials) : Bool :=
  a.id == b.id && a.deviceId == b.deviceId && a.credentialsType == b.credentialsType
    && a.credentialsId == b.credentialsId && a.credentialsValue == b.credentialsValue

end DeviceCredentials

end TokenGate
