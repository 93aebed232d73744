import TokenGate.Json.Decode
import TokenGate.Registry.Entities
/-!
# `TokenGate.Message.Response`: what the validation service answers

An answer either carries a `DeviceInfo` (the device the token opens: its identifiers as
signed 64-bit halves, its name and type, and its additional information as JSON text)
or carries nothing. The empty answer is the default one: it is what a timed-out or
unsupported request receives.
-/

set_option autoImplicit false

namespace TokenGate

open Json

/-- The description of a device sent back to a caller. -/
structure DeviceInfo where
  tenantIdMsb : Int
  tenantIdLsb : Int
  deviceIdMsb : Int
  deviceIdLsb : Int
  deviceName : String
  deviceType : String
  additionalInfo : String
  deriving DecidableEq

/-- The answer to a request: a device, or nothing. -/
structure Response where
  deviceInfo : Option DeviceInfo
  deriving DecidableEq, Inhabited

namespace DeviceInfo

/-- The description of a device, with its additional information already written as
text. -/
def ofDevice (d : Device) (additionalInfo : String) : DeviceInfo :=
  { tenantIdMsb := d.tenantId.msb, tenantIdLsb := d.tenantId.lsb,
    deviceIdMsb := d.id.msb, deviceIdLsb := d.id.lsb,
    deviceName := d.name, deviceType := d.deviceType, additionalInfo }

/-- The field names, in declaration order. -/
def fieldNames : List String :=
  ["tenant_id_msb", "tenant_id_lsb", "device_id_msb", "device_id_lsb", "device_name",
    "device_type", "additional_info"]

/-- The fields read so far. -/
structure Draft where
  halves : List (Nat × Int) := []
  texts : List (Nat × String) := []

/-- How a device description is read. -/
def spec : RecordSpec Draft where
  name := "DeviceInfo"
  fields := fieldNames
  strict := false
  optional _ := false
  has d i := (d.halves.lookup i).isSome || (d.texts.lookup i).isSome
  read i d :=
    if i < 4 then do pure { d with halves := (i, ← Reader.signed64) :: d.halves }
    else do pure { d with texts := (i, ← Reader.string) :: d.texts }

/-- The description a complete draft describes. -/
def ofDraft (d : Draft) : DeviceInfo :=
  let h (i : Nat) : Int := (d.halves.lookup i).getD 0
  let t (i : Nat) : String := (d.texts.lookup i).getD ""
  { tenantIdMsb := h 0, tenantIdLsb := h 1, deviceIdMsb := h 2, deviceIdLsb := h 3,
    deviceName := t 4, deviceType := t 5, additionalInfo := t 6 }

/-- Read a device description. -/
def reader : Reader DeviceInfo := ofDraft <$> Reader.record spec {}

/-- A device description as a JSON object, fields in declaration order. -/
def toValue (i : DeviceInfo) : Value :=
  let int (n : Int) : Value := if n < 0 then .number (.neg n) else .number (.nat n.toNat)
  .object [("tenant_id_msb", int i.tenantIdMsb), ("tenant_id_lsb", int i.tenantIdLsb),
    ("device_id_msb", int i.deviceIdMsb), ("device_id_lsb", int i.deviceIdLsb),
    ("device_name", .string i.deviceName), ("device_type", .string i.deviceType),
    ("additional_info", .string i.additionalInfo)]

end DeviceInfo

namespace Response

/-- The empty answer. -/
def empty : Response := ⟨none⟩

/-- The answer carrying a device. -/
def found (info : DeviceInfo) : Response := ⟨some info⟩

/-- Whether the answer carries nothing. -/
def isEmpty (r : Response) : Bool := r.deviceInfo.isNone

/-- Read the inner record `{device_info}`. -/
def innerSpec : RecordSpec (Option (Option DeviceInfo)) where
  name := "ValidateDeviceTokenResponse"
  fields := ["device_info"]
  strict := false
  optional _ := true
  has d _ := d.isSome
  read _ _ := do pure (some (← Reader.option DeviceInfo.reader))

/-- Read the outer record `{validate_token_response}`. -/
def outerSpec : RecordSpec (Option Response) where
  name := "TransportApiResponse"
  fields := ["validate_token_response"]
  strict := false
  optional _ := false
  has d _ := d.isSome
  read _ _ := do
    let inner ← Reader.record innerSpec none
    pure (some ⟨inner.getD none⟩)

/-- Read an answer. -/
def reader : Reader Response := (·.getD empty) <$> Reader.record outerSpec none

/-- An answer as a JSON object. -/
def toValue (r : Response) : Value :=
  .object [("validate_token_response", .object [("device_info",
    match r.deviceInfo with
    | some i => i.toValue
    | none => .null)])]

end Response

end TokenGate
