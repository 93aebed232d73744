import TokenGate.Registry.Store
/-!
# `TokenGate.Registry.Seed`: a registry's initial contents

A seed is a JSON object with two optional lists, `devices` and `credentials`; no other
field is allowed. Applying a seed inserts the devices first and then the credentials,
each in list order, so a later entry with the same key replaces an earlier one. The
counts it reports are the lengths of the two lists, not the number of new keys.
-/

set_option autoImplicit false

namespace TokenGate

open Json

/-- A registry's initial contents. -/
structure Seed where
  devices : List Device
  credentials : List DeviceCredentials

namespace Seed

/-- The lists read so far. -/
structure Draft where
  devices : Option (List Device) := none
  credentials : Option (List DeviceCredentials) := none

/-- How a seed is read. -/
def spec : RecordSpec Draft where
  name := "RegistrySeed"
  fields := ["devices", "credentials"]
  strict := true
  optional _ := true
  has d
    | 0 => d.devices.isSome
    | _ => d.credentials.isSome
  read
    | 0, d => do pure { d with devices := some (← Reader.list Device.reader) }
    | _, d => do pure { d with credentials := some (← Reader.list DeviceCredentials.reader) }

/-- Read a seed from JSON text; the fault message is prefixed as the node reports it. -/
def parse (bytes : List UInt8) : Except String Seed :=
  match readAll (Reader.record spec {}) bytes with
  | .ok d => .ok ⟨d.devices.getD [], d.credentials.getD []⟩
  | .error m => .error ("Failed to parse seed: " ++ m)

/-- Insert the devices, then the credentials. The counts are the list lengths. -/
def apply (s : Seed) (r : Registry) : (Nat × Nat) × Registry :=
  let r := s.devices.foldl Registry.insertDevice r
  let r := s.credentials.foldl Registry.insertCredentials r
  ((s.devices.length, s.credentials.length), r)

end Seed

end TokenGate
