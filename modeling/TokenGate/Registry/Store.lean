import TokenGate.Registry.Entities
/-!
# `TokenGate.Registry.Store`: keyed tables of devices and credentials

A `Table` maps keys to rows, one row per key. Inserting under a key that is present
replaces the row in place; removing gives the row back. Devices are keyed by their
identifier, credentials by their credential text (`credentialsId`), so a token looks
up its credentials in one step.

`Registry` is the pair of tables that the validation service reads.
-/

set_option autoImplicit false

namespace TokenGate

/-- Rows keyed by `κ`, at most one per key, in insertion order. -/
structure Table (κ : Type) (α : Type) where
  rows : List (κ × α)

namespace Table

variable {κ α : Type} [DecidableEq κ]

/-- The table with no rows. -/
def empty : Table κ α := ⟨[]⟩

/-- The row under a key. -/
def find? (t : Table κ α) (k : κ) : Option α := t.rows.lookup k

/-- Insert a row, replacing the row under the same key. -/
def insert (t : Table κ α) (k : κ) (a : α) : Table κ α :=
  if (t.find? k).isSome then ⟨t.rows.map fun r => if r.1 = k then (k, a) else r⟩
  else ⟨t.rows ++ [(k, a)]⟩

/-- Remove the row under a key, giving it back. -/
def remove (t : Table κ α) (k : κ) : Option α × Table κ α :=
  (t.find? k, ⟨t.rows.filter fun r => r.1 ≠ k⟩)

/-- The number of rows. -/
def size (t : Table κ α) : Nat := t.rows.length

end Table

/-- The device and credential tables. -/
structure Registry where
  devices : Table Uuid Device
  credentials : Table String DeviceCredentials

namespace Registry

/-- No devices, no credentials. -/
def empty : Registry := ⟨Table.empty, Table.empty⟩

/-- Insert or replace a device. -/
def insertDevice (r : Registry) (d : Device) : Registry :=
  { r with devices := r.devices.insert d.id d }

/-- Insert or replace credentials. -/
def insertCredentials (r : Registry) (c : DeviceCredentials) : Registry :=
  { r with credentials := r.credentials.insert c.credentialsId c }

/-- Remove a device; whether one was there. -/
def removeDevice (r : Registry) (id : Uuid) : Bool × Registry :=
  let (old, t) := r.devices.remove id
  (old.isSome, { r with devices := t })

/-- Remove credentials by their credential text; whether they were there. -/
def removeCredentials (r : Registry) (credentialsId : String) : Bool × Registry :=
  let (old, t) := r.credentials.remove credentialsId
  (old.isSome, { r with credentials := t })

end Registry

end TokenGate
