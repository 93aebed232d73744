import Mathlib.Logic.Function.Basic
import TokenGate.Validation.Service
import TokenGate.Registry.Seed
/-!
# `TokenGate.Proofs.Decision`: token validation over a history of registry writes

The registry is written by five operations (`Registry.Op`): a device or credentials inserted
(replacing the row under the same key), a device or credentials removed, and a seed applied
(its devices, then its credentials, each in list order). Read as maps, these writes are
last-writer-wins updates: `Registry.devicesAfter` folds them over the devices by identifier
and `Registry.credentialsAfter` over the credentials by credential text, with
`Function.update` and nothing of the tables' row order.

`Resolution.ofLookups` is the decision the validation service promises, over any two such
maps and the faults of the stores and the serialiser, with the checks in their order: the
request kind, the credential store, the token, the credential type (before the directory is
asked), the directory, the device, the serialiser.

* `find?_run_devices`, `find?_run_credentials`: after any writes, each table answers as its
  map does.
* `resolve_eq_ofLookups`: the service decides as `ofLookups` over its own two tables.
* `resolve_run`: after any writes to an empty registry, the service decides as
  `ofLookups` over the two folded maps.
-/

set_option autoImplicit false

namespace TokenGate

namespace Table

variable {κ α : Type} [DecidableEq κ] (t : Table κ α)

theorem lookup_cons_eq (k : κ) (a : α) (rows : List (κ × α)) (k' : κ) :
    ((k, a) :: rows).lookup k' = if k' = k then some a else rows.lookup k' := by
  rw [List.lookup_cons]
  by_cases h : k' = k
  · simp [h]
  · have hb : (k' == k) = false := by simpa using h
    simp [h, hb]

/-- Replacing the rows under `k` in place: a lookup of `k` finds the new row when there was
one, and every other key keeps its row. -/
theorem lookup_map_replace (rows : List (κ × α)) (k : κ) (a : α) (k' : κ) :
    (rows.map fun r => if r.1 = k then (k, a) else r).lookup k' =
      if k' = k then (if (rows.lookup k).isSome then some a else none) else rows.lookup k' := by
  induction rows with
  | nil => simp
  | cons r rs ih =>
    obtain ⟨r₁, r₂⟩ := r
    rw [List.map_cons, lookup_cons_eq r₁ r₂ rs k]
    by_cases h₁ : r₁ = k
    · -- the row is replaced: its key is `k`
      subst h₁
      rw [if_pos rfl, if_pos rfl, lookup_cons_eq]
      by_cases h₂ : k' = r₁ <;> simp [h₂, ih, lookup_cons_eq]
    · rw [if_neg h₁, if_neg (Ne.symm h₁), lookup_cons_eq, lookup_cons_eq, ih]
      by_cases h₂ : k' = k
      · subst h₂
        simp [Ne.symm h₁]
      · simp [h₂]

/-- After an insertion the key holds the new row, and every other key its old one. -/
theorem find?_insert (k : κ) (a : α) (k' : κ) :
    (t.insert k a).find? k' = if k' = k then some a else t.find? k' := by
  unfold insert
  split
  · next h =>
    simp only [find?] at h ⊢
    rw [lookup_map_replace, h]
    simp
  · next h =>
    simp only [find?, Bool.not_eq_true, Option.isSome_eq_false_iff,
      Option.isNone_iff_eq_none] at h ⊢
    rw [List.lookup_append]
    by_cases hk : k' = k
    · subst hk
      simp [h]
    · cases t.rows.lookup k' <;> simp [hk]

/-- Dropping the rows under `k`: a lookup of `k` finds nothing, and every other key keeps its
row. -/
theorem lookup_filter_ne (rows : List (κ × α)) (k k' : κ) :
    (rows.filter fun r => r.1 ≠ k).lookup k' = if k' = k then none else rows.lookup k' := by
  induction rows with
  | nil => simp
  | cons r rs ih =>
    obtain ⟨r₁, r₂⟩ := r
    rw [List.filter_cons, lookup_cons_eq]
    by_cases h₁ : r₁ = k
    · subst h₁
      rw [if_neg (by simp), ih]
      by_cases h₂ : k' = r₁ <;> simp [h₂]
    · rw [if_pos (by simpa using h₁), lookup_cons_eq, ih]
      by_cases h₂ : k' = r₁
      · subst h₂
        simp [h₁]
      · simp [h₂]

/-- After a removal the key holds nothing, and every other key its old row. -/
theorem find?_remove (k k' : κ) :
    (t.remove k).2.find? k' = if k' = k then none else t.find? k' :=
  lookup_filter_ne t.rows k k'

/-- Read as maps, an insertion is an update. -/
theorem find?_insert_eq_update (k : κ) (a : α) :
    (t.insert k a).find? = Function.update t.find? k (some a) := by
  funext k'
  rw [find?_insert, Function.update_apply]

/-- Read as maps, a removal is an update to nothing. -/
theorem find?_remove_eq_update (k : κ) :
    (t.remove k).2.find? = Function.update t.find? k none := by
  funext k'
  rw [find?_remove, Function.update_apply]

end Table

namespace Registry

/-- One write to the registry. -/
inductive Op where
  | insertDevice (d : Device)
  | insertCredentials (c : DeviceCredentials)
  | removeDevice (id : Uuid)
  | removeCredentials (credentialsId : String)
  | seed (s : Seed)

/-- The registry after one write. -/
def step (r : Registry) : Op → Registry
  | .insertDevice d => r.insertDevice d
  | .insertCredentials c => r.insertCredentials c
  | .removeDevice id => (r.removeDevice id).2
  | .removeCredentials k => (r.removeCredentials k).2
  | .seed s => (s.apply r).2

/-- The registry after a sequence of writes, the first one first. -/
def run (r : Registry) (ops : List Op) : Registry := ops.foldl step r

namespace Op

/-- A write read on the devices, a map from identifiers. -/
def devices : Op → (Uuid → Option Device) → Uuid → Option Device
  | .insertDevice d, D => Function.update D d.id (some d)
  | .removeDevice id, D => Function.update D id none
  | .seed s, D =>
    s.devices.foldl (fun (D : Uuid → Option Device) d => Function.update D d.id (some d)) D
  | _, D => D

/-- A write read on the credentials, a map from credential texts. -/
def credentials :
    Op → (String → Option DeviceCredentials) → String → Option DeviceCredentials
  | .insertCredentials c, C => Function.update C c.credentialsId (some c)
  | .removeCredentials k, C => Function.update C k none
  | .seed s, C => s.credentials.foldl
      (fun (C : String → Option DeviceCredentials) c => Function.update C c.credentialsId (some c)) C
  | _, C => C

end Op

/-- The devices after a sequence of writes from none: the last write to an identifier wins. -/
def devicesAfter (ops : List Op) : Uuid → Option Device :=
  ops.foldl (fun D op => op.devices D) fun _ => none

/-- The credentials after a sequence of writes from none: the last write to a credential
text wins. -/
def credentialsAfter (ops : List Op) : String → Option DeviceCredentials :=
  ops.foldl (fun C op => op.credentials C) fun _ => none

/-- Inserting devices leaves the credentials, and reads as one update per device. -/
theorem foldl_insertDevice (ds : List Device) (r : Registry) :
    (ds.foldl insertDevice r).credentials = r.credentials ∧
      (ds.foldl insertDevice r).devices.find? =
        ds.foldl (fun (D : Uuid → Option Device) d => Function.update D d.id (some d))
          r.devices.find? := by
  induction ds generalizing r with
  | nil => exact ⟨rfl, rfl⟩
  | cons d ds ih =>
    obtain ⟨hc, hd⟩ := ih (r.insertDevice d)
    refine ⟨hc, ?_⟩
    rw [List.foldl_cons, List.foldl_cons, hd, insertDevice, Table.find?_insert_eq_update]

/-- Inserting credentials leaves the devices, and reads as one update per credential. -/
theorem foldl_insertCredentials (cs : List DeviceCredentials) (r : Registry) :
    (cs.foldl insertCredentials r).devices = r.devices ∧
      (cs.foldl insertCredentials r).credentials.find? =
        cs.foldl (fun (C : String → Option DeviceCredentials) c =>
          Function.update C c.credentialsId (some c)) r.credentials.find? := by
  induction cs generalizing r with
  | nil => exact ⟨rfl, rfl⟩
  | cons c cs ih =>
    obtain ⟨hd, hc⟩ := ih (r.insertCredentials c)
    refine ⟨hd, ?_⟩
    rw [List.foldl_cons, List.foldl_cons, hc, insertCredentials, Table.find?_insert_eq_update]

/-- One write, read on the devices. -/
theorem find?_step_devices (r : Registry) (op : Op) :
    (r.step op).devices.find? = op.devices r.devices.find? := by
  cases op with
  | insertDevice d => exact Table.find?_insert_eq_update _ _ _
  | insertCredentials c => rfl
  | removeDevice id => exact Table.find?_remove_eq_update _ _
  | removeCredentials k => rfl
  | seed s =>
    -- the credentials inserted after the devices do not touch them
    simp only [step, Seed.apply, Op.devices]
    rw [(foldl_insertCredentials _ _).1, (foldl_insertDevice _ _).2]

/-- One write, read on the credentials. -/
theorem find?_step_credentials (r : Registry) (op : Op) :
    (r.step op).credentials.find? = op.credentials r.credentials.find? := by
  cases op with
  | insertDevice d => rfl
  | insertCredentials c => exact Table.find?_insert_eq_update _ _ _
  | removeDevice id => rfl
  | removeCredentials k => exact Table.find?_remove_eq_update _ _
  | seed s =>
    -- the devices inserted first do not touch the credentials
    simp only [step, Seed.apply, Op.credentials]
    rw [(foldl_insertCredentials _ _).2, (foldl_insertDevice _ _).1]

theorem find?_run_devices (r : Registry) (ops : List Op) :
    (r.run ops).devices.find? = ops.foldl (fun D op => op.devices D) r.devices.find? := by
  induction ops generalizing r with
  | nil => rfl
  | cons op ops ih => rw [run, List.foldl_cons, ← run, ih, find?_step_devices, List.foldl_cons]

theorem find?_run_credentials (r : Registry) (ops : List Op) :
    (r.run ops).credentials.find? =
      ops.foldl (fun C op => op.credentials C) r.credentials.find? := by
  induction ops generalizing r with
  | nil => rfl
  | cons op ops ih =>
    rw [run, List.foldl_cons, ← run, ih, find?_step_credentials, List.foldl_cons]

end Registry

namespace Resolution

/-- The decision on a request, from the credentials by token text, the devices by
identifier, and the faults of the credential store, the directory and the serialiser, checked
in this order: the request kind, the credential store, the token, the credential type, the
directory, the device, the serialiser. -/
def ofLookups (C : String → Option DeviceCredentials) (D : Uuid → Option Device)
    (credentialsFault directoryFault : Option LookupError) (serializerFault : Option String) :
    Request → Resolution
  | .validateDeviceToken token =>
    match credentialsFault, C token with
    | some e, _ => .lookupFailed e
    | none, none => .unknownToken
    | none, some c =>
      if c.credentialsType ≠ .accessToken then .wrongCredentialsType c.credentialsType
      else
        match directoryFault, D c.deviceId with
        | some e, _ => .lookupFailed e
        | none, none => .deviceMissing c.deviceId
        | none, some d =>
          match serializerFault with
          | some m => .serializationFailed c.deviceId ("Failed to serialize payload: " ++ m)
          | none => .found (DeviceInfo.ofDevice d d.additionalInfo.write)
  | other => .unsupportedRequest other.kind

end Resolution

namespace Backend

/-- The service decides as `ofLookups` over its own tables. -/
theorem resolve_eq_ofLookups (b : Backend) (req : Request) :
    b.resolve req = Resolution.ofLookups b.registry.credentials.find?
      b.registry.devices.find? b.credentialsFault b.directoryFault b.serializerFault req := by
  obtain ⟨r, cf, df, sf⟩ := b
  cases req with
  | validateX509Certificate h => rfl
  | unsupported => rfl
  | validateDeviceToken token =>
    cases cf with
    | some e => rfl
    | none =>
      cases hc : r.credentials.find? token with
      | none => simp [resolve, start, Resolution.ofLookups, hc]
      | some c =>
        cases hty : c.credentialsType with
        | accessToken =>
          -- an access token: the directory is asked
          simp only [resolve, start, Resolution.ofLookups, hc, hty, CredentialsType.isAccessToken,
            if_true, ne_eq, not_true_eq_false, if_false]
          cases df with
          | some e => rfl
          | none =>
            cases hd : r.devices.find? c.deviceId with
            | none => simp [finish, lookupDevice, hd]
            | some d => cases sf <;> simp [finish, lookupDevice, serialize, hd]
        | x509Certificate =>
          simp [resolve, start, Resolution.ofLookups, hc, hty, CredentialsType.isAccessToken]
        | mqttBasic =>
          simp [resolve, start, Resolution.ofLookups, hc, hty, CredentialsType.isAccessToken]

end Backend

/-- After any writes to an empty registry, the service decides every request as
`ofLookups` over the last-writer-wins maps of the writes. -/
theorem Backend.resolve_run (ops : List Registry.Op)
    (credentialsFault directoryFault : Option LookupError) (serializerFault : Option String)
    (req : Request) :
    ({ registry := Registry.empty.run ops, credentialsFault, directoryFault,
        serializerFault } : Backend).resolve req =
      Resolution.ofLookups (Registry.credentialsAfter ops) (Registry.devicesAfter ops)
        credentialsFault directoryFault serializerFault req := by
  rw [Backend.resolve_eq_ofLookups]
  dsimp only
  rw [Registry.find?_run_credentials, Registry.find?_run_devices]
  rfl

end TokenGate
