import TokenGate.Config.Transport
import TokenGate.Toml.Decode
/-!
# `TokenGate.Config.Node`: the settings file of a node

A node reads one TOML file with two tables, both required and nothing else allowed:

* `[node]`: the node's `id` (used in its reply topic) and the `group_id` it shares with
  the other nodes serving the request topic;
* `[transport_api]`: the validation service settings (`TransportConfig`).

`NodeConfig.parse` reads the text, then checks that neither identity field is blank and
that the service settings pass `TransportConfig.validate`. The node receives answers to
its own requests on `<responses_topic>.<id>`.
-/

set_option autoImplicit false

namespace TokenGate

open Toml

/-- Who a node is on the bus. -/
structure NodeIdentity where
  id : String
  groupId : String
  deriving DecidableEq, Inhabited

/-- The settings of a node. -/
structure NodeConfig where
  node : NodeIdentity
  transportApi : TransportConfig
  deriving DecidableEq, Inhabited

/-- Why the settings of a node cannot be used. -/
inductive NodeConfigError where
  /-- The file cannot be read. -/
  | io (path reason : String)
  /-- The text is not valid settings; the report of the reader. -/
  | parse (report : String)
  /-- A required identity field is blank. -/
  | emptyField (field : String)
  /-- The service settings break a rule. -/
  | transportApi (e : ConfigError)
  /-- Reading the settings aborted the whole operation; the abort's message. -/
  | aborted (message : String)

namespace NodeConfigError

/-- The name of the kind of fault. -/
def kindName : NodeConfigError → String
  | .io .. => "Io"
  | .parse _ => "Parse"
  | .emptyField _ => "EmptyField"
  | .transportApi _ => "TransportApi"
  | .aborted _ => "Panic"

/-- The text of the fault. -/
def message : NodeConfigError → String
  | .io p r => "Failed to read " ++ p ++ ": " ++ r
  | .parse r => "Failed to parse config: " ++ r
  | .emptyField f => f ++ " must not be empty"
  | .transportApi e => "Invalid transport_api section: " ++ e.message
  | .aborted m => m

end NodeConfigError

/-- Read a span from a TOML node holding its human text; a span too long to represent
aborts. -/
def Duration.ofToml : Node → Decoded Duration :=
  Decode.node fun
    | .scalar (.string s) _ =>
      match Duration.parse s with
      | .ok d => .ok d
      | .error .invalid => unplaced (Json.Msg.invalidValue (.str s) "a duration")
      | .error .overflow => aborted Duration.overflowMessage
    | n => Decode.refuse n "a duration"

namespace TransportConfig

/-- How the service settings are decoded from TOML. -/
def tomlFields : Fields Draft where
  name := "TransportApiConfig"
  fields := fieldNames
  strict := true
  has := spec.has
  read
    | 0, n, d => do pure { d with requestsTopic := some (← Decode.string n) }
    | 1, n, d => do pure { d with responsesTopic := some (← Decode.string n) }
    | 2, n, d => do pure { d with maxPending := some (← Decode.unsigned "usize" Json.Reader.u64Max n) }
    | 3, n, d => do pure { d with requestTimeout := some (← Duration.ofToml n) }
    | 4, n, d => do pure { d with pollInterval := some (← Duration.ofToml n) }
    | _, n, d => do pure { d with commitInterval := some (← Duration.ofToml n) }

end TransportConfig

namespace NodeIdentity

/-- The identity fields read so far. -/
structure Draft where
  id : Option String := none
  groupId : Option String := none

/-- How the identity is decoded from TOML. -/
def tomlFields : Fields Draft where
  name := "NodeIdentity"
  fields := ["id", "group_id"]
  strict := true
  has d
    | 0 => d.id.isSome
    | _ => d.groupId.isSome
  read
    | 0, n, d => do pure { d with id := some (← Decode.string n) }
    | _, n, d => do pure { d with groupId := some (← Decode.string n) }

end NodeIdentity

namespace NodeConfig

/-- The settings read so far. -/
structure Draft where
  node : Option NodeIdentity := none
  transportApi : Option TransportConfig := none

/-- How the settings are decoded from TOML. -/
def tomlFields : Fields Draft where
  name := "NodeConfig"
  fields := ["node", "transport_api"]
  strict := true
  has d
    | 0 => d.node.isSome
    | _ => d.transportApi.isSome
  read
    | 0, n, d => do
      let i ← NodeIdentity.tomlFields.decode {} n
      pure { d with node := some ⟨i.id.getD "", i.groupId.getD ""⟩ }
    | _, n, d => do
      let t ← TransportConfig.tomlFields.decode {} n
      pure { d with transportApi := some (TransportConfig.ofDraft t) }

/-- Decode the settings from TOML text, without checking their rules. -/
def decode (text : String) : Except NodeConfigError NodeConfig :=
  let src := (Utf8.encode text).toArray
  let result : Decoded NodeConfig := do
    let root ← readDocument src
    let d ← tomlFields.decode {} root
    pure ⟨d.node.getD default, d.transportApi.getD default⟩
  match result with
  | .ok c => .ok c
  | .error p => .error (if p.fatal then .aborted p.message else .parse (p.render src))

/-- Check the rules of the settings; the first broken one is reported. -/
def validate (c : NodeConfig) : Except NodeConfigError Unit :=
  if (Space.trim c.node.id).isEmpty then .error (.emptyField "node.id")
  else if (Space.trim c.node.groupId).isEmpty then .error (.emptyField "node.group_id")
  else match c.transportApi.validate with
    | .ok () => .ok ()
    | .error e => .error (.transportApi e)

/-- Read and check the settings of a node from TOML text. -/
def parse (text : String) : Except NodeConfigError NodeConfig :=
  match decode text with
  | .error e => .error e
  | .ok c =>
    match c.validate with
    | .ok () => .ok c
    | .error e => .error e

/-- The topic on which the node receives answers to its own requests. -/
def replyTopic (c : NodeConfig) : String :=
  c.transportApi.responsesTopic ++ "." ++ c.node.id

end NodeConfig

end TokenGate
