import TokenGate.Launch.Files
import TokenGate.Exchange.Node
import TokenGate.Registry.Seed
/-!
# `TokenGate.Launch.Startup`: starting a node from its environment

A node starts from three environment variables:

* `DA_CONFIG` names the settings file (default `config/transport.toml`);
* `DA_PARTITIONS` is the broker's partition count, an unsigned 32-bit integer
  (default 1; 0 means 1);
* `DA_SEED_FILE`, when set, names a seed for the registry.

`launch` does the steps in that order and stops at the first failure, with a `Report`:
what was being done, then the chain of causes. A report is written as

```
Error: <what was being done>

Caused by:
    <cause>
```

with the causes numbered (`0: `, `1: `, ...) when there are several, and every further
line of a cause indented to stand under its first.

Reading files is a parameter, so the same steps run against a real directory or a
`FileTree`.
-/

set_option autoImplicit false

namespace TokenGate

/-- The settings file used when none is named. -/
def defaultConfigPath : String := "config/transport.toml"

/-- The settings file named by the environment. -/
def configPath (env : String → Option String) : String := (env "DA_CONFIG").getD defaultConfigPath

/-- Read and check the node's settings from a file. -/
def NodeConfig.load (text : Except FileError String) (path : String) :
    Except NodeConfigError NodeConfig :=
  match text with
  | .error e => .error (.io path e.message)
  | .ok s => NodeConfig.parse s

/-- The chain of causes of a settings fault, outermost first. -/
def NodeConfigError.causes (e : NodeConfigError) : List String :=
  match e with
  | .transportApi inner => [e.message, inner.message]
  | _ => [e.message]

/-- Why a seed could not be loaded. -/
inductive SeedError where
  | io (path reason : String)
  | parse (message : String)

namespace SeedError

/-- The name of the kind of fault. -/
def kindName : SeedError → String
  | .io .. => "Io"
  | .parse _ => "Parse"

/-- The text of the fault. -/
def message : SeedError → String
  | .io p r => "Failed to read " ++ p ++ ": " ++ r
  | .parse m => m

end SeedError

/-- Read a seed from a file. -/
def Seed.load (text : Except FileError String) (path : String) : Except SeedError Seed :=
  match text with
  | .error e => .error (.io path e.message)
  | .ok s =>
    match Seed.parse (Utf8.encode s) with
    | .ok sd => .ok sd
    | .error m => .error (.parse m)

/-- Why a text is not an unsigned integer. -/
inductive IntError where
  | empty
  | invalidDigit
  | overflow

/-- The text of an integer fault. -/
def IntError.message : IntError → String
  | .empty => "cannot parse integer from empty string"
  | .invalidDigit => "invalid digit found in string"
  | .overflow => "number too large to fit in target type"

/-- Read decimal digits below `bound`, digit by digit: a non-digit is refused when it
is reached, and the value is refused as soon as it reaches `bound`. -/
def readDigits (bound : Nat) : Nat → List Char → Except IntError Nat
  | acc, [] => .ok acc
  | acc, c :: rest =>
    if c.isDigit then
      let v := acc * 10 + (c.toNat - 48)
      if v ≥ bound then .error .overflow else readDigits bound v rest
    else .error .invalidDigit

/-- Read an unsigned 32-bit integer: decimal digits, after an optional `+`. -/
def parseU32 (s : String) : Except IntError Nat :=
  match s.toList with
  | [] => .error .empty
  | ['+'] | ['-'] => .error .invalidDigit
  | '+' :: rest => readDigits (Nat.pow 2 32) 0 rest
  | cs => readDigits (Nat.pow 2 32) 0 cs

/-- A failure to start: what was being done, and the chain of causes. -/
structure Report where
  context : String
  causes : List String

namespace Report

/-- Indent every line but the first of a text. -/
def indentRest (pad : String) (text : String) : String :=
  match text.splitOn "\n" with
  | [] => ""
  | first :: rest => rest.foldl (fun acc l => acc ++ "\n" ++ pad ++ l) first

/-- Right-align a number in five columns. -/
def number (n : Nat) : String :=
  let t := toString n
  String.ofList (List.replicate (5 - t.length) ' ') ++ t

/-- The written report, ending with a newline. -/
def render (r : Report) : String :=
  let chain := match r.causes with
    | [] => ""
    | [c] => "\n\nCaused by:\n    " ++ indentRest "    " c
    | cs => "\n\nCaused by:" ++ String.join ((cs.zipIdx).map fun (c, i) =>
        "\n" ++ number i ++ ": " ++ indentRest "       " c)
  "Error: " ++ r.context ++ chain ++ "\n"

end Report

/-- The outcome of starting a node: running, a report of why not, or an abort of the
whole program with its message. -/
inductive Launch where
  | running (node : NodeRuntime)
  | failed (r : Report)
  | aborted (message : String)

/-- Start a node from its environment, reading files with `read`. -/
def launch {m : Type → Type} [Monad m] (read : String → m (Except FileError String))
    (env : String → Option String) : m Launch := do
  let path := configPath env
  match NodeConfig.load (← read path) path with
  | .error (.aborted msg) => pure (.aborted msg)
  | .error e => pure (.failed ⟨"Failed to load configuration from " ++ path, e.causes⟩)
  | .ok config =>
    let partitions := match env "DA_PARTITIONS" with
      | some v => parseU32 v
      | none => .ok 1
    match partitions with
    | .error e => pure (.failed ⟨"DA_PARTITIONS must be a positive integer", [e.message]⟩)
    | .ok n =>
      match NodeRuntime.setUp config (Broker.withPartitions n) with
      | .error msg => pure (.aborted msg)
      | .ok node =>
      match env "DA_SEED_FILE" with
      | none => pure (.running node.start)
      | some seedPath =>
        match Seed.load (← read seedPath) seedPath with
        | .error e => pure (.failed ⟨"Failed to load seed from " ++ seedPath, [e.message]⟩)
        | .ok sd =>
          let x := node.exchange
          let (_, registry) := sd.apply x.backend.registry
          let node := { node with exchange := { x with backend := { x.backend with registry } } }
          pure (.running node.start)

end TokenGate
