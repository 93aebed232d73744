import TokenGate.Toml.Document
import TokenGate.Json.Decode
/-!
# `TokenGate.Toml.Decode`: typed records from a TOML tree

Decoding follows the same rules as the JSON record reader (`RecordSpec`): a record is
a table (fields by name, in the order written; an unknown field refused or skipped; a
missing field refused) or an array (fields by position; extra items ignored), and
anything else is refused with `invalid type: <found>, expected <what>`.

Every fault points at the innermost thing it is about: the value that has the wrong
type, the key that is unknown, or, for a missing field, the table itself (or, for a
table without a span of its own, the key that holds it).
-/

set_option autoImplicit false

namespace TokenGate.Toml

open Json

/-- A decoding result. -/
abbrev Decoded (α : Type) := Except Problem α

/-- Point a fault that points nowhere yet at `s`. -/
def Problem.orAt (p : Problem) (s : Option Span) : Problem :=
  if p.span.isNone then { p with span := s } else p

/-- A fault with no place yet. -/
def unplaced {α : Type} (message : String) : Decoded α := .error { message, span := none }

/-- A fault that aborts the whole operation. -/
def aborted {α : Type} (message : String) : Decoded α :=
  .error { message, span := none, fatal := true }

/-- How a node is named when it is not what was expected. -/
def Node.unexpected : Node → Unexpected
  | .scalar (.string s) _ => .str s
  | .scalar (.integer i) _ => .signed i
  | .scalar (.float x) _ => .float x
  | .scalar (.boolean b) _ => .bool b
  | .scalar (.datetime _) _ => .map
  | .array .. => .seq
  | .table .. => .map
  | .tables _ => .seq

namespace Decode

/-- Decode a node with `visit`; faults without a place point at the node. -/
def node {α : Type} (visit : Node → Decoded α) (n : Node) : Decoded α :=
  match visit n with
  | .ok a => .ok a
  | .error p => .error (p.orAt n.span?)

/-- Refuse a node that is not of the expected kind. A float is named in positional
decimal, never with an exponent. -/
def refuse {α : Type} (n : Node) (expecting : String) : Decoded α :=
  unplaced (Msg.invalidTypeBy (Unexpected.describeWith Decimal.plainText) n.unexpected expecting)

/-- A string, passed through `visit`. -/
def str {α : Type} (expecting : String) (visit : String → Except String α) : Node → Decoded α :=
  node fun
    | .scalar (.string s) _ =>
      match visit s with
      | .ok a => .ok a
      | .error m => unplaced m
    | n => refuse n expecting

/-- Any string. -/
def string : Node → Decoded String := str "a string" .ok

/-- A non-negative integer of at most `max`, named `expecting`. -/
def unsigned (expecting : String) (max : Nat) : Node → Decoded Nat :=
  node fun
    | .scalar (.integer i) _ =>
      if i ≥ 0 && i.toNat ≤ max then .ok i.toNat
      else unplaced (Msg.invalidValue (.signed i) expecting)
    | n => refuse n expecting

end Decode

/-- How a record is decoded. The accumulator `σ` collects the fields decoded so far. -/
structure Fields (σ : Type) where
  /-- The record's name, as in `struct <name>`. -/
  name : String
  /-- Field names, in declaration order. -/
  fields : List String
  /-- Whether an unknown field is refused rather than skipped. -/
  strict : Bool
  /-- Whether the field at a position has been decoded. -/
  has : σ → Nat → Bool
  /-- Decode the field at a position into the accumulator. -/
  read : Nat → Node → σ → Decoded σ

namespace Fields

variable {σ : Type}

/-- The first field not yet decoded, if any. -/
def missing (spec : Fields σ) (acc : σ) : Option String :=
  let rec go (i : Nat) : List String → Option String
    | [] => none
    | f :: fs => if !spec.has acc i then some f else go (i + 1) fs
  go 0 spec.fields

/-- The fields of a record written as a table. -/
def byName (spec : Fields σ) (acc : σ) : List (Key × Node) → Decoded σ
  | [] =>
    match spec.missing acc with
    | some f => unplaced (Msg.missingField f)
    | none => .ok acc
  | (k, v) :: rest =>
    match spec.fields.idxOf? k.name with
    | none =>
      if spec.strict then .error { message := Msg.unknownField k.name spec.fields, span := some k.span }
      else spec.byName acc rest
    | some i =>
      if spec.has acc i then unplaced (Msg.duplicateField k.name)
      else
        match spec.read i v acc with
        | .ok acc => spec.byName acc rest
        | .error p => .error (p.orAt (v.span?.orElse fun _ => some k.span))

/-- The fields of a record written as an array, by position. -/
def byPosition (spec : Fields σ) (acc : σ) (i : Nat) : List String → List Node → Decoded σ
  | [], _ => .ok acc
  | _ :: fs, n :: ns =>
    match spec.read i n acc with
    | .ok acc => spec.byPosition acc (i + 1) fs ns
    | .error p => .error (p.orAt n.span?)
  | _ :: _, [] => unplaced (Msg.invalidLength i (Msg.recordLength spec.name spec.fields.length))

/-- Decode a record from a node. -/
def decode (spec : Fields σ) (init : σ) : Node → Decoded σ :=
  Decode.node fun
    | .table es _ _ => spec.byName init es
    | .array items _ => spec.byPosition init 0 spec.fields items
    | .tables items => spec.byPosition init 0 spec.fields items
    | n => Decode.refuse n ("struct " ++ spec.name)

end Fields

end TokenGate.Toml
