import TokenGate.Json.Reader
/-!
# `TokenGate.Json.Decode`: reading typed records from JSON text

Typed readers on top of the lexical layer. Each one states what it expects (its
`expecting` text, such as `a string` or `struct Device`) and refuses anything else with
`invalid type: <found>, expected <expecting>`, where the found value is described by
`Unexpected.describe`.

The record reader `record` follows one `RecordSpec`: the record may be written as an
object (fields by name, in any order; a repeated field is refused; an unknown one is
skipped or refused; an absent one is refused unless it is optional) or as an array
(fields by position, in declaration order; a missing required position is an
`invalid length`). Every fault about meaning is raised unplaced and placed by the
reader of the enclosing value, after the closing bracket or brace has been read when
it is next.
-/

set_option autoImplicit false

namespace TokenGate.Json

/-- What a reader found where it expected something else. -/
inductive Unexpected where
  | bool (b : Bool)
  | unsigned (n : Nat)
  | signed (n : Int)
  | float (x : Float)
  | str (s : String)
  | unit
  | seq
  | map

/-- Lowercase hexadecimal digits of a natural, without leading zeros. -/
def hexLower (n : Nat) : String :=
  String.ofList (Nat.toDigits 16 n)

/-- One character of a debug quotation. -/
def debugChar (c : Char) : String :=
  if c == '\x00' then "\\0"
  else if c == '\t' then "\\t"
  else if c == '\r' then "\\r"
  else if c == '\n' then "\\n"
  else if c == '\\' then "\\\\"
  else if c == '"' then "\\\""
  else if Printable.isEscaped c then "\\u\x7b" ++ hexLower c.toNat ++ "\x7d"
  else String.singleton c

/-- A string in double quotes, with the escapes of a debug quotation. -/
def debugQuote (s : String) : String :=
  "\"" ++ String.join (s.toList.map debugChar) ++ "\""

/-- How a found value is named in a fault, floats written by `float`. -/
def Unexpected.describeWith (float : Float → String) : Unexpected → String
  | .bool b => "boolean `" ++ toString b ++ "`"
  | .unsigned n => "integer `" ++ toString n ++ "`"
  | .signed n => "integer `" ++ toString n ++ "`"
  | .float x => "floating point `" ++ float x ++ "`"
  | .str s => "string " ++ debugQuote s
  | .unit => "null"
  | .seq => "sequence"
  | .map => "map"

/-- How a found value is named in a fault of the JSON reader: floats in the JSON float
style. -/
def Unexpected.describe (u : Unexpected) : String := u.describeWith Decimal.floatText

/-- How a number is named in a fault. -/
def Number.unexpected : Number → Unexpected
  | .nat n => .unsigned n
  | .neg n => .signed n
  | .float x => .float x

-- The texts of the faults about meaning.
namespace Msg

/-- A value of the wrong kind, named by `describe`. -/
def invalidTypeBy (describe : Unexpected → String) (u : Unexpected) (expecting : String) :
    String :=
  "invalid type: " ++ describe u ++ ", expected " ++ expecting

/-- A value of the wrong kind. -/
def invalidType (u : Unexpected) (expecting : String) : String :=
  invalidTypeBy Unexpected.describe u expecting

/-- A value of the right kind that is out of range or malformed. -/
def invalidValue (u : Unexpected) (expecting : String) : String :=
  "invalid value: " ++ u.describe ++ ", expected " ++ expecting

/-- A sequence of the wrong length. -/
def invalidLength (n : Nat) (expecting : String) : String :=
  "invalid length " ++ toString n ++ ", expected " ++ expecting

/-- A required field that is absent. -/
def missingField (f : String) : String := "missing field `" ++ f ++ "`"

/-- A field given twice. -/
def duplicateField (f : String) : String := "duplicate field `" ++ f ++ "`"

/-- Names in backticks: one, two joined by `or`, or a list after `one of`. -/
def oneOf (names : List String) : String :=
  let tick (n : String) : String := "`" ++ n ++ "`"
  match names with
  | [a] => tick a
  | [a, b] => tick a ++ " or " ++ tick b
  | _ => "one of " ++ ", ".intercalate (names.map tick)

/-- A field name the record does not have. -/
def unknownField (f : String) (expected : List String) : String :=
  "unknown field `" ++ f ++ "`, " ++
    (if expected.isEmpty then "there are no fields" else "expected " ++ oneOf expected)

/-- A variant name the enumeration does not have. -/
def unknownVariant (v : String) (expected : List String) : String :=
  "unknown variant `" ++ v ++ "`, " ++
    (if expected.isEmpty then "there are no variants" else "expected " ++ oneOf expected)

/-- The expecting text of a record read as an array. -/
def recordLength (name : String) (n : Nat) : String :=
  "struct " ++ name ++ " with " ++ toString n ++ (if n == 1 then " element" else " elements")

end Msg

namespace Reader

/-- Lift a check that fails with an unplaced message. -/
def check {α : Type} : Except String α → Reader α
  | .ok a => pure a
  | .error m => failUnplaced m

/-- Read a scalar and name what it is; at an array or object, name it without
entering. Anything else is not a value. -/
def found : Reader Unexpected := do
  match ← peek with
  | some 110 => bump; literalTail [117, 108, 108]; pure .unit
  | some 116 => bump; literalTail [114, 117, 101]; pure (.bool true)
  | some 102 => bump; literalTail [97, 108, 115, 101]; pure (.bool false)
  | some 45 => bump; pure (← number false).unexpected
  | some 34 => bump; pure (.str (← stringBody))
  | some 91 => pure .seq
  | some 123 => pure .map
  | some b => if isDigit b then pure (← number true).unexpected else failAhead Msg.expectedValue
  | none => failAhead Msg.expectedValue

/-- Refuse the value that stands next: it is read (when a scalar) and named. -/
def refuse {α : Type} (expecting : String) : Reader α := do
  let u ← found
  failHere (Msg.invalidType u expecting)

/-- A string, passed to the reader `visit`; anything else is refused. -/
def strThen {α : Type} (expecting : String) (visit : String → Reader α) : Reader α :=
  place do
    match ← skipBlanks with
    | none => failAhead Msg.eofValue
    | some 34 =>
      bump
      let s ← stringBody
      visit s
    | some _ => refuse expecting

/-- A string, passed through `visit`; anything else is refused. -/
def str {α : Type} (expecting : String) (visit : String → Except String α) : Reader α :=
  strThen expecting fun s => check (visit s)

/-- Any string. -/
def string : Reader String := str "a string" .ok

/-- A number, passed through `visit`; anything else is refused. -/
def num {α : Type} (expecting : String) (visit : Number → Except String α) : Reader α :=
  place do
    match ← skipBlanks with
    | none => failAhead Msg.eofValue
    | some 45 =>
      bump
      let n ← number false
      check (visit n)
    | some b =>
      if isDigit b then
        let n ← number true
        check (visit n)
      else refuse expecting

/-- An unsigned integer of at most `max`, named `expecting` (`u16`, `u64`, `usize`). -/
def unsigned (expecting : String) (max : Nat) : Reader Nat :=
  num expecting fun
    | .nat n => if n ≤ max then .ok n else .error (Msg.invalidValue (.unsigned n) expecting)
    | .neg n => .error (Msg.invalidValue (.signed n) expecting)
    | .float x => .error (Msg.invalidType (.float x) expecting)

/-- A signed 64-bit integer. -/
def signed64 : Reader Int :=
  num "i64" fun
    | .nat n =>
      if n ≤ 9223372036854775807 then .ok (n : Int)
      else .error (Msg.invalidValue (.unsigned n) "i64")
    | .neg n => .ok n
    | .float x => .error (Msg.invalidType (.float x) "i64")

/-- `null` for nothing, anything else read by `inner`. -/
def option {α : Type} (inner : Reader α) : Reader (Option α) := do
  match ← skipBlanks with
  | some 110 =>
    bump
    literalTail [117, 108, 108]
    pure none
  | _ => some <$> inner

/-- `null` only. -/
def unit : Reader Unit :=
  place do
    match ← skipBlanks with
    | none => failAhead Msg.eofValue
    | some 110 =>
      bump
      literalTail [117, 108, 108]
    | some _ => refuse "unit"

/-- The items of an array, each read by `item`. -/
def itemsBy {α : Type} (item : Reader α) (first : Bool) (acc : List α) : Nat → Reader (List α)
  | 0 => failHere Msg.recursionLimit
  | fuel + 1 => do
    if ← nextItem first then
      let a ← item
      itemsBy item false (a :: acc) fuel
    else pure acc.reverse

/-- An array of values, each read by `item`. -/
def list {α : Type} (item : Reader α) : Reader (List α) :=
  place do
    match ← skipBlanks with
    | none => failAhead Msg.eofValue
    | some 91 =>
      descend
      bump
      let fuel := (← get).rest.length + 1
      closing (itemsBy item true [] fuel) endArray
    | some _ => refuse "a sequence"

end Reader

/-- How a record type is read. The accumulator `σ` collects the fields read so far. -/
structure RecordSpec (σ : Type) where
  /-- The record's name, as in `struct <name>`. -/
  name : String
  /-- Field names, in declaration order. -/
  fields : List String
  /-- Whether an unknown field is refused rather than skipped. -/
  strict : Bool
  /-- Whether the field at a position may be absent. -/
  optional : Nat → Bool
  /-- Whether the field at a position has been read. -/
  has : σ → Nat → Bool
  /-- Read the value of the field at a position into the accumulator. -/
  read : Nat → σ → Reader σ

namespace RecordSpec

variable {σ : Type}

/-- The first required field not yet read, if any. -/
def missing (spec : RecordSpec σ) (acc : σ) : Option String :=
  let rec go (i : Nat) : List String → Option String
    | [] => none
    | f :: fs => if !spec.optional i && !spec.has acc i then some f else go (i + 1) fs
  go 0 spec.fields

/-- The position of a field name. -/
def position (spec : RecordSpec σ) (k : String) : Option Nat :=
  spec.fields.idxOf? k

/-- The fields of a record written as an object, up to its closing brace. -/
def byName (spec : RecordSpec σ) (first : Bool) (acc : σ) : Nat → Reader σ
  | 0 => Reader.failHere Msg.recursionLimit
  | fuel + 1 => do
    match ← Reader.nextKey first with
    | none =>
      match spec.missing acc with
      | some f => Reader.failUnplaced (Msg.missingField f)
      | none => pure acc
    | some k =>
      match spec.position k with
      | some i =>
        if spec.has acc i then Reader.failUnplaced (Msg.duplicateField k)
        else
          Reader.colon
          let acc ← spec.read i acc
          spec.byName false acc fuel
      | none =>
        if spec.strict then Reader.failUnplaced (Msg.unknownField k spec.fields)
        else
          Reader.colon
          Reader.skip
          spec.byName false acc fuel

/-- The fields of a record written as an array, by position. -/
def byPosition (spec : RecordSpec σ) (i : Nat) (first : Bool) (acc : σ) :
    List String → Reader σ
  | [] => pure acc
  | _ :: fs => do
    if ← Reader.nextItem first then
      let acc ← spec.read i acc
      spec.byPosition (i + 1) false acc fs
    else if spec.optional i then spec.byPosition (i + 1) first acc fs
    else Reader.failUnplaced (Msg.invalidLength i (Msg.recordLength spec.name spec.fields.length))

end RecordSpec

namespace Reader

/-- A record, as an object or as an array. -/
def record {σ : Type} (spec : RecordSpec σ) (init : σ) : Reader σ :=
  place do
    match ← skipBlanks with
    | none => failAhead Msg.eofValue
    | some 91 =>
      descend
      bump
      closing (spec.byPosition 0 true init spec.fields) endArray
    | some 123 =>
      descend
      bump
      let fuel := (← get).rest.length + 1
      closing (spec.byName true init fuel) endObject
    | some _ => refuse ("struct " ++ spec.name)

/-- A variant name, passed to `visit`, which knows the variants. -/
def variantName {α : Type} (visit : String → Except String α) : Reader α :=
  str "variant identifier" visit

/-- An enumeration of unit variants: a bare variant name, or an object with one
variant name mapped to `null`. -/
def unitVariant (variants : List String) : Reader Nat := do
  let visit (s : String) : Except String Nat :=
    match variants.idxOf? s with
    | some i => .ok i
    | none => .error (Msg.unknownVariant s variants)
  match ← skipBlanks with
  | some 123 =>
    descend
    bump
    let i ← variantName visit
    colon
    unit
    ascend
    match ← skipBlanks with
    | some 125 =>
      bump
      pure i
    | some _ => failHere Msg.expectedValue
    | none => failHere Msg.eofObject
  | some 34 => variantName visit
  | some _ => failAhead Msg.expectedValue
  | none => failAhead Msg.eofValue

end Reader

end TokenGate.Json
