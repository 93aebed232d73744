import TokenGate.Bus.Broker
import TokenGate.Json.Decode
/-!
# `TokenGate.Bus.Debug`: the structural text of bus values

Records, their metadata and bus faults are written the way a structure printer shows
them: the type's name, then its fields as `name: value` in braces, strings quoted with
debug escapes, optional values as `Some(..)` or `None`, and lists in brackets. For
example `Record { topic: "t", partition: 0, offset: 0, key: Some("k"), value: [104, 105] }`.
-/

set_option autoImplicit false

namespace TokenGate

/-- A list written in brackets, items separated by a comma and a space. -/
def debugList {α : Type} (f : α → String) (xs : List α) : String :=
  "[" ++ ", ".intercalate (xs.map f) ++ "]"

/-- An optional value written as `Some(..)` or `None`. -/
def debugOption {α : Type} (f : α → String) : Option α → String
  | some a => "Some(" ++ f a ++ ")"
  | none => "None"

/-- The structural text of a record. -/
def BusRecord.debugText (r : BusRecord) : String :=
  "Record \x7b topic: " ++ Json.debugQuote r.topic ++ ", partition: " ++ toString r.partition
    ++ ", offset: " ++ toString r.offset ++ ", key: " ++ debugOption Json.debugQuote r.key
    ++ ", value: " ++ debugList (fun (b : UInt8) => toString b.toNat) r.value ++ " \x7d"

/-- The structural text of a record's place. -/
def RecordMetadata.debugText (m : RecordMetadata) : String :=
  "RecordMetadata \x7b topic: " ++ Json.debugQuote m.topic ++ ", partition: " ++ toString m.partition
    ++ ", offset: " ++ toString m.offset ++ " \x7d"

/-- The structural text of a bus fault. -/
def BusError.debugText : BusError → String
  | .closed => "Closed"
  | .unknownTopic t => "UnknownTopic(" ++ Json.debugQuote t ++ ")"
  | .unknownPartition t p =>
    "UnknownPartition \x7b topic: " ++ Json.debugQuote t ++ ", partition: " ++ toString p ++ " \x7d"

end TokenGate
