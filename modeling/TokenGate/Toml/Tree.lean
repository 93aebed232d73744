import TokenGate.Text.Utf8
/-!
# `TokenGate.Toml.Tree`: a parsed TOML document

A document is a tree of `Node`s. Every value keeps the byte span of its text, and every
key keeps its name, its text as written and its span, so that a fault found while
decoding can point back at the source.

Tables carry three flags that govern how a document may extend them:

* `inline`: written as `{ ... }`; a value, closed once written.
* `implicit`: created on the way to a deeper table (`[a.b]` creates `a`) or by a
  dotted key; a later header may still define it.
* `dotted`: created by a dotted key (`a.b = 1` creates `a`).

`TreeError` names what makes a document ill-formed beyond its grammar: a key defined
twice, a dotted key that runs into a value, or nesting beyond the depth limit.
-/

set_option autoImplicit false

namespace TokenGate.Toml

/-- A half-open range of byte offsets. -/
structure Span where
  start : Nat
  stop : Nat
  deriving DecidableEq, Inhabited

/-- A value that is not a container. -/
inductive Scalar where
  | string (s : String)
  | integer (i : Int)
  | float (x : Float)
  | boolean (b : Bool)
  | datetime (text : String)

/-- A key: its name, its text as written, and where it was written. -/
structure Key where
  name : String
  raw : String
  span : Span

/-- How a table may be extended. -/
structure Flags where
  inline : Bool
  implicit : Bool
  dotted : Bool

/-- A node of a document. -/
inductive Node where
  /-- A scalar value and its span. -/
  | scalar (s : Scalar) (span : Span)
  /-- An array value and its span. -/
  | array (items : List Node) (span : Span)
  /-- A table: its entries in order, its span if it has one, and its flags. -/
  | table (entries : List (Key × Node)) (span : Option Span) (flags : Flags)
  /-- An array of tables, each item a table. -/
  | tables (items : List Node)

/-- The parts of a table. -/
structure TableData where
  entries : List (Key × Node)
  span : Option Span
  flags : Flags

namespace TableData

/-- A table with no entries and no span. -/
def empty (flags : Flags) : TableData := ⟨[], none, flags⟩

/-- The table as a node. -/
def toNode (t : TableData) : Node := .table t.entries t.span t.flags

/-- The entry under a name. -/
def find? (t : TableData) (name : String) : Option Node :=
  (t.entries.find? (·.1.name == name)).map (·.2)

/-- Put a node under a key: in place when the name is taken, else at the end. -/
def put (t : TableData) (k : Key) (n : Node) : TableData :=
  if t.entries.any (·.1.name == k.name) then
    { t with entries := t.entries.map fun e => if e.1.name == k.name then (e.1, n) else e }
  else { t with entries := t.entries ++ [(k, n)] }

/-- Remove the entry under a name, keeping the order of the others. -/
def remove (t : TableData) (name : String) : TableData :=
  { t with entries := t.entries.filter (·.1.name != name) }

end TableData

/-- The span of a node, if it has one. -/
def Node.span? : Node → Option Span
  | .scalar _ s => some s
  | .array _ s => some s
  | .table _ s _ => s
  | .tables _ => none

/-- The name of a value's type in faults about dotted keys. -/
def Node.typeName : Node → String
  | .scalar (.string _) _ => "string"
  | .scalar (.integer _) _ => "integer"
  | .scalar (.float _) _ => "float"
  | .scalar (.boolean _) _ => "boolean"
  | .scalar (.datetime _) _ => "datetime"
  | .array _ _ => "array"
  | .table _ _ _ => "inline table"
  | .tables _ => "array of tables"

/-- Whether a byte may appear in a bare key. -/
def isBareKeyByte (b : UInt8) : Bool :=
  (65 ≤ b && b ≤ 90) || (97 ≤ b && b ≤ 122) || (48 ≤ b && b ≤ 57) || b == 45 || b == 95

/-- Whether a character must be escaped in any quoted key: a control character other
than the tab. -/
def isControl (c : Char) : Bool := (c.toNat < 0x20 && c != '\t') || c.toNat == 0x7F

/-- A key as it would be written: bare when it can be; else as a basic string when
nothing in it needs an escape; else as a literal string when it has no single quote
and no control character; else as a basic string with escapes. -/
def keyText (name : String) : String :=
  let cs := name.toList
  if !name.isEmpty && (Utf8.encode name).all isBareKeyByte then name
  else if cs.all (fun c => c != '"' && c != '\\' && !isControl c) then "\"" ++ name ++ "\""
  else if cs.all (fun c => c != Char.ofNat 39 && !isControl c) then "\x27" ++ name ++ "\x27"
  else
    let esc (c : Char) : String :=
      if c == '"' then "\\\"" else if c == '\\' then "\\\\"
      else if c == '\x08' then "\\b" else if c == '\t' then "\\t"
      else if c == '\n' then "\\n" else if c == '\x0C' then "\\f"
      else if c == '\r' then "\\r"
      else if c.toNat < 0x20 || c.toNat == 0x7F then
        let h := Nat.toDigits 16 c.toNat
        "\\u" ++ String.ofList (List.replicate (4 - h.length) '0' ++ h.map Char.toUpper)
      else String.singleton c
    "\"" ++ String.join (cs.map esc) ++ "\""

/-- What makes a document ill-formed beyond its grammar. -/
inductive TreeError where
  /-- A key defined twice; `table` names the table it was defined in, when known. -/
  | duplicateKey (key : String) (table : Option (List String))
  /-- A dotted key that runs into a value of the named type. -/
  | extendsValue (path : List String) (actual : String)
  /-- A number out of the range of its type. -/
  | outOfRange
  /-- Nesting too deep. -/
  | tooDeep

/-- The text of a document fault. -/
def TreeError.message : TreeError → String
  | .duplicateKey k (some []) => "duplicate key `" ++ k ++ "` in document root"
  | .duplicateKey k (some t) => "duplicate key `" ++ k ++ "` in table `" ++ ".".intercalate t ++ "`"
  | .duplicateKey k none => "duplicate key `" ++ k ++ "`"
  | .extendsValue p a =>
    "dotted key `" ++ ".".intercalate p ++ "` attempted to extend non-table type (" ++ a ++ ")"
  | .outOfRange => "value is out of range"
  | .tooDeep => "recursion limit exceeded"

/-- The fault for the `i`-th key of a header path defined twice. -/
def duplicateAt (path : List Key) (i : Nat) : TreeError :=
  .duplicateKey (keyText ((path.getD i ⟨"", "", ⟨0, 0⟩⟩).name))
    (some ((path.take i).map (·.name)))

end TokenGate.Toml
