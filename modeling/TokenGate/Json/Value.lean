import TokenGate.Number.Float
import TokenGate.Text.Utf8
/-!
# `TokenGate.Json.Value`: JSON documents and their compact text

A `Value` is a JSON document as the reader builds it. Numbers keep the reader's three
kinds apart (`nat` below `2^64`, `neg` down to `-2^63`, `float` for the rest), because
equality and the written text both depend on the kind: `1` and `1.0` are different
documents.

Objects are lists of fields in writing order. A document read from text is a map:
`Value.insertField` keeps its fields sorted by key octets with one field per key, the
last occurrence winning. Records written field by field (devices, envelopes) use the
same constructor in declaration order.

`Value.write` is the compact writer: no blanks, strings escaped with the two-letter
escapes where they exist and `\u00xx` for other control characters, everything else
(including DEL, `/` and all non-ASCII) written as is.
-/

set_option autoImplicit false

namespace TokenGate.Json

/-- A JSON number, kept in the kind the reader found it in. -/
inductive Number where
  /-- A non-negative integer below `2^64`. -/
  | nat (n : Nat)
  /-- A negative integer not below `-2^63`. -/
  | neg (n : Int)
  /-- Any other number: fractions, exponents, and integers out of the ranges above. -/
  | float (x : Float)

/-- A JSON document. -/
inductive Value where
  | null
  | bool (b : Bool)
  | number (n : Number)
  | string (s : String)
  | array (items : List Value)
  | object (fields : List (String × Value))

instance : Inhabited Value := ⟨.null⟩

namespace Number

/-- Equality of numbers: same kind and same value, floats compared as doubles (so
`-0.0` equals `0.0`). -/
def equal : Number → Number → Bool
  | .nat a, .nat b => a == b
  | .neg a, .neg b => a == b
  | .float a, .float b => a == b
  | _, _ => false

/-- The written text of a number. A non-finite double has no JSON text and is written
as `null`. -/
def text : Number → String
  | .nat n => toString n
  | .neg n => toString n
  | .float x => if x.isNaN || x.isInf then "null" else Decimal.floatText x

end Number

namespace Value

mutual
/-- Structural equality of documents, fields compared in order. -/
def equal : Value → Value → Bool
  | .null, .null => true
  | .bool a, .bool b => a == b
  | .number a, .number b => a.equal b
  | .string a, .string b => a == b
  | .array xs, .array ys => equalItems xs ys
  | .object xs, .object ys => equalFields xs ys
  | _, _ => false

/-- Pointwise equality of two item lists. -/
def equalItems : List Value → List Value → Bool
  | [], [] => true
  | x :: xs, y :: ys => equal x y && equalItems xs ys
  | _, _ => false

/-- Pointwise equality of two field lists. -/
def equalFields : List (String × Value) → List (String × Value) → Bool
  | [], [] => true
  | (k, x) :: xs, (l, y) :: ys => k == l && equal x y && equalFields xs ys
  | _, _ => false
end

/-- Key order of a map: octet order, which for UTF-8 is code point order. -/
def keyBefore (a b : String) : Bool := decide (a < b)

/-- Insert a field into a sorted field list, replacing a field with the same key. -/
def insertField (k : String) (v : Value) : List (String × Value) → List (String × Value)
  | [] => [(k, v)]
  | (k', v') :: rest =>
    if k == k' then (k, v) :: rest
    else if keyBefore k k' then (k, v) :: (k', v') :: rest
    else (k', v') :: insertField k v rest

/-- The value of a field of an object, if present. -/
def field? (v : Value) (k : String) : Option Value :=
  match v with
  | .object fs => (fs.find? (·.1 == k)).map (·.2)
  | _ => none

end Value

/-- Four lowercase hexadecimal digits. -/
def hex4 (n : Nat) : String :=
  let digit (d : Nat) : Char :=
    if d < 10 then Char.ofNat (48 + d) else Char.ofNat (87 + d)
  String.ofList [digit (n / 4096 % 16), digit (n / 256 % 16), digit (n / 16 % 16), digit (n % 16)]

/-- The escaped form of one character inside a JSON string. -/
def escapeChar (c : Char) : String :=
  if c == '"' then "\\\""
  else if c == '\\' then "\\\\"
  else if c == '\n' then "\\n"
  else if c == '\r' then "\\r"
  else if c == '\t' then "\\t"
  else if c.toNat == 8 then "\\b"
  else if c.toNat == 12 then "\\f"
  else if c.toNat < 0x20 then "\\u" ++ hex4 c.toNat
  else String.singleton c

/-- A string literal: quotes and escapes. -/
def quote (s : String) : String :=
  "\"" ++ String.join (s.toList.map escapeChar) ++ "\""

namespace Value

mutual
/-- The compact text of a document. -/
def write : Value → String
  | .null => "null"
  | .bool b => if b then "true" else "false"
  | .number n => n.text
  | .string s => quote s
  | .array xs => "[" ++ writeItems xs ++ "]"
  | .object fs => "\x7b" ++ writeFields fs ++ "\x7d"

/-- Items separated by commas. -/
def writeItems : List Value → String
  | [] => ""
  | [x] => write x
  | x :: xs => write x ++ "," ++ writeItems xs

/-- Fields separated by commas. -/
def writeFields : List (String × Value) → String
  | [] => ""
  | [(k, v)] => quote k ++ ":" ++ write v
  | (k, v) :: fs => quote k ++ ":" ++ write v ++ "," ++ writeFields fs
end

end Value

end TokenGate.Json
