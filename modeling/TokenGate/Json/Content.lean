import TokenGate.Json.Decode
/-!
# `TokenGate.Json.Content`: a value held back until its type is known

A message whose type is named by one of its own fields (a `type` tag) cannot be read
field by field in one pass: the tag may come last. Its other fields are first read
into `Content`, which keeps everything as written (object entries in order, repeated
keys included), and are then decoded from there once the tag is known.

Decoding from `Content` is not positioned: its faults are raised unplaced, and the
reader of the enclosing value places them.
-/

set_option autoImplicit false

namespace TokenGate.Json

/-- A JSON value kept as written. -/
inductive Content where
  | unit
  | bool (b : Bool)
  | number (n : Number)
  | string (s : String)
  | seq (items : List Content)
  | map (entries : List (String × Content))

namespace Content

/-- How held content is named in a fault. -/
def unexpected : Content → Unexpected
  | .unit => .unit
  | .bool b => .bool b
  | .number n => n.unexpected
  | .string s => .str s
  | .seq _ => .seq
  | .map _ => .map

/-- Held content as a string. -/
def asString : Content → Except String String
  | .string s => .ok s
  | c => .error (Msg.invalidType c.unexpected "a string")

/-- The expecting text for a sequence that should have held `n` items. -/
def inSeq (n : Nat) : String :=
  if n == 1 then "1 element in sequence" else toString n ++ " elements in sequence"

/-- Held content as a record with one string field `field`: an object (the field
required once, other fields ignored) or a one-item array. -/
def singleString (name field : String) : Content → Except String String
  | .map entries =>
    let step (acc : Except String (Option String)) (e : String × Content) :
        Except String (Option String) := do
      let found ← acc
      if e.1 == field then
        match found with
        | some _ => throw (Msg.duplicateField field)
        | none => some <$> e.2.asString
      else pure found
    match entries.foldl step (.ok none) with
    | .ok (some s) => .ok s
    | .ok none => .error (Msg.missingField field)
    | .error m => .error m
  | .seq [] => .error (Msg.invalidLength 0 (Msg.recordLength name 1))
  | .seq (x :: rest) => do
    let s ← x.asString
    if rest.isEmpty then pure s
    else throw (Msg.invalidLength (1 + rest.length) (inSeq 1))
  | c => .error (Msg.invalidType c.unexpected ("struct " ++ name))

/-- Held content accepted as a unit variant: an object (any entries) or an empty
array. -/
def unitVariant : Content → Except String Unit
  | .seq [] => .ok ()
  | .seq items => .error (Msg.invalidLength items.length (inSeq 0))
  | .map _ => .ok ()
  | c => .error (Msg.invalidType c.unexpected "unit variant")

end Content

namespace Reader

mutual
/-- Read one value of any shape, keeping it as written. -/
def contentOf : Nat → Reader Content
  | 0 => failHere Msg.recursionLimit
  | fuel + 1 => do
    match ← skipBlanks with
    | none => failAhead Msg.eofValue
    | some b =>
      if b == 110 then bump; literalTail [117, 108, 108]; return .unit
      else if b == 116 then bump; literalTail [114, 117, 101]; return .bool true
      else if b == 102 then bump; literalTail [97, 108, 115, 101]; return .bool false
      else if b == 45 then bump; return .number (← number false)
      else if isDigit b then return .number (← number true)
      else if b == 34 then bump; return .string (← stringBody)
      else if b == 91 then
        descend
        bump
        return .seq (← closing (contentItems true [] fuel) endArray)
      else if b == 123 then
        descend
        bump
        return .map (← closing (contentEntries true [] fuel) endObject)
      else failAhead Msg.expectedValue

/-- Array items kept as written, up to the closing bracket. -/
def contentItems (first : Bool) (acc : List Content) : Nat → Reader (List Content)
  | 0 => failHere Msg.recursionLimit
  | fuel + 1 => do
    if ← nextItem first then
      let v ← contentOf fuel
      contentItems false (v :: acc) fuel
    else return acc.reverse

/-- Object entries kept as written, up to the closing brace. -/
def contentEntries (first : Bool) (acc : List (String × Content)) :
    Nat → Reader (List (String × Content))
  | 0 => failHere Msg.recursionLimit
  | fuel + 1 => do
    match ← nextKey first with
    | none => return acc.reverse
    | some k =>
      colon
      let v ← contentOf fuel
      contentEntries false ((k, v) :: acc) fuel
end

/-- Fuel enough for the rest of the text. -/
def fuel : Reader Nat := do
  return 2 * (← get).rest.length + 2

/-- The entries of an object whose field `tagName` names its type: the tag (read by
`tag`) and the other entries, kept as written. -/
def taggedEntries {τ : Type} (tagName : String) (tag : Reader τ) (first : Bool)
    (found : Option τ) (acc : List (String × Content)) : Nat → Reader (τ × Content)
  | 0 => failHere Msg.recursionLimit
  | n + 1 => do
    match ← nextKey first with
    | none =>
      match found with
      | some t => pure (t, .map acc.reverse)
      | none => failUnplaced (Msg.missingField tagName)
    | some k =>
      if k == tagName then
        match found with
        | some _ => failUnplaced (Msg.duplicateField tagName)
        | none =>
          colon
          let t ← tag
          taggedEntries tagName tag false (some t) acc n
      else
        colon
        let v ← contentOf (← fuel)
        taggedEntries tagName tag false found ((k, v) :: acc) n

/-- A value whose type is named by its field `tagName` (or, written as an array, by its
first item): the tag and the rest of the value, held back. `expecting` names the type
for values that are neither. -/
def tagged {τ : Type} (tagName expecting : String) (tag : Reader τ) : Reader (τ × Content) :=
  place do
    match ← skipBlanks with
    | none => failAhead Msg.eofValue
    | some 123 =>
      descend
      bump
      closing (do taggedEntries tagName tag true none [] (← fuel)) endObject
    | some 91 =>
      descend
      bump
      let body : Reader (τ × Content) := do
        if ← nextItem true then
          let t ← tag
          let rest ← contentItems false [] (← fuel)
          pure (t, .seq rest)
        else failUnplaced (Msg.missingField tagName)
      closing body endArray
    | some _ =>
      let u ← found
      failHere (Msg.invalidType u expecting)

end Reader

end TokenGate.Json
