import TokenGate.Json.Value
import TokenGate.Text.Printable
/-!
# `TokenGate.Json.Reader`: a streaming reader over octets, with placed faults

The reader walks a list of octets once, front to back. Its state (`Cursor`) is what is
left, how far it has come, and how many more arrays or objects it may open (128 at the
start; the limit keeps nesting bounded).

A `Fault` is a message and, once known, the octet index it is reported at. Faults of
the lexical layer are placed where they arise: `failHere` at the current index,
`failAhead` one past it (the octet that was looked at). Faults about meaning
(`missing field`, `invalid type`) arise without a place; `place` gives them the index
at which the enclosing value stood when it was abandoned. `Fault.render` turns the
index into the reported `line L column C`: the line counts the newlines before the
index, the column the octets since the last of them.

The monad is `ExceptT Fault (StateM Cursor)`: a fault keeps the cursor where it was
when the fault was raised, which is where later placement reads it.

This module holds the lexical layer: blanks, literals, strings (with escapes,
surrogate pairs and a UTF-8 check once the string is closed), numbers (kept as 64-bit integers while they
fit, otherwise scaled into a double), skipping a value of any shape, and reading a
whole document into a `Value`.
-/

set_option autoImplicit false

namespace TokenGate.Json

/-- Where the reader stands. -/
structure Cursor where
  /-- The octets not yet read. -/
  rest : List UInt8
  /-- How many octets have been read. -/
  index : Nat
  /-- How many more arrays or objects may be opened. -/
  depth : Nat

/-- A cursor at the start of a text. -/
def Cursor.start (bytes : List UInt8) : Cursor := ⟨bytes, 0, 128⟩

/-- A reading fault: the message, the octet index it is reported at (`none` until it
is placed), and whether it aborts the whole operation instead of refusing the text (an
abort is never placed). -/
structure Fault where
  message : String
  index : Option Nat
  fatal : Bool := false

/-- Readers over octets. -/
abbrev Reader := ExceptT Fault (StateM Cursor)

/-- Line and column of an octet index: `1 +` the newlines before it, and the octets
between the last of them and the index. -/
def lineColumn (bytes : List UInt8) (index : Nat) : Nat × Nat :=
  let before := bytes.take index
  let line := 1 + before.count 10
  let column := (before.reverse.takeWhile (· != 10)).length
  (line, column)

/-- The message of a fault as it is shown: placed faults carry their line and column. -/
def Fault.render (bytes : List UInt8) (f : Fault) : String :=
  match f.index with
  | none => f.message
  | some i =>
    let (line, column) := lineColumn bytes i
    f.message ++ " at line " ++ toString line ++ " column " ++ toString column

-- The texts of the lexical faults.
namespace Msg
def eofList : String := "EOF while parsing a list"
def eofObject : String := "EOF while parsing an object"
def eofString : String := "EOF while parsing a string"
def eofValue : String := "EOF while parsing a value"
def expectedColon : String := "expected `:`"
def expectedListCommaOrEnd : String := "expected `,` or `]`"
def expectedObjectCommaOrEnd : String := "expected `,` or `\x7d`"
def expectedIdent : String := "expected ident"
def expectedValue : String := "expected value"
def invalidEscape : String := "invalid escape"
def invalidNumber : String := "invalid number"
def numberOutOfRange : String := "number out of range"
def invalidCodePoint : String := "invalid unicode code point"
def controlCharacter : String := "control character (\\u0000-\\u001F) found while parsing a string"
def keyMustBeString : String := "key must be a string"
def loneSurrogate : String := "lone leading surrogate in hex escape"
def trailingComma : String := "trailing comma"
def trailingCharacters : String := "trailing characters"
def endOfHexEscape : String := "unexpected end of hex escape"
def recursionLimit : String := "recursion limit exceeded"
end Msg

namespace Reader

/-- The next octet, not consumed. -/
def peek : Reader (Option UInt8) := do
  return (← get).rest.head?

/-- Consume one octet. -/
def bump : Reader Unit :=
  modify fun c => match c.rest with
    | [] => c
    | _ :: r => { c with rest := r, index := c.index + 1 }

/-- Consume and return the next octet. -/
def nextByte : Reader (Option UInt8) := do
  let b ← peek
  bump
  return b

/-- Raise a fault at the current index. -/
def failHere {α : Type} (msg : String) : Reader α := do
  throw { message := msg, index := some (← get).index }

/-- Raise a fault at the octet just looked at: one past the current index, unless
the text has ended. -/
def failAhead {α : Type} (msg : String) : Reader α := do
  let c ← get
  throw { message := msg, index := some (if c.rest.isEmpty then c.index else c.index + 1) }

/-- Raise a fault that is placed later. -/
def failUnplaced {α : Type} (msg : String) : Reader α :=
  throw { message := msg, index := none }

/-- Abort the whole operation with a message. -/
def abort {α : Type} (msg : String) : Reader α :=
  throw { message := msg, index := none, fatal := true }

/-- Give an unplaced fault of `r` the index at which it surfaces; an abort passes
through as it is. -/
def place {α : Type} (r : Reader α) : Reader α :=
  tryCatch r fun f => do
    match f.index with
    | some _ => throw f
    | none => if f.fatal then throw f else failHere f.message

/-- Is this octet a blank between tokens? -/
def isBlank (b : UInt8) : Bool := b == 32 || b == 10 || b == 9 || b == 13

/-- Skip blanks; then the next octet, not consumed. -/
def skipBlanks : Reader (Option UInt8) := do
  let c ← get
  let rest := c.rest.dropWhile isBlank
  set { c with rest := rest, index := c.index + (c.rest.length - rest.length) }
  return rest.head?

/-- Consume the rest of a literal (`ull`, `rue`, `alse`) after its first letter. -/
def literalTail (expected : List UInt8) : Reader Unit :=
  expected.forM fun e => do
    match ← nextByte with
    | none => failHere Msg.eofValue
    | some b => if b != e then failHere Msg.expectedIdent else pure ()

/-- Take one nesting level for an array or object about to be opened. -/
def descend : Reader Unit := do
  let c ← get
  if c.depth ≤ 1 then failAhead Msg.recursionLimit
  else set { c with depth := c.depth - 1 }

/-- Give the nesting level back. -/
def ascend : Reader Unit :=
  modify fun c => { c with depth := c.depth + 1 }

/-! ## Strings -/

/-- The value of one hexadecimal digit. -/
def hexDigit (b : UInt8) : Option Nat :=
  if 48 ≤ b && b ≤ 57 then some (b.toNat - 48)
  else if 97 ≤ b && b ≤ 102 then some (b.toNat - 87)
  else if 65 ≤ b && b ≤ 70 then some (b.toNat - 55)
  else none

/-- Read the four hexadecimal digits of a `\u` escape. All four are consumed before
they are checked; fewer than four left is the end of the text. -/
def hexEscape : Reader Nat := do
  let c ← get
  match c.rest with
  | a :: b :: d :: e :: r =>
    set { c with rest := r, index := c.index + 4 }
    match hexDigit a, hexDigit b, hexDigit d, hexDigit e with
    | some w, some x, some y, some z => return ((w * 16 + x) * 16 + y) * 16 + z
    | _, _, _, _ => failHere Msg.invalidEscape
  | _ =>
    set { c with rest := [], index := c.index + c.rest.length }
    failHere Msg.eofString

/-- The next octet, consumed; the end of the text is the end of a string. -/
def nextInString : Reader UInt8 := do
  match ← nextByte with
  | some b => return b
  | none => failHere Msg.eofString

/-- The next octet, not consumed; the end of the text is the end of a string. -/
def peekInString : Reader UInt8 := do
  match ← peek with
  | some b => return b
  | none => failHere Msg.eofString

/-- The UTF-8 octets of a code point given by an escape. -/
def codePointOctets (n : Nat) : List UInt8 := Utf8.encodeChar (Char.ofNat n)

/-- The octets an escape stands for, after its backslash. A `\u` escape of a leading
surrogate must be followed by a `\u` escape of a trailing one; a trailing surrogate
alone is refused. -/
def escape : Reader (List UInt8) := do
  let ch ← nextInString
  if ch == 34 then return [34]
  else if ch == 92 then return [92]
  else if ch == 47 then return [47]
  else if ch == 98 then return [8]
  else if ch == 102 then return [12]
  else if ch == 110 then return [10]
  else if ch == 114 then return [13]
  else if ch == 116 then return [9]
  else if ch == 117 then
    let n ← hexEscape
    if 0xDC00 ≤ n && n ≤ 0xDFFF then failHere Msg.loneSurrogate
    else if n < 0xD800 || n > 0xDBFF then return codePointOctets n
    else
      if (← peekInString) == 92 then bump
      else
        bump
        failHere Msg.endOfHexEscape
      if (← peekInString) == 117 then bump
      else
        bump
        failHere Msg.endOfHexEscape
      let n2 ← hexEscape
      if n2 < 0xDC00 || n2 > 0xDFFF then failHere Msg.loneSurrogate
      else return codePointOctets ((((n - 0xD800) <<< 10) ||| (n2 - 0xDC00)) + 0x10000)
  else failHere Msg.invalidEscape

/-- Does this octet end a run of plain string content? -/
def stopsRun (b : UInt8) : Bool := b == 34 || b == 92 || b < 32

/-- The body of a string after its opening quote, as octets (reversed in `acc`). -/
def stringOctets (acc : List UInt8) : Nat → Reader (List UInt8)
  | 0 => failHere Msg.eofString
  | fuel + 1 => do
    let c ← get
    let run := c.rest.takeWhile (fun b => !stopsRun b)
    let rest := c.rest.drop run.length
    set { c with rest := rest, index := c.index + run.length }
    let acc := run.reverse ++ acc
    match rest with
    | [] => failHere Msg.eofString
    | b :: _ =>
      if b == 34 then
        bump
        return acc.reverse
      else if b == 92 then
        bump
        let e ← escape
        stringOctets (e.reverse ++ acc) fuel
      else
        bump
        failHere Msg.controlCharacter

/-- A string after its opening quote, escapes decoded. The decoded octets are checked
to be UTF-8 only once the closing quote is read, so a broken escape, a control
character or the end of the text is reported first. A fault in the check is placed by
counting back from the index past the closing quote: as many octets as were decoded,
then forward over the well-formed prefix. Without escapes that is one past the first
octet that breaks the text. -/
def stringBody : Reader String := do
  let fuel := (← get).rest.length + 1
  let octets ← stringOctets [] fuel
  match Utf8.decode? octets with
  | some s => return s
  | none =>
    let past := (← get).index
    throw { message := Msg.invalidCodePoint,
            index := some (past - octets.length + Utf8.validPrefix octets) }

/-- Skip an escape without decoding it: `\u` takes four octets, unchecked. -/
def skipEscape : Reader Unit := do
  let ch ← nextInString
  if ch == 34 || ch == 92 || ch == 47 || ch == 98 || ch == 102 || ch == 110 || ch == 114
      || ch == 116 then pure ()
  else if ch == 117 then discard hexEscape
  else failHere Msg.invalidEscape

/-- Skip a string after its opening quote, without a UTF-8 check. A control character
is reported at its own index. -/
def skipStringBody : Nat → Reader Unit
  | 0 => failHere Msg.eofString
  | fuel + 1 => do
    let c ← get
    let run := c.rest.takeWhile (fun b => !stopsRun b)
    let rest := c.rest.drop run.length
    set { c with rest := rest, index := c.index + run.length }
    match rest with
    | [] => failHere Msg.eofString
    | b :: _ =>
      if b == 34 then bump
      else if b == 92 then
        bump
        skipEscape
        skipStringBody fuel
      else failHere Msg.controlCharacter

/-! ## Numbers -/

/-- Is this octet a decimal digit? -/
def isDigit (b : UInt8) : Bool := 48 ≤ b && b ≤ 57

/-- The largest 64-bit unsigned value. -/
def u64Max : Nat := 18446744073709551615

/-- The largest 32-bit signed value. -/
def i32Max : Int := 2147483647

/-- Clamp to the 32-bit signed range, as a saturating addition does. -/
def saturate32 (n : Int) : Int :=
  if n > i32Max then i32Max else if n < -2147483648 then -2147483648 else n

/-- Would `acc * 10 + d` pass `limit`? -/
def overflows (acc d limit : Nat) : Bool :=
  acc ≥ limit / 10 && (acc > limit / 10 || d > limit % 10)

/-- Turn the parts of a number into a double, or fail with "number out of range". -/
def toFloat (positive : Bool) (significand : Nat) (exponent : Int) : Reader Float :=
  match Decimal.scale positive significand.toUInt64 exponent with
  | some f => pure f
  | none => failHere Msg.numberOutOfRange

/-- Skip the digits that no longer fit. -/
def skipDigits : Reader Unit :=
  modify fun c =>
    let ds := c.rest.takeWhile isDigit
    { c with rest := c.rest.drop ds.length, index := c.index + ds.length }

/-- The digits after an exponent marker, with the sign already read. -/
def exponentDigits (positive : Bool) (significand : Nat) (start : Int) (positiveExp : Bool)
    (exp : Nat) : Nat → Reader Float
  | 0 => toFloat positive significand start
  | fuel + 1 => do
    match ← peek with
    | some b =>
      if isDigit b then
        bump
        let d := b.toNat - 48
        if overflows exp d i32Max.toNat then
          if significand != 0 && positiveExp then failHere Msg.numberOutOfRange
          else
            skipDigits
            return if positive then 0.0 else -0.0
        else exponentDigits positive significand start positiveExp (exp * 10 + d) fuel
      else finish
    | none => finish
where
  finish : Reader Float :=
    let final := if positiveExp then saturate32 (start + exp) else saturate32 (start - exp)
    toFloat positive significand final

/-- An exponent part, from its `e` or `E`. -/
def exponentPart (positive : Bool) (significand : Nat) (start : Int) : Reader Float := do
  bump
  let positiveExp ← do
    match ← peek with
    | some 43 => bump; pure true
    | some 45 => bump; pure false
    | _ => pure true
  match ← nextByte with
  | none => failHere Msg.eofValue
  | some b =>
    if isDigit b then
      let fuel := (← get).rest.length + 1
      exponentDigits positive significand start positiveExp (b.toNat - 48) fuel
    else failHere Msg.invalidNumber

/-- After the digits that fit: ignore the rest of the digits, then an optional
exponent. -/
def fractionOverflow (positive : Bool) (significand : Nat) (exponent : Int) : Reader Float := do
  skipDigits
  match ← peek with
  | some 101 | some 69 => exponentPart positive significand exponent
  | _ => toFloat positive significand exponent

/-- The digits after a decimal point. -/
def fractionDigits (positive : Bool) (significand : Nat) (before : Int) (after : Int) :
    Nat → Reader Float
  | 0 => toFloat positive significand (before + after)
  | fuel + 1 => do
    match ← peek with
    | some b =>
      if isDigit b then
        let d := b.toNat - 48
        if overflows significand d u64Max then
          fractionOverflow positive significand (before + after)
        else
          bump
          fractionDigits positive (significand * 10 + d) before (after - 1) fuel
      else finish
    | none => finish
where
  finish : Reader Float := do
    if after == 0 then
      match ← peek with
      | some _ => failAhead Msg.invalidNumber
      | none => failAhead Msg.eofValue
    else
      match ← peek with
      | some 101 | some 69 => exponentPart positive significand (before + after)
      | _ => toFloat positive significand (before + after)

/-- A fraction part, from its decimal point. -/
def fractionPart (positive : Bool) (significand : Nat) (before : Int) : Reader Float := do
  bump
  let fuel := (← get).rest.length + 1
  fractionDigits positive significand before 0 fuel

/-- Digits of an integer too long for 64 bits: each further digit is a power of ten. -/
def longDigits (positive : Bool) (significand : Nat) (exponent : Int) : Nat → Reader Float
  | 0 => toFloat positive significand exponent
  | fuel + 1 => do
    match ← peek with
    | some b =>
      if isDigit b then
        bump
        longDigits positive significand (exponent + 1) fuel
      else if b == 46 then fractionPart positive significand exponent
      else if b == 101 || b == 69 then exponentPart positive significand exponent
      else toFloat positive significand exponent
    | none => toFloat positive significand exponent

/-- What follows the integer digits of a number that fit in 64 bits. -/
def afterInteger (positive : Bool) (significand : Nat) : Reader Number := do
  match ← peek with
  | some 46 => return .float (← fractionPart positive significand 0)
  | some 101 | some 69 => return .float (← exponentPart positive significand 0)
  | _ =>
    if positive then return .nat significand
    else if significand == 0 || significand > 9223372036854775808 then
      return .float (-(significand.toUInt64.toFloat))
    else return .neg (-(significand : Int))

/-- Integer digits after the first one. -/
def integerDigits (positive : Bool) (significand : Nat) : Nat → Reader Number
  | 0 => afterInteger positive significand
  | fuel + 1 => do
    match ← peek with
    | some b =>
      if isDigit b then
        let d := b.toNat - 48
        if overflows significand d u64Max then
          let fuel := (← get).rest.length + 1
          return .float (← longDigits positive significand 0 fuel)
        else
          bump
          integerDigits positive (significand * 10 + d) fuel
      else afterInteger positive significand
    | none => afterInteger positive significand

/-- A number, its sign already consumed. -/
def number (positive : Bool) : Reader Number := do
  match ← nextByte with
  | none => failHere Msg.eofValue
  | some b =>
    if b == 48 then
      match ← peek with
      | some d => if isDigit d then failAhead Msg.invalidNumber else afterInteger positive 0
      | none => afterInteger positive 0
    else if isDigit b then
      let fuel := (← get).rest.length + 1
      integerDigits positive (b.toNat - 48) fuel
    else failHere Msg.invalidNumber

/-- Skip an exponent part without reading its value. -/
def skipExponent : Reader Unit := do
  bump
  match ← peek with
  | some 43 | some 45 => bump
  | _ => pure ()
  match ← peek with
  | some b =>
    bump
    if isDigit b then pure () else failHere Msg.invalidNumber
  | none => failHere Msg.invalidNumber
  skipDigits

/-- Skip a fraction part without reading its value. -/
def skipFraction : Reader Unit := do
  bump
  match ← peek with
  | some b => if isDigit b then skipDigits else failAhead Msg.invalidNumber
  | none => failAhead Msg.invalidNumber
  match ← peek with
  | some 101 | some 69 => skipExponent
  | _ => pure ()

/-- Skip a number, its sign already consumed. -/
def skipNumber : Reader Unit := do
  match ← peek with
  | some 48 =>
    bump
    match ← peek with
    | some d => if isDigit d then failAhead Msg.invalidNumber else pure ()
    | none => pure ()
  | some b =>
    if isDigit b then
      bump
      skipDigits
    else
      bump
      failHere Msg.invalidNumber
  | none => failHere Msg.invalidNumber
  match ← peek with
  | some 46 => skipFraction
  | some 101 | some 69 => skipExponent
  | _ => pure ()

/-! ## Structure -/

/-- Before an array item: is there one? Consumes the separating comma. -/
def nextItem (first : Bool) : Reader Bool := do
  match ← skipBlanks with
  | none => failAhead Msg.eofList
  | some 93 => return false
  | some b =>
    if first then return true
    else if b == 44 then
      bump
      match ← skipBlanks with
      | some 93 => failAhead Msg.trailingComma
      | some _ => return true
      | none => failAhead Msg.eofValue
    else failAhead Msg.expectedListCommaOrEnd

/-- Before an object key: the key, or `none` at the closing brace. Consumes the
separating comma and the key's quotes. -/
def nextKey (first : Bool) : Reader (Option String) := do
  let head : Option (Option UInt8) ← do
    match ← skipBlanks with
    | none => failAhead Msg.eofObject
    | some 125 => pure none
    | some b =>
      if b == 44 && !first then
        bump
        pure (some (← skipBlanks))
      else if first then pure (some (some b))
      else failAhead Msg.expectedObjectCommaOrEnd
  match head with
  | none => return none
  | some (some 34) =>
    bump
    return some (← stringBody)
  | some (some 125) => failAhead Msg.trailingComma
  | some (some _) => failAhead Msg.keyMustBeString
  | some none => failAhead Msg.eofValue

/-- The colon between a key and its value. -/
def colon : Reader Unit := do
  match ← skipBlanks with
  | some 58 => bump
  | some _ => failAhead Msg.expectedColon
  | none => failAhead Msg.eofObject

/-- The end of an array: its closing bracket. -/
def endArray : Reader Unit := do
  match ← skipBlanks with
  | some 93 => bump
  | some 44 =>
    bump
    match ← skipBlanks with
    | some 93 => failAhead Msg.trailingComma
    | _ => failAhead Msg.trailingCharacters
  | some _ => failAhead Msg.trailingCharacters
  | none => failAhead Msg.eofList

/-- The end of an object: its closing brace. -/
def endObject : Reader Unit := do
  match ← skipBlanks with
  | some 125 => bump
  | some 44 => failAhead Msg.trailingComma
  | some _ => failAhead Msg.trailingCharacters
  | none => failAhead Msg.eofObject

/-- Run the body of an array or object and then its end, as one step. The end is
read even when the body failed (it may consume the closing octet, which moves where
an unplaced fault of the body is placed); the body's fault wins. -/
def closing {α : Type} (body : Reader α) (close : Reader Unit) : Reader α := do
  let r ← (ExceptT.lift body.run : Reader (Except Fault α))
  ascend
  let e ← (ExceptT.lift close.run : Reader (Except Fault Unit))
  match r, e with
  | .error f, _ => throw f
  | .ok _, .error f => throw f
  | .ok a, .ok () => return a

/-! ## Skipping a value -/

mutual
/-- Skip one value of any shape. No nesting limit and no UTF-8 check apply. -/
def skipValue : Nat → Reader Unit
  | 0 => failHere Msg.recursionLimit
  | fuel + 1 => do
    match ← skipBlanks with
    | none => failAhead Msg.eofValue
    | some b =>
      if b == 110 then bump; literalTail [117, 108, 108]
      else if b == 116 then bump; literalTail [114, 117, 101]
      else if b == 102 then bump; literalTail [97, 108, 115, 101]
      else if b == 45 then bump; skipNumber
      else if isDigit b then skipNumber
      else if b == 34 then
        bump
        skipStringBody ((← get).rest.length + 1)
      else if b == 91 then
        bump
        match ← skipBlanks with
        | none => failAhead Msg.eofList
        | some 93 => bump
        | some _ =>
          skipValue fuel
          skipArrayRest fuel
      else if b == 123 then
        bump
        match ← skipBlanks with
        | none => failAhead Msg.eofObject
        | some 125 => bump
        | some _ => skipEntry fuel
      else failAhead Msg.expectedValue

/-- After an array item: a comma and the next item, or the closing bracket. -/
def skipArrayRest : Nat → Reader Unit
  | 0 => failHere Msg.recursionLimit
  | fuel + 1 => do
    match ← skipBlanks with
    | some 44 =>
      bump
      skipValue fuel
      skipArrayRest fuel
    | some 93 => bump
    | some _ => failAhead Msg.expectedListCommaOrEnd
    | none => failAhead Msg.eofList

/-- One object entry from its key, then the rest of the object. -/
def skipEntry : Nat → Reader Unit
  | 0 => failHere Msg.recursionLimit
  | fuel + 1 => do
    match ← skipBlanks with
    | some 34 => bump
    | some _ => failAhead Msg.keyMustBeString
    | none => failAhead Msg.eofObject
    skipStringBody ((← get).rest.length + 1)
    match ← skipBlanks with
    | some 58 => bump
    | some _ => failAhead Msg.expectedColon
    | none => failAhead Msg.eofObject
    skipValue fuel
    skipObjectRest fuel

/-- After an object entry: a comma and the next entry, or the closing brace. -/
def skipObjectRest : Nat → Reader Unit
  | 0 => failHere Msg.recursionLimit
  | fuel + 1 => do
    match ← skipBlanks with
    | some 44 =>
      bump
      skipEntry fuel
    | some 125 => bump
    | some _ => failAhead Msg.expectedObjectCommaOrEnd
    | none => failAhead Msg.eofObject
end

/-- Skip one value, with fuel enough for the rest of the text. -/
def skip : Reader Unit := do
  skipValue (2 * (← get).rest.length + 2)

/-! ## Reading a document -/

mutual
/-- Read one value of any shape into a document. Arrays and objects take a nesting
level; object keys are kept sorted, the last of equal keys winning. -/
def valueOf : Nat → Reader Value
  | 0 => failHere Msg.recursionLimit
  | fuel + 1 => do
    match ← skipBlanks with
    | none => failAhead Msg.eofValue
    | some b =>
      if b == 110 then bump; literalTail [117, 108, 108]; return .null
      else if b == 116 then bump; literalTail [114, 117, 101]; return .bool true
      else if b == 102 then bump; literalTail [97, 108, 115, 101]; return .bool false
      else if b == 45 then bump; return .number (← number false)
      else if isDigit b then return .number (← number true)
      else if b == 34 then bump; return .string (← stringBody)
      else if b == 91 then
        descend
        bump
        let items ← closing (itemsOf true [] fuel) endArray
        return .array items
      else if b == 123 then
        descend
        bump
        let fields ← closing (fieldsOf true [] fuel) endObject
        return .object fields
      else failAhead Msg.expectedValue

/-- The items of an array, up to (not including) its closing bracket. -/
def itemsOf (first : Bool) (acc : List Value) : Nat → Reader (List Value)
  | 0 => failHere Msg.recursionLimit
  | fuel + 1 => do
    if ← nextItem first then
      let v ← valueOf fuel
      itemsOf false (v :: acc) fuel
    else return acc.reverse

/-- The fields of an object, up to (not including) its closing brace. -/
def fieldsOf (first : Bool) (acc : List (String × Value)) : Nat → Reader (List (String × Value))
  | 0 => failHere Msg.recursionLimit
  | fuel + 1 => do
    match ← nextKey first with
    | none => return acc
    | some k =>
      colon
      let v ← valueOf fuel
      fieldsOf false (Value.insertField k v acc) fuel
end

/-- Read one document, with fuel enough for the rest of the text. -/
def document : Reader Value := do
  valueOf (2 * (← get).rest.length + 2)

/-- After a whole value: only blanks may follow. -/
def finish : Reader Unit := do
  match ← skipBlanks with
  | none => pure ()
  | some _ => failAhead Msg.trailingCharacters

end Reader

/-- Why a text was not read. -/
inductive ReadFailure where
  /-- The text is refused; the report, with its line and column when placed. -/
  | refused (report : String)
  /-- Reading aborted the whole operation; the abort's message. -/
  | aborted (message : String)

/-- The text of a failure: the report, or the abort's message. -/
def ReadFailure.text : ReadFailure → String
  | .refused r => r
  | .aborted m => m

/-- Run a reader over a whole text: the value must be followed by blanks only. -/
def read {α : Type} (r : Reader α) (bytes : List UInt8) : Except ReadFailure α :=
  let whole : Reader α := do
    let a ← r
    Reader.finish
    pure a
  let res : Except Fault α := (Id.run ((whole.run).run (Cursor.start bytes))).1
  match res with
  | .ok a => .ok a
  | .error f => .error (if f.fatal then .aborted f.message else .refused (f.render bytes))

/-- Run a reader over a whole text, the failure as text. -/
def readAll {α : Type} (r : Reader α) (bytes : List UInt8) : Except String α :=
  match read r bytes with
  | .ok a => .ok a
  | .error f => .error f.text

/-- Parse a text as a JSON document. -/
def parse (bytes : List UInt8) : Except String Value :=
  readAll Reader.document bytes

end TokenGate.Json
