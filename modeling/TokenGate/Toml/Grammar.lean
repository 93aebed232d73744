import TokenGate.Toml.Scan
import TokenGate.Toml.Tree
import TokenGate.Number.Float
/-!
# `TokenGate.Toml.Grammar`: the lexical grammar of TOML values and keys

Scanners for blanks, comments and line ends; the four kinds of string with their
escapes; integers in four radixes, floats and the special floats; dates and times;
keys (bare or quoted, dotted); arrays and inline tables. Each scanner fails where the
grammar says the text went wrong, with the label and expectations that name the
fault:

* a value that starts with none of its possible first characters is an
  `invalid string`, as a bare word most likely lacks its quotes;
* an unterminated string is an `invalid basic string` (or literal, or multiline) at
  the place its closing quote was due;
* an integer that does not fit in 64 signed bits is refused at its first character;
* containers nest at most 80 deep.
-/

set_option autoImplicit false

namespace TokenGate.Toml

open Scan

namespace Grammar

/-- A blank within a line: space or tab. -/
def isBlank (b : UInt8) : Bool := b == 32 || b == 9

/-- A decimal digit. -/
def isDigit (b : UInt8) : Bool := 48 ≤ b && b ≤ 57

/-- A hexadecimal digit. -/
def isHex (b : UInt8) : Bool := isDigit b || (65 ≤ b && b ≤ 70) || (97 ≤ b && b ≤ 102)

/-- An octal digit. -/
def isOctal (b : UInt8) : Bool := 48 ≤ b && b ≤ 55

/-- A binary digit. -/
def isBinary (b : UInt8) : Bool := b == 48 || b == 49

/-- A byte that may appear in a comment. -/
def isCommentByte (b : UInt8) : Bool := b == 9 || (0x20 ≤ b && b ≤ 0x7E) || b ≥ 0x80

/-- A byte that stands for itself in a basic string. -/
def isBasicByte (b : UInt8) : Bool :=
  isBlank b || b == 0x21 || (0x23 ≤ b && b ≤ 0x5B) || (0x5D ≤ b && b ≤ 0x7E) || b ≥ 0x80

/-- A byte that may appear in a literal string. -/
def isLiteralByte (b : UInt8) : Bool :=
  b == 9 || (0x20 ≤ b && b ≤ 0x26) || (0x28 ≤ b && b ≤ 0x7E) || b ≥ 0x80

/-- Blanks. -/
def blanks : Scan (Nat × Nat) := skipWhile isBlank

/-- A comment, up to the end of its line. -/
def comment : Scan Unit := do
  byte 35
  let _ ← skipWhile isCommentByte
  pure ()

/-- A line break: LF or CR LF. A byte that is neither is consumed before failing. -/
def newline : Scan Unit := fun src pos =>
  match src[pos]? with
  | some 10 => .done () (pos + 1)
  | some 13 => if src[pos + 1]? == some 10 then .done () (pos + 2) else .miss .blank (pos + 1)
  | some _ => .miss .blank (pos + 1)
  | none => .miss .blank pos

/-- A line break or the end of the text. -/
def lineEnding : Scan Unit := firstOf [newline, eof]

/-- What may follow a value or header on its line: blanks, a comment, the line end. -/
def lineTrailing : Scan Unit := do
  let _ ← blanks
  let _ ← optional comment
  lineEnding

/-- Blanks and line breaks. -/
def blanksAndBreaks : Scan Unit := do
  let _ ← many (firstOf [newline, do let _ ← skipWhile1 isBlank; pure ()])
  pure ()

/-- A line break, then blanks and line breaks. -/
def breaks : Scan Unit := do
  newline
  blanksAndBreaks

/-- Blanks, comments and line breaks, as inside an array. -/
def fillerAux (src : Array UInt8) (pos : Nat) : Nat → Step Unit
  | 0 => .done () pos
  | fuel + 1 =>
    match blanks src pos with
    | .done _ p =>
      let next : Scan Unit := match src[p]? with
        | some 35 => do comment; newline
        | some 10 => newline
        | some 13 => newline
        | _ => pure ()
      match next src p with
      | .done () q => if q == pos then .done () q else fillerAux src q fuel
      | .miss e q => .miss e q
      | .stop e q => .stop e q
    | .miss e q => .miss e q
    | .stop e q => .stop e q

/-- Blanks, comments and line breaks, as inside an array. -/
def filler : Scan Unit := fun src pos => fillerAux src pos (src.size - pos + 1)

/-! ## Strings -/

/-- The value of a run of hexadecimal digits. -/
def hexValue (src : Array UInt8) (sp : Nat × Nat) : Nat :=
  ((src.extract sp.1 sp.2).toList).foldl (fun acc b =>
    acc * 16 + (if isDigit b then b.toNat - 48 else if b ≥ 97 then b.toNat - 87 else b.toNat - 55)) 0

/-- Exactly `n` hexadecimal digits naming a Unicode scalar value. -/
def hexEscape (n : Nat) : Scan Char := fun src pos =>
  let k := countWhile src isHex pos n
  if k != n then .miss .blank pos
  else
    let v := hexValue src (pos, pos + n)
    if v < 0xD800 || (0xE000 ≤ v && v ≤ 0x10FFFF) then .done (Char.ofNat v) (pos + n)
    else .miss (.because TreeError.outOfRange.message) pos

/-- The characters that may follow a backslash. -/
def escapeNames : List String := ["b", "f", "n", "r", "t", "u", "U", "\\", "\""]

/-- The character after a backslash. -/
def escapeChar : Scan Char := fun src pos =>
  match src[pos]? with
  | none => .miss .blank pos
  | some b =>
    let q := pos + 1
    if b == 98 then .done '\x08' q
    else if b == 102 then .done '\x0C' q
    else if b == 110 then .done '\n' q
    else if b == 114 then .done '\r' q
    else if b == 116 then .done '\t' q
    else if b == 117 then label "unicode 4-digit hex code" (cut (hexEscape 4)) src q
    else if b == 85 then label "unicode 8-digit hex code" (cut (hexEscape 8)) src q
    else if b == 92 then .done '\\' q
    else if b == 34 then .done '"' q
    else
      .stop ⟨.label "escape sequence" :: escapeNames.map (fun s => .expected (quoteText s)), none⟩ q

/-- A backslash escape. -/
def escaped : Scan Char := do
  byte 92
  escapeChar

/-- A run of plain characters. -/
def plainRun (p : UInt8 → Bool) : Scan String := do
  let sp ← skipWhile1 p
  let src ← source
  pure (text src sp)

/-- A basic string: `"..."` with escapes. -/
def basicString : Scan String := do
  byte 34
  let parts ← many (firstOf [plainRun isBasicByte, String.singleton <$> escaped])
  label "basic string" (cut (byte 34))
  pure (String.join parts)

/-- One or two quote bytes `q` followed (without consuming it) by `term`. -/
def quotesBefore (q : UInt8) (term : Scan Unit) : Scan String := fun src pos =>
  match (do literal [q, q]; lookahead term) src pos with
  | .done () r => .done (text src (pos, pos + 2)) r
  | .miss _ _ =>
    match (do byte q; lookahead term) src pos with
    | .done () r => .done (text src (pos, pos + 1)) r
    | .miss e r => .miss e r
    | .stop e r => .stop e r
  | .stop e r => .stop e r

/-- A backslash at the end of a line, with the blanks and breaks after it. -/
def escapedBreak : Scan Unit := do
  let _ ← many1 (do byte 92; let _ ← blanks; breaks)
  pure ()

/-- One piece of a multiline basic string. -/
def multiPiece : Scan String :=
  firstOf [plainRun isBasicByte, (fun _ => "") <$> escapedBreak, String.singleton <$> escaped,
    (fun _ => "\n") <$> newline]

/-- Any byte other than `b`. -/
def noneOf (b : UInt8) : Scan Unit := do
  let _ ← oneOf (· != b)
  pure ()

/-- The body of a multiline basic string, after quotes that do not close it. -/
def multiBodyAux (acc : String) (src : Array UInt8) (pos : Nat) : Nat → Step String
  | 0 => .done acc pos
  | fuel + 1 =>
    match optional (quotesBefore 34 (noneOf 34)) src pos with
    | .done (some qs) p =>
      match optional multiPiece src p with
      | .done (some piece) r =>
        match many multiPiece src r with
        | .done more s => multiBodyAux (acc ++ qs ++ piece ++ String.join more) src s fuel
        | .miss e s => .miss e s
        | .stop e s => .stop e s
      | .done none r => .done acc r
      | .miss e r => .miss e r
      | .stop e r => .stop e r
    | .done none p => .done acc p
    | .miss e p => .miss e p
    | .stop e p => .stop e p

/-- The body of a multiline basic string. -/
def multiBody : Scan String := do
  let first ← many multiPiece
  let src ← source
  let p ← position
  let body ← fun _ _ => multiBodyAux (String.join first) src p (src.size - p + 1)
  let last ← optional (quotesBefore 34 (literal [34, 34, 34]))
  pure (body ++ last.getD "")

/-- A multiline basic string: `"""..."""`, a break right after the opening dropped. -/
def multiBasicString : Scan String := label "multiline basic string" do
  literal [34, 34, 34]
  let _ ← optional newline
  let body ← cut multiBody
  cut (literal [34, 34, 34])
  pure body

/-- A literal string: `'...'`, no escapes. -/
def literalString : Scan String := label "literal string" do
  byte 39
  let sp ← cut (skipWhile isLiteralByte)
  cut (byte 39)
  let src ← source
  pure (text src sp)

/-- One character or break of a multiline literal string. -/
def literalPiece : Scan Unit := firstOf [do let _ ← oneOf isLiteralByte; pure (), newline]

/-- The body of a multiline literal string, as written. -/
def multiLiteralBody : Scan (Nat × Nat) := recognize do
  let _ ← many literalPiece
  let _ ← many (do let _ ← quotesBefore 39 (noneOf 39); let _ ← many1 literalPiece; pure ())
  let _ ← optional (quotesBefore 39 (literal [39, 39, 39]))
  pure ()

/-- A multiline literal string: `'''...'''`, line breaks read as LF. -/
def multiLiteralString : Scan String := label "multiline literal string" do
  literal [39, 39, 39]
  let _ ← optional newline
  let sp ← cut multiLiteralBody
  cut (literal [39, 39, 39])
  let src ← source
  pure ((text src sp).replace "\r\n" "\n")

/-- Any string. -/
def string : Scan String :=
  firstOf [multiBasicString, basicString, multiLiteralString, literalString]

/-! ## Numbers -/

/-- A run of digits, or an underscore that must be followed by digits. -/
def digitGroup (p : UInt8 → Bool) : Scan Unit :=
  firstOf [do let _ ← skipWhile1 p; pure (),
    do byte 95; expecting "digit" (cut (do let _ ← skipWhile1 p; pure ()))]

/-- Digits, with single underscores between them. -/
def digitsWithSeparators (p : UInt8 → Bool) : Scan Unit := do
  let _ ← skipWhile1 p
  let _ ← many (digitGroup p)
  pure ()

/-- A sign. -/
def isSign (b : UInt8) : Bool := b == 43 || b == 45

/-- A decimal integer: a sign, then `0` or digits without a leading zero. After a
leading zero the integer ends, so the digits after it are left to the rest of the line. -/
def decimalInteger : Scan (Nat × Nat) := label "integer" (recognize do
  let _ ← optional (oneOf isSign)
  firstOf [do let _ ← oneOf (fun b => 49 ≤ b && b ≤ 57); let _ ← many (digitGroup isDigit); pure (),
    byte 48])

/-- The text of a span with its underscores removed. -/
def withoutSeparators (src : Array UInt8) (sp : Nat × Nat) : List UInt8 :=
  (src.extract sp.1 sp.2).toList.filter (· != 95)

/-- The largest 64-bit signed integer. -/
def i64Max : Nat := 9223372036854775807

/-- Digits in a radix as a 64-bit signed integer. -/
def radixValue (radix : Nat) (ds : List UInt8) : Except (Option String) Int :=
  let v := ds.foldl (fun acc b =>
    acc * radix + (if isDigit b then b.toNat - 48 else if b ≥ 97 then b.toNat - 87 else b.toNat - 55)) 0
  if v > i64Max then .error (some "number too large to fit in target type") else .ok v

/-- A signed decimal as a 64-bit signed integer. -/
def decimalValue (ds : List UInt8) : Except (Option String) Int :=
  match ds with
  | 45 :: rest =>
    let v := rest.foldl (fun acc b => acc * 10 + (b.toNat - 48)) 0
    if v > i64Max + 1 then .error (some "number too small to fit in target type") else .ok (-(v : Int))
  | 43 :: rest => radixValue 10 rest
  | _ => radixValue 10 ds

/-- An integer in radix `2`, `8`, `16` after its prefix `0b`, `0o`, `0x`. -/
def prefixedInteger (letter : UInt8) (p : UInt8 → Bool) (name : String) : Scan (Nat × Nat) :=
  label name do
    literal [48, letter]
    cut (recognize (digitsWithSeparators p))

/-- An integer. -/
def integer : Scan Int := fun src pos =>
  let prefixed (letter : UInt8) (p : UInt8 → Bool) (name : String) (radix : Nat) : Step Int :=
    cut (guard (prefixedInteger letter p name) fun sp => radixValue radix (withoutSeparators src sp))
      src pos
  match src[pos]?, src[pos + 1]? with
  | some 48, some 120 => prefixed 120 isHex "hexadecimal integer" 16
  | some 48, some 111 => prefixed 111 isOctal "octal integer" 8
  | some 48, some 98 => prefixed 98 isBinary "binary integer" 2
  | _, _ =>
    andThen decimalInteger (fun sp => fun _ p =>
      match decimalValue (withoutSeparators src sp) with
      | .ok v => .done v p
      | .error c => .stop ⟨[], c⟩ p) src pos

/-- A fraction: a point and digits. -/
def fraction : Scan Unit := do
  byte 46
  expecting "digit" (cut (digitsWithSeparators isDigit))

/-- An exponent: `e`, a sign, digits. -/
def exponent : Scan Unit := do
  let _ ← oneOf (fun b => b == 101 || b == 69)
  let _ ← optional (oneOf isSign)
  cut (digitsWithSeparators isDigit)

/-- The text of a finite float. -/
def floatBody : Scan (Nat × Nat) := recognize do
  let _ ← decimalInteger
  firstOf [exponent, do fraction; let _ ← optional exponent; pure ()]

/-- The value of a float's text (underscores removed). -/
def floatValue (ds : List UInt8) : Float :=
  let (negative, rest) := match ds with
    | 45 :: r => (true, r)
    | 43 :: r => (false, r)
    | r => (false, r)
  let intPart := rest.takeWhile isDigit
  let rest := rest.drop intPart.length
  let (fracPart, rest) := match rest with
    | 46 :: r => (r.takeWhile isDigit, r.drop (r.takeWhile isDigit).length)
    | r => ([], r)
  let exp : Int := match rest with
    | _ :: 45 :: r => -((r.foldl (fun acc b => acc * 10 + (b.toNat - 48)) 0 : Nat) : Int)
    | _ :: 43 :: r => (r.foldl (fun acc b => acc * 10 + (b.toNat - 48)) 0 : Nat)
    | _ :: r => (r.foldl (fun acc b => acc * 10 + (b.toNat - 48)) 0 : Nat)
    | [] => 0
  let digits := (intPart ++ fracPart).foldl (fun acc b => acc * 10 + (b.toNat - 48)) 0
  let scale := exp - fracPart.length
  -- Far outside the range of doubles the value is infinite or zero whatever its digits.
  if digits == 0 || scale + ((toString digits).length : Int) < -400 then
    (if negative then -0.0 else 0.0)
  else if scale > 400 then (if negative then -((1 : Float) / 0) else (1 : Float) / 0)
  else Decimal.ofDecimal negative digits scale

/-- `inf` or `nan`, with an optional sign. -/
def specialFloat : Scan Float := do
  let sign ← optional (oneOf isSign)
  let f ← firstOf [do literal [105, 110, 102]; pure ((1 : Float) / 0),
    do literal [110, 97, 110]; pure ((0 : Float) / 0)]
  pure (if sign == some 45 then -f else f)

/-- A float. Positive overflow is refused; negative overflow reads as minus infinity. -/
def float : Scan Float := label "floating-point number" (firstOf [
  andThen floatBody (fun sp => fun src p =>
    let f := floatValue (withoutSeparators src sp)
    if f.isInf && f > 0 then .stop .blank p else .done f p),
  specialFloat])

/-! ## Dates and times -/

/-- Exactly `n` digits, as a number. -/
def fixedDigits (n : Nat) : Scan Nat := fun src pos =>
  match takeWhile n n isDigit src pos with
  | .done sp q =>
    .done ((src.extract sp.1 sp.2).toList.foldl (fun acc b => acc * 10 + (b.toNat - 48)) 0) q
  | .miss e q => .miss e q
  | .stop e q => .stop e q

/-- Exactly `n` digits, as a number in `lo ..= hi`. -/
def rangedDigits (n lo hi : Nat) : Scan Nat :=
  guard (fixedDigits n) fun d =>
    if lo ≤ d && d ≤ hi then .ok d else .error (some TreeError.outOfRange.message)

/-- A date `YYYY-MM-DD`, the day checked against its month. -/
def fullDate : Scan Unit := do
  let year ← fixedDigits 4
  byte 45
  let month ← cut (rangedDigits 2 1 12)
  cut (byte 45)
  let dayStart ← position
  let day ← cut (rangedDigits 2 1 31)
  let leap := year % 4 == 0 && (year % 100 != 0 || year % 400 == 0)
  let longest := if month == 2 then (if leap then 29 else 28)
    else if month == 4 || month == 6 || month == 9 || month == 11 then 30 else 31
  if longest < day then fun _ _ => .stop (.because TreeError.outOfRange.message) dayStart
  else pure ()

/-- A time `HH:MM:SS` with an optional fraction of a second. -/
def partialTime : Scan Unit := do
  let _ ← rangedDigits 2 0 23
  byte 58
  cut (do
    let _ ← rangedDigits 2 0 59
    byte 58
    let _ ← rangedDigits 2 0 60
    let _ ← optional (do byte 46; let _ ← skipWhile1 isDigit; pure ())
    pure ())

/-- A time offset: `Z` or `±HH:MM`. -/
def timeOffset : Scan Unit := label "time offset" (firstOf [
  do let _ ← oneOf (fun b => b == 90 || b == 122); pure (),
  do
    let _ ← oneOf isSign
    cut (do let _ ← rangedDigits 2 0 23; byte 58; let _ ← rangedDigits 2 0 59; pure ())])

/-- A date, a date and time (with an offset or not), or a time. -/
def dateTime : Scan Unit := firstOf [
  label "date-time" (do
    fullDate
    let _ ← optional (do
      let _ ← oneOf (fun b => b == 84 || b == 116 || b == 32)
      partialTime
      let _ ← optional timeOffset
      pure ())
    pure ()),
  label "time" partialTime]

/-! ## Keys -/

/-- One key: quoted (basic or literal) or bare. -/
def simpleKey : Scan Key := fun src pos =>
  let keyOf (p : Scan String) : Step Key :=
    match spanned p src pos with
    | .done (name, a, b) q => .done ⟨name, text src (a, b), ⟨a, b⟩⟩ q
    | .miss e q => .miss e q
    | .stop e q => .stop e q
  match src[pos]? with
  | some 34 => keyOf basicString
  | some 39 => keyOf literalString
  | some _ => keyOf (do let sp ← skipWhile1 isBareKeyByte; pure (text src sp))
  | none => .miss .blank pos

/-- A key with the blanks around it. -/
def keyPart : Scan Key := do
  let _ ← blanks
  let k ← simpleKey
  let _ ← blanks
  pure k

/-- The deepest a key path or a nesting of values may go. -/
def depthLimit : Nat := 80

/-- A dotted key: one or more keys joined by dots. -/
def key : Scan (List Key) :=
  guard (label "key" (sepBy1 keyPart (byte 46))) fun ks =>
    if ks.length < depthLimit then .ok ks else .error (some TreeError.tooDeep.message)

/-! ## Inline tables -/

/-- Walk a dotted path inside an inline table, creating the tables on the way, and
change the table reached with `f`. -/
def inlineDescend (dotted : Bool) (full : List Key) (f : TableData → Except TreeError TableData) :
    Nat → TableData → List Key → Except TreeError TableData
  | _, t, [] => f t
  | i, t, k :: rest =>
    let deeper (child : TableData) : Except TreeError TableData := do
      let child ← inlineDescend dotted full f (i + 1) child rest
      pure (t.put k child.toNode)
    match t.find? k.name with
    | none => deeper (TableData.empty ⟨true, dotted, dotted⟩)
    | some (.table es sp fl) =>
      if dotted && !fl.implicit then .error (.duplicateKey k.name none)
      else deeper ⟨es, sp, fl⟩
    | some n => .error (.extendsValue ((full.take (i + 1)).map (·.name)) n.typeName)

/-- The entries of an inline table from its key-value pairs. -/
def tableOfPairs (pairs : List (List Key × Key × Node)) : Except (Option String) (List (Key × Node)) :=
  let step (acc : Except TreeError TableData) (p : List Key × Key × Node) : Except TreeError TableData := do
    let t ← acc
    let (path, k, v) := p
    inlineDescend (!path.isEmpty) path (fun tbl =>
      if tbl.flags.dotted == path.isEmpty then .error (.duplicateKey k.name none)
      else if (tbl.find? k.name).isSome then .error (.duplicateKey k.name none)
      else .ok (tbl.put k v)) 0 t path
  match pairs.foldl step (.ok (TableData.empty ⟨true, false, false⟩)) with
  | .ok t => .ok t.entries
  | .error e => .error (some e.message)

/-- A key, `=` and a value read by `value`, inside an inline table. -/
def inlinePair (value : Scan Node) : Scan (List Key × Key × Node) := do
  let ks ← key
  cut (do
    expecting (quoteChar '=') (expecting (quoteChar '.') (byte 61))
    let _ ← blanks
    let v ← value
    let _ ← blanks
    match ks.reverse with
    | k :: path => pure (path.reverse, k, v)
    | [] => fail)

/-- An inline table whose values are read by `value`. -/
def inlineTable (value : Scan Node) : Scan Node := do
  let start ← position
  byte 123
  let entries ← cut (guard (do
    let pairs ← sepBy (inlinePair value) (byte 44)
    let _ ← blanks
    pure pairs) tableOfPairs)
  expecting (quoteChar '}') (label "inline table" (cut (byte 125)))
  let stop ← position
  pure (.table entries (some ⟨start, stop⟩) ⟨true, false, false⟩)

/-- An array whose items are read by `value`. -/
def array (value : Scan Node) : Scan Node := do
  let start ← position
  byte 91
  let items ← cut (fun src pos =>
    if src[pos]? == some 93 then .done [] pos
    else (do
      let items ← sepBy (do filler; let v ← value; filler; pure v) (byte 44)
      if !items.isEmpty then
        let _ ← optional (byte 44)
      filler
      pure items) src pos)
  expecting (quoteChar ']') (label "array" (cut (byte 93)))
  let stop ← position
  pure (.array items ⟨start, stop⟩)

/-! ## Values -/

/-- A scalar and its span. -/
def scalar (p : Scan Scalar) : Scan Node := do
  let (s, a, b) ← spanned p
  pure (.scalar s ⟨a, b⟩)

/-- The failure contexts of a value that should have been a string. -/
def likeString {α : Type} (p : Scan α) : Scan α :=
  expecting (quoteChar '\'') (expecting (quoteChar '"') (label "string" p))

/-- A value whose nested values are read by `inner`; `none` when no more containers
may be entered. -/
def valueWith (inner : Option (Scan Node)) : Scan Node := fun src pos =>
  let nested (p : Scan Node → Scan Node) : Step Node :=
    match inner with
    | none => .stop (.because TreeError.tooDeep.message) pos
    | some v => p v src pos
  match src[pos]? with
  | none => .miss .blank pos
  | some b =>
    if b == 34 || b == 39 then scalar (Scalar.string <$> string) src pos
    else if b == 91 then nested array
    else if b == 123 then nested inlineTable
    else if isSign b || isDigit b then
      scalar (firstOf [
        do let sp ← recognize dateTime; pure (Scalar.datetime (text src sp)),
        Scalar.float <$> float,
        Scalar.integer <$> integer]) src pos
    else if b == 95 then scalar (expecting "leading digit" (Scalar.integer <$> integer)) src pos
    else if b == 46 then scalar (expecting "leading digit" (Scalar.float <$> float)) src pos
    else if b == 116 then
      scalar (likeString (do
        let _ ← lookahead (byte 116)
        cut (literal [116, 114, 117, 101])
        pure (Scalar.boolean true))) src pos
    else if b == 102 then
      scalar (likeString (do
        let _ ← lookahead (byte 102)
        cut (literal [102, 97, 108, 115, 101])
        pure (Scalar.boolean false))) src pos
    else if b == 105 then
      scalar (likeString (do literal [105, 110, 102]; pure (Scalar.float ((1 : Float) / 0)))) src pos
    else if b == 110 then
      scalar (likeString (do literal [110, 97, 110]; pure (Scalar.float ((0 : Float) / 0)))) src pos
    else likeString fail src pos

/-- A value; `room` is how many more containers may be entered. -/
def value : Nat → Scan Node
  | 0 => valueWith none
  | r + 1 => valueWith (some (value r))

end Grammar

end TokenGate.Toml
